import JumpIR.Proofs.Lowering.Variants

/-!
# Guarded projections

A test of a value for a variant holds if the value is *not* that variant, so that a jump on it skips
the code that projects from the variant. In one state the test and the projection never disagree:
either the test fails and the projection has the payload, or the test holds and the projection is a
fault. Main statement: `compile_guardsProjections`.
-/

set_option autoImplicit false

namespace JumpIR

/-! ### Values of a union -/

namespace Program

variable {p : Program} {id : UnionId}

theorem heldVariant_of_same (p : Program) (id : UnionId) (held : Nat) (payload : Value) :
    p.heldVariant id (.union id held payload) = .ok (held, payload) :=
  if_pos rfl

theorem heldVariant_of_other {other : UnionId} (apart : other ≠ id) (held : Nat)
    (payload : Value) :
    p.heldVariant id (.union other held payload) =
      .error (.typeMismatch (.otherUnion (p.unionName id) (p.unionName other))) :=
  if_neg apart

theorem heldVariant_of_shape {value : Value} (shape : value.shape ≠ .union) :
    p.heldVariant id value = .error (.typeMismatch (.expected .union value.shape)) := by
  cases value with
  | union _ _ _ => exact absurd rfl shape
  | _ => rfl

end Program

namespace Operand

variable {p : Program} {f : Frame} {m : Machine} {o : Operand} {id : UnionId} {tag : Nat}
  {value : Value}

/-- The test is decided by the tag that the value has, if it has one. -/
theorem evaluate_not_isVariant (evaluated : o.evaluate p f m = .ok value) :
    (prim .not [.isVariant o id tag]).evaluate p f m =
      (p.heldVariant id value).map fun held => .bool !(held.1 == tag) := by
  rw [evaluate, outcomes, outcomes, evaluate, bind_of_ok evaluated]
  cases p.heldVariant id value <;> rfl

theorem evaluate_asVariant (evaluated : o.evaluate p f m = .ok value) :
    (asVariant o id tag).evaluate p f m = p.payloadOf id tag value := by
  rw [evaluate, bind_of_ok evaluated]

/-- A fault of the value is one of both. -/
theorem evaluate_variant_of_error {fault : RunFault} (failed : o.evaluate p f m = .error fault) :
    (prim .not [.isVariant o id tag]).evaluate p f m = .error fault ∧
      (asVariant o id tag).evaluate p f m = .error fault := by
  constructor
  · rw [evaluate, outcomes, outcomes, evaluate, failed]
    rfl
  · rw [evaluate, failed]
    rfl

end Operand

/-- What a message calls the variant with that tag. -/
def Tree.UnionDecl.label (u : Tree.UnionDecl) (tag : Nat) : String :=
  match u.variants[tag]? with
  | some v => v.name.name
  | none => s!"#{tag}"

namespace Lowering

/-- The test of a value for variant `v`, which is number `i` of its union, and the projection from
it, both evaluated in one state. -/
structure Protects (p : Program) (u : Tree.UnionDecl) (id : UnionId) (i : Nat)
    (v : Tree.UnionVariant) (value guard projection : Operand) (f : Frame) (m : Machine) :
    Prop where
  exclusive : ∀ held payload, value.evaluate p f m = .ok (.union id held payload) →
    Xor (guard.evaluate p f m = .ok (.bool false) ∧ projection.evaluate p f m = .ok payload)
      (guard.evaluate p f m = .ok (.bool true) ∧
        projection.evaluate p f m = .error (.variantMismatch v.name.name (u.label held)))
  decides : ∀ held payload, value.evaluate p f m = .ok (.union id held payload) →
    (guard.evaluate p f m = .ok (.bool false) ↔ held = i)
  /-- A jump on the test falls through if the value is that variant. -/
  jumps : ∀ held payload, value.evaluate p f m = .ok (.union id held payload) →
    ∀ (l : Linked) (e : Execution) (thenBlock elseBlock : BlockId), l.program = p →
      e.current.frame = f → e.machine = m →
      l.stepTerminator e (.branch guard thenBlock elseBlock) =
        Linked.goTo e (if held = i then elseBlock else thenBlock)
  otherUnion : ∀ other held payload, value.evaluate p f m = .ok (.union other held payload) →
    other ≠ id →
    guard.evaluate p f m =
        .error (.typeMismatch (.otherUnion u.name.name (p.unionName other))) ∧
      projection.evaluate p f m =
        .error (.typeMismatch (.otherUnion u.name.name (p.unionName other)))
  noUnion : ∀ found, value.evaluate p f m = .ok found → found.shape ≠ .union →
    guard.evaluate p f m = .error (.typeMismatch (.expected .union found.shape)) ∧
      projection.evaluate p f m = .error (.typeMismatch (.expected .union found.shape))
  fault : ∀ fault, value.evaluate p f m = .error fault →
    guard.evaluate p f m = .error fault ∧ projection.evaluate p f m = .error fault

/-- Wherever a body tests an expression for a variant of the union, or projects from that variant,
the test protects the projection; and each value of the union is one of its variants. -/
structure Globals.GuardsUnion (g : Globals) (p : Program) (u : Tree.UnionDecl) (id : UnionId) :
    Prop where
  name : p.unionName id = u.name.name
  protects : ∀ (s : Scope) (e : Tree.Expr) (value : Operand), s.globals = g →
    s.operand e = .ok value → ∀ i v, u.variants[i]? = some v →
    ∀ (use : Tree.Ident) (span span' : Span), use.name = v.name.name →
    ∃ guard projection, s.operand (.isNot e use span) = .ok guard ∧
      s.operand (.project e use span') = .ok projection ∧
      ∀ f m, Protects p u id i v value guard projection f m
  isOne : ∀ (s : Scope) (e : Tree.Expr) (value : Operand), s.globals = g →
    s.operand e = .ok value → ∀ f m held payload,
    value.evaluate p f m = .ok (.union id held payload) → held < u.variants.length →
    ∃! v, v ∈ u.variants ∧ ∃ (use : Tree.Ident) (span : Span) (guard : Operand),
      use.name = v.name.name ∧ s.operand (.isNot e use span) = .ok guard ∧
      guard.evaluate p f m = .ok (.bool false)

namespace Globals.NumbersUnion

variable {g : Globals} {p : Program} {u : Tree.UnionDecl} {id : UnionId} {d : UnionDef}

theorem unionName (numbers : g.NumbersUnion p u id d) : p.unionName id = u.name.name := by
  rw [Program.unionName, numbers.listed]
  exact numbers.name

theorem variantLabel (numbers : g.NumbersUnion p u id d) (tag : Nat) :
    p.variantLabel id tag = u.label tag := by
  unfold Program.variantLabel Program.variantName? Tree.UnionDecl.label
  rw [numbers.listed]
  cases here : u.variants[tag]? with
  | none =>
      have beyond := numbers.beyond tag (List.getElem?_eq_none_iff.mp here)
      simp [beyond]
  | some v =>
      obtain ⟨payload, _type, variant⟩ := numbers.variant tag v here
      simp [variant]

theorem protects (numbers : g.NumbersUnion p u id d) {i : Nat} {v : Tree.UnionVariant}
    (here : u.variants[i]? = some v) (value : Operand) (f : Frame) (m : Machine) :
    Protects p u id i v value (.prim .not [.isVariant value id i]) (.asVariant value id i) f m := by
  have label : p.variantLabel id i = v.name.name := by
    rw [numbers.variantLabel, Tree.UnionDecl.label, here]
  have tested : ∀ held payload, value.evaluate p f m = .ok (.union id held payload) →
      (Operand.prim .not [.isVariant value id i]).evaluate p f m = .ok (.bool !(held == i)) := by
    intro held payload evaluated
    rw [Operand.evaluate_not_isVariant evaluated, p.heldVariant_of_same]
    rfl
  have projected : ∀ held payload, value.evaluate p f m = .ok (.union id held payload) →
      (Operand.asVariant value id i).evaluate p f m =
        if held = i then .ok payload
        else .error (.variantMismatch v.name.name (u.label held)) := by
    intro held payload evaluated
    rw [Operand.evaluate_asVariant evaluated, Program.payloadOf, p.heldVariant_of_same, ← label,
      ← numbers.variantLabel held]
    rfl
  refine ⟨?_, ?_, ?_, ?_, ?_, fun fault failed => Operand.evaluate_variant_of_error failed⟩
  · intro held payload evaluated
    rw [tested held payload evaluated, projected held payload evaluated]
    by_cases same : held = i
    · exact Or.inl ⟨by simp [same], by simp [same]⟩
    · exact Or.inr ⟨by simp [same], by simp [same]⟩
  · intro held payload evaluated
    rw [tested held payload evaluated]
    simp
  · rintro held payload evaluated l e thenBlock elseBlock rfl rfl rfl
    rw [Linked.stepTerminator, tested held payload evaluated]
    by_cases same : held = i <;> simp [same, bind, Except.bind, Value.asBool]
  · intro other held payload evaluated apart
    rw [Operand.evaluate_not_isVariant evaluated, Operand.evaluate_asVariant evaluated,
      Program.payloadOf, Program.heldVariant_of_other apart, numbers.unionName]
    exact ⟨rfl, rfl⟩
  · intro found evaluated shape
    rw [Operand.evaluate_not_isVariant evaluated, Operand.evaluate_asVariant evaluated,
      Program.payloadOf, Program.heldVariant_of_shape shape]
    exact ⟨rfl, rfl⟩

theorem guardsUnion (numbers : g.NumbersUnion p u id d) : g.GuardsUnion p u id where
  name := numbers.unionName
  protects := by
    intro s e value inGlobals lowered i v here use span span' named
    refine ⟨.prim .not [.isVariant value id i], .asVariant value id i, ?_, ?_,
      numbers.protects here value⟩
    · rw [numbers.test i v here s e use span inGlobals named, lowered]
      rfl
    · rw [numbers.projection i v here s e use span' inGlobals named, lowered]
      rfl
  isOne := by
    intro s e value inGlobals lowered f m held payload evaluated declared
    have guarded : ∀ i v, u.variants[i]? = some v → ∀ (use : Tree.Ident) (span : Span),
        use.name = v.name.name →
        s.operand (.isNot e use span) = .ok (.prim .not [.isVariant value id i]) := by
      intro i v here use span named
      rw [numbers.test i v here s e use span inGlobals named, lowered]
      rfl
    have decides : ∀ i v, u.variants[i]? = some v →
        ((Operand.prim .not [.isVariant value id i]).evaluate p f m = .ok (.bool false) ↔
          held = i) := by
      intro i v here
      exact (numbers.protects here value f m).decides held payload evaluated
    have here : u.variants[held]? = some u.variants[held] := List.getElem?_eq_getElem declared
    refine ⟨u.variants[held], ⟨List.getElem_mem declared, u.variants[held].name, e.span, _, rfl,
      guarded held _ here _ _ rfl, (decides held _ here).mpr rfl⟩, ?_⟩
    rintro w ⟨member, use, span, guard, named, test, fails⟩
    obtain ⟨i, there⟩ := List.getElem?_of_mem member
    rw [guarded i w there use span named] at test
    cases test
    obtain rfl := (decides i w there).mp fails
    exact Option.some.inj (there.symm.trans here)

end Globals.NumbersUnion

end Lowering

/-- In a text that compiles, for every union that it declares, every expression of a body, and every
state: a test for a variant and the projection from it agree. -/
theorem compile_guardsProjections {source : SourceText} {options : Lowering.Options}
    {program : Program} (compiled : source.compile options = .ok program) :
    ∃ linked globals types, source.linked = .ok linked ∧
      Lowering.declareGlobals linked.tree linked.symbols options = .ok (globals, types) ∧
      List.Forall₂ (fun f d => ∃ before after,
          Lowering.lowerBody ⟨globals, f, d.locals⟩ before = .ok (d.blocks, after))
        linked.tree.functions program.functions ∧
      ∀ u, .union u ∈ linked.tree.decls → ∃ id, globals.GuardsUnion program u id := by
  obtain ⟨c, linked, rfl, rfl⟩ := Lowering.exists_compilation compiled
  refine ⟨c.linked, c.globals, c.types, linked, c.declared, c.bodies, fun u declared => ?_⟩
  obtain ⟨id, d, numbers⟩ := (c.describes linked).numbersUnion declared
  exact ⟨id, numbers.guardsUnion⟩

theorem compile_guardsProjections_shapeText :
    ∃ program linked, ∃ globals : Lowering.Globals, shapeText.compile .default = .ok program ∧
      shapeText.linked = .ok linked ∧
      ∀ u, .union u ∈ linked.tree.decls → ∃ id, globals.GuardsUnion program u id := by
  obtain ⟨program, compiled⟩ := exists_compile_shapeText
  obtain ⟨linked, globals, _types, read, _declared, _bodies, unions⟩ :=
    compile_guardsProjections compiled
  exact ⟨program, linked, globals, compiled, read, unions⟩

end JumpIR
