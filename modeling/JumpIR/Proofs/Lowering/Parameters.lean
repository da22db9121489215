import JumpIR.Machine.Simulator
import JumpIR.Proofs.Lowering.Closed

/-!
# Parameters

The parameters of a function are given the numbers of the first locals. They are these locals
exactly if no two of them have one name: a name that comes again brings no local of its own, and
then an argument is stored in a local that is declared later, or in none.
Main statement: `firstLocals_iff_nodup`.
-/

set_option autoImplicit false

namespace JumpIR

/-! ### Locals of parameters -/

namespace Lowering

variable {function : String}

theorem declareLocal_fresh {locals more : List LocalDef} {name : Tree.Ident} {type : Ty}
    (done : declareLocal function locals name type = .ok more)
    (fresh : name.name ∉ locals.map (·.name)) : more = locals ++ [⟨name.name, type⟩] := by
  unfold declareLocal at done
  split at done
  · cases done
    rfl
  · rename_i found known
    have named : found.name = name.name := by
      have holds := List.find?_some known
      exact eq_of_beq holds
    exact absurd (List.mem_map.mpr ⟨found, List.mem_of_find?_eq_some known, named⟩) fresh

/-- Parameters with distinct names bring one local each. -/
theorem declareParams_distinct {names : List Tree.Ident} :
    ∀ {types : List Ty} {locals more : List LocalDef},
      declareParams function names types locals = .ok more → types.length = names.length →
      (locals.map (·.name) ++ names.map (·.name)).Nodup →
      more = locals ++ List.zipWith (fun name type => ⟨name.name, type⟩) names types := by
  induction names with
  | nil =>
      intro types locals more done _length _distinct
      cases done
      rw [List.zipWith_nil_left, List.append_nil]
  | cons name rest ih =>
      intro types locals more done length distinct
      cases types with
      | nil => cases length
      | cons type others =>
          obtain ⟨middle, declared, done⟩ := bind_ok done
          have fresh : name.name ∉ locals.map (·.name) := by
            intro member
            exact (List.nodup_append.mp distinct).2.2 _ member _ List.mem_cons_self rfl
          have grown := declareLocal_fresh declared fresh
          subst grown
          have rest' := ih done (Nat.succ.inj length) (by simpa using distinct)
          rw [rest', List.zipWith_cons_cons, List.append_assoc]
          rfl

end Lowering

/-! ### Binding arguments -/

/-- Arguments of the numbers from `before.length` on are stored in the locals behind `before`. -/
theorem Linked.bindParams_range (args : List Value) :
    ∀ (before rest : List Value), args.length ≤ rest.length →
      bindParams ((List.range' before.length args.length).map LocalId.mk) args (before ++ rest) =
        .ok (before ++ args ++ rest.drop args.length) := by
  induction args with
  | nil =>
      intro before rest _enough
      rw [List.append_nil]
      rfl
  | cons arg args ih =>
      intro before rest enough
      cases rest with
      | nil => cases enough
      | cons old rest =>
          rw [List.length_cons, List.range'_succ, List.map_cons, bindParams,
            if_pos (by simp)]
          have stored : (before ++ old :: rest).set before.length arg =
              (before ++ [arg]) ++ rest := by simp
          have others := ih (before ++ [arg]) rest (Nat.le_of_succ_le_succ enough)
          rw [List.length_append, List.length_singleton] at others
          rw [stored, others, List.append_assoc before]
          rfl

theorem Program.length_defaultValues {p : Program} {types : List Ty} :
    ∀ {values : List Value}, p.defaultValues types = .ok values → values.length = types.length := by
  induction types with
  | nil =>
      intro values done
      cases done
      rfl
  | cons type rest ih =>
      intro values done
      obtain ⟨first, _default, done⟩ := bind_ok done
      obtain ⟨others, later, done⟩ := bind_ok done
      cases done
      rw [List.length_cons, List.length_cons, ih later]

/-! ### First locals -/

open Lowering in
/-- The parameters of a function are its first locals, in order. -/
structure FirstLocals (m : Tree.Module) (p : Program) (f : Tree.FunctionDecl) (d : FunctionDef) :
    Prop where
  inRange : ∀ id ∈ d.params, id.index < d.locals.length
  /-- They have the names of the text and the types of the signature. -/
  typed : ∃ v types result span, .value v ∈ m.decls ∧ v.name.name = f.name.name ∧
    v.type = .function types result span ∧ types.length = f.params.length ∧
    ∀ (index : Nat) (name : Tree.Ident), f.params[index]? = some name →
      ∃ l type, d.locals[index]? = some l ∧ l.name = name.name ∧ types[index]? = some type ∧
        type.Denotes p l.type
  /-- The body reads them by their names. -/
  read : ∃ globals before after,
    lowerBody ⟨globals, f, d.locals⟩ before = .ok (d.blocks, after) ∧
    ∀ (index : Nat) (name : Tree.Ident), f.params[index]? = some name →
      (⟨globals, f, d.locals⟩ : Scope).nameOperand name = .ok (.localVar ⟨index⟩)
  /-- A call stores its arguments in them, and leaves all other locals at their defaults. -/
  entered : ∀ (l : Linked) (depth : Nat) (id : FuncId) (args : List Value), l.program = p →
    p.function? id = some d → args.length = f.params.length → depth < l.maxCallDepth →
    l.enter depth id args = (do
      let locals ← p.defaultValues (d.locals.map (·.type))
      let result ← p.defaultValue d.result
      .ok ⟨d, ⟨args ++ locals.drop f.params.length, result⟩, d.entry, 0⟩)

theorem frame_firstLocals {l : Linked} {d : FunctionDef} {args : List Value}
    (params : d.params = (List.range args.length).map LocalId.mk)
    (enough : args.length ≤ d.locals.length) :
    l.frame d args = (do
      let locals ← l.program.defaultValues (d.locals.map (·.type))
      let result ← l.program.defaultValue d.result
      .ok ⟨args ++ locals.drop args.length, result⟩) := by
  unfold Linked.frame
  cases defaults : l.program.defaultValues (d.locals.map (·.type)) with
  | error fault => rfl
  | ok locals =>
      have length := Program.length_defaultValues defaults
      rw [List.length_map] at length
      have bound := Linked.bindParams_range args [] locals (by omega)
      rw [List.length_nil, ← List.range_eq_range', ← params] at bound
      cases l.program.defaultValue d.result with
      | error fault => rfl
      | ok result =>
          change (Linked.bindParams d.params args ([] ++ locals) >>= _) = _
          rw [bound]
          rfl

namespace Lowering.Compilation

variable {c : Compilation} {f : Reference.Function} {d : FunctionDef}

theorem firstLocals_of_nodup (describes : c.globals.Describes c.linked.tree c.program)
    (member : f ∈ c.functions) (compiles : Compiles c.program.supports f d)
    (distinct : (f.scope.decl.params.map (·.name)).Nodup) :
    FirstLocals c.linked.tree c.program f.scope.decl d := by
  obtain ⟨types, params, signed, paramsDone, localsDone⟩ := declared_of_compiles member compiles
  obtain ⟨v, paramTypes, result, span, inModule, named, isFunction, arity, _denotes, denote⟩ :=
    signature_of_compiles describes signed
  have length : types.length = f.scope.decl.params.length :=
    denote.related.length_eq.symm.trans arity
  have listed := declareParams_distinct paramsDone length (by simpa using distinct)
  obtain ⟨others, whole⟩ := (declareLocals_ok localsDone).1
  rw [List.nil_append] at listed
  have here : ∀ (index : Nat) (name : Tree.Ident), f.scope.decl.params[index]? = some name →
      ∃ type, types[index]? = some type ∧ d.locals[index]? = some ⟨name.name, type⟩ := by
    intro index name found
    have bound := (List.getElem?_eq_some_iff.mp found).1
    have inTypes : index < types.length := length ▸ bound
    refine ⟨types[index], List.getElem?_eq_getElem inTypes, ?_⟩
    rw [← whole, listed, List.getElem?_append_left (by simp; omega), List.getElem?_zipWith, found,
      List.getElem?_eq_getElem inTypes]
  have enough : f.scope.decl.params.length ≤ d.locals.length := by
    rw [← whole, listed, List.length_append, List.length_zipWith, length]
    omega
  refine ⟨?_, ⟨v, paramTypes, result, span, inModule, named, isFunction, arity, ?_⟩, ?_, ?_⟩
  · intro id inParams
    rw [compiles.params] at inParams
    obtain ⟨index, inRange, rfl⟩ := List.mem_map.mp inParams
    exact Nat.lt_of_lt_of_le (List.mem_range.mp inRange) enough
  · intro index name found
    obtain ⟨type, typed, there⟩ := here index name found
    obtain ⟨paramType, inSignature, denotes⟩ := exists_source_at denote.related.flip typed
    exact ⟨_, paramType, there, rfl, inSignature, denotes⟩
  · obtain ⟨before, after, body⟩ := compiles.body
    refine ⟨f.scope.globals, before, after, ?_, ?_⟩
    · rw [compiles.locals]
      exact body
    · intro index name found
      obtain ⟨type, _typed, there⟩ := here index name found
      have first : d.locals.findIdx? (fun l => l.name == name.name) = some index := by
        obtain ⟨bound, same⟩ := List.getElem?_eq_some_iff.mp there
        rw [List.findIdx?_eq_some_iff_getElem]
        refine ⟨bound, by simp [same], ?_⟩
        intro other earlier equal
        have inside : other < f.scope.decl.params.length :=
          Nat.lt_trans earlier (List.getElem?_eq_some_iff.mp found).1
        obtain ⟨_type, _typed, atOther⟩ := here other _ (List.getElem?_eq_getElem inside)
        rw [(List.getElem?_eq_some_iff.mp atOther).2] at equal
        have apart := List.pairwise_iff_getElem.mp distinct other index (by simpa using inside)
          (by simpa using (List.getElem?_eq_some_iff.mp found).1) earlier
        rw [List.getElem_map, List.getElem_map, (List.getElem?_eq_some_iff.mp found).2] at apart
        exact apart (eq_of_beq equal)
      unfold Scope.nameOperand Scope.local?
      dsimp only
      rw [first]
      rfl
  · intro l depth id args program found arity' shallow
    have params : d.params = (List.range args.length).map LocalId.mk := by
      rw [compiles.params, arity']
    have arguments : args.length = d.params.length := by
      rw [params, List.length_map, List.length_range]
    have frame := frame_firstLocals (l := l) params (arity' ▸ enough)
    unfold Linked.enter
    rw [program, found]
    dsimp only
    rw [if_neg (not_not_intro arguments), if_neg (Nat.not_le.mpr shallow), frame, program, arity']
    cases c.program.defaultValues (d.locals.map (·.type)) with
    | error fault => rfl
    | ok locals => cases c.program.defaultValue d.result <;> rfl

theorem local?_of_nameOperand {s : Scope} {name : Tree.Ident} {id : LocalId}
    (lowered : s.nameOperand name = .ok (.localVar id)) : s.local? name.name = some id := by
  unfold Scope.nameOperand at lowered
  split at lowered
  · rename_i found
    cases lowered
    exact found
  · split at lowered
    · cases lowered
    · split at lowered
      · cases lowered
      · cases lowered

/-- Two parameters of one name cannot both be read by it. -/
theorem nodup_of_firstLocals {m : Tree.Module} {p : Program} {decl : Tree.FunctionDecl}
    (first : FirstLocals m p decl d) : (decl.params.map (·.name)).Nodup := by
  obtain ⟨globals, _before, _after, _body, read⟩ := first.read
  rw [List.Nodup, List.pairwise_iff_getElem]
  intro i j inside inside' earlier same
  rw [List.length_map] at inside inside'
  rw [List.getElem_map, List.getElem_map] at same
  have atI := local?_of_nameOperand (read i _ (List.getElem?_eq_getElem inside))
  have atJ := local?_of_nameOperand (read j _ (List.getElem?_eq_getElem inside'))
  rw [same] at atI
  cases atI.symm.trans atJ
  exact Nat.lt_irrefl _ earlier

end Lowering.Compilation

/-- The parameters of a function of a text that compiles have the first numbers, and they are its
first locals exactly if their names are distinct. -/
theorem firstLocals_iff_nodup {source : SourceText} {options : Lowering.Options}
    {program : Program} (compiled : source.compile options = .ok program) :
    ∃ linked, source.linked = .ok linked ∧
      List.Forall₂ (fun (f : Tree.FunctionDecl) (d : FunctionDef) =>
        d.params = (List.range f.params.length).map LocalId.mk ∧
          (FirstLocals linked.tree program f d ↔ (f.params.map (·.name)).Nodup))
        linked.tree.functions program.functions := by
  obtain ⟨c, linked, rfl, rfl⟩ := Lowering.exists_compilation compiled
  refine ⟨c.linked, linked, ?_⟩
  rw [← c.decls, List.forall₂_map_left_iff]
  refine related_imp c.compiles ?_
  intro f member d compiles
  exact ⟨compiles.params, Lowering.Compilation.nodup_of_firstLocals,
    Lowering.Compilation.firstLocals_of_nodup (c.describes linked) member compiles⟩

/-! ### Parameters of one name -/

/-- The text of a function with one name for two parameters, and of one with a name for each. -/
def sharedText : SourceText := .ofString "shared" (String.join [
  "val zf : (%bool, %bool) -> %bool\n",
  "fn zf(za, za) \x7b goto 2; zb : %bool; return = zb; end; \x7d\n",
  "val zg : (%bool, %i) -> %i\n",
  "fn zg(za, zb) \x7b return = zb; end; \x7d\n"])

/-- Whether the first function of a text has one name for two parameters, and a call of it gives
the second argument. -/
def readsSecond (source : SourceText) : Bool :=
  match source.linked, source.simulator? with
  | .ok linked, some (_, s) =>
      (linked.tree.functions.map fun f => f.params.map (·.name)) == [["za", "za"], ["za", "zb"]] &&
        match Simulator.call s 10 "zf" [.bool false, .bool true] with
        | some (.ok (.bool true), _) => true
        | _ => false
  | _, _ => false

theorem readsSecond_sharedText : ∃ program s linked after,
    sharedText.compile .default = .ok program ∧ Simulator.create program .default = .ok s ∧
    sharedText.linked = .ok linked ∧
    (linked.tree.functions.map fun f => f.params.map (·.name)) = [["za", "za"], ["za", "zb"]] ∧
    Simulator.call s 10 "zf" [.bool false, .bool true] = some (.ok (.bool true), after) := by
  have reads : readsSecond sharedText = true := by
    decide +kernel
  unfold readsSecond at reads
  split at reads
  · rename_i linked program s isLinked simulated
    obtain ⟨compiled, created⟩ := SourceText.compile_of_simulator? simulated
    rw [Bool.and_eq_true] at reads
    obtain ⟨names, returns⟩ := reads
    split at returns
    · rename_i after returned
      exact ⟨program, s, linked, after, compiled, created, isLinked, eq_of_beq names, returned⟩
    · cases returns
  · cases reads

/-- The local that is declared behind two parameters of one name starts with the second argument,
and not with its default: parameters need not be the first locals. -/
theorem exists_shared_parameter : ∃ program s linked after,
    sharedText.compile .default = .ok program ∧ Simulator.create program .default = .ok s ∧
    sharedText.linked = .ok linked ∧
    ¬ List.Forall₂ (FirstLocals linked.tree program) linked.tree.functions program.functions ∧
    Simulator.call s 10 "zf" [.bool false, .bool true] = some (.ok (.bool true), after) := by
  obtain ⟨program, s, linked, after, compiled, created, isLinked, names, returned⟩ :=
    readsSecond_sharedText
  refine ⟨program, s, linked, after, compiled, created, isLinked, ?_, returned⟩
  intro first
  have distinct : ∀ list ∈ linked.tree.functions.map fun f => f.params.map (·.name),
      list.Nodup := by
    intro list member
    obtain ⟨f, inModule, rfl⟩ := List.mem_map.mp member
    obtain ⟨d, _inProgram, firstLocals⟩ := exists_source first.flip inModule
    exact Lowering.Compilation.nodup_of_firstLocals firstLocals
  rw [names] at distinct
  have twice := distinct ["za", "za"] List.mem_cons_self
  simp at twice

theorem firstLocals_iff_nodup_sharedText : ∃ program, sharedText.compile .default = .ok program ∧
    ∃ linked, sharedText.linked = .ok linked ∧
      List.Forall₂ (fun (f : Tree.FunctionDecl) (d : FunctionDef) =>
        d.params = (List.range f.params.length).map LocalId.mk ∧
          (FirstLocals linked.tree program f d ↔ (f.params.map (·.name)).Nodup))
        linked.tree.functions program.functions := by
  obtain ⟨program, _s, _linked, _after, compiled, _rest⟩ := readsSecond_sharedText
  exact ⟨program, compiled, firstLocals_iff_nodup compiled⟩

end JumpIR
