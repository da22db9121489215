import JumpIR.Proofs.Lowering.Globals
import JumpIR.Proofs.Reference.Interpreter

/-!
# Expressions and their operands

An operand has the value of the expression that it stands for, and a place takes a store where the
assignment says.
-/

set_option autoImplicit false

namespace JumpIR

/-! ### Declared types -/

namespace Program

variable {p q : Program}

theorem unionIsFinite_congr (same : p.unions = q.unions) :
    ∀ rounds, p.unionIsFinite rounds = q.unionIsFinite rounds := by
  intro rounds
  induction rounds with
  | zero => rfl
  | succ rounds ih =>
      funext visiting id
      unfold unionIsFinite union?
      rw [ih, same]

theorem unionDefault_congr (same : p.unions = q.unions) :
    ∀ rounds, p.unionDefault rounds = q.unionDefault rounds := by
  intro rounds
  induction rounds with
  | zero => rfl
  | succ rounds ih =>
      funext visiting id
      unfold unionDefault union? isFinite
      rw [ih, same, unionIsFinite_congr same]

theorem defaultValue_congr (same : p.unions = q.unions) (type : Ty) :
    p.defaultValue type = q.defaultValue type := by
  unfold defaultValue
  rw [unionDefault_congr same, same]

theorem defaultValues_congr (same : p.unions = q.unions) (types : List Ty) :
    p.defaultValues types = q.defaultValues types := by
  induction types with
  | nil => rfl
  | cons type rest ih =>
      unfold defaultValues
      rw [defaultValue_congr same, ih]

theorem heldVariant_congr (same : p.unions = q.unions) (id : UnionId) (value : Value) :
    p.heldVariant id value = q.heldVariant id value := by
  unfold heldVariant unionName union?
  rw [same]

theorem payloadOf_congr (same : p.unions = q.unions) (id : UnionId) (tag : Nat) (value : Value) :
    p.payloadOf id tag value = q.payloadOf id tag value := by
  unfold payloadOf variantLabel variantName? union?
  rw [same]
  simp only [heldVariant_congr same]

end Program

/-! ### Operands -/

namespace Lowering.Scope

variable {s : Scope} {types p : Program} {f : Frame} {m : Machine}

/-- A constructor wraps its arguments the same way before and after they have values. -/
theorem evaluate_construct (union : UnionId) (tag : Nat) (items : List Operand) :
    (construct union tag items).evaluate p f m =
      (Operand.evaluateAll p f m items >>= fun items =>
        .ok (.union union tag (payload items))) := by
  match items with
  | [] => rfl
  | [item] =>
      simp only [construct, Operand.evaluate, Operand.evaluateAll]
      cases item.evaluate p f m with
      | error fault => rfl
      | ok value => rfl
  | first :: second :: rest =>
      simp only [construct, Operand.evaluate, Operand.evaluateAll]
      cases first.evaluate p f m with
      | error fault => rfl
      | ok a =>
          cases second.evaluate p f m with
          | error fault => rfl
          | ok b =>
              cases Operand.evaluateAll p f m rest with
              | error fault => rfl
              | ok values => rfl

theorem variant_eq {name : Tree.Ident} {found : UnionId × Nat}
    (known : s.variant name = .ok found) :
    s.globals.variant? name.name = some found := by
  unfold variant at known
  cases look : s.globals.variant? name.name with
  | none =>
      rw [look] at known
      cases known
  | some other =>
      rw [look] at known
      cases known
      rfl

theorem evaluate_nameOperand {name : Tree.Ident} {span : Span} {o : Operand}
    (lowered : s.nameOperand name = .ok o) :
    o.evaluate p f m = s.evaluate types f m (.name name span) := by
  unfold nameOperand at lowered
  rw [evaluate]
  cases look : s.local? name.name with
  | some id =>
      rw [look] at lowered
      cases lowered
      rw [Operand.evaluate]
  | none =>
      rw [look] at lowered
      dsimp only at lowered ⊢
      cases register : s.globals.register? name.name with
      | some id =>
          rw [register] at lowered
          cases lowered
          rw [Operand.evaluate]
      | none =>
          rw [register] at lowered
          dsimp only at lowered ⊢
          cases variant : s.globals.enumConst? name.name with
          | some c =>
              rw [variant] at lowered
              cases lowered
              rw [Operand.evaluate]
          | none =>
              rw [variant] at lowered
              cases lowered

mutual

theorem evaluate_operand (same : p.unions = types.unions) :
    ∀ (e : Tree.Expr) (o : Operand), s.operand e = .ok o →
      o.evaluate p f m = s.evaluate types f m e
  | .name name span, o, lowered => by
      rw [operand] at lowered
      exact evaluate_nameOperand lowered
  | .literal value span, o, lowered => by
      rw [operand] at lowered
      cases lowered
      rw [Operand.evaluate, evaluate]
  | .call callee args span, o, lowered => by
      rw [operand] at lowered
      obtain ⟨target, found, lowered⟩ := bind_ok lowered
      split at lowered
      · rename_i union tag
        obtain ⟨items, itemsLowered, done⟩ := bind_ok lowered
        cases done
        rw [evaluate_construct, evaluate, Globals.target?_constructor found]
        dsimp only
        rw [evaluateAll_operands same args items itemsLowered]
      · cases lowered
      · cases lowered
  | .prim op args span, o, lowered => by
      rw [operand] at lowered
      split at lowered
      · cases lowered
      · rename_i prim known
        split at lowered
        · obtain ⟨items, itemsLowered, done⟩ := bind_ok lowered
          cases done
          rw [Operand.evaluate, evaluate, known, outcomes_operands same args items itemsLowered]
        · cases lowered
  | .isNot value variant span, o, lowered => by
      rw [operand] at lowered
      obtain ⟨⟨union, tag⟩, known, lowered⟩ := bind_ok lowered
      obtain ⟨inner, innerLowered, done⟩ := bind_ok lowered
      cases done
      rw [evaluate, variant_eq known, Operand.evaluate]
      dsimp only
      rw [Operand.outcomes, Operand.outcomes, Operand.evaluate,
        evaluate_operand same value inner innerLowered]
      cases s.evaluate types f m value with
      | error fault => rfl
      | ok held =>
          change PrimOp.apply .not [p.heldVariant union held >>= fun found =>
            .ok (.bool (found.1 == tag))] = (types.heldVariant union held >>= _)
          rw [Program.heldVariant_congr same]
          cases types.heldVariant union held with
          | error fault => rfl
          | ok found => rfl
  | .project value variant span, o, lowered => by
      rw [operand] at lowered
      obtain ⟨⟨union, tag⟩, known, lowered⟩ := bind_ok lowered
      obtain ⟨inner, innerLowered, done⟩ := bind_ok lowered
      cases done
      rw [evaluate, variant_eq known, Operand.evaluate]
      dsimp only
      rw [evaluate_operand same value inner innerLowered]
      simp only [Program.payloadOf_congr same]
  | .field value index span, o, lowered => by
      rw [operand] at lowered
      obtain ⟨inner, innerLowered, done⟩ := bind_ok lowered
      cases done
      rw [evaluate, Operand.evaluate, evaluate_operand same value inner innerLowered]
  | .exception part span, o, lowered => by
      rw [operand] at lowered
      cases lowered
      rw [evaluate, Operand.evaluate]

theorem evaluateAll_operands (same : p.unions = types.unions) :
    ∀ (es : List Tree.Expr) (os : List Operand), s.operands es = .ok os →
      Operand.evaluateAll p f m os = s.evaluateAll types f m es
  | [], os, lowered => by
      rw [operands] at lowered
      cases lowered
      rw [Operand.evaluateAll, evaluateAll]
  | e :: rest, os, lowered => by
      rw [operands] at lowered
      obtain ⟨first, firstLowered, lowered⟩ := bind_ok lowered
      obtain ⟨others, othersLowered, done⟩ := bind_ok lowered
      cases done
      rw [Operand.evaluateAll, evaluateAll, evaluate_operand same e first firstLowered,
        evaluateAll_operands same rest others othersLowered]

theorem outcomes_operands (same : p.unions = types.unions) :
    ∀ (es : List Tree.Expr) (os : List Operand), s.operands es = .ok os →
      Operand.outcomes p f m os = s.outcomes types f m es
  | [], os, lowered => by
      rw [operands] at lowered
      cases lowered
      rw [Operand.outcomes, outcomes]
  | e :: rest, os, lowered => by
      rw [operands] at lowered
      obtain ⟨first, firstLowered, lowered⟩ := bind_ok lowered
      obtain ⟨others, othersLowered, done⟩ := bind_ok lowered
      cases done
      rw [Operand.outcomes, outcomes, evaluate_operand same e first firstLowered,
        outcomes_operands same rest others othersLowered]

end

theorem store_place {target : Tree.Place} {dest : Place} (lowered : s.place target = .ok dest)
    (value : Value) : dest.store value f m = s.store target value f m := by
  unfold place at lowered
  unfold Scope.store
  cases target with
  | named name path =>
      dsimp only at lowered ⊢
      cases look : s.local? name.name with
      | some id =>
          rw [look] at lowered
          cases lowered
          rfl
      | none =>
          rw [look] at lowered
          dsimp only at lowered ⊢
          cases register : s.globals.register? name.name with
          | some id =>
              rw [register] at lowered
              cases lowered
              rfl
          | none =>
              rw [register] at lowered
              cases lowered
  | result =>
      cases lowered
      rfl
  | exception part =>
      cases lowered
      rfl

end Lowering.Scope

end JumpIR
