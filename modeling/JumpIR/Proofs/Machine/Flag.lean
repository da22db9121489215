import JumpIR.Proofs.Outcome
import JumpIR.Proofs.Machine.Action
import JumpIR.Proofs.Machine.Stop

/-!
# The pending flag

Only a store into the flag changes it. No support operation does, and neither does a call, a jump or
a store into any other place. Main statement: `pending_of_step`.
-/

set_option autoImplicit false

namespace JumpIR

/-! ### Machines -/

namespace Machine

theorem exception_setRegister (m : Machine) (index : Nat) (value : Value) :
    (m.setRegister index value).exception = m.exception :=
  (keeps_noteRegister _ index).exception

end Machine

/-! ### Support operations -/

namespace Support

/-- Whatever it makes of its arguments, the operation keeps the exception state. -/
def Operation.KeepsException (op : Operation) : Prop :=
  ∀ args m, (op.call args m).2.exception = m.exception

theorem keepsException_of_find? {symbol : String} {op : Operation}
    (found : find? symbol = some op) : op.KeepsException :=
  fun args m => ((isAction_of_find? found).keeps args m).exception

end Support

/-! ### Stores -/

theorem ExceptionState.pending_store {e after : ExceptionState} {part : ExceptionPart}
    {path : List Nat} {value : Value} (other : part ≠ .pending)
    (stored : e.store part path value = .ok after) : after.pending = e.pending := by
  cases part with
  | pending => exact absurd rfl other
  | location =>
      obtain ⟨text, _isText, done⟩ := bind_ok stored
      cases done
      rfl
  | thrown =>
      unfold store at stored
      cases path with
      | nil =>
          cases stored
          rfl
      | cons index path =>
          cases thrown : e.thrown with
          | none =>
              rw [thrown] at stored
              cases stored
          | some old =>
              rw [thrown] at stored
              obtain ⟨new, _set, done⟩ := bind_ok stored
              cases done
              rfl

theorem Place.pending_store {place : Place} {value : Value} {f f' : Frame} {m m' : Machine}
    (other : place.root ≠ .exception .pending) (stored : place.store value f m = .ok (f', m')) :
    m'.exception.pending = m.exception.pending := by
  unfold store at stored
  cases root : place.root with
  | localVar id =>
      rw [root] at stored
      obtain ⟨old, _found, stored⟩ := bind_ok stored
      obtain ⟨new, _set, done⟩ := bind_ok stored
      cases done
      rfl
  | result =>
      rw [root] at stored
      obtain ⟨new, _set, done⟩ := bind_ok stored
      cases done
      rfl
  | register id =>
      rw [root] at stored
      obtain ⟨old, _found, stored⟩ := bind_ok stored
      obtain ⟨new, _set, done⟩ := bind_ok stored
      cases done
      rw [Machine.exception_setRegister]
  | exception part =>
      rw [root] at stored other
      obtain ⟨after, changed, done⟩ := bind_ok stored
      cases done
      refine ExceptionState.pending_store ?_ changed
      intro same
      exact other (same ▸ rfl)

namespace Linked

/-- Whether a place, if there is one, is the pending flag. -/
def IsFlag (dest : Option Place) : Prop :=
  ∃ place, dest = some place ∧ place.root = .exception .pending

theorem pending_of_resume {a : Activation} {callers : List Suspended} {dest : Option Place}
    {value : Value} {m : Machine} {e : Execution} (other : ¬ IsFlag dest)
    (resumed : resume a callers dest value m = .running e) :
    e.machine.exception.pending = m.exception.pending := by
  unfold resume at resumed
  cases dest with
  | none =>
      cases resumed
      rfl
  | some place =>
      dsimp only at resumed
      cases stored : place.store value a.frame m with
      | error fault =>
          rw [stored] at resumed
          cases resumed
      | ok after =>
          rw [stored] at resumed
          cases resumed
          refine Place.pending_store ?_ stored
          intro root
          exact other ⟨place, rfl, root⟩

end Linked

/-! ### Steps -/

namespace Execution

/-- The place that the next step stores a value into. -/
def storesInto? (e : Execution) : Option Place :=
  match e.current.function.block? e.current.block with
  | none => none
  | some block =>
      match block.ops[e.current.next]? with
      | some (.assign dest _) => some dest
      | some (.call dest (.support _) _) => dest
      | some (.call _ (.function _) _) => none
      | some (.declare _) => none
      | none =>
          match block.terminator with
          | .ret | .arbitrary => e.callers.head?.bind (·.dest)
          | .goto _ | .branch _ _ _ | .unreachable _ => none

theorem storesInto?_of_hasOp {e : Execution} {op : Op}
    (found : e.site.HasOp e.current.function.blocks op) :
    e.storesInto? =
      match op with
      | .assign dest _ => some dest
      | .call dest (.support _) _ => dest
      | .call _ (.function _) _ => none
      | .declare _ => none := by
  obtain ⟨block, foundBlock, foundOp⟩ := found
  have here : e.current.function.block? e.current.block = some block := foundBlock
  have next : block.ops[e.current.next]? = some op := foundOp
  unfold storesInto?
  rw [here]
  dsimp only
  rw [next]
  cases op with
  | declare id => rfl
  | assign dest value => rfl
  | call dest callee args => cases callee <;> rfl

theorem storesInto?_of_leaves {e : Execution} {terminator : Terminator}
    (left : e.Leaves terminator) (returns : terminator = .ret ∨ terminator = .arbitrary) :
    e.storesInto? = e.callers.head?.bind (·.dest) := by
  obtain ⟨block, here, atEnd, same⟩ := left
  unfold storesInto?
  rw [here]
  dsimp only
  rw [atEnd, same]
  rcases returns with rfl | rfl
  · rfl
  · rfl

/-- A place is stored into by an assignment, by a support operation, or for a call that waits. -/
theorem storesInto?_cases {e : Execution} {place : Place} (stores : e.storesInto? = some place) :
    (∃ value, e.site.HasOp e.current.function.blocks (.assign place value)) ∨
      (∃ id args, e.site.HasOp e.current.function.blocks (.call (some place) (.support id) args)) ∨
      e.callers.head?.bind (·.dest) = some place := by
  unfold storesInto? at stores
  split at stores
  · cases stores
  · rename_i block found
    split at stores
    · rename_i dest value foundOp
      cases stores
      exact Or.inl ⟨value, block, found, foundOp⟩
    · rename_i dest id args foundOp
      cases stores
      exact Or.inr (Or.inl ⟨id, args, block, found, foundOp⟩)
    · cases stores
    · cases stores
    · split at stores
      · exact Or.inr (Or.inr stores)
      · exact Or.inr (Or.inr stores)
      · cases stores
      · cases stores
      · cases stores

/-- The next step stores into the pending flag. -/
def StoresFlag (e : Execution) : Prop := Linked.IsFlag e.storesInto?

/-- The next step assigns a truth value that stands there as a literal. -/
def AssignsTruth (e : Execution) (truth : Bool) : Prop :=
  ∃ block dest, e.current.function.block? e.current.block = some block ∧
    block.ops[e.current.next]? = some (.assign dest (.const (.bool truth)))

end Execution

namespace Linked

variable {l : Linked}

/-- No support operation of the program changes the exception state. -/
def KeepsException (l : Linked) : Prop := ∀ op ∈ l.supports, op.KeepsException

theorem exception_callSupport (keeps : l.KeepsException) (id : SupportId) (args : List Value)
    (m : Machine) : (l.callSupport id args m).2.exception = m.exception := by
  unfold callSupport
  split
  · rename_i op found
    exact keeps op (List.mem_of_getElem? found) args m
  · rfl

theorem pending_of_leave {callers : List Suspended} {value : Value} {m : Machine} {e : Execution}
    (other : ¬ IsFlag (callers.head?.bind (·.dest))) (left : leave callers value m = .running e) :
    e.machine.exception.pending = m.exception.pending := by
  cases callers with
  | nil => cases left
  | cons caller rest => exact pending_of_resume other left

/-- A step that does not store into the flag keeps it. -/
theorem pending_of_step {e next : Execution} (keeps : l.KeepsException)
    (stepped : l.step e = .running next) (other : ¬ e.StoresFlag) :
    next.machine.exception.pending = e.machine.exception.pending := by
  unfold Execution.StoresFlag at other
  cases moves_of_step stepped with
  | declare op declared same => rw [same]
  | assign op evaluated stored =>
      rw [Execution.storesInto?_of_hasOp op] at other
      exact pending_of_resume other stored
  | @support dest id args values held m op evaluated called stored =>
      rw [Execution.storesInto?_of_hasOp op] at other
      have kept := exception_callSupport keeps id values e.machine
      rw [called] at kept
      have same := pending_of_resume other stored
      rw [same, kept]
  | call op evaluated entered same => rw [same]
  | goto left same =>
      rw [same]
      rfl
  | branch left decided same =>
      rw [same]
      rfl
  | ret left returned =>
      rw [Execution.storesInto?_of_leaves left (Or.inl rfl)] at other
      exact pending_of_leave other returned
  | arbitrary left defaulted returned =>
      rw [Execution.storesInto?_of_leaves left (Or.inr rfl)] at other
      exact pending_of_leave other returned

theorem pending_of_assignsTruth {e next : Execution} {truth : Bool}
    (stepped : l.step e = .running next) (stores : e.StoresFlag) (assigns : e.AssignsTruth truth) :
    next.machine.exception.pending = truth := by
  obtain ⟨block, dest, found, foundOp⟩ := assigns
  unfold Execution.StoresFlag Execution.storesInto? at stores
  unfold step at stepped
  rw [found] at stepped stores
  dsimp only at stepped stores
  rw [foundOp] at stepped stores
  obtain ⟨place, same, root⟩ := stores
  cases same
  unfold stepOp at stepped
  dsimp only at stepped
  rw [Operand.evaluate] at stepped
  unfold resume Place.store at stepped
  dsimp only at stepped
  rw [root] at stepped
  cases stepped
  rfl

end Linked

end JumpIR
