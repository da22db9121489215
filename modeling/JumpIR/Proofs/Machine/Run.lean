import JumpIR.Machine.Execution
import JumpIR.Proofs.Lowering.Graph

/-!
# Runs step by step

`Linked.Steps` counts the steps of a run that go on. The rules below tell what a step does at a site
whose code is known.
-/

set_option autoImplicit false

namespace JumpIR

namespace Linked

variable {l : Linked}

/-- So many steps lead from one stage of a run to another. -/
inductive Steps (l : Linked) : Nat → Execution → Execution → Prop where
  | refl (e : Execution) : Steps l 0 e e
  | step {count : Nat} {e middle last : Execution} (first : l.step e = .running middle)
      (others : Steps l count middle last) : Steps l (count + 1) e last

theorem Steps.single {e next : Execution} (first : l.step e = .running next) : l.Steps 1 e next :=
  .step first (.refl next)

theorem Steps.trans {count more : Nat} {e middle last : Execution} (left : l.Steps count e middle)
    (right : l.Steps more middle last) : l.Steps (count + more) e last := by
  induction left with
  | refl e =>
      rw [Nat.zero_add]
      exact right
  | step first _others ih =>
      rw [Nat.add_right_comm]
      exact .step first (ih right)

/-- The stage that so many steps lead to. -/
def advance (l : Linked) : Nat → Execution → Option Execution
  | 0, e => some e
  | count + 1, e =>
      match l.step e with
      | .running next => l.advance count next
      | .finished _ _ => none

theorem steps_of_advance {count : Nat} : ∀ {e last : Execution},
    l.advance count e = some last → l.Steps count e last := by
  induction count with
  | zero =>
      intro e last reached
      cases reached
      exact .refl e
  | succ count ih =>
      intro e last reached
      unfold advance at reached
      split at reached
      · rename_i next stepped
        exact .step stepped (ih reached)
      · cases reached

theorem run_of_steps {count : Nat} {e last : Execution} (steps : l.Steps count e last)
    (budget : Nat) : l.run (count + budget) e = l.run budget last := by
  induction steps with
  | refl e => rw [Nat.zero_add]
  | step first _others ih =>
      rw [Nat.add_right_comm, run, first]
      exact ih

theorem run_mono {budget : Nat} : ∀ {e : Execution} {outcome : Outcome},
    l.run budget e = some outcome → ∀ more, l.run (budget + more) e = some outcome := by
  induction budget with
  | zero =>
      intro e outcome ended
      cases ended
  | succ budget ih =>
      intro e outcome ended more
      rw [Nat.add_right_comm]
      unfold run at ended ⊢
      cases stepped : l.step e with
      | running next =>
          rw [stepped] at ended
          exact ih ended more
      | finished result m =>
          rw [stepped] at ended
          exact ended

theorem run_none {budget less : Nat} {e : Execution} (bound : less ≤ budget)
    (endless : l.run budget e = none) : l.run less e = none := by
  cases ended : l.run less e with
  | none => rfl
  | some outcome =>
      have longer := run_mono ended (budget - less)
      rw [Nat.add_sub_cancel' bound] at longer
      cases endless.symm.trans longer

theorem run_of_finished {e : Execution} {result : Except RunFault Value} {m : Machine}
    (stepped : l.step e = .finished result m) (budget : Nat) :
    l.run (budget + 1) e = some (result, m) := by
  unfold run
  rw [stepped]

theorem exists_last_of_run {budget : Nat} : ∀ {e : Execution} {result : Except RunFault Value}
    {m : Machine}, l.run budget e = some (result, m) →
    ∃ count last, l.Steps count e last ∧ l.step last = .finished result m := by
  induction budget with
  | zero =>
      intro e result m ended
      cases ended
  | succ budget ih =>
      intro e result m ended
      unfold run at ended
      cases stepped : l.step e with
      | running next =>
          rw [stepped] at ended
          obtain ⟨count, last, steps, finished⟩ := ih ended
          exact ⟨count + 1, last, .step stepped steps, finished⟩
      | finished result' m' =>
          rw [stepped] at ended
          cases ended
          exact ⟨0, e, .refl e, stepped⟩

/-- A call that starts runs a function of the program whose result has a default value. -/
theorem enter_ok {depth : Nat} {id : FuncId} {args : List Value} {a : Activation}
    (entered : l.enter depth id args = .ok a) :
    l.program.function? id = some a.function ∧ a.block = a.function.entry ∧ a.next = 0 ∧
      ∃ value, l.program.defaultValue a.function.result = .ok value := by
  unfold enter at entered
  split at entered
  · cases entered
  · rename_i f found
    split at entered
    · cases entered
    · split at entered
      · cases entered
      · obtain ⟨made, framed, done⟩ := bind_ok entered
        cases done
        obtain ⟨locals, _locals, framed⟩ := bind_ok framed
        obtain ⟨result, defaulted, _framed⟩ := bind_ok framed
        exact ⟨found, rfl, rfl, result, defaulted⟩

theorem run_unique {budget other : Nat} {e : Execution} {outcome outcome' : Outcome}
    (ended : l.run budget e = some outcome) (ended' : l.run other e = some outcome') :
    outcome = outcome' := by
  have longer := run_mono ended other
  have longer' := run_mono ended' budget
  rw [Nat.add_comm] at longer'
  exact Option.some.inj (longer.symm.trans longer')

end Linked

/-! ### What a step does -/

namespace Execution

/-- Where the innermost call of a run goes on. -/
def site (e : Execution) : Site := ⟨e.current.block, e.current.next⟩

/-- The same call at the start of a block. -/
def jump (e : Execution) (target : BlockId) : Execution :=
  { e with current := { e.current with block := target, next := 0 } }

/-- The same call behind its next operation. -/
def behind (e : Execution) : Activation := { e.current with next := e.current.next + 1 }

/-- There are no more operations in the block, which is left so. -/
def Leaves (e : Execution) (terminator : Terminator) : Prop :=
  ∃ block, e.current.function.block? e.current.block = some block ∧
    block.ops[e.current.next]? = none ∧ block.terminator = terminator

end Execution

namespace Linked

/-- All that can happen in a step that does not end the run. -/
inductive Moves (l : Linked) (e next : Execution) : Prop where
  | declare {id : LocalId} {frame : Frame}
      (op : e.site.HasOp e.current.function.blocks (.declare id))
      (declared : l.declare e.current id = .ok frame)
      (same : next = { e with current := { e.behind with frame := frame } })
  | assign {dest : Place} {value : Operand} {held : Value}
      (op : e.site.HasOp e.current.function.blocks (.assign dest value))
      (evaluated : value.evaluate l.program e.current.frame e.machine = .ok held)
      (stored : resume e.behind e.callers (some dest) held e.machine = .running next)
  | support {dest : Option Place} {id : SupportId} {args : List Operand} {values : List Value}
      {held : Value} {m : Machine}
      (op : e.site.HasOp e.current.function.blocks (.call dest (.support id) args))
      (evaluated : Operand.evaluateAll l.program e.current.frame e.machine args = .ok values)
      (called : l.callSupport id values e.machine = (.ok held, m))
      (stored : resume e.behind e.callers dest held m = .running next)
  | call {dest : Option Place} {id : FuncId} {args : List Operand} {values : List Value}
      {callee : Activation}
      (op : e.site.HasOp e.current.function.blocks (.call dest (.function id) args))
      (evaluated : Operand.evaluateAll l.program e.current.frame e.machine args = .ok values)
      (entered : l.enter e.depth id values = .ok callee)
      (same : next = ⟨callee, ⟨e.behind, dest⟩ :: e.callers, e.machine⟩)
  | goto {target : BlockId} (left : e.Leaves (.goto target)) (same : next = e.jump target)
  | branch {cond : Operand} {thenBlock elseBlock : BlockId} {holds : Bool}
      (left : e.Leaves (.branch cond thenBlock elseBlock))
      (decided : cond.evaluate l.program e.current.frame e.machine >>= Value.asBool = .ok holds)
      (same : next = e.jump (if holds then thenBlock else elseBlock))
  | ret (left : e.Leaves .ret)
      (returned : leave e.callers e.current.frame.result e.machine = .running next)
  | arbitrary {value : Value} (left : e.Leaves .arbitrary)
      (defaulted : l.program.defaultValue e.current.function.result = .ok value)
      (returned : leave e.callers value e.machine = .running next)

variable {l : Linked}

theorem moves_of_stepOp {e next : Execution} {op : Op}
    (found : e.site.HasOp e.current.function.blocks op)
    (stepped : l.stepOp e op = .running next) : l.Moves e next := by
  unfold stepOp at stepped
  cases op with
  | declare id =>
      dsimp only at stepped
      split at stepped
      · cases stepped
      · rename_i frame declared
        cases stepped
        exact .declare found declared rfl
  | assign dest value =>
      dsimp only at stepped
      split at stepped
      · cases stepped
      · rename_i held evaluated
        exact .assign found evaluated stepped
  | call dest callee args =>
      dsimp only at stepped
      split at stepped
      · cases stepped
      · rename_i values evaluated
        cases callee with
        | function id =>
            dsimp only at stepped
            split at stepped
            · cases stepped
            · rename_i callee entered
              cases stepped
              exact .call found evaluated entered rfl
        | support id =>
            dsimp only at stepped
            split at stepped
            · cases stepped
            · rename_i held m called
              exact .support found evaluated called stepped

theorem moves_of_stepTerminator {e next : Execution} {terminator : Terminator}
    (left : e.Leaves terminator) (stepped : l.stepTerminator e terminator = .running next) :
    l.Moves e next := by
  unfold stepTerminator at stepped
  cases terminator with
  | goto target =>
      cases stepped
      exact .goto left rfl
  | branch cond thenBlock elseBlock =>
      dsimp only at stepped
      split at stepped
      · cases stepped
      · rename_i holds decided
        cases stepped
        exact .branch left decided rfl
  | ret => exact .ret left stepped
  | arbitrary =>
      dsimp only at stepped
      split at stepped
      · cases stepped
      · rename_i value defaulted
        exact .arbitrary left defaulted stepped
  | unreachable location => cases stepped

theorem moves_of_step {e next : Execution} (stepped : l.step e = .running next) :
    l.Moves e next := by
  unfold step at stepped
  split at stepped
  · cases stepped
  · rename_i block found
    split at stepped
    · rename_i op foundOp
      exact moves_of_stepOp ⟨block, found, foundOp⟩ stepped
    · rename_i atEnd
      exact moves_of_stepTerminator ⟨block, found, atEnd, rfl⟩ stepped

end Linked

/-! ### Steps at a site -/

/-- A run whose innermost call is about to go on at a site. -/
def Execution.atSite (d : FunctionDef) (frame : Frame) (s : Site) (callers : List Suspended)
    (m : Machine) : Execution :=
  ⟨⟨d, frame, s.block, s.next⟩, callers, m⟩

namespace Linked

variable (l : Linked) {d : FunctionDef} (frame : Frame) {s : Site} (callers : List Suspended)
  (m : Machine)

theorem step_hasOp {op : Op} (found : s.HasOp d.blocks op) :
    l.step (.atSite d frame s callers m) = l.stepOp (.atSite d frame s callers m) op := by
  obtain ⟨block, foundBlock, foundOp⟩ := found
  unfold step
  have here : (Execution.atSite d frame s callers m).current.function.block?
      (Execution.atSite d frame s callers m).current.block = some block := foundBlock
  rw [here]
  dsimp only
  have next : block.ops[(Execution.atSite d frame s callers m).current.next]? = some op := foundOp
  rw [next]

theorem step_hasEnd {terminator : Terminator} (found : s.HasEnd d.blocks terminator) :
    l.step (.atSite d frame s callers m) =
      l.stepTerminator (.atSite d frame s callers m) terminator := by
  obtain ⟨block, foundBlock, atEnd, left⟩ := found
  unfold step
  have here : (Execution.atSite d frame s callers m).current.function.block?
      (Execution.atSite d frame s callers m).current.block = some block := foundBlock
  rw [here]
  dsimp only
  have next : block.ops[(Execution.atSite d frame s callers m).current.next]? = none :=
    List.getElem?_eq_none (Nat.le_of_eq atEnd.symm)
  rw [next, left]

theorem step_goto {target : BlockId} (found : s.HasEnd d.blocks (.goto target)) :
    l.step (.atSite d frame s callers m) =
      .running (.atSite d frame (Site.first target) callers m) :=
  step_hasEnd l frame callers m found

theorem step_branch {cond : Operand} {thenBlock elseBlock : BlockId}
    (found : s.HasEnd d.blocks (.branch cond thenBlock elseBlock)) :
    l.step (.atSite d frame s callers m) =
      match cond.evaluate l.program frame m >>= Value.asBool with
      | .error fault => .finished (.error fault) m
      | .ok holds =>
          .running
            (.atSite d frame (Site.first (if holds then thenBlock else elseBlock)) callers m) :=
  step_hasEnd l frame callers m found

theorem step_assign {dest : Place} {value : Operand}
    (found : s.HasOp d.blocks (.assign dest value)) :
    l.step (.atSite d frame s callers m) =
      match value.evaluate l.program frame m with
      | .error fault => .finished (.error fault) m
      | .ok value => resume ⟨d, frame, s.block, s.next + 1⟩ callers (some dest) value m :=
  step_hasOp l frame callers m found

theorem step_support {dest : Option Place} {id : SupportId} {args : List Operand}
    (found : s.HasOp d.blocks (.call dest (.support id) args)) :
    l.step (.atSite d frame s callers m) =
      match Operand.evaluateAll l.program frame m args with
      | .error fault => .finished (.error fault) m
      | .ok args =>
          match l.callSupport id args m with
          | (.error fault, m) => .finished (.error fault) m
          | (.ok value, m) => resume ⟨d, frame, s.block, s.next + 1⟩ callers dest value m :=
  step_hasOp l frame callers m found

theorem step_call {dest : Option Place} {id : FuncId} {args : List Operand}
    (found : s.HasOp d.blocks (.call dest (.function id) args)) :
    l.step (.atSite d frame s callers m) =
      match Operand.evaluateAll l.program frame m args with
      | .error fault => .finished (.error fault) m
      | .ok args =>
          match l.enter (callers.length + 1) id args with
          | .error fault => .finished (.error fault) m
          | .ok callee =>
              .running ⟨callee, ⟨⟨d, frame, s.block, s.next + 1⟩, dest⟩ :: callers, m⟩ :=
  step_hasOp l frame callers m found

theorem step_arbitrary (found : s.HasEnd d.blocks .arbitrary) :
    l.step (.atSite d frame s callers m) =
      match l.program.defaultValue d.result with
      | .error fault => .finished (.error fault) m
      | .ok value => leave callers value m :=
  step_hasEnd l frame callers m found

end Linked

end JumpIR
