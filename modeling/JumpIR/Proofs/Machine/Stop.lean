import JumpIR.Proofs.Machine.Run

/-!
# How runs end

A run ends where the last call is left, or in a fault. `Linked.Stops` tells all that can happen in a
step that ends the run, as `Linked.Moves` does for the other steps.
-/

set_option autoImplicit false

namespace JumpIR

namespace Linked

/-- All that can happen in a step that ends the run. -/
inductive Stops (l : Linked) (e : Execution) (result : Except RunFault Value) (m : Machine) :
    Prop where
  | missing {location : String}
      (absent : e.current.function.block? e.current.block = none)
      (failed : result = .error (.unreachable location)) (same : m = e.machine)
  | declare {id : LocalId} {fault : RunFault}
      (op : e.site.HasOp e.current.function.blocks (.declare id))
      (undeclared : l.declare e.current id = .error fault)
      (failed : result = .error fault) (same : m = e.machine)
  | operand {dest : Place} {value : Operand} {fault : RunFault}
      (op : e.site.HasOp e.current.function.blocks (.assign dest value))
      (evaluated : value.evaluate l.program e.current.frame e.machine = .error fault)
      (failed : result = .error fault) (same : m = e.machine)
  | assign {dest : Place} {value : Operand} {held : Value}
      (op : e.site.HasOp e.current.function.blocks (.assign dest value))
      (evaluated : value.evaluate l.program e.current.frame e.machine = .ok held)
      (stored : resume e.behind e.callers (some dest) held e.machine = .finished result m)
  | args {dest : Option Place} {callee : Callee} {args : List Operand} {fault : RunFault}
      (op : e.site.HasOp e.current.function.blocks (.call dest callee args))
      (evaluated : Operand.evaluateAll l.program e.current.frame e.machine args = .error fault)
      (failed : result = .error fault) (same : m = e.machine)
  | enter {dest : Option Place} {id : FuncId} {args : List Operand} {values : List Value}
      {fault : RunFault}
      (op : e.site.HasOp e.current.function.blocks (.call dest (.function id) args))
      (evaluated : Operand.evaluateAll l.program e.current.frame e.machine args = .ok values)
      (refused : l.enter e.depth id values = .error fault)
      (failed : result = .error fault) (same : m = e.machine)
  | support {dest : Option Place} {id : SupportId} {args : List Operand} {values : List Value}
      {fault : RunFault}
      (op : e.site.HasOp e.current.function.blocks (.call dest (.support id) args))
      (evaluated : Operand.evaluateAll l.program e.current.frame e.machine args = .ok values)
      (called : l.callSupport id values e.machine = (.error fault, m))
      (failed : result = .error fault)
  | store {dest : Option Place} {id : SupportId} {args : List Operand} {values : List Value}
      {held : Value} {after : Machine}
      (op : e.site.HasOp e.current.function.blocks (.call dest (.support id) args))
      (evaluated : Operand.evaluateAll l.program e.current.frame e.machine args = .ok values)
      (called : l.callSupport id values e.machine = (.ok held, after))
      (stored : resume e.behind e.callers dest held after = .finished result m)
  | branch {cond : Operand} {thenBlock elseBlock : BlockId} {fault : RunFault}
      (left : e.Leaves (.branch cond thenBlock elseBlock))
      (undecided : cond.evaluate l.program e.current.frame e.machine >>= Value.asBool =
        .error fault)
      (failed : result = .error fault) (same : m = e.machine)
  | ret (left : e.Leaves .ret)
      (returned : leave e.callers e.current.frame.result e.machine = .finished result m)
  | endless {fault : RunFault} (left : e.Leaves .arbitrary)
      (undefaulted : l.program.defaultValue e.current.function.result = .error fault)
      (failed : result = .error fault) (same : m = e.machine)
  | arbitrary {value : Value} (left : e.Leaves .arbitrary)
      (defaulted : l.program.defaultValue e.current.function.result = .ok value)
      (returned : leave e.callers value e.machine = .finished result m)
  | unreachable {location : String} (left : e.Leaves (.unreachable location))
      (failed : result = .error (.unreachable location)) (same : m = e.machine)

variable {l : Linked} {result : Except RunFault Value} {m : Machine}

theorem stops_of_stepOp {e : Execution} {op : Op}
    (found : e.site.HasOp e.current.function.blocks op)
    (stepped : l.stepOp e op = .finished result m) : l.Stops e result m := by
  unfold stepOp at stepped
  cases op with
  | declare id =>
      dsimp only at stepped
      split at stepped
      · rename_i fault undeclared
        cases stepped
        exact .declare found undeclared rfl rfl
      · cases stepped
  | assign dest value =>
      dsimp only at stepped
      split at stepped
      · rename_i fault evaluated
        cases stepped
        exact .operand found evaluated rfl rfl
      · rename_i held evaluated
        exact .assign found evaluated stepped
  | call dest callee args =>
      dsimp only at stepped
      split at stepped
      · rename_i fault evaluated
        cases stepped
        exact .args found evaluated rfl rfl
      · rename_i values evaluated
        cases callee with
        | function id =>
            dsimp only at stepped
            split at stepped
            · rename_i fault refused
              cases stepped
              exact .enter found evaluated refused rfl rfl
            · cases stepped
        | support id =>
            dsimp only at stepped
            split at stepped
            · rename_i fault after called
              cases stepped
              exact .support found evaluated called rfl
            · rename_i held after called
              exact .store found evaluated called stepped

theorem stops_of_stepTerminator {e : Execution} {terminator : Terminator}
    (left : e.Leaves terminator) (stepped : l.stepTerminator e terminator = .finished result m) :
    l.Stops e result m := by
  unfold stepTerminator at stepped
  cases terminator with
  | goto target => cases stepped
  | branch cond thenBlock elseBlock =>
      dsimp only at stepped
      split at stepped
      · rename_i fault undecided
        cases stepped
        exact .branch left undecided rfl rfl
      · cases stepped
  | ret => exact .ret left stepped
  | arbitrary =>
      dsimp only at stepped
      split at stepped
      · rename_i fault undefaulted
        cases stepped
        exact .endless left undefaulted rfl rfl
      · rename_i value defaulted
        exact .arbitrary left defaulted stepped
  | unreachable location =>
      cases stepped
      exact .unreachable left rfl rfl

theorem stops_of_step {e : Execution} (stepped : l.step e = .finished result m) :
    l.Stops e result m := by
  unfold step at stepped
  split at stepped
  · rename_i absent
    cases stepped
    exact .missing absent rfl rfl
  · rename_i block found
    split at stepped
    · rename_i op foundOp
      exact stops_of_stepOp ⟨block, found, foundOp⟩ stepped
    · rename_i atEnd
      exact stops_of_stepTerminator ⟨block, found, atEnd, rfl⟩ stepped

/-- A result is stored and the run goes on, or its place does not take it. -/
theorem store_of_resume_finished {a : Activation} {callers : List Suspended}
    {dest : Option Place} {value : Value} {before : Machine}
    (stored : resume a callers dest value before = .finished result m) :
    ∃ place fault, dest = some place ∧ place.store value a.frame before = .error fault ∧
      result = .error fault ∧ m = before := by
  unfold resume at stored
  split at stored
  · cases stored
  · rename_i place
    split at stored
    · cases stored
    · rename_i fault failed
      cases stored
      exact ⟨place, fault, rfl, failed, rfl, rfl⟩

/-- The last call is left with its value, or a caller's place does not take it. -/
theorem cases_of_leave_finished {callers : List Suspended} {value : Value} {before : Machine}
    (left : leave callers value before = .finished result m) :
    m = before ∧ (callers = [] ∧ result = .ok value ∨
      ∃ (caller : Suspended) (rest : List Suspended) (place : Place) (fault : RunFault),
        callers = caller :: rest ∧
        place.store value caller.activation.frame before = .error fault ∧
        result = .error fault) := by
  unfold leave at left
  split at left
  · cases left
    exact ⟨rfl, Or.inl ⟨rfl, rfl⟩⟩
  · rename_i caller rest
    obtain ⟨place, fault, _dest, failed, isFault, same⟩ := store_of_resume_finished left
    exact ⟨same, Or.inr ⟨caller, rest, place, fault, rfl, failed, isFault⟩⟩

/-- A run that ends without a fault leaves the machine as its last step finds it. -/
theorem machine_of_finished {e : Execution} {value : Value}
    (stepped : l.step e = .finished (.ok value) m) : m = e.machine := by
  cases stops_of_step stepped with
  | ret left returned => exact (cases_of_leave_finished returned).1
  | arbitrary left defaulted returned => exact (cases_of_leave_finished returned).1
  | missing _ failed _ | declare _ _ failed _ | operand _ _ failed _ | args _ _ failed _
  | enter _ _ _ failed _ | support _ _ _ failed | branch _ _ failed _ | endless _ _ failed _
  | unreachable _ failed _ => cases failed
  | assign _ _ stored =>
      obtain ⟨_place, _fault, _dest, _refused, failed, _same⟩ := store_of_resume_finished stored
      cases failed
  | store _ _ _ stored =>
      obtain ⟨_place, _fault, _dest, _refused, failed, _same⟩ := store_of_resume_finished stored
      cases failed

end Linked

end JumpIR
