import JumpIR.Proofs.Machine.Fault
import JumpIR.Proofs.Machine.Stack

/-!
# The limit of calls under way

The calls under way are nested, each waiting for the one that it has called, and they are never more
than the limit. A run only asks for the limit when it enters a call, so under a higher one it goes
the same way, except where a call is refused because the limit is reached. Main statement:
`Simulator.call_raise`.
-/

set_option autoImplicit false

namespace JumpIR

/-- Too many calls are under way. -/
def RunFault.OfDepth (fault : RunFault) : Prop := ∃ limit, fault = .callDepthExceeded limit

theorem ofDepth_ofCalls : OfCalls RunFault.OfDepth := by
  rintro fault ⟨limit, rfl⟩
  exact trivial

theorem ofDepth_tolerates : Tolerates RunFault.OfDepth := by
  rintro fault mislinked ⟨limit, rfl⟩
  exact mislinked

/-- The call waits behind an operation that calls the function. -/
def Suspended.WaitsFor (u : Suspended) (p : Program) (d : FunctionDef) : Prop :=
  ∃ (s : Site) (id : FuncId) (args : List Operand),
    s.HasOp u.activation.function.blocks (.call u.dest (.function id) args) ∧
    u.activation.block = s.block ∧ u.activation.next = s.next + 1 ∧ p.function? id = some d

/-- A call of the function `d` and those below it, innermost first: each waits for the one above it,
and the outermost is a call of `root`. -/
def Nested (p : Program) (root : FunctionDef) : (d : FunctionDef) → List Suspended → Prop
  | d, [] => d = root
  | d, u :: rest => u.WaitsFor p d ∧ Nested p root u.activation.function rest

namespace Linked

variable {l : Linked}

/-! ### Entering a call -/

theorem depth_lt_of_enter {depth : Nat} {id : FuncId} {args : List Value} {a : Activation}
    (entered : l.enter depth id args = .ok a) : depth < l.maxCallDepth := by
  unfold enter at entered
  split at entered
  · cases entered
  · split at entered
    · cases entered
    · split at entered
      · cases entered
      · rename_i room
        exact Nat.lt_of_not_le room

theorem limit_le_of_enter {depth limit : Nat} {id : FuncId} {args : List Value}
    (refused : l.enter depth id args = .error (.callDepthExceeded limit)) :
    limit = l.maxCallDepth ∧ l.maxCallDepth ≤ depth := by
  unfold enter at refused
  split at refused
  · cases refused
  · rename_i d found
    split at refused
    · cases refused
    · split at refused
      · rename_i full
        cases refused
        exact ⟨rfl, full⟩
      · have avoids : Avoids RunFault.OfDepth (l.frame d args >>= fun frame =>
            (.ok ⟨d, frame, d.entry, 0⟩ : Except RunFault Activation)) :=
          ((safe_frame d args).avoids ofDepth_ofCalls).bind fun _ => trivial
        rw [refused] at avoids
        exact absurd ⟨limit, rfl⟩ avoids

/-! ### The calls under way -/

/-- The calls under way are nested, and no more than the limit. -/
structure Deep (l : Linked) (root : FunctionDef) (e : Execution) : Prop where
  bound : e.depth ≤ l.maxCallDepth
  nested : Nested l.program root e.current.function e.callers

variable {root : FunctionDef} {e next : Execution}

theorem Deep.congr (deep : l.Deep root e)
    (function : next.current.function = e.current.function) (callers : next.callers = e.callers) :
    l.Deep root next := by
  refine ⟨?_, ?_⟩
  · unfold Execution.depth
    rw [callers]
    exact deep.bound
  · rw [function, callers]
    exact deep.nested

theorem Deep.resume (deep : l.Deep root e) {dest : Option Place} {value : Value} {m : Machine}
    (stored : resume e.behind e.callers dest value m = .running next) : l.Deep root next := by
  obtain ⟨function, _block, _next, callers⟩ := within_of_resume stored
  exact deep.congr function callers

theorem Deep.leave (deep : l.Deep root e) {value : Value}
    (left : leave e.callers value e.machine = .running next) : l.Deep root next := by
  obtain ⟨current, callers, m⟩ := e
  cases callers with
  | nil => cases left
  | cons u rest =>
      obtain ⟨function, _block, _next, callers⟩ := within_of_resume left
      have bound : rest.length + 1 + 1 ≤ l.maxCallDepth := deep.bound
      obtain ⟨_waits, nested⟩ := deep.nested
      refine ⟨?_, ?_⟩
      · unfold Execution.depth
        rw [callers]
        omega
      · rw [function, callers]
        exact nested

theorem Deep.call (deep : l.Deep root e) {dest : Option Place} {id : FuncId}
    {args : List Operand} {values : List Value} {callee : Activation}
    (op : e.site.HasOp e.current.function.blocks (.call dest (.function id) args))
    (entered : l.enter e.depth id values = .ok callee) :
    l.Deep root ⟨callee, ⟨e.behind, dest⟩ :: e.callers, e.machine⟩ := by
  refine ⟨depth_lt_of_enter entered, ?_, deep.nested⟩
  exact ⟨e.site, id, args, op, rfl, rfl, (enter_ok entered).1⟩

theorem deep_step (deep : l.Deep root e) (stepped : l.step e = .running next) :
    l.Deep root next := by
  cases moves_of_step stepped with
  | declare op declared same =>
      subst same
      exact deep.congr rfl rfl
  | assign op evaluated stored => exact deep.resume stored
  | support op evaluated called stored => exact deep.resume stored
  | call op evaluated entered same =>
      subst same
      exact deep.call op entered
  | goto left same =>
      subst same
      exact deep.congr rfl rfl
  | branch left decided same =>
      subst same
      exact deep.congr rfl rfl
  | ret left returned => exact deep.leave returned
  | arbitrary left defaulted returned => exact deep.leave returned

theorem deep_steps {count : Nat} (steps : l.Steps count e next) (deep : l.Deep root e) :
    l.Deep root next :=
  steps.keeps (l.Deep root) (fun _ _ deep stepped => deep_step deep stepped) deep

theorem deep_of_enter {id : FuncId} {args : List Value} {a : Activation} (m : Machine)
    (entered : l.enter 0 id args = .ok a) : l.Deep a.function ⟨a, [], m⟩ :=
  ⟨depth_lt_of_enter entered, rfl⟩

/-- Where a run ends because too many calls are under way, they are as many as the limit. -/
theorem Deep.depth_eq (deep : l.Deep root e)
    (binds : List.Forall₂ Simulator.Binds l.program.supports l.supports) {limit : Nat} {m : Machine}
    (finished : l.step e = .finished (.error (.callDepthExceeded limit)) m) :
    limit = l.maxCallDepth ∧ e.depth = l.maxCallDepth := by
  have ends := avoids_of_stops binds ofDepth_ofCalls (Or.inr ofDepth_tolerates)
    (stops_of_step finished)
  rcases ends with avoids | ⟨fault, failed, dest, id, items, values, _op, _evaluated, refused⟩
  · exact absurd ⟨limit, rfl⟩ avoids
  · cases failed
    obtain ⟨same, full⟩ := limit_le_of_enter refused
    exact ⟨same, Nat.le_antisymm deep.bound full⟩

/-! ### Higher limits -/

/-- The same program and operations with another limit. -/
def withDepth (l : Linked) (limit : Nat) : Linked := { l with maxCallDepth := limit }

variable {high : Nat}

/-- A higher limit matters to a call only if it is refused under the lower one. -/
theorem enter_withDepth (less : l.maxCallDepth ≤ high) (depth : Nat) (id : FuncId)
    (args : List Value) :
    l.enter depth id args = .error (.callDepthExceeded l.maxCallDepth) ∨
      (l.withDepth high).enter depth id args = l.enter depth id args := by
  have sameProgram : (l.withDepth high).program = l.program := rfl
  unfold enter
  rw [sameProgram]
  cases l.program.function? id with
  | none => exact Or.inr rfl
  | some d =>
      dsimp only
      by_cases count : args.length ≠ d.params.length
      · rw [if_pos count, if_pos count]
        exact Or.inr rfl
      · rw [if_neg count, if_neg count]
        by_cases full : l.maxCallDepth ≤ depth
        · rw [if_pos full]
          exact Or.inl rfl
        · have room : ¬ (l.withDepth high).maxCallDepth ≤ depth := fun bound =>
            full (Nat.le_trans less bound)
          rw [if_neg full, if_neg room]
          exact Or.inr rfl

theorem step_withDepth (less : l.maxCallDepth ≤ high) (e : Execution) :
    l.step e = .finished (.error (.callDepthExceeded l.maxCallDepth)) e.machine ∨
      (l.withDepth high).step e = l.step e := by
  -- Of all steps, only that into a called function asks for the limit.
  unfold step
  split
  · exact Or.inr rfl
  · split
    · rename_i op _found
      cases op with
      | declare id => exact Or.inr rfl
      | assign dest value => exact Or.inr rfl
      | call dest callee args =>
          cases callee with
          | support id => exact Or.inr rfl
          | function id =>
              unfold stepOp
              dsimp only
              have evaluated : Operand.evaluateAll (l.withDepth high).program e.current.frame
                  e.machine args = Operand.evaluateAll l.program e.current.frame e.machine args :=
                rfl
              rw [evaluated]
              split
              · exact Or.inr rfl
              · rename_i values _values
                rcases enter_withDepth less e.depth id values with refused | same
                · rw [refused]
                  exact Or.inl rfl
                · rw [same]
                  exact Or.inr rfl
    · exact Or.inr rfl

theorem run_withDepth (less : l.maxCallDepth ≤ high) {result : Except RunFault Value}
    (shallow : ∀ limit, result ≠ .error (.callDepthExceeded limit)) {m : Machine} (budget : Nat) :
    ∀ {e : Execution}, l.run budget e = some (result, m) →
      (l.withDepth high).run budget e = some (result, m) := by
  induction budget with
  | zero =>
      intro e ended
      cases ended
  | succ budget ih =>
      intro e ended
      rcases step_withDepth less e with refused | same
      · rw [run_of_finished refused] at ended
        cases ended
        exact absurd rfl (shallow _)
      · unfold run at ended ⊢
        rw [same]
        cases stepped : l.step e with
        | running next =>
            rw [stepped] at ended
            exact ih ended
        | finished result' m' =>
            rw [stepped] at ended
            exact ended

theorem call_withDepth (less : l.maxCallDepth ≤ high) {result : Except RunFault Value}
    (shallow : ∀ limit, result ≠ .error (.callDepthExceeded limit)) {m after : Machine}
    {budget : Nat} {id : FuncId} {args : List Value}
    (called : l.call budget id args m = some (result, after)) :
    (l.withDepth high).call budget id args m = some (result, after) := by
  unfold call at called ⊢
  rcases enter_withDepth less 0 id args with refused | same
  · rw [refused] at called
    cases called
    exact absurd rfl (shallow _)
  · rw [same]
    cases entered : l.enter 0 id args with
    | error fault =>
        rw [entered] at called
        exact called
    | ok a =>
        rw [entered] at called
        exact run_withDepth less shallow budget called

end Linked

namespace Simulator

/-- Where a call of the simulator ends with that result, so many calls are under way. -/
inductive EndsAt (s : Simulator) (name : String) (args : List Value)
    (result : Except RunFault Value) : (depth : Nat) → Prop where
  | refused {id : FuncId} {fault : RunFault} (named : s.linked.program.functionId? name = some id)
      (refused : s.linked.enter 0 id args = .error fault) (failed : result = .error fault) :
      EndsAt s name args result 0
  | ran {e : Execution} {m : Machine} (stage : s.Stage name args e)
      (finished : s.linked.step e = .finished result m) : EndsAt s name args result e.depth

theorem Stage.deep {s : Simulator} {name : String} {args : List Value} {e : Execution}
    (stage : s.Stage name args e) :
    ∃ root, (s.linked.program.functionId? name).bind s.linked.program.function? = some root ∧
      s.linked.Deep root e := by
  obtain ⟨id, start, count, named, entered, steps⟩ := stage
  refine ⟨start.function, ?_, Linked.deep_steps steps (Linked.deep_of_enter s.machine entered)⟩
  rw [named]
  exact (Linked.enter_ok entered).1

theorem call_withDepth {s after : Simulator} {name : String} {args : List Value} {budget high : Nat}
    {result : Except RunFault Value} (less : s.linked.maxCallDepth ≤ high)
    (shallow : ∀ limit, result ≠ .error (.callDepthExceeded limit))
    (called : s.call budget name args = some (result, after)) :
    call ⟨s.linked.withDepth high, s.machine⟩ budget name args =
      some (result, ⟨s.linked.withDepth high, after.machine⟩) := by
  have sameProgram : (s.linked.withDepth high).program = s.linked.program := rfl
  unfold call at called ⊢
  rw [sameProgram]
  cases named : s.linked.program.functionId? name with
  | none =>
      rw [named] at called
      cases called
      rfl
  | some id =>
      rw [named] at called
      obtain ⟨⟨outcome, m⟩, ended, same⟩ := Option.map_eq_some_iff.mp called
      cases same
      dsimp only
      rw [Linked.call_withDepth less shallow ended]
      rfl

theorem endsAt_of_exceeded {s after : Simulator} {name : String} {args : List Value}
    {budget limit : Nat} (binds : List.Forall₂ Binds s.linked.program.supports s.linked.supports)
    (called : s.call budget name args = some (.error (.callDepthExceeded limit), after)) :
    limit = s.linked.maxCallDepth ∧
      s.EndsAt name args (.error (.callDepthExceeded limit)) s.linked.maxCallDepth := by
  cases called_of_call called with
  | refused named refused =>
      obtain ⟨same, full⟩ := Linked.limit_le_of_enter refused
      have none : s.linked.maxCallDepth = 0 := Nat.le_zero.mp full
      refine ⟨same, ?_⟩
      rw [none]
      exact .refused named refused rfl
  | @ran id start count last _ m named entered steps finished =>
      have stage : s.Stage name args last := ⟨id, start, count, named, entered, steps⟩
      obtain ⟨root, _named, deep⟩ := stage.deep
      obtain ⟨same, full⟩ := deep.depth_eq binds finished
      refine ⟨same, ?_⟩
      rw [← full]
      exact .ran stage finished

/-- Two simulators of a program differ in their limits and machines only. -/
theorem linked_of_create {program : Program} {low high : SimConfig} {s raised : Simulator}
    (created : create program low = .ok s) (created' : create program high = .ok raised) :
    raised.linked = s.linked.withDepth high.maxCallDepth := by
  obtain ⟨supports, linked, created⟩ := bind_ok created
  obtain ⟨values, _defaults, created⟩ := bind_ok created
  obtain ⟨supports', linked', created'⟩ := bind_ok created'
  obtain ⟨values', _defaults', created'⟩ := bind_ok created'
  cases linked.symm.trans linked'
  split at created
  · cases created
  · split at created'
    · cases created'
    · cases created
      cases created'
      rfl

/-- A call that ends, but not because too many calls are under way, ends under a higher limit with
the same result and the same machine. Where a call does end for that reason, as many calls are under
way as the limit allows. At no stage are they more, and they are nested. -/
theorem call_raise {program : Program} {low high : SimConfig} {s raised : Simulator}
    (created : create program low = .ok s) (created' : create program high = .ok raised)
    (less : low.maxCallDepth ≤ high.maxCallDepth) (m : Machine) (name : String)
    (args : List Value) :
    (∀ budget result after,
      call { s with machine := m } budget name args = some (result, after) →
      (∀ limit, result ≠ .error (.callDepthExceeded limit)) →
      call { raised with machine := m } budget name args =
        some (result, { raised with machine := after.machine })) ∧
    (∀ budget limit after,
      call { s with machine := m } budget name args =
        some (.error (.callDepthExceeded limit), after) →
      limit = low.maxCallDepth ∧ EndsAt { s with machine := m } name args
        (.error (.callDepthExceeded limit)) low.maxCallDepth) ∧
    ∀ e, Stage { s with machine := m } name args e → e.depth ≤ low.maxCallDepth ∧
      ∃ root, (program.functionId? name).bind program.function? = some root ∧
        Nested program root e.current.function e.callers := by
  have fresh := fresh_of_create created
  have lifted := linked_of_create created created'
  obtain ⟨⟨p, operations, depth⟩, machine⟩ := s
  obtain ⟨linked, machine'⟩ := raised
  obtain rfl : p = program := fresh.same
  obtain rfl : depth = low.maxCallDepth := fresh.depth
  obtain rfl : linked = _ := lifted
  refine ⟨?_, ?_, ?_⟩
  · intro budget result after called shallow
    exact call_withDepth less shallow called
  · intro budget limit after called
    exact endsAt_of_exceeded fresh.supports called
  · intro e stage
    obtain ⟨root, named, deep⟩ := stage.deep
    exact ⟨deep.bound, root, named, deep.nested⟩

/-- Two functions, the second of which calls the first. -/
def twoCalls : Program :=
  ⟨[], [], [], [], [⟨"inner", [], [], .unit, [⟨none, [], .ret⟩], ⟨0⟩, false⟩,
    ⟨"outer", [], [], .unit, [⟨none, [.call none (.function ⟨0⟩) []], .ret⟩], ⟨0⟩, false⟩]⟩

theorem call_raise_twoCalls : ∃ s raised after,
    create twoCalls ⟨.sparse, .none, 1⟩ = .ok s ∧ create twoCalls ⟨.sparse, .none, 2⟩ = .ok raised ∧
    s.call 1 "inner" [] = some (.ok .unit, after) ∧
    raised.call 1 "inner" [] = some (.ok .unit, { raised with machine := after.machine }) ∧
    s.call 1 "outer" [] = some (.error (.callDepthExceeded 1), after) ∧
    s.EndsAt "outer" [] (.error (.callDepthExceeded 1)) 1 := by
  have created : create twoCalls ⟨.sparse, .none, 1⟩ = .ok ⟨⟨twoCalls, [], 1⟩,
      freshMachine [] [] (.sparse .empty) .none⟩ := rfl
  have created' : create twoCalls ⟨.sparse, .none, 2⟩ = .ok ⟨⟨twoCalls, [], 2⟩,
      freshMachine [] [] (.sparse .empty) .none⟩ := rfl
  have called : call ⟨⟨twoCalls, [], 1⟩, freshMachine [] [] (.sparse .empty) .none⟩ 1 "inner" [] =
      some (.ok .unit, ⟨⟨twoCalls, [], 1⟩, freshMachine [] [] (.sparse .empty) .none⟩) := rfl
  have refused : call ⟨⟨twoCalls, [], 1⟩, freshMachine [] [] (.sparse .empty) .none⟩ 1 "outer" [] =
      some (.error (.callDepthExceeded 1),
        ⟨⟨twoCalls, [], 1⟩, freshMachine [] [] (.sparse .empty) .none⟩) := rfl
  have less : 1 ≤ 2 := by decide
  obtain ⟨same, _⟩ := call_raise created created' less
    (freshMachine [] [] (.sparse .empty) .none) "inner" []
  obtain ⟨_, ends, _⟩ := call_raise created created' less
    (freshMachine [] [] (.sparse .empty) .none) "outer" []
  exact ⟨_, _, _, created, created', called, same 1 _ _ called (by intro limit bad; cases bad),
    refused, (ends 1 1 _ refused).2⟩

end Simulator

end JumpIR
