import JumpIR.Proofs.Machine.Run

/-!
# Calls under way

While a call runs, the calls that wait for it stay as they are, and every call that it starts is
entered by a call operation. `Linked.Within` says so of one stage of a run; a step keeps it or
returns to the first of the calls below.
-/

set_option autoImplicit false

namespace JumpIR

/-- The function has an operation that calls another one and stores into `dest`. -/
def FunctionDef.HasCall (d : FunctionDef) (dest : Option Place) (id : FuncId) : Prop :=
  ∃ (s : Site) (args : List Operand), s.HasOp d.blocks (.call dest (.function id) args)

namespace Linked

variable {l : Linked} {holds : FunctionDef → Prop} {base : List Suspended} {e next : Execution}

/-- A property of functions that a caller hands on to what it calls. -/
def Closed (l : Linked) (holds : FunctionDef → Prop) : Prop :=
  ∀ (d : FunctionDef) (dest : Option Place) (id : FuncId) (depth : Nat) (args : List Value)
    (a : Activation), holds d → d.HasCall dest id → l.enter depth id args = .ok a →
    holds a.function

/-- The calls above `base` are calls of functions with a property, and wait for a call. -/
structure Within (holds : FunctionDef → Prop) (base : List Suspended) (e : Execution) : Prop where
  current : holds e.current.function
  callers : ∃ above, e.callers = above ++ base ∧ ∀ u ∈ above, holds u.activation.function ∧
    ∃ id, u.activation.function.HasCall u.dest id

/-- The call has just been left with a value, and the first call of `base` goes on. -/
def Returns (base : List Suspended) (e next : Execution) : Prop :=
  e.callers = base ∧ ∃ value, leave base value e.machine = .running next

theorem within_of_resume {a : Activation} {callers : List Suspended} {dest : Option Place}
    {value : Value} {m : Machine} (resumed : resume a callers dest value m = .running next) :
    next.current.function = a.function ∧ next.current.block = a.block ∧
      next.current.next = a.next ∧ next.callers = callers := by
  unfold resume at resumed
  cases dest with
  | none =>
      cases resumed
      exact ⟨rfl, rfl, rfl, rfl⟩
  | some place =>
      dsimp only at resumed
      split at resumed
      · cases resumed
        exact ⟨rfl, rfl, rfl, rfl⟩
      · cases resumed

theorem within_of_leave {value : Value} (within : Within holds base e)
    (left : leave e.callers value e.machine = .running next) :
    Within holds base next ∨ Returns base e next := by
  obtain ⟨above, callers, waiting⟩ := within.callers
  cases above with
  | nil =>
      have same : e.callers = base := callers
      exact Or.inr ⟨same, value, same ▸ left⟩
  | cons u above =>
      rw [callers] at left
      obtain ⟨function, _block, _next, callers'⟩ := within_of_resume left
      obtain ⟨held, _called⟩ := waiting u List.mem_cons_self
      refine Or.inl ⟨?_, above, callers', ?_⟩
      · rw [function]
        exact held
      · intro v member
        exact waiting v (List.mem_cons_of_mem u member)

theorem Within.congr (within : Within holds base e)
    (function : next.current.function = e.current.function) (callers : next.callers = e.callers) :
    Within holds base next := by
  refine ⟨?_, ?_⟩
  · rw [function]
    exact within.current
  · rw [callers]
    exact within.callers

theorem within_of_resume_behind {dest : Option Place} {value : Value} {m : Machine}
    (within : Within holds base e)
    (stored : resume e.behind e.callers dest value m = .running next) : Within holds base next := by
  obtain ⟨function, _block, _next, callers⟩ := within_of_resume stored
  exact within.congr function callers

theorem within_of_call (closed : l.Closed holds) (within : Within holds base e)
    {dest : Option Place}
    {id : FuncId} {args : List Operand} {values : List Value} {callee : Activation}
    (op : e.site.HasOp e.current.function.blocks (.call dest (.function id) args))
    (entered : l.enter e.depth id values = .ok callee) :
    Within holds base ⟨callee, ⟨e.behind, dest⟩ :: e.callers, e.machine⟩ := by
  have called : e.current.function.HasCall dest id := ⟨e.site, args, op⟩
  obtain ⟨above, callers, waiting⟩ := within.callers
  refine ⟨closed _ dest id _ values callee within.current called entered,
    ⟨e.behind, dest⟩ :: above, ?_, ?_⟩
  · rw [callers]
    rfl
  · intro u member
    rcases List.mem_cons.mp member with here | below
    · rw [here]
      exact ⟨within.current, id, called⟩
    · exact waiting u below

/-- A step stays above the base, or returns to it. -/
theorem within_step (closed : l.Closed holds) (within : Within holds base e)
    (stepped : l.step e = .running next) : Within holds base next ∨ Returns base e next := by
  cases moves_of_step stepped with
  | declare op declared same =>
      subst same
      exact Or.inl (within.congr rfl rfl)
  | assign op evaluated stored => exact Or.inl (within_of_resume_behind within stored)
  | support op evaluated called stored => exact Or.inl (within_of_resume_behind within stored)
  | call op evaluated entered same =>
      subst same
      exact Or.inl (within_of_call closed within op entered)
  | goto left same =>
      subst same
      exact Or.inl (within.congr rfl rfl)
  | branch left decided same =>
      subst same
      exact Or.inl (within.congr rfl rfl)
  | ret left returned => exact within_of_leave within returned
  | arbitrary left defaulted returned => exact within_of_leave within returned

/-! ### Whole runs -/

theorem Steps.keeps {count : Nat} {last : Execution} (inv : Execution → Prop)
    (keeps : ∀ e next, inv e → l.step e = .running next → inv next)
    (steps : l.Steps count e last) (here : inv e) : inv last := by
  induction steps with
  | refl e => exact here
  | step first _others ih => exact ih (keeps _ _ here first)

/-- Where no calls wait below, there is none to return to. -/
theorem within_next (closed : l.Closed holds) (within : Within holds [] e)
    (stepped : l.step e = .running next) : Within holds [] next := by
  rcases within_step closed within stepped with kept | ⟨_callers, _value, left⟩
  · exact kept
  · cases left

/-- A run without waiting calls never returns below its start. -/
theorem within_steps (closed : l.Closed holds) {count : Nat} {last : Execution}
    (steps : l.Steps count e last) (within : Within holds [] e) : Within holds [] last :=
  steps.keeps (Within holds []) (fun _ _ within stepped => within_next closed within stepped) within

/-- A call runs functions of the program only, so what their steps keep holds of all its stages. -/
theorem keeps_of_enter (inv : Execution → Prop)
    (keeps : ∀ e next, e.current.function ∈ l.program.functions → inv e →
      l.step e = .running next → inv next)
    {id : FuncId} {args : List Value} {start : Activation} {m : Machine} {count : Nat}
    (entered : l.enter 0 id args = .ok start) (steps : l.Steps count ⟨start, [], m⟩ e)
    (here : inv ⟨start, [], m⟩) : e.current.function ∈ l.program.functions ∧ inv e := by
  have closed : l.Closed (· ∈ l.program.functions) := by
    intro d dest id depth args a _ofCaller _called entered
    exact List.mem_of_getElem? (enter_ok entered).1
  have first : Within (· ∈ l.program.functions) [] ⟨start, [], m⟩ :=
    ⟨List.mem_of_getElem? (enter_ok entered).1, [], rfl, fun _ member => nomatch member⟩
  have last : Within (· ∈ l.program.functions) [] e ∧ inv e := by
    refine steps.keeps (fun e => Within (· ∈ l.program.functions) [] e ∧ inv e) ?_ ⟨first, here⟩
    rintro e next ⟨within, kept⟩ stepped
    exact ⟨within_next closed within stepped, keeps e next within.current kept stepped⟩
  exact ⟨last.1.current, last.2⟩

/-! ### Completed calls -/

/-- The run goes on from `e` with more than `depth` calls under way, up to `last`, the first stage
with no more than that. -/
inductive Above (l : Linked) (depth : Nat) : Execution → Execution → Prop where
  | here {e : Execution} (back : e.depth ≤ depth) : Above l depth e e
  | deeper {e middle last : Execution} (deep : depth < e.depth)
      (stepped : l.step e = .running middle)
      (others : Above l depth middle last) : Above l depth e last

/-- The first stage with no more than `depth` calls under way, if it comes within so many steps. -/
def back? (l : Linked) (depth : Nat) : Nat → Execution → Option Execution
  | 0, _ => none
  | budget + 1, e =>
      if e.depth ≤ depth then some e
      else
        match l.step e with
        | .running next => l.back? depth budget next
        | .finished _ _ => none

theorem above_of_back? {depth budget : Nat} : ∀ {e last : Execution},
    l.back? depth budget e = some last → l.Above depth e last := by
  induction budget with
  | zero =>
      intro e last reached
      cases reached
  | succ budget ih =>
      intro e last reached
      unfold back? at reached
      split at reached
      · rename_i back
        cases reached
        exact .here back
      · rename_i deep
        split at reached
        · rename_i next stepped
          exact .deeper (Nat.lt_of_not_le deep) stepped (ih reached)
        · cases reached

/-- The operation that `e` is about to take is completed at `last`. -/
def Completes (l : Linked) (e last : Execution) : Prop :=
  ∃ first, l.step e = .running first ∧ l.Above e.depth first last

/-- A call that comes back comes back to the call that waits for it. -/
theorem returns_of_above (closed : l.Closed holds) {u : Suspended} {rest : List Suspended}
    {last : Execution} (inv : Execution → Prop)
    (keeps : ∀ e next, Within holds (u :: rest) e → inv e → l.step e = .running next →
      Within holds (u :: rest) next → inv next)
    (above : l.Above (rest.length + 1) e last) (within : Within holds (u :: rest) e)
    (here : inv e) :
    ∃ before, Within holds (u :: rest) before ∧ inv before ∧ Returns (u :: rest) before last := by
  induction above with
  | @here e back =>
      obtain ⟨above, callers, _waiting⟩ := within.callers
      unfold Execution.depth at back
      rw [callers, List.length_append, List.length_cons] at back
      omega
  | @deeper e middle last deep stepped others ih =>
      rcases within_step closed within stepped with kept | returned
      · exact ih kept (keeps e middle within here stepped kept)
      · obtain ⟨callers, value, left⟩ := returned
        have below : middle.callers = rest := (within_of_resume left).2.2.2
        cases others with
        | here back => exact ⟨e, within, here, callers, value, left⟩
        | deeper deep' =>
            unfold Execution.depth at deep'
            rw [below] at deep'
            omega

end Linked

end JumpIR
