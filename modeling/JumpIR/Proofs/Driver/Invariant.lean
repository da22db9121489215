import JumpIR.Machine.Driver
import JumpIR.Proofs.Machine.Simulator

/-!
# What the step loop keeps

The loop changes a simulator by calls, whose only argument is unit or a count, and by the events of
instructions that retire. What these keep, it keeps, however it ends. Main statement:
`Driver.Keeps.run`.
-/

set_option autoImplicit false

namespace JumpIR

namespace Driver

/-- The simulator that a round of the loop leaves. -/
def Round.simulator : Round → Simulator
  | .ended (_, s) => s
  | .more _ s => s

/-- What the calls of the loop and the events of retired instructions keep. -/
structure Keeps (config : DriverConfig) (budget : Nat) (P : Simulator → Prop) : Prop where
  call : ∀ {s after : Simulator} {name : String} {arg : Value} {result : Except RunFault Value},
    P s → arg = .unit ∨ (∃ n, arg = .int n) → s.call budget name [arg] = some (result, after) →
    P after
  noted : ∀ {s : Simulator} (count : Nat), P s →
    P { s with machine := noteRetired config count s.machine }

namespace Keeps

variable {config : DriverConfig} {budget : Nat} {P : Simulator → Prop}

theorem tick (keeps : Keeps config budget P) {names : List String} : ∀ {s after : Simulator}
    {result : Except RunFault Unit}, P s → Driver.tick budget names s = some (result, after) →
    P after := by
  induction names with
  | nil =>
      intro s after result here ticked
      cases ticked
      exact here
  | cons name rest ih =>
      intro s after result here ticked
      obtain ⟨⟨outcome, middle⟩, called, others⟩ := Option.bind_eq_some_iff.mp ticked
      have kept := keeps.call here (Or.inl rfl) called
      cases outcome with
      | error fault =>
          cases others
          exact kept
      | ok value => exact ih kept others

theorem afterStep (keeps : Keeps config budget P) {c : Counts} {s : Simulator} {r : Round}
    (here : P s) (followed : Driver.afterStep config budget c s = some r) : P r.simulator := by
  unfold Driver.afterStep at followed
  split at followed
  · obtain ⟨⟨outcome, after⟩, ticked, others⟩ := Option.bind_eq_some_iff.mp followed
    have kept := keeps.tick here ticked
    cases outcome with
    | error fault =>
        cases others
        exact kept
    | ok value =>
        cases others
        exact kept
  · cases followed
    exact here

theorem stepOnce (keeps : Keeps config budget P) {arg : StepArg} {c : Counts} {s : Simulator}
    {r : Round} (here : P s) (stepped : Driver.stepOnce config budget arg c s = some r) :
    P r.simulator := by
  obtain ⟨⟨outcome, after⟩, called, others⟩ := Option.bind_eq_some_iff.mp stepped
  have plain : arg.value c.retired = .unit ∨ ∃ n, arg.value c.retired = .int n := by
    cases arg with
    | count => exact Or.inr ⟨_, rfl⟩
    | unit => exact Or.inl rfl
  have kept := keeps.call here plain called
  cases outcome with
  | error fault =>
      cases others
      exact kept
  | ok value =>
      dsimp only at others
      split at others
      · cases others
        exact kept
      · split at others
        · cases others
          exact kept
        · split at others
          · exact keeps.afterStep (keeps.noted _ kept) others
          · exact keeps.afterStep kept others

theorem round (keeps : Keeps config budget P) {arg : StepArg} {c : Counts} {s : Simulator}
    {r : Round} (here : P s) (done : Driver.round config budget arg c s = some r) :
    P r.simulator := by
  unfold Driver.round at done
  split at done
  · cases done
    exact here
  · cases done
    exact here
  · split at done
    · cases done
      exact here
    · exact keeps.stepOnce here done

theorem loop (keeps : Keeps config budget P) {arg : StepArg} {rounds : Nat} :
    ∀ {c : Counts} {s after : Simulator} {result : Except RunFault RunSummary}, P s →
    Driver.loop config budget arg rounds c s = some (result, after) → P after := by
  induction rounds with
  | zero =>
      intro c s after result _here looped
      cases looped
  | succ rounds ih =>
      intro c s after result here looped
      obtain ⟨r, done, others⟩ := Option.bind_eq_some_iff.mp looped
      have kept := keeps.round here done
      cases r with
      | ended outcome =>
          cases others
          exact kept
      | more c s => exact ih kept others

theorem run (keeps : Keeps config budget P) {s after : Simulator}
    {result : Except RunFault RunSummary} (here : P s)
    (ran : Driver.run config budget s = some (result, after)) : P after := by
  unfold Driver.run at ran
  split at ran
  · cases ran
    exact here
  · exact keeps.loop here ran

end Keeps

theorem keeps_linked (config : DriverConfig) (budget : Nat) (l : Linked) :
    Keeps config budget fun s => s.linked = l where
  call here _plain called := (Simulator.linked_of_call called).trans here
  noted _count here := here

end Driver

end JumpIR
