import JumpIR.Proofs.Driver.Accounting

/-!
# Exceptions of the step loop

The loop looks at the pending flag behind every step call and at no other time. What a step call
raises ends the run as uncaught. What the last of the tick functions raises stays pending while
the loop asks whether it is done and whether the limit is reached, and it is pending behind the run
if one of these ends it. Main statement: `pending_iff_ticked`.
-/

set_option autoImplicit false

namespace JumpIR

namespace Driver

variable {config : DriverConfig} {budget : Nat} {s t : Simulator} {turns : List Turn}

/-! ### The last call -/

/-- Behind calls stands what the last of them leaves. -/
theorem Calls.eq_last {calls : List Call} (led : Calls budget s calls t) :
    t = (calls.getLast?.map Call.after).getD s := by
  induction led with
  | nil s => rfl
  | @cons s t call rest made later ih =>
      rw [ih, List.getLast?_cons]
      cases rest.getLast? <;> rfl

/-- The event of a retired instruction does not touch the exception. -/
theorem Turn.exception_noted (turn : Turn) (config : DriverConfig) (count : Nat) :
    (turn.noted config count).machine.exception = turn.step.after.machine.exception := by
  unfold Turn.noted
  split
  · unfold Simulator.noteRetired Driver.noteRetired
    dsimp only
    split <;> rfl
  · rfl

/-- The turn ends in a call of a tick function that leaves an exception pending. -/
def Turn.TicksRaise (turn : Turn) : Prop :=
  ∃ call, turn.ticks.getLast? = some call ∧ call.after.machine.exception.pending = true

/-- Behind a turn whose step call raised nothing, an exception is pending exactly if the last of the
tick functions left it so. -/
theorem Turn.pending_iff {turn : Turn} {count : Nat} (calm : turn.raises = false)
    (ticks : Calls budget (turn.noted config count) turn.ticks t) :
    t.machine.exception.pending = true ↔ turn.TicksRaise := by
  rw [ticks.eq_last]
  unfold Turn.TicksRaise
  cases last : turn.ticks.getLast? with
  | none =>
      rw [Option.map_none, Option.getD_none, turn.exception_noted]
      constructor
      · intro pending
        cases calm.symm.trans pending
      · rintro ⟨call, impossible, _pending⟩
        cases impossible
  | some call =>
      rw [Option.map_some, Option.getD_some]
      constructor
      · intro pending
        exact ⟨call, rfl, pending⟩
      · rintro ⟨other, same, pending⟩
        cases same
        exact pending

/-- Turns whose step calls raise nothing leave an exception pending exactly if the last of them ends
in a tick function that does. -/
theorem Turns.pending_iff (made : Turns config budget s turns t)
    (unraised : s.machine.exception.pending = false) (calm : ∀ turn ∈ turns, turn.raises = false) :
    t.machine.exception.pending = true ↔
      ∃ turn, turns.getLast? = some turn ∧ turn.TicksRaise := by
  cases made with
  | nil =>
      constructor
      · intro pending
        cases unraised.symm.trans pending
      · rintro ⟨turn, impossible, _raise⟩
        cases impossible
  | @snoc before turn u _ earlier undone room step ticks =>
      have last : (before ++ [turn]).getLast? = some turn := List.getLast?_concat
      rw [Turn.pending_iff (calm turn (List.mem_append_right _ List.mem_cons_self)) ticks, last]
      constructor
      · intro raise
        exact ⟨turn, rfl, raise⟩
      · rintro ⟨other, same, raise⟩
        cases same
        exact raise

/-- Without a period or without tick functions, no turn ends in one. -/
theorem not_ticksRaise (ticksRight : Each (TicksRight config) turns) {turn : Turn}
    (last : turns.getLast? = some turn)
    (silent : config.insnsPerTick = 0 ∨ config.tickFunctions = []) : ¬ turn.TicksRaise := by
  obtain ⟨before, rfl⟩ := List.getLast?_eq_some_iff.mp last
  have requests := (each_concat.mp ticksRight).2
  unfold TicksRight at requests
  have none : turn.ticks.map Call.request = [] := by
    rcases silent with never | absent
    · rw [requests, if_neg]
      rintro ⟨retires, divides⟩
      rw [never, Nat.zero_dvd, retired_concat, retires] at divides
      cases divides
    · rw [requests, absent]
      exact ite_self _
  rintro ⟨call, here, _pending⟩
  rw [List.map_eq_nil_iff.mp none] at here
  cases here

/-! ### Whole runs -/

/-- A run that starts with no exception pending is uncaught exactly if one of its step calls raised.
Any other run leaves an exception pending exactly if the last of its turns ends in a tick function
that does; so it leaves none where no tick functions are called. -/
theorem pending_iff_ticked {summary : RunSummary}
    (unraised : s.machine.exception.pending = false)
    (ended : run config budget s = some (.ok summary, t)) :
    ∃ turns, Accounts config budget s t summary turns ∧
      (summary.stop = .uncaughtException ↔ ∃ turn ∈ turns, turn.raises = true) ∧
      (summary.stop ≠ .uncaughtException →
        (t.machine.exception.pending = true ↔
          ∃ turn, turns.getLast? = some turn ∧ turn.TicksRaise) ∧
        (config.insnsPerTick = 0 ∨ config.tickFunctions = [] →
          t.machine.exception.pending = false)) := by
  unfold run at ended
  split at ended
  · cases ended
  · rename_i arg declared
    obtain ⟨turns, c, u, reached, calm, last⟩ :=
      reached_of_loop declared budget (reached_zero config budget s) ended
    obtain ⟨final, accounts, raised | quiet⟩ := reached.exists_accounts declared last
    · obtain ⟨uncaught, turn, isFinal, raises⟩ := raised
      refine ⟨_, accounts, ?_, fun other => absurd uncaught other⟩
      refine iff_of_true uncaught ⟨turn, ?_, raises⟩
      rw [isFinal]
      exact List.mem_append_right _ List.mem_cons_self
    · obtain ⟨caught, rfl⟩ := quiet
      rw [List.append_nil, List.nil_append] at accounts
      refine ⟨turns, accounts, iff_of_false caught ?_, fun _ => ?_⟩
      · rintro ⟨turn, member, raises⟩
        cases (calm turn member).symm.trans raises
      · have exact' := accounts.made.pending_iff unraised calm
        refine ⟨exact', fun silent => Bool.eq_false_iff.mpr ?_⟩
        intro pending
        obtain ⟨turn, last, raise⟩ := exact'.mp pending
        exact not_ticksRaise accounts.tickCalls last silent raise

/-! ### A tick function that raises -/

/-- The text of a step function that retires an instruction, and of a tick function that raises. -/
def alarmText : SourceText := .ofString "alarm" (String.join [
  "val zstep : (%unit) -> %bool\n",
  "fn zstep(zu) \x7b return = true; end; \x7d\n",
  "val ztick : (%unit) -> %unit\n",
  "fn ztick(zu) \x7b have_exception = true; end; \x7d\n"])

def alarmConfig : DriverConfig :=
  { DriverConfig.default with
    tickFunctions := ["ztick"]
    insnsPerTick := 1
    insnLimit := 1 }

/-- Whether a run of the text starts with no exception pending and reaches its limit with one. -/
def endsInAlarm (source : SourceText) : Bool :=
  match source.simulator? with
  | none => false
  | some (_, s) =>
      match run alarmConfig 10 s with
      | some (.ok summary, t) =>
          summary == ⟨1, 1, 1, .insnLimit⟩ && !s.machine.exception.pending &&
            t.machine.exception.pending
      | _ => false

theorem exists_of_endsInAlarm {source : SourceText} (ends : endsInAlarm source = true) :
    ∃ s t, s.machine.exception.pending = false ∧
      run alarmConfig 10 s = some (.ok ⟨1, 1, 1, .insnLimit⟩, t) ∧
      t.machine.exception.pending = true := by
  unfold endsInAlarm at ends
  split at ends
  · cases ends
  · rename_i program s simulated
    split at ends
    · rename_i summary t ended
      simp only [Bool.and_eq_true, Bool.not_eq_true', beq_iff_eq] at ends
      obtain ⟨⟨rfl, unraised⟩, pending⟩ := ends
      exact ⟨s, t, unraised, ended, pending⟩
    · cases ends

theorem endsInAlarm_alarmText : endsInAlarm alarmText = true := by
  decide +kernel

/-- A run can reach its limit with an exception pending that it does not report. -/
theorem exists_pending_at_limit : ¬ ∀ (config : DriverConfig) (budget : Nat) (s t : Simulator)
    (summary : RunSummary), s.machine.exception.pending = false →
    run config budget s = some (.ok summary, t) →
    summary.stop = .done ∨ summary.stop = .insnLimit →
    t.machine.exception.pending = false := by
  intro reported
  obtain ⟨s, t, unraised, ended, pending⟩ := exists_of_endsInAlarm endsInAlarm_alarmText
  cases (reported alarmConfig 10 s t _ unraised ended (Or.inr rfl)).symm.trans pending

theorem pending_iff_ticked_alarmText : ∃ s t turns, s.machine.exception.pending = false ∧
    run alarmConfig 10 s = some (.ok ⟨1, 1, 1, .insnLimit⟩, t) ∧
    Accounts alarmConfig 10 s t ⟨1, 1, 1, .insnLimit⟩ turns ∧
    (∀ turn ∈ turns, turn.raises = false) ∧
    ∃ turn, turns.getLast? = some turn ∧ turn.TicksRaise := by
  obtain ⟨s, t, unraised, ended, pending⟩ := exists_of_endsInAlarm endsInAlarm_alarmText
  obtain ⟨turns, accounts, uncaught, otherwise⟩ := pending_iff_ticked unraised ended
  refine ⟨s, t, turns, unraised, ended, accounts, ?_, (otherwise nofun).1.mp pending⟩
  intro turn member
  cases raises : turn.raises with
  | false => rfl
  | true => cases uncaught.mpr ⟨turn, member, raises⟩

end Driver

end JumpIR
