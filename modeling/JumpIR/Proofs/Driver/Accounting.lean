import Mathlib.Algebra.Group.Nat.Defs
import JumpIR.Machine.Driver
import JumpIR.Proofs.Reference.Correctness

/-!
# Accounts of the step loop

What the step loop did is told by the turns it made: a step call each, and the calls of tick
functions right behind it. The turns are a list of calls and hold no count. `Accounts` says what the
summary of a run is in terms of them, and `existsUnique_accounts` that every run with a
summary has one account.
-/

set_option autoImplicit false

namespace JumpIR

/-- The simulator that keeps the event that instruction number `count` retired. -/
def Simulator.noteRetired (s : Simulator) (config : DriverConfig) (count : Nat) : Simulator :=
  { s with machine := Driver.noteRetired config count s.machine }

namespace Driver

/-! ### Turns -/

/-- A call that returned, and the simulator behind it. -/
structure Call where
  name : String
  argument : Value
  result : Value
  after : Simulator

def Call.Made (call : Call) (budget : Nat) (s : Simulator) : Prop :=
  s.call budget call.name [call.argument] = some (.ok call.result, call.after)

/-- What a call asks for. -/
def Call.request (call : Call) : String × Value := (call.name, call.argument)

/-- From the first simulator exactly those calls lead to the second one. -/
inductive Calls (budget : Nat) : Simulator → List Call → Simulator → Prop where
  | nil (s : Simulator) : Calls budget s [] s
  | cons {s t : Simulator} {call : Call} {rest : List Call} (made : call.Made budget s)
      (later : Calls budget call.after rest t) : Calls budget s (call :: rest) t

/-- A step call and the calls of tick functions behind it. -/
structure Turn where
  step : Call
  ticks : List Call

namespace Turn

def raises (turn : Turn) : Bool := turn.step.after.machine.exception.pending

/-- Whether the step call returned true with no exception pending. -/
def retires (turn : Turn) : Bool := turn.step.result == .bool true && !turn.raises

/-- The simulator from which the tick functions are called, when so many instructions have
retired. -/
def noted (turn : Turn) (config : DriverConfig) (count : Nat) : Simulator :=
  if turn.retires then turn.step.after.noteRetired config count else turn.step.after

end Turn

/-- How many of the turns retired an instruction. -/
def retired (turns : List Turn) : Nat := turns.countP Turn.retires

/-- Each of the turns stands in `P` to the turns before it. -/
def Each (P : List Turn → Turn → Prop) (turns : List Turn) : Prop :=
  ∀ before turn after, turns = before ++ turn :: after → P before turn

/-- From `s` exactly the calls of those turns lead to the second simulator. Before each turn the done
register is not true, and the limit is not reached. -/
inductive Turns (config : DriverConfig) (budget : Nat) (s : Simulator) :
    List Turn → Simulator → Prop where
  | nil : Turns config budget s [] s
  | snoc {turns : List Turn} {turn : Turn} {t u : Simulator}
      (before : Turns config budget s turns t) (undone : isDone config t = .ok false)
      (room : config.insnLimit ≠ 0 → retired turns < config.insnLimit)
      (step : turn.step.Made budget t)
      (ticks : Calls budget (turn.noted config (retired (turns ++ [turn]))) turn.ticks u) :
      Turns config budget s (turns ++ [turn]) u

/-- The declared type of the step function's only parameter. -/
def stepType? (config : DriverConfig) (program : Program) : Option Ty := do
  let id ← program.functionId? config.stepFunction
  let f ← program.function? id
  match f.params with
  | [param] => (f.locals[param.index]?).map (·.type)
  | _ => none

/-- What the step function takes when so many instructions have retired: their number, or the
greatest one that there is, or unit, as its parameter is declared. -/
inductive Takes (config : DriverConfig) (program : Program) (count : Nat) : Value → Prop where
  | count {n : Int64} (declared : stepType? config program = some .int)
      (number : n.toInt = min count (2 ^ 63 - 1)) : Takes config program count (.int n)
  | unit (declared : stepType? config program = some .unit) : Takes config program count .unit

/-- The step call of a turn asks for the step function, with the argument that is due. -/
def StepsRight (config : DriverConfig) (program : Program) (before : List Turn)
    (turn : Turn) : Prop :=
  turn.step.name = config.stepFunction ∧
    Takes config program (retired before) turn.step.argument

/-- A turn calls the tick functions, in order and each once, if it retired an instruction and so many
have retired by then that their number is a multiple of the period; otherwise it calls none. -/
def TicksRight (config : DriverConfig) (before : List Turn) (turn : Turn) : Prop :=
  turn.ticks.map Call.request =
    if turn.retires ∧ config.insnsPerTick ∣ retired (before ++ [turn]) then
      config.tickFunctions.map fun name => (name, .unit)
    else []

/-- The turns account for a run from `s` to `t` with that summary. -/
structure Accounts (config : DriverConfig) (budget : Nat) (s t : Simulator) (summary : RunSummary)
    (turns : List Turn) : Prop where
  made : Turns config budget s turns t
  steps : summary.steps = turns.length
  retired : summary.retired = retired turns
  neverTicks : config.insnsPerTick = 0 → summary.ticks = 0
  ticks : config.insnsPerTick ≠ 0 → summary.ticks = summary.retired / config.insnsPerTick
  limit : config.insnLimit ≠ 0 → summary.retired ≤ config.insnLimit
  atLimit : summary.stop = .insnLimit →
    config.insnLimit ≠ 0 ∧ summary.retired = config.insnLimit ∧
      ∀ name, config.doneRegister = some name → t.register? name = some (.bool false)
  atDone : summary.stop = .done →
    ∃ name, config.doneRegister = some name ∧ t.register? name = some (.bool true)
  uncaught : summary.stop = .uncaughtException →
    summary.retired < summary.steps ∧ t.machine.exception.pending = true
  stepCalls : Each (StepsRight config s.linked.program) turns
  tickCalls : Each (TicksRight config) turns

/-! ### Lists of turns -/

theorem retired_concat (turns : List Turn) (turn : Turn) :
    retired (turns ++ [turn]) = retired turns + turn.retires.toNat := by
  unfold retired
  rw [List.countP_append, List.countP_singleton]
  cases turn.retires <;> rfl

theorem retired_le (turns : List Turn) : retired turns ≤ turns.length := List.countP_le_length

theorem each_nil (P : List Turn → Turn → Prop) : Each P [] := by
  intro before turn after split
  simp at split

theorem each_concat {P : List Turn → Turn → Prop} {turns : List Turn} {last : Turn} :
    Each P (turns ++ [last]) ↔ Each P turns ∧ P turns last := by
  constructor
  · intro each
    refine ⟨?_, each turns last [] rfl⟩
    intro before turn after split
    exact each before turn (after ++ [last]) (by rw [split, List.append_assoc, List.cons_append])
  · intro both before turn after split
    rcases List.eq_nil_or_concat after with last' | inner
    · subst last'
      have parts := List.append_inj' split rfl
      cases parts.1
      cases parts.2
      exact both.2
    · rcases inner with ⟨rest, final, same⟩
      rw [same, List.concat_eq_append, ← List.cons_append, ← List.append_assoc] at split
      exact both.1 before turn rest (List.append_inj' split rfl).1

/-! ### One turn of the loop -/

variable {config : DriverConfig} {budget : Nat} {arg : StepArg} {c : Counts} {s t : Simulator}

theorem calls_of_tick (names : List String) : ∀ {s u : Simulator},
    tick budget names s = some (.ok (), u) →
    ∃ calls, Calls budget s calls u ∧
      calls.map Call.request = names.map fun name => (name, .unit) := by
  induction names with
  | nil =>
      intro s u ended
      cases ended
      exact ⟨[], .nil s, rfl⟩
  | cons name rest ih =>
      intro s u ended
      unfold tick at ended
      rcases Option.bind_eq_some_iff.mp ended with ⟨⟨result, t⟩, called, goes⟩
      cases result with
      | error fault => cases goes
      | ok value =>
          rcases ih goes with ⟨calls, later, requests⟩
          refine ⟨⟨name, .unit, value, t⟩ :: calls, .cons called later, ?_⟩
          rw [List.map_cons, List.map_cons, requests]
          rfl

/-- The counts behind a step call, before a tick. -/
def Counts.stepped (c : Counts) (retires : Bool) : Counts :=
  { c with
    steps := c.steps + 1
    retired := c.retired + retires.toNat
    sinceTick := c.sinceTick + retires.toNat }

/-- Whether a tick is due. -/
def Counts.isDue (c : Counts) (config : DriverConfig) : Bool :=
  config.insnsPerTick ≤ c.sinceTick && config.insnsPerTick ≠ 0

theorem Counts.isDue_iff : c.isDue config = true ↔
    config.insnsPerTick ≤ c.sinceTick ∧ config.insnsPerTick ≠ 0 := by
  simp [Counts.isDue]

/-- The counts behind a tick, if one is due. -/
def Counts.ticked (c : Counts) (config : DriverConfig) : Counts :=
  if c.isDue config then { c with sinceTick := 0, ticks := c.ticks + 1 } else c

/-- What a round of the loop leads to when no call of it fails. -/
inductive Leads (config : DriverConfig) (budget : Nat) (arg : StepArg) (c : Counts)
    (s : Simulator) : Round → Prop where
  | fault {cause : RunFault} {t : Simulator} : Leads config budget arg c s (.ended (.error cause, t))
  | done (isDone : isDone config s = .ok true) :
      Leads config budget arg c s (.ended (.ok (c.summary .done), s))
  | limit (undone : isDone config s = .ok false) (limited : config.insnLimit ≠ 0)
      (reached : config.insnLimit ≤ c.retired) :
      Leads config budget arg c s (.ended (.ok (c.summary .insnLimit), s))
  | raised {step : Call} (undone : isDone config s = .ok false)
      (room : config.insnLimit ≠ 0 → c.retired < config.insnLimit) (made : step.Made budget s)
      (request : step.request = (config.stepFunction, arg.value c.retired))
      (raises : Turn.raises ⟨step, []⟩ = true) :
      Leads config budget arg c s
        (.ended (.ok ((c.stepped false).summary .uncaughtException), step.after))
  | turned {turn : Turn} {t : Simulator} (undone : isDone config s = .ok false)
      (room : config.insnLimit ≠ 0 → c.retired < config.insnLimit) (made : turn.step.Made budget s)
      (request : turn.step.request = (config.stepFunction, arg.value c.retired))
      (ticks : Calls budget (turn.noted config (c.stepped turn.retires).retired) turn.ticks t)
      (requests : turn.ticks.map Call.request =
        if (c.stepped turn.retires).isDue config then
          config.tickFunctions.map fun name => (name, .unit)
        else []) :
      Leads config budget arg c s (.more ((c.stepped turn.retires).ticked config) t)

/-- What follows a step call that raised nothing. -/
theorem leads_afterStep {step : Call} {b : Bool} {r : Round}
    (undone : isDone config s = .ok false)
    (room : config.insnLimit ≠ 0 → c.retired < config.insnLimit) (made : step.Made budget s)
    (request : step.request = (config.stepFunction, arg.value c.retired))
    (result : step.result = .bool b) (quiet : step.after.machine.exception.pending = false)
    (after : afterStep config budget (c.stepped b)
      (if b then step.after.noteRetired config (c.stepped b).retired else step.after) = some r) :
    Leads config budget arg c s r := by
  have retires : ∀ ticks, Turn.retires ⟨step, ticks⟩ = b := by
    intro ticks
    unfold Turn.retires Turn.raises
    dsimp only
    rw [quiet, result, Bool.not_false, Bool.and_true]
    cases b <;> rfl
  have noted : ∀ ticks, Turn.noted ⟨step, ticks⟩ config (c.stepped b).retired =
      if b then step.after.noteRetired config (c.stepped b).retired else step.after := by
    intro ticks
    unfold Turn.noted
    rw [retires]
  unfold afterStep at after
  split at after
  · rename_i due
    have isDue : (c.stepped b).isDue config = true := Counts.isDue_iff.mpr due
    rcases Option.bind_eq_some_iff.mp after with ⟨⟨outcome, u⟩, ticked, goes⟩
    cases outcome with
    | error fault =>
        cases goes
        exact .fault
    | ok nothing =>
        cases goes
        rcases calls_of_tick config.tickFunctions ticked with ⟨calls, led, requests⟩
        have turned := @Leads.turned config budget arg c s ⟨step, calls⟩ u undone room made request
          (by rwa [retires, noted]) (by rw [retires, if_pos isDue]; exact requests)
        rw [retires, Counts.ticked, if_pos isDue] at turned
        exact turned
  · rename_i early
    have notDue : ¬ (c.stepped b).isDue config = true := fun due => early (Counts.isDue_iff.mp due)
    cases after
    have turned := @Leads.turned config budget arg c s ⟨step, []⟩ _ undone room made request
      (.nil _) (by rw [retires, if_neg notDue]; rfl)
    rw [retires, noted, Counts.ticked, if_neg notDue] at turned
    exact turned

theorem leads_round {r : Round} (ended : round config budget arg c s = some r) :
    Leads config budget arg c s r := by
  unfold round at ended
  split at ended
  · cases ended
    exact .fault
  · rename_i isDone
    cases ended
    exact .done isDone
  · rename_i undone
    split at ended
    · rename_i limited
      cases ended
      exact .limit undone limited.1 limited.2
    · rename_i unlimited
      have room : config.insnLimit ≠ 0 → c.retired < config.insnLimit := by
        intro limited
        exact Nat.lt_of_not_le fun reached => unlimited ⟨limited, reached⟩
      unfold stepOnce at ended
      rcases Option.bind_eq_some_iff.mp ended with ⟨⟨outcome, t⟩, called, goes⟩
      cases outcome with
      | error fault =>
          cases goes
          exact .fault
      | ok value =>
          have made : Call.Made ⟨config.stepFunction, arg.value c.retired, value, t⟩ budget s := called
          dsimp only at goes
          split at goes
          · cases goes
            exact .fault
          · rename_i b isBool
            have result : value = .bool b := by
              cases value with
              | bool value =>
                  cases isBool
                  rfl
              | _ => cases isBool
            split at goes
            · rename_i pending
              cases goes
              exact .raised undone room made rfl pending
            · rename_i quiet
              refine leads_afterStep undone room made rfl result (Bool.eq_false_iff.mpr quiet) ?_
              cases b with
              | true => exact goes
              | false => exact goes

/-! ### Counts and turns -/

/-- The counts tell the turns so far: what has retired since the last tick is what its number leaves
over when it is divided by the period. -/
structure Counts.Tell (c : Counts) (config : DriverConfig) (turns : List Turn) : Prop where
  steps : c.steps = turns.length
  retired : c.retired = Driver.retired turns
  unticked : config.insnsPerTick = 0 → c.ticks = 0
  parts : config.insnsPerTick ≠ 0 → c.retired = config.insnsPerTick * c.ticks + c.sinceTick
  early : config.insnsPerTick ≠ 0 → c.sinceTick < config.insnsPerTick

theorem tell_nil (config : DriverConfig) : Counts.zero.Tell config [] where
  steps := rfl
  retired := rfl
  unticked := fun _ => rfl
  parts := fun _ => rfl
  early := Nat.pos_of_ne_zero

/-- A tick is due just behind a retirement that makes a multiple of the period. -/
theorem isDue_stepped {turns : List Turn} (tell : c.Tell config turns) (b : Bool) :
    (c.stepped b).isDue config = true ↔
      b = true ∧ config.insnsPerTick ∣ c.retired + b.toNat := by
  have due : (c.stepped b).isDue config = true ↔
      config.insnsPerTick ≤ c.sinceTick + b.toNat ∧ config.insnsPerTick ≠ 0 := Counts.isDue_iff
  rw [due]
  by_cases never : config.insnsPerTick = 0
  · constructor
    · intro both
      exact absurd never both.2
    · intro both
      rw [never, both.1, Nat.zero_dvd] at both
      exact absurd both.2 (Nat.succ_ne_zero _)
  · have early := tell.early never
    rw [tell.parts never, Nat.add_assoc, Nat.dvd_add_right (Nat.dvd_mul_right _ _)]
    cases b with
    | false =>
        rw [Bool.toNat_false, Nat.add_zero]
        constructor
        · intro both
          exact absurd both.1 (Nat.not_le_of_lt early)
        · intro both
          cases both.1
    | true =>
        rw [Bool.toNat_true]
        constructor
        · intro both
          have whole : c.sinceTick + 1 = config.insnsPerTick := by omega
          exact ⟨rfl, whole ▸ Nat.dvd_refl _⟩
        · intro both
          exact ⟨Nat.le_of_dvd (Nat.succ_pos _) both.2, never⟩

theorem tell_concat {turns : List Turn} (tell : c.Tell config turns) (turn : Turn) :
    ((c.stepped turn.retires).ticked config).Tell config (turns ++ [turn]) := by
  have count := retired_concat turns turn
  have bound : turn.retires.toNat ≤ 1 := Bool.toNat_le _
  unfold Counts.ticked
  split
  · rename_i due
    have most : config.insnsPerTick ≤ c.sinceTick + turn.retires.toNat ∧
        config.insnsPerTick ≠ 0 := Counts.isDue_iff.mp due
    have early := tell.early most.2
    have parts := tell.parts most.2
    exact {
      steps := by simp [Counts.stepped, tell.steps]
      retired := by simp [Counts.stepped, tell.retired, count]
      unticked := fun never => absurd never most.2
      parts := by
        intro _
        have whole : c.sinceTick + turn.retires.toNat = config.insnsPerTick := by omega
        simp only [Counts.stepped]
        rw [parts, Nat.add_assoc, whole, Nat.mul_succ, Nat.add_zero]
      early := Nat.pos_of_ne_zero }
  · rename_i notDue
    have least : config.insnsPerTick ≠ 0 →
        c.sinceTick + turn.retires.toNat < config.insnsPerTick := by
      intro ever
      exact Nat.lt_of_not_le fun most => notDue (Counts.isDue_iff.mpr ⟨most, ever⟩)
    exact {
      steps := by simp [Counts.stepped, tell.steps]
      retired := by simp [Counts.stepped, tell.retired, count]
      unticked := tell.unticked
      parts := by
        intro ever
        simp only [Counts.stepped]
        rw [tell.parts ever, Nat.add_assoc]
      early := least }

theorem Counts.Tell.ticks_eq {turns : List Turn} (tell : c.Tell config turns)
    (ever : config.insnsPerTick ≠ 0) : c.ticks = c.retired / config.insnsPerTick := by
  rw [tell.parts ever, Nat.mul_add_div (Nat.pos_of_ne_zero ever),
    Nat.div_eq_of_lt (tell.early ever), Nat.add_zero]

/-! ### The whole run -/

/-- A state of the loop: the turns so far lead to it, its counts tell them, and their calls are the
right ones. -/
structure Reached (config : DriverConfig) (budget : Nat) (start : Simulator) (turns : List Turn)
    (c : Counts) (s : Simulator) : Prop where
  made : Turns config budget start turns s
  tell : c.Tell config turns
  within : config.insnLimit ≠ 0 → c.retired ≤ config.insnLimit
  stepCalls : Each (StepsRight config start.linked.program) turns
  tickCalls : Each (TicksRight config) turns

theorem reached_zero (config : DriverConfig) (budget : Nat) (s : Simulator) :
    Reached config budget s [] .zero s where
  made := .nil
  tell := tell_nil config
  within := fun _ => Nat.zero_le _
  stepCalls := each_nil _
  tickCalls := each_nil _

theorem takes_of_stepArg {program : Program} (declared : stepArg config program = .ok arg)
    (count : Nat) : Takes config program count (arg.value count) := by
  unfold stepArg at declared
  split at declared
  · cases declared
  · rename_i f found
    rcases Option.bind_eq_some_iff.mp found with ⟨id, named, known⟩
    split at declared
    · rename_i param single
      have type : stepType? config program = (f.locals[param.index]?).map (·.type) := by
        simp only [stepType?, named, known, single, Option.bind_eq_bind, Option.bind_some]
      split at declared
      · rename_i isInt
        cases declared
        have most : Int64.maxValue.toInt = 9223372036854775807 := by decide
        refine .count (type.trans isInt) ?_
        have natural : (0 : Int) ≤ count := Int.natCast_nonneg count
        rw [most, Int64.toInt_ofInt_of_le (by omega) (by omega)]
        omega
      · rename_i isUnit
        cases declared
        exact .unit (type.trans isUnit)
      · cases declared
    · cases declared

variable {start : Simulator} {turns : List Turn}

/-- One turn more, behind which the tick functions that are due have been called. -/
theorem Reached.concat (turn : Turn) (reached : Reached config budget start turns c s)
    (declared : stepArg config start.linked.program = .ok arg)
    (undone : isDone config s = .ok false)
    (room : config.insnLimit ≠ 0 → c.retired < config.insnLimit) (made : turn.step.Made budget s)
    (request : turn.step.request = (config.stepFunction, arg.value c.retired))
    (ticks : Calls budget (turn.noted config (c.stepped turn.retires).retired) turn.ticks t)
    (requests : turn.ticks.map Call.request =
      if (c.stepped turn.retires).isDue config then
        config.tickFunctions.map fun name => (name, .unit)
      else []) :
    Reached config budget start (turns ++ [turn]) ((c.stepped turn.retires).ticked config) t := by
  have tell := tell_concat reached.tell turn
  have count : retired (turns ++ [turn]) = c.retired + turn.retires.toNat := by
    rw [retired_concat, reached.tell.retired]
  have due := isDue_stepped reached.tell turn.retires
  have bound : turn.retires.toNat ≤ 1 := Bool.toNat_le _
  refine ⟨?_, tell, ?_, ?_, ?_⟩
  · refine .snoc reached.made undone (fun limited => ?_) made ?_
    · rw [← reached.tell.retired]
      exact room limited
    · rw [count]
      exact ticks
  · intro limited
    have below := room limited
    rw [tell.retired, count]
    omega
  · refine each_concat.mpr ⟨reached.stepCalls, congrArg Prod.fst request, ?_⟩
    rw [show turn.step.argument = arg.value c.retired from congrArg Prod.snd request,
      ← reached.tell.retired]
    exact takes_of_stepArg declared c.retired
  · refine each_concat.mpr ⟨reached.tickCalls, ?_⟩
    unfold TicksRight
    rw [requests, count]
    exact if_congr due rfl rfl

/-- A state at which the run stops for a reason accounts for the summary. -/
theorem Reached.accounts {stop : StopReason} (reached : Reached config budget start turns c s)
    (atLimit : stop = .insnLimit → config.insnLimit ≠ 0 ∧ c.retired = config.insnLimit ∧
      ∀ name, config.doneRegister = some name → s.register? name = some (.bool false))
    (atDone : stop = .done →
      ∃ name, config.doneRegister = some name ∧ s.register? name = some (.bool true))
    (uncaught : stop = .uncaughtException →
      c.retired < c.steps ∧ s.machine.exception.pending = true) :
    Accounts config budget start s (c.summary stop) turns where
  made := reached.made
  steps := reached.tell.steps
  retired := reached.tell.retired
  neverTicks := reached.tell.unticked
  ticks := reached.tell.ticks_eq
  limit := reached.within
  atLimit := atLimit
  atDone := atDone
  uncaught := uncaught
  stepCalls := reached.stepCalls
  tickCalls := reached.tickCalls

theorem register_of_isDone {b : Bool} {name : String} (known : isDone config s = .ok b)
    (configured : config.doneRegister = some name) : s.register? name = some (.bool b) := by
  unfold isDone at known
  rw [configured] at known
  dsimp only at known
  split at known
  · cases known
  · rename_i value read
    rw [read]
    cases value with
    | bool value =>
        cases known
        rfl
    | _ => cases known

theorem exists_doneRegister (known : isDone config s = .ok true) :
    ∃ name, config.doneRegister = some name := by
  unfold isDone at known
  split at known
  · cases known
  · rename_i name configured
    exact ⟨name, configured⟩

/-- What a state leads to that ends the run is accounted for by the turns so far, and by one more if
the run ends in a step call that raised. -/
theorem Reached.exists_accounts {summary : RunSummary}
    (reached : Reached config budget start turns c s)
    (declared : stepArg config start.linked.program = .ok arg)
    (last : Leads config budget arg c s (.ended (.ok summary, t))) :
    ∃ final, Accounts config budget start t summary (turns ++ final) ∧
      (summary.stop = .uncaughtException ∧ (∃ turn, final = [turn] ∧ turn.raises = true) ∨
        summary.stop ≠ .uncaughtException ∧ final = []) := by
  cases last with
  | done isDone =>
      rcases exists_doneRegister isDone with ⟨name, configured⟩
      refine ⟨[], ?_, Or.inr ⟨nofun, rfl⟩⟩
      rw [List.append_nil]
      exact reached.accounts nofun
        (fun _ => ⟨name, configured, register_of_isDone isDone configured⟩) nofun
  | limit undone limited most =>
      have full := Nat.le_antisymm (reached.within limited) most
      refine ⟨[], ?_, Or.inr ⟨nofun, rfl⟩⟩
      rw [List.append_nil]
      exact reached.accounts
        (fun _ => ⟨limited, full, fun name => register_of_isDone undone⟩) nofun nofun
  | @raised step undone room made request raises =>
      have calm : Turn.retires ⟨step, []⟩ = false := by
        unfold Turn.retires
        rw [raises, Bool.not_true, Bool.and_false]
      have notDue : ¬ (c.stepped false).isDue config = true := by
        intro due
        cases ((isDue_stepped reached.tell false).mp due).1
      have all := reached.concat ⟨step, []⟩ declared undone room made request
        (.nil _) (by rw [calm, if_neg notDue]; rfl)
      rw [calm, Counts.ticked, if_neg notDue] at all
      unfold Turn.noted at all
      rw [if_neg (Bool.eq_false_iff.mp calm)] at all
      refine ⟨[⟨step, []⟩], all.accounts nofun nofun (fun _ => ⟨?_, raises⟩),
        Or.inl ⟨rfl, ⟨step, []⟩, rfl, raises⟩⟩
      have fewer := retired_le turns
      rw [← reached.tell.retired, ← reached.tell.steps] at fewer
      exact Nat.lt_succ_of_le fewer

/-- The step call of a round behind which the loop goes on leaves no exception pending. -/
theorem calm_of_round {next : Counts} {turn : Turn}
    (ended : round config budget arg c s = some (.more next t)) (made : turn.step.Made budget s)
    (request : turn.step.request = (config.stepFunction, arg.value c.retired)) :
    turn.raises = false := by
  unfold round at ended
  split at ended
  · cases ended
  · cases ended
  · split at ended
    · cases ended
    · unfold stepOnce at ended
      rcases Option.bind_eq_some_iff.mp ended with ⟨⟨outcome, after⟩, called, goes⟩
      rcases turn with ⟨⟨name, argument, result, behind⟩, ticks⟩
      cases request
      cases called.symm.trans made
      dsimp only at goes
      split at goes
      · cases goes
      · split at goes
        · cases goes
        · rename_i quiet
          exact Bool.eq_false_iff.mpr quiet

/-- A run that ends with a summary makes turns that raise nothing, and then a round that ends it. -/
theorem reached_of_loop (declared : stepArg config start.linked.program = .ok arg)
    (rounds : Nat) : ∀ {turns : List Turn} {c : Counts} {s t : Simulator} {summary : RunSummary},
    Reached config budget start turns c s →
    loop config budget arg rounds c s = some (.ok summary, t) →
    ∃ more c u, Reached config budget start (turns ++ more) c u ∧
      (∀ turn ∈ more, turn.raises = false) ∧
      Leads config budget arg c u (.ended (.ok summary, t)) := by
  induction rounds with
  | zero =>
      intro turns c s t summary _reached ended
      cases ended
  | succ rounds ih =>
      intro turns c s t summary reached ended
      unfold loop at ended
      rcases Option.bind_eq_some_iff.mp ended with ⟨r, rounded, goes⟩
      have led := leads_round rounded
      cases r with
      | ended outcome =>
          cases goes
          refine ⟨[], c, s, ?_, List.forall_mem_nil _, led⟩
          rw [List.append_nil]
          exact reached
      | more next u =>
          cases led with
          | turned undone room made request ticks requests =>
              rename_i turn
              have calm := calm_of_round rounded made request
              rcases ih (reached.concat _ declared undone room made request ticks requests) goes
                with ⟨more, c, v, further, others, last⟩
              refine ⟨turn :: more, c, v, ?_, List.forall_mem_cons.mpr ⟨calm, others⟩, last⟩
              rw [List.append_cons]
              exact further

theorem accounts_of_loop (declared : stepArg config start.linked.program = .ok arg)
    (rounds : Nat) {turns : List Turn} {c : Counts} {s t : Simulator} {summary : RunSummary}
    (reached : Reached config budget start turns c s)
    (ended : loop config budget arg rounds c s = some (.ok summary, t)) :
    ∃ turns, Accounts config budget start t summary turns := by
  rcases reached_of_loop declared rounds reached ended with ⟨more, c, u, further, _calm, last⟩
  rcases further.exists_accounts declared last with ⟨final, accounts, _stop⟩
  exact ⟨_, accounts⟩

/-! ### One account only -/

theorem Call.Made.unique {call other : Call} (made : call.Made budget s)
    (madeToo : other.Made budget s) (same : call.request = other.request) : call = other := by
  rcases call with ⟨name, argument, result, after⟩
  rcases other with ⟨name', argument', result', after'⟩
  cases same
  cases made.symm.trans madeToo
  rfl

theorem Calls.unique {calls : List Call} {u : Simulator} (led : Calls budget s calls u) :
    ∀ {others : List Call} {v : Simulator}, Calls budget s others v →
      calls.map Call.request = others.map Call.request → calls = others ∧ u = v := by
  induction led with
  | nil s =>
      intro others v ledToo same
      cases ledToo with
      | nil => exact ⟨rfl, rfl⟩
      | cons made later => cases same
  | @cons s u call rest made later ih =>
      intro others v ledToo same
      cases ledToo with
      | nil => cases same
      | @cons _ _ other rest' madeToo laterToo =>
          have parts := List.cons.inj same
          cases made.unique madeToo parts.1
          have both := ih laterToo parts.2
          exact ⟨congrArg (call :: ·) both.1, both.2⟩

theorem Takes.unique {program : Program} {count : Nat} {v w : Value}
    (takes : Takes config program count v) (takesToo : Takes config program count w) : v = w := by
  cases takes with
  | count declared number =>
      cases takesToo with
      | count declared' number' => rw [Int64.toInt_inj.mp (number.trans number'.symm)]
      | unit declared' => cases declared.symm.trans declared'
  | unit declared =>
      cases takesToo with
      | count declared' number' => cases declared.symm.trans declared'
      | unit declared' => rfl

theorem Turns.unique (led : Turns config budget start turns s) :
    ∀ {others : List Turn} {t : Simulator}, Turns config budget start others t →
      Each (StepsRight config start.linked.program) turns → Each (TicksRight config) turns →
      Each (StepsRight config start.linked.program) others → Each (TicksRight config) others →
      turns.length = others.length → turns = others ∧ s = t := by
  induction led with
  | nil =>
      intro others t ledToo _steps _ticks _steps' _ticks' same
      cases ledToo with
      | nil => exact ⟨rfl, rfl⟩
      | snoc => simp at same
  | @snoc turns turn u v before undone room step ticks ih =>
      intro others t ledToo stepsRight ticksRight stepsRight' ticksRight' same
      cases ledToo with
      | nil => simp at same
      | @snoc others other u' _ before' undone' room' step' ticks' =>
          rw [each_concat] at stepsRight ticksRight stepsRight' ticksRight'
          have shorter : turns.length = others.length := by
            simpa using same
          have earlier := ih before' stepsRight.1 ticksRight.1 stepsRight'.1 ticksRight'.1 shorter
          cases earlier.1
          cases earlier.2
          rcases turn with ⟨call, calls⟩
          rcases other with ⟨call', calls'⟩
          have requests : call.request = call'.request :=
            Prod.ext (stepsRight.2.1.trans stepsRight'.2.1.symm)
              (stepsRight.2.2.unique stepsRight'.2.2)
          cases step.unique step' requests
          -- Whether a turn retires an instruction is settled by its step call.
          have retires : Turn.retires ⟨call, calls⟩ = Turn.retires ⟨call, calls'⟩ := rfl
          have count : retired (turns ++ [⟨call, calls⟩]) = retired (turns ++ [⟨call, calls'⟩]) := by
            rw [retired_concat, retired_concat, retires]
          have noted : Turn.noted ⟨call, calls⟩ config (retired (turns ++ [⟨call, calls⟩])) =
              Turn.noted ⟨call, calls'⟩ config (retired (turns ++ [⟨call, calls'⟩])) := by
            rw [count]
            rfl
          have ticked : calls.map Call.request = calls'.map Call.request := by
            have left := ticksRight.2
            have right := ticksRight'.2
            unfold TicksRight at left right
            rw [count, retires] at left
            exact left.trans right.symm
          rw [noted] at ticks
          have both := ticks.unique ticks' ticked
          cases both.1
          exact ⟨rfl, both.2⟩

/-- A run that ends with a summary has exactly one account of the step calls and the calls of tick
functions that it made. -/
theorem existsUnique_accounts {summary : RunSummary}
    (ended : run config budget s = some (.ok summary, t)) :
    ∃! turns, Accounts config budget s t summary turns := by
  unfold run at ended
  split at ended
  · cases ended
  · rename_i arg declared
    rcases accounts_of_loop declared budget (reached_zero config budget s) ended
      with ⟨turns, accounts⟩
    refine ⟨turns, accounts, ?_⟩
    intro others accountsToo
    exact (accountsToo.made.unique accounts.made accountsToo.stepCalls accountsToo.tickCalls
      accounts.stepCalls accounts.tickCalls (accountsToo.steps.symm.trans accounts.steps)).1

/-- The text of a step function that is done behind its fourth call, and of a tick function. -/
def clockText : SourceText := .ofString "clock" (String.join [
  "register zdone : %bool\n",
  "val zstep : (%i) -> %bool\n",
  "fn zstep(zn) \x7b zdone = @eq(zn, 3); return = true; end; \x7d\n",
  "val ztick : (%unit) -> %unit\n",
  "fn ztick(zu) \x7b end; \x7d\n"])

def clockConfig : DriverConfig :=
  { DriverConfig.default with
    tickFunctions := ["ztick"]
    insnsPerTick := 2
    doneRegister := some "zdone" }

/-- Whether a run of the text is done behind four instructions and two ticks. -/
def runsClock (source : SourceText) : Bool :=
  match source.simulator? with
  | some (_, s) =>
      match run clockConfig 20 s with
      | some (.ok summary, _) => summary == ⟨4, 4, 2, .done⟩
      | _ => false
  | none => false

theorem existsUnique_accounts_clockText : ∃ program s t,
    clockText.compile .default = .ok program ∧ Simulator.create program .default = .ok s ∧
    run clockConfig 20 s = some (.ok ⟨4, 4, 2, .done⟩, t) ∧
    ∃! turns, Accounts clockConfig 20 s t ⟨4, 4, 2, .done⟩ turns := by
  have runs : runsClock clockText = true := by
    decide +kernel
  unfold runsClock at runs
  split at runs
  · rename_i program s simulated
    have made := SourceText.compile_of_simulator? simulated
    split at runs
    · rename_i summary t ended
      cases eq_of_beq runs
      exact ⟨program, s, t, made.1, made.2, ended, existsUnique_accounts ended⟩
    · cases runs
  · cases runs

end Driver

end JumpIR
