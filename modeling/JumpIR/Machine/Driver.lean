import JumpIR.Machine.Simulator

/-!
# The step loop

A driver calls the model's step function over and over. A step that returns true retires an
instruction, and after so many of them the tick functions run. The loop ends when a register says
that the program is done, at the limit of instructions, or when a step leaves an exception pending.
-/

set_option autoImplicit false

namespace JumpIR

structure DriverConfig where
  stepFunction : String
  tickFunctions : List String
  /-- How many instructions retire from one tick to the next; zero for no ticks. -/
  insnsPerTick : Nat
  /-- How many instructions may retire; zero for no limit. -/
  insnLimit : Nat
  /-- A register that is true when the program is done. -/
  doneRegister : Option String
  /-- The register that retirement events tell. -/
  counterRegister : Option String
deriving DecidableEq, Repr

def DriverConfig.default : DriverConfig := ⟨"zstep", [], 100, 100000, none, none⟩

inductive StopReason where
  | done
  | insnLimit
  | uncaughtException
deriving DecidableEq, Repr

structure RunSummary where
  retired : Nat
  steps : Nat
  ticks : Nat
  stop : StopReason
deriving DecidableEq, Repr

namespace Driver

/-- What the step function takes. -/
inductive StepArg where
  | count
  | unit
deriving DecidableEq, Repr

/-- The argument of step calls, by the declared type of the step function's only parameter. -/
def stepArg (config : DriverConfig) (program : Program) : Except RunFault StepArg :=
  match program.functionId? config.stepFunction >>= program.function? with
  | none => .error (.unknownFunction config.stepFunction)
  | some f =>
      match f.params with
      | [param] =>
          match f.locals[param.index]?.map LocalDef.type with
          | some .int => .ok .count
          | some .unit => .ok .unit
          | _ => .error (.typeMismatch (.stepParameter config.stepFunction))
      | params => .error (.arityMismatch config.stepFunction 1 params.length)

/-- The argument of the next step call, when `retired` instructions have retired. -/
def StepArg.value (retired : Nat) : StepArg → Value
  | .count => .int (Int64.ofInt (min retired Int64.maxValue.toInt))
  | .unit => .unit

/-- Whether the program says that it is done. -/
def isDone (config : DriverConfig) (s : Simulator) : Except RunFault Bool :=
  match config.doneRegister with
  | none => .ok false
  | some name =>
      match s.register? name with
      | none => .error (.unknownRegister name)
      | some value => value.asBool

/-- Keeps the event that an instruction retired. -/
def noteRetired (config : DriverConfig) (count : Nat) (m : Machine) : Machine :=
  if m.trace.instructions then
    let counter := do
      let name ← config.counterRegister
      let index ← m.registerIndex? name
      m.registers[index]?
    m.record (.retire count counter)
  else m

def tick (budget : Nat) : List String → Simulator → Option (Except RunFault Unit × Simulator)
  | [], s => some (.ok (), s)
  | name :: rest, s => do
      match ← s.call budget name [.unit] with
      | (.error fault, s) => some (.error fault, s)
      | (.ok _, s) => tick budget rest s

structure Counts where
  retired : Nat
  steps : Nat
  ticks : Nat
  sinceTick : Nat
deriving DecidableEq, Repr

def Counts.zero : Counts := ⟨0, 0, 0, 0⟩

def Counts.summary (c : Counts) (stop : StopReason) : RunSummary :=
  ⟨c.retired, c.steps, c.ticks, stop⟩

/-- The end of a run, and the simulator then. -/
abbrev Outcome := Except RunFault RunSummary × Simulator

/-- What a round of the loop leads to. -/
inductive Round where
  | ended (outcome : Outcome)
  | more (counts : Counts) (simulator : Simulator)

/-- What follows a step call that returned: the tick, if one is due. -/
def afterStep (config : DriverConfig) (budget : Nat) (c : Counts) (s : Simulator) :
    Option Round :=
  if config.insnsPerTick ≤ c.sinceTick ∧ config.insnsPerTick ≠ 0 then do
    match ← tick budget config.tickFunctions s with
    | (.error fault, s) => some (.ended (.error fault, s))
    | (.ok (), s) => some (.more { c with sinceTick := 0, ticks := c.ticks + 1 } s)
  else some (.more c s)

def stepOnce (config : DriverConfig) (budget : Nat) (arg : StepArg) (c : Counts)
    (s : Simulator) : Option Round := do
  match ← s.call budget config.stepFunction [arg.value c.retired] with
  | (.error fault, s) => some (.ended (.error fault, s))
  | (.ok value, s) =>
      match value.asBool with
      | .error fault => some (.ended (.error fault, s))
      | .ok retires =>
          let c := { c with steps := c.steps + 1 }
          if s.machine.exception.pending then
            some (.ended (.ok (c.summary .uncaughtException), s))
          else if retires then
            let c := { c with retired := c.retired + 1, sinceTick := c.sinceTick + 1 }
            afterStep config budget c { s with machine := noteRetired config c.retired s.machine }
          else afterStep config budget c s

/-- One round of the loop: the run ends, or a step call is made. -/
def round (config : DriverConfig) (budget : Nat) (arg : StepArg) (c : Counts) (s : Simulator) :
    Option Round :=
  match isDone config s with
  | .error fault => some (.ended (.error fault, s))
  | .ok true => some (.ended (.ok (c.summary .done), s))
  | .ok false =>
      if config.insnLimit ≠ 0 ∧ config.insnLimit ≤ c.retired then
        some (.ended (.ok (c.summary .insnLimit), s))
      else stepOnce config budget arg c s

/-- At most `rounds` rounds, each call of which takes at most `budget` steps; none if the run has
not ended by then. -/
def loop (config : DriverConfig) (budget : Nat) (arg : StepArg) :
    (rounds : Nat) → Counts → Simulator → Option Outcome
  | 0, _, _ => none
  | rounds + 1, c, s => do
      match ← round config budget arg c s with
      | .ended outcome => some outcome
      | .more c s => loop config budget arg rounds c s

/-- Runs a simulator until it stops, for at most `budget` rounds of as many steps for each call. -/
def run (config : DriverConfig) (budget : Nat) (s : Simulator) : Option Outcome :=
  match stepArg config s.linked.program with
  | .error fault => some (.error fault, s)
  | .ok arg => loop config budget arg budget .zero s

end Driver

end JumpIR
