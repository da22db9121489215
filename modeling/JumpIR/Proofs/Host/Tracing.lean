import JumpIR.Proofs.Host.Request
import JumpIR.Proofs.Machine.Simulator

/-!
# Tracing

What a machine keeps of its events, and whom it tells them, changes nothing else, unless the program
asks for its own trace flags. Every operation is shown to commute with `Machine.quiet`, which keeps
no events at all; two machines that are alike but for their traces then stay so. Main statement:
`transcript_create_eq`.
-/

set_option autoImplicit false

namespace JumpIR

/-! ### Machines -/

namespace Machine

/-- The machine without its events, and with none to keep. -/
def quiet (m : Machine) : Machine := { m with trace := .none, events := #[] }

/-- What comes of an operation, with the machine behind it quiet. -/
def quietly {α : Type} (outcome : α × Machine) : α × Machine := (outcome.1, outcome.2.quiet)

variable (m : Machine)

theorem quiet_noteRegister (index : Nat) : (m.noteRegister index).quiet = m.quiet := by
  unfold noteRegister
  split
  · split <;> rfl
  · rfl

theorem quiet_notePlatform (message : String) : (m.notePlatform message).quiet = m.quiet := by
  unfold notePlatform
  split <;> rfl

theorem quiet_noteAccess (kind : AccessKind) (address : UInt64) (width : Nat) (value : UInt64) :
    (m.noteAccess kind address width value).quiet = m.quiet := by
  unfold noteAccess
  split <;> rfl

theorem setRegister_quiet (index : Nat) (value : Value) :
    m.quiet.setRegister index value = (m.setRegister index value).quiet := by
  unfold setRegister
  rw [quiet_noteRegister]
  rfl

theorem readMemory_quiet (address : UInt64) (width : Nat) :
    m.quiet.readMemory address width = quietly (m.readMemory address width) := by
  unfold readMemory
  rw [show m.quiet.memory = m.memory from rfl]
  cases m.memory.read address width with
  | error fault => rfl
  | ok found =>
      dsimp only [quietly]
      rw [quiet_noteAccess]
      rfl

theorem writeMemory_quiet (address : UInt64) (width : Nat) (value : UInt64) :
    m.quiet.writeMemory address width value = quietly (m.writeMemory address width value) := by
  unfold writeMemory
  rw [show m.quiet.memory = m.memory from rfl]
  rcases m.memory.write address width value with ⟨_ | _, memory⟩
  · rfl
  · dsimp only [quietly]
    rw [quiet_noteAccess]
    rfl

end Machine

/-! ### Support operations -/

namespace Support

theorem Action.run_quiet {a : Action} (silent : ∀ flag, a ≠ .ask flag) (m : Machine) :
    a.run m.quiet = Machine.quietly (a.run m) := by
  cases a with
  | printPlatform message =>
      have same : (m.notePlatform message).quiet = m.quiet := m.quiet_notePlatform message
      change (_, m.quiet.print message) = (_, (m.notePlatform message).quiet.print message)
      rw [same]
      rfl
  | read address width =>
      rw [run_read, run_read, Machine.readMemory_quiet]
      rfl
  | write address width value =>
      rw [run_write, run_write, Machine.writeMemory_quiet]
      rfl
  | ask flag => exact absurd rfl (silent flag)
  | answer _ | print _ | reserve _ | isReserved _ | release => rfl

/-- An operation that goes by no name of a flag does not ask for one. -/
theorem Operation.call_quiet {op : Operation} (isAction : op.IsAction)
    (other : op.symbol ∉ flagSymbols) (args : List Value) (m : Machine) :
    op.call args m.quiet = Machine.quietly (op.call args m) := by
  obtain ⟨a, acts⟩ := isAction args
  rw [acts.runs, acts.runs]
  refine a.run_quiet ?_ m
  intro flag same
  by_cases count : args.length = op.arity
  · have lawful := acts.lawful count
    rw [same] at lawful
    exact other lawful
  · cases same.symm.trans (acts.refuses count)

end Support

/-! ### Runs -/

mutual

theorem Operand.evaluate_quiet (p : Program) (f : Frame) (m : Machine) :
    ∀ o : Operand, o.evaluate p f m.quiet = o.evaluate p f m
  | .const _ | .localVar _ | .register _ | .exception _ => rfl
  | .prim op args => by
      rw [evaluate, evaluate, Operand.outcomes_quiet p f m args]
  | .isVariant value union tag | .asVariant value union tag | .construct union tag value => by
      rw [evaluate, evaluate, Operand.evaluate_quiet p f m value]
  | .field value index => by
      rw [evaluate, evaluate, Operand.evaluate_quiet p f m value]
  | .tuple items => by
      rw [evaluate, evaluate, Operand.evaluateAll_quiet p f m items]

theorem Operand.evaluateAll_quiet (p : Program) (f : Frame) (m : Machine) :
    ∀ os : List Operand, Operand.evaluateAll p f m.quiet os = Operand.evaluateAll p f m os
  | [] => rfl
  | o :: rest => by
      rw [Operand.evaluateAll, Operand.evaluateAll, Operand.evaluate_quiet p f m o,
        Operand.evaluateAll_quiet p f m rest]

theorem Operand.outcomes_quiet (p : Program) (f : Frame) (m : Machine) :
    ∀ os : List Operand, Operand.outcomes p f m.quiet os = Operand.outcomes p f m os
  | [] => rfl
  | o :: rest => by
      rw [Operand.outcomes, Operand.outcomes, Operand.evaluate_quiet p f m o,
        Operand.outcomes_quiet p f m rest]

end

theorem Place.store_quiet (place : Place) (value : Value) (f : Frame) (m : Machine) :
    place.store value f m.quiet = (place.store value f m).map Machine.quietly := by
  unfold store
  cases place.root with
  | localVar id =>
      dsimp only
      cases f.local? id with
      | error fault => rfl
      | ok old =>
          change (old.setPath place.path value >>= _) = (old.setPath place.path value >>= _).map _
          cases old.setPath place.path value <;> rfl
  | result =>
      dsimp only
      cases f.result.setPath place.path value <;> rfl
  | register id =>
      have same : m.quiet.register? id = m.register? id := rfl
      dsimp only
      rw [same]
      cases m.register? id with
      | error fault => rfl
      | ok old =>
          change (old.setPath place.path value >>= _) = (old.setPath place.path value >>= _).map _
          cases old.setPath place.path value with
          | error fault => rfl
          | ok new =>
              change Except.ok (f, m.quiet.setRegister id.index new) = _
              rw [Machine.setRegister_quiet]
              rfl
  | exception part =>
      have same : m.quiet.exception = m.exception := rfl
      dsimp only
      rw [same]
      cases m.exception.store part place.path value <;> rfl

namespace Execution

def quiet (e : Execution) : Execution := { e with machine := e.machine.quiet }

variable (e : Execution)

@[simp] theorem current_quiet : e.quiet.current = e.current := rfl

@[simp] theorem callers_quiet : e.quiet.callers = e.callers := rfl

@[simp] theorem machine_quiet : e.quiet.machine = e.machine.quiet := rfl

@[simp] theorem depth_quiet : e.quiet.depth = e.depth := rfl

end Execution

def Progress.quiet : Progress → Progress
  | .running e => .running e.quiet
  | .finished result m => .finished result m.quiet

namespace Linked

/-- The support operations cannot tell how the machine is traced. -/
def Silent (l : Linked) : Prop :=
  ∀ op ∈ l.supports, ∀ args m, op.call args m.quiet = Machine.quietly (op.call args m)

variable {l : Linked}

theorem callSupport_quiet (silent : l.Silent) (id : SupportId) (args : List Value) (m : Machine) :
    l.callSupport id args m.quiet = Machine.quietly (l.callSupport id args m) := by
  unfold callSupport
  split
  · rename_i op found
    exact silent op (List.mem_of_getElem? found) args m
  · rfl

theorem resume_quiet (a : Activation) (callers : List Suspended) (dest : Option Place)
    (value : Value) (m : Machine) :
    resume a callers dest value m.quiet = (resume a callers dest value m).quiet := by
  unfold resume
  cases dest with
  | none => rfl
  | some place =>
      dsimp only
      rw [Place.store_quiet]
      cases place.store value a.frame m <;> rfl

theorem leave_quiet (callers : List Suspended) (value : Value) (m : Machine) :
    leave callers value m.quiet = (leave callers value m).quiet := by
  unfold leave
  cases callers with
  | nil => rfl
  | cons caller rest => exact resume_quiet _ _ _ _ _

theorem stepOp_quiet (silent : l.Silent) (e : Execution) (op : Op) :
    l.stepOp e.quiet op = (l.stepOp e op).quiet := by
  unfold stepOp
  simp only [Execution.current_quiet, Execution.callers_quiet, Execution.machine_quiet,
    Execution.depth_quiet, Operand.evaluate_quiet, Operand.evaluateAll_quiet]
  cases op with
  | declare id =>
      dsimp only
      cases l.declare e.current id <;> rfl
  | assign dest value =>
      dsimp only
      cases value.evaluate l.program e.current.frame e.machine with
      | error fault => rfl
      | ok held => exact resume_quiet _ _ _ _ _
  | call dest callee args =>
      dsimp only
      cases Operand.evaluateAll l.program e.current.frame e.machine args with
      | error fault => rfl
      | ok values =>
          cases callee with
          | function id =>
              dsimp only
              cases l.enter e.depth id values <;> rfl
          | support id =>
              dsimp only
              rw [callSupport_quiet silent]
              rcases l.callSupport id values e.machine with ⟨_ | held, after⟩
              · rfl
              · exact resume_quiet _ _ _ _ _

theorem stepTerminator_quiet (e : Execution) (terminator : Terminator) :
    l.stepTerminator e.quiet terminator = (l.stepTerminator e terminator).quiet := by
  unfold stepTerminator
  simp only [Execution.current_quiet, Execution.callers_quiet, Execution.machine_quiet,
    Operand.evaluate_quiet]
  cases terminator with
  | goto target => rfl
  | branch cond thenBlock elseBlock =>
      dsimp only
      cases cond.evaluate l.program e.current.frame e.machine >>= Value.asBool <;> rfl
  | ret => exact leave_quiet _ _ _
  | arbitrary =>
      dsimp only
      cases l.program.defaultValue e.current.function.result with
      | error fault => rfl
      | ok value => exact leave_quiet _ _ _
  | unreachable location => rfl

theorem step_quiet (silent : l.Silent) (e : Execution) : l.step e.quiet = (l.step e).quiet := by
  unfold step
  simp only [Execution.current_quiet, Execution.machine_quiet]
  cases e.current.function.block? e.current.block with
  | none => rfl
  | some block =>
      dsimp only
      cases block.ops[e.current.next]? with
      | none => exact stepTerminator_quiet e block.terminator
      | some op => exact stepOp_quiet silent e op

theorem run_quiet (silent : l.Silent) (budget : Nat) : ∀ e : Execution,
    l.run budget e.quiet = (l.run budget e).map Machine.quietly := by
  induction budget with
  | zero =>
      intro e
      rfl
  | succ budget ih =>
      intro e
      unfold run
      rw [step_quiet silent]
      cases l.step e with
      | running next => exact ih next
      | finished result m => rfl

theorem call_quiet (silent : l.Silent) (budget : Nat) (id : FuncId) (args : List Value)
    (m : Machine) : l.call budget id args m.quiet =
      (l.call budget id args m).map Machine.quietly := by
  unfold call
  cases l.enter 0 id args with
  | error fault => rfl
  | ok a => exact run_quiet silent budget ⟨a, [], m⟩

end Linked

/-! ### Simulators -/

namespace Simulator

def quiet (s : Simulator) : Simulator := { s with machine := s.machine.quiet }

def quietly {α : Type} (outcome : α × Simulator) : α × Simulator := (outcome.1, outcome.2.quiet)

variable {s : Simulator}

theorem call_quiet (silent : s.linked.Silent) (budget : Nat) (name : String) (args : List Value) :
    s.quiet.call budget name args = (s.call budget name args).map quietly := by
  have same : s.quiet.linked = s.linked := rfl
  have machine : s.quiet.machine = s.machine.quiet := rfl
  unfold call
  rw [same, machine]
  cases s.linked.program.functionId? name with
  | none => rfl
  | some id =>
      dsimp only
      rw [Linked.call_quiet silent]
      cases s.linked.call budget id args s.machine <;> rfl

theorem setRegister_quiet (s : Simulator) (name : String) (value : Value) :
    s.quiet.setRegister name value = (s.setRegister name value).map quiet := by
  have index : s.quiet.machine.registerIndex? name = s.machine.registerIndex? name := rfl
  have count : s.quiet.machine.registers = s.machine.registers := rfl
  unfold setRegister
  rw [index, count]
  cases s.machine.registerIndex? name with
  | none => rfl
  | some index =>
      dsimp only
      split
      · have same := s.machine.setRegister_quiet index value
        change Except.ok { s with machine := s.machine.quiet.setRegister index value } = _
        rw [same]
        rfl
      · rfl

theorem loadImage_quiet (s : Simulator) (image : Image) :
    s.quiet.loadImage image = quietly (s.loadImage image) := by
  have memory : s.quiet.machine.memory = s.machine.memory := rfl
  unfold loadImage
  rw [memory]
  rcases image.load s.machine.memory with ⟨_ | report, after⟩ <;> rfl

end Simulator

namespace Driver

def Round.quiet : Round → Round
  | .ended outcome => .ended (Simulator.quietly outcome)
  | .more counts s => .more counts s.quiet

variable {s : Simulator}

theorem tick_quiet (budget : Nat) (names : List String) : ∀ {s : Simulator}, s.linked.Silent →
    tick budget names s.quiet = (tick budget names s).map Simulator.quietly := by
  induction names with
  | nil =>
      intro s _silent
      rfl
  | cons name rest ih =>
      intro s silent
      unfold tick
      rw [Simulator.call_quiet silent]
      cases called : s.call budget name [.unit] with
      | none => rfl
      | some outcome =>
          obtain ⟨_ | value, after⟩ := outcome
          · rfl
          · have kept := Simulator.linked_of_call called
            exact ih (kept ▸ silent)

theorem afterStep_quiet (silent : s.linked.Silent) (config : DriverConfig) (budget : Nat)
    (c : Counts) :
    afterStep config budget c s.quiet = (afterStep config budget c s).map .quiet := by
  unfold afterStep
  split
  · rw [tick_quiet budget config.tickFunctions silent]
    cases tick budget config.tickFunctions s with
    | none => rfl
    | some outcome => obtain ⟨_ | _, after⟩ := outcome <;> rfl
  · rfl

/-- A quiet machine does not keep the event that an instruction retired, and forgets it
otherwise. -/
theorem noteRetired_quiet (config : DriverConfig) (count : Nat) (s : Simulator) :
    { s.quiet with machine := noteRetired config count s.quiet.machine } =
      Simulator.quiet { s with machine := noteRetired config count s.machine } := by
  have same : (noteRetired config count s.machine).quiet = s.machine.quiet := by
    unfold noteRetired
    split <;> rfl
  unfold Simulator.quiet
  dsimp only
  rw [same]
  rfl

theorem stepOnce_quiet (silent : s.linked.Silent) (config : DriverConfig) (budget : Nat)
    (arg : StepArg) (c : Counts) :
    stepOnce config budget arg c s.quiet = (stepOnce config budget arg c s).map .quiet := by
  unfold stepOnce
  rw [Simulator.call_quiet silent]
  cases called : s.call budget config.stepFunction [arg.value c.retired] with
  | none => rfl
  | some outcome =>
      obtain ⟨_ | value, after⟩ := outcome
      · rfl
      · have silentToo : after.linked.Silent := Simulator.linked_of_call called ▸ silent
        have pending : after.quiet.machine.exception = after.machine.exception := rfl
        simp only [Option.map_some, Option.bind_eq_bind, Option.bind_some, Simulator.quietly,
          pending]
        cases value.asBool with
        | error fault => rfl
        | ok retires =>
            dsimp only
            split
            · rfl
            · split
              · have silentNoted : Linked.Silent
                    { after with machine := noteRetired config (c.retired + 1) after.machine }.linked :=
                  silentToo
                rw [noteRetired_quiet]
                exact afterStep_quiet silentNoted config budget _
              · exact afterStep_quiet silentToo config budget _

theorem round_quiet (silent : s.linked.Silent) (config : DriverConfig) (budget : Nat)
    (arg : StepArg) (c : Counts) :
    round config budget arg c s.quiet = (round config budget arg c s).map .quiet := by
  have done : isDone config s.quiet = isDone config s := rfl
  unfold round
  rw [done]
  cases isDone config s with
  | error fault => rfl
  | ok isDone =>
      cases isDone with
      | true => rfl
      | false =>
          dsimp only
          split
          · rfl
          · exact stepOnce_quiet silent config budget arg c

theorem loop_quiet (config : DriverConfig) (budget : Nat) (arg : StepArg) (rounds : Nat) :
    ∀ {c : Counts} {s : Simulator}, s.linked.Silent →
    loop config budget arg rounds c s.quiet =
      (loop config budget arg rounds c s).map Simulator.quietly := by
  induction rounds with
  | zero =>
      intro c s _silent
      rfl
  | succ rounds ih =>
      intro c s silent
      unfold loop
      rw [round_quiet silent]
      cases done : round config budget arg c s with
      | none => rfl
      | some r =>
          have kept := (keeps_linked config budget s.linked).round rfl done
          cases r with
          | ended outcome => rfl
          | more c t =>
              have same : t.linked = s.linked := kept
              exact ih (same ▸ silent)

theorem run_quiet (silent : s.linked.Silent) (config : DriverConfig) (budget : Nat) :
    run config budget s.quiet = (run config budget s).map Simulator.quietly := by
  have same : s.quiet.linked = s.linked := rfl
  unfold run
  rw [same]
  cases stepArg config s.linked.program with
  | error fault => rfl
  | ok arg => exact loop_quiet config budget arg budget silent

end Driver

/-! ### Requests -/

theorem Request.perform_quiet {s : Simulator} (silent : s.linked.Silent) (budget : Nat)
    (request : Request) :
    request.perform budget s.quiet = (request.perform budget s).map Simulator.quietly := by
  unfold perform
  cases request with
  | call name args =>
      dsimp only
      rw [Simulator.call_quiet silent]
      cases s.call budget name args <;> rfl
  | setRegister name value =>
      dsimp only
      rw [Simulator.setRegister_quiet]
      cases s.setRegister name value <;> rfl
  | loadImage image =>
      dsimp only
      rw [Simulator.loadImage_quiet]
      rfl
  | drive config =>
      dsimp only
      rw [Driver.run_quiet silent]
      cases Driver.run config budget s <;> rfl

/-! ### Hooks -/

/-- What is told the events of a machine, in order, and has a state of its own. -/
structure Hook where
  State : Type
  initial : State
  tell : State → Event → State

/-- A simulator whose events go to a hook. -/
structure Hooked (hook : Hook) where
  simulator : Simulator
  state : hook.State

/-- What can be seen of a machine besides its events. -/
structure View where
  registers : List Value
  exception : ExceptionState
  memory : Memory
  reservation : Option UInt64
  output : Array String

def Machine.view (m : Machine) : View :=
  ⟨m.registers, m.exception, m.memory, m.reservation, m.output⟩

namespace Hooked

variable {hook : Hook}

def start (hook : Hook) (s : Simulator) : Hooked hook := ⟨s, hook.initial⟩

/-- A request, whose events the hook is told and the simulator forgets. -/
def perform (budget : Nat) (h : Hooked hook) (request : Request) : Option (Reply × Hooked hook) :=
  (request.perform budget h.simulator).map fun (reply, s) =>
    (reply, ⟨{ s with machine := { s.machine with events := #[] } },
      s.machine.events.foldl hook.tell h.state⟩)

/-- The replies to requests, with what can be seen behind each of them. The list ends with the first
request that is not done within the budget. -/
def transcript (budget : Nat) : List Request → Hooked hook → List (Option (Reply × View))
  | [], _ => []
  | request :: rest, h =>
      match h.perform budget request with
      | none => [none]
      | some (reply, next) =>
          some (reply, next.simulator.machine.view) :: transcript budget rest next

theorem transcript_eq {other : Hook} (budget : Nat) (requests : List Request) :
    ∀ {h : Hooked hook} {h' : Hooked other}, h.simulator.linked.Silent →
    h.simulator.quiet = h'.simulator.quiet →
    h.transcript budget requests = h'.transcript budget requests := by
  induction requests with
  | nil =>
      intro h h' _silent _alike
      rfl
  | cons request rest ih =>
      intro h h' silent alike
      have linked : h.simulator.quiet.linked = h'.simulator.quiet.linked := by rw [alike]
      have silentToo : h'.simulator.linked.Silent := Eq.mp (congrArg Linked.Silent linked) silent
      have left := Request.perform_quiet silent budget request
      have right := Request.perform_quiet silentToo budget request
      rw [← alike, left] at right
      unfold transcript perform
      cases done : request.perform budget h.simulator with
      | none =>
          rw [done] at right
          rw [Option.map_eq_none_iff.mp right.symm]
          rfl
      | some outcome =>
          obtain ⟨reply, after⟩ := outcome
          rw [done] at right
          obtain ⟨⟨reply', after'⟩, doneToo, same⟩ := Option.map_eq_some_iff.mp right.symm
          have replies : reply' = reply := congrArg Prod.fst same
          have quiet : after'.quiet = after.quiet := congrArg Prod.snd same
          have view : after'.machine.view = after.machine.view :=
            congrArg (fun s => s.machine.view) quiet
          have kept := Request.linked_of_perform done
          rw [doneToo]
          change some (reply, after.machine.view) :: _ = some (reply', after'.machine.view) :: _
          rw [replies, view]
          refine congrArg _ (ih ?_ quiet.symm)
          exact kept ▸ silent

end Hooked

namespace Simulator

/-- A program is linked to operations that ask for no flags, if it binds none of that name. -/
theorem silent_of_create {program : Program} {config : SimConfig} {s : Simulator}
    (created : create program config = .ok s)
    (others : ∀ d ∈ program.supports, d.symbol ∉ Support.flagSymbols) : s.linked.Silent := by
  intro op member
  obtain ⟨d, listed, binds⟩ := exists_source (fresh_of_create created).supports member
  have symbol : op.symbol = d.symbol := by
    simpa using List.find?_some binds.found
  refine Support.Operation.call_quiet (Support.isAction_of_find? binds.found) ?_
  rw [symbol]
  exact others d listed

theorem create_quiet (program : Program) (kind : MemoryKind) (depth : Nat)
    (flags others : TraceFlags) :
    (create program ⟨kind, flags, depth⟩).map quiet =
      (create program ⟨kind, others, depth⟩).map quiet := by
  unfold create
  cases linkSupports program.supports with
  | error fault => rfl
  | ok supports =>
      cases program.defaultValues (program.registers.map (·.type)) with
      | error fault => rfl
      | ok values =>
          dsimp only
          cases kind.build <;> rfl

end Simulator

/-- Whatever a host asks of two fresh simulators of a program that does not ask for its own trace
flags, it gets the same replies and sees the same registers, exception, memory, reservation and
output behind each of them, however the simulators are traced and whatever their hooks are. -/
theorem transcript_create_eq {program : Program}
    (others : ∀ d ∈ program.supports, d.symbol ∉ Support.flagSymbols) (kind : MemoryKind)
    (depth : Nat) (flags flags' : TraceFlags) (hook hook' : Hook) (budget : Nat)
    (requests : List Request) :
    (Simulator.create program ⟨kind, flags, depth⟩).map
        (fun s => (Hooked.start hook s).transcript budget requests) =
      (Simulator.create program ⟨kind, flags', depth⟩).map
        (fun s => (Hooked.start hook' s).transcript budget requests) := by
  have alike := Simulator.create_quiet program kind depth flags flags'
  cases created : Simulator.create program ⟨kind, flags, depth⟩ with
  | error fault =>
      cases createdToo : Simulator.create program ⟨kind, flags', depth⟩ with
      | error fault' =>
          rw [created, createdToo] at alike
          cases alike
          rfl
      | ok s' =>
          rw [created, createdToo] at alike
          cases alike
  | ok s =>
      cases createdToo : Simulator.create program ⟨kind, flags', depth⟩ with
      | error fault' =>
          rw [created, createdToo] at alike
          cases alike
      | ok s' =>
          rw [created, createdToo] at alike
          have silent := Simulator.silent_of_create created others
          have same : s.quiet = s'.quiet := Except.ok.inj alike
          exact congrArg Except.ok (Hooked.transcript_eq budget requests silent same)

/-- A hook that counts events. -/
def counter : Hook := ⟨Nat, 0, fun count _ => count + 1⟩

/-- A hook that keeps nothing. -/
def deaf : Hook := ⟨Unit, (), fun _ _ => ()⟩

/-- The requests that the text is tried with. -/
def echoRequests : List Request :=
  [.setRegister "zpc" (.bits 64 7), .call "zmain" [.bits 64 64], .call "zmain" [.bool true]]

/-- Whether a call of the text returns the byte, and a counter is told of three events. -/
def echoes (program : Program) : Bool :=
  match Simulator.create program ⟨.sparse, .all, 8⟩ with
  | .error _ => false
  | .ok s =>
      match (Hooked.start counter s).perform 20 (.call "zmain" [.bits 64 64]) with
      | some (.called (.ok value), h) => value == .bits 8 0xab && Nat.beq h.state 3
      | _ => false

/-- Whether a text compiles to a program that asks for no flags, and that does what is expected. -/
def compilesTo (expected : Program → Bool) (source : SourceText) : Bool :=
  match source.compile .default with
  | .error _ => false
  | .ok program =>
      program.supports.all (fun d => d.symbol ∉ Support.flagSymbols) && expected program

theorem exists_of_compilesTo {expected : Program → Bool} {source : SourceText}
    (works : compilesTo expected source = true) : ∃ program,
      source.compile .default = .ok program ∧ expected program = true ∧
      ∀ d ∈ program.supports, d.symbol ∉ Support.flagSymbols := by
  unfold compilesTo at works
  split at works
  · cases works
  · rename_i program compiled
    rw [Bool.and_eq_true, List.all_eq_true] at works
    exact ⟨program, compiled, works.2, fun d member => of_decide_eq_true (works.1 d member)⟩

theorem transcript_create_eq_echoText : ∃ program,
    echoText.compile .default = .ok program ∧ echoes program = true ∧
    (∀ d ∈ program.supports, d.symbol ∉ Support.flagSymbols) ∧
    (Simulator.create program ⟨.sparse, .all, 8⟩).map
        (fun s => (Hooked.start counter s).transcript 20 echoRequests) =
      (Simulator.create program ⟨.sparse, .none, 8⟩).map
        (fun s => (Hooked.start deaf s).transcript 20 echoRequests) := by
  have works : compilesTo echoes echoText = true := by
    decide +kernel
  obtain ⟨program, compiled, expected, others⟩ := exists_of_compilesTo works
  exact ⟨program, compiled, expected, others,
    transcript_create_eq others .sparse 8 .all .none counter deaf 20 echoRequests⟩

end JumpIR
