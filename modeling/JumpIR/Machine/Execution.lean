import JumpIR.Machine.Evaluation
import JumpIR.Machine.Support

/-!
# Running a program

A run goes on by single steps: one operation, or one way to leave a block. A call of a function
puts the caller aside until the function is left, so the calls under way are a list and no step
waits for another. Main functions: `Linked.enter`, `Linked.step` and `Linked.run`.
-/

set_option autoImplicit false

namespace JumpIR

/-- A program whose support operations have been found. -/
structure Linked where
  program : Program
  supports : List Support.Operation
  /-- How many calls may be under way at once. -/
  maxCallDepth : Nat

/-- A call under way, which is about to take operation number `next` of a block. -/
structure Activation where
  function : FunctionDef
  frame : Frame
  block : BlockId
  next : Nat
deriving Repr

/-- A call that waits for another one, and where it puts the result. -/
structure Suspended where
  activation : Activation
  dest : Option Place
deriving Repr

/-- A run: the call that goes on, the ones that wait for it, innermost first, and the machine. -/
structure Execution where
  current : Activation
  callers : List Suspended
  machine : Machine
deriving Repr

/-- How many calls are under way. -/
def Execution.depth (e : Execution) : Nat := e.callers.length + 1

inductive Progress where
  | running (execution : Execution)
  | finished (result : Except RunFault Value) (machine : Machine)

namespace Linked

/-! ### Calls -/

/-- Binds arguments to parameters. -/
def bindParams : List LocalId → List Value → List Value → Except RunFault (List Value)
  | id :: ids, arg :: args, locals =>
      if id.index < locals.length then bindParams ids args (locals.set id.index arg)
      else .error (.typeMismatch (.noLocal id.index))
  | _, _, locals => .ok locals

def frame (l : Linked) (f : FunctionDef) (args : List Value) : Except RunFault Frame := do
  let locals ← l.program.defaultValues (f.locals.map (·.type))
  let result ← l.program.defaultValue f.result
  let locals ← bindParams f.params args locals
  .ok ⟨locals, result⟩

/-- The start of a call while `depth` others are under way. -/
def enter (l : Linked) (depth : Nat) (id : FuncId) (args : List Value) :
    Except RunFault Activation :=
  match l.program.function? id with
  | none => .error (.unknownFunction s!"#{id.index}")
  | some f =>
      if args.length ≠ f.params.length then
        .error (.arityMismatch f.name f.params.length args.length)
      else if l.maxCallDepth ≤ depth then .error (.callDepthExceeded l.maxCallDepth)
      else do
        let frame ← l.frame f args
        .ok ⟨f, frame, f.entry, 0⟩

def callSupport (l : Linked) (id : SupportId) (args : List Value) (m : Machine) :
    Support.Outcome :=
  match l.supports[id.index]? with
  | some op => op.call args m
  | none => (.error (.unknownSupport s!"#{id.index}"), m)

/-! ### Steps -/

/-- Stores a result, if it has a place, and goes on with `a`. -/
def resume (a : Activation) (callers : List Suspended) (dest : Option Place) (value : Value)
    (m : Machine) : Progress :=
  match dest with
  | none => .running ⟨a, callers, m⟩
  | some place =>
      match place.store value a.frame m with
      | .ok (frame, m) => .running ⟨{ a with frame := frame }, callers, m⟩
      | .error fault => .finished (.error fault) m

/-- Leaves a function with its value. -/
def leave (callers : List Suspended) (value : Value) (m : Machine) : Progress :=
  match callers with
  | [] => .finished (.ok value) m
  | caller :: callers => resume caller.activation callers caller.dest value m

/-- Gives a local the default value of its type. -/
def declare (l : Linked) (a : Activation) (id : LocalId) : Except RunFault Frame :=
  match a.function.locals[id.index]? with
  | none => .error (.typeMismatch (.noLocal id.index))
  | some d => do
      let value ← l.program.defaultValue d.type
      let _ ← a.frame.local? id
      .ok { a.frame with locals := a.frame.locals.set id.index value }

/-- Takes an operation of `e.current`, whose next operation is the one behind it. -/
def stepOp (l : Linked) (e : Execution) (op : Op) : Progress :=
  let after : Activation := { e.current with next := e.current.next + 1 }
  match op with
  | .declare id =>
      match l.declare e.current id with
      | .error fault => .finished (.error fault) e.machine
      | .ok frame => .running { e with current := { after with frame := frame } }
  | .assign dest value =>
      match value.evaluate l.program e.current.frame e.machine with
      | .error fault => .finished (.error fault) e.machine
      | .ok value => resume after e.callers (some dest) value e.machine
  | .call dest callee args =>
      match Operand.evaluateAll l.program e.current.frame e.machine args with
      | .error fault => .finished (.error fault) e.machine
      | .ok args =>
          match callee with
          | .function id =>
              match l.enter e.depth id args with
              | .error fault => .finished (.error fault) e.machine
              | .ok callee => .running ⟨callee, ⟨after, dest⟩ :: e.callers, e.machine⟩
          | .support id =>
              match l.callSupport id args e.machine with
              | (.error fault, m) => .finished (.error fault) m
              | (.ok value, m) => resume after e.callers dest value m

def goTo (e : Execution) (target : BlockId) : Progress :=
  .running { e with current := { e.current with block := target, next := 0 } }

def stepTerminator (l : Linked) (e : Execution) : Terminator → Progress
  | .goto target => goTo e target
  | .branch cond thenBlock elseBlock =>
      match cond.evaluate l.program e.current.frame e.machine >>= Value.asBool with
      | .error fault => .finished (.error fault) e.machine
      | .ok holds => goTo e (if holds then thenBlock else elseBlock)
  | .ret => leave e.callers e.current.frame.result e.machine
  | .arbitrary =>
      match l.program.defaultValue e.current.function.result with
      | .error fault => .finished (.error fault) e.machine
      | .ok value => leave e.callers value e.machine
  | .unreachable location => .finished (.error (.unreachable location)) e.machine

def step (l : Linked) (e : Execution) : Progress :=
  match e.current.function.block? e.current.block with
  | none =>
      .finished
        (.error (.unreachable
          s!"{e.current.function.name}: missing block bb{e.current.block.index}"))
        e.machine
  | some block =>
      match block.ops[e.current.next]? with
      | some op => l.stepOp e op
      | none => l.stepTerminator e block.terminator

/-- The outcome of a call, and the machine behind it. -/
abbrev Outcome := Except RunFault Value × Machine

/-- At most `budget` steps of a run; none if it has not ended by then. -/
def run (l : Linked) : (budget : Nat) → Execution → Option Outcome
  | 0, _ => none
  | budget + 1, e =>
      match l.step e with
      | .running e => run l budget e
      | .finished result m => some (result, m)

def call (l : Linked) (budget : Nat) (id : FuncId) (args : List Value) (m : Machine) :
    Option Outcome :=
  match l.enter 0 id args with
  | .error fault => some (.error fault, m)
  | .ok activation => l.run budget ⟨activation, [], m⟩

end Linked

end JumpIR
