import JumpIR.Memory.Access
import JumpIR.Value.Default

/-!
# Machines

Everything that a program can read or change: registers, the exception state, memory, a reservation
and the printed lines. A machine also keeps the events that its trace flags ask for; no operation
reads them back.
-/

set_option autoImplicit false

namespace JumpIR

/-- Which events are kept. A program may ask for the first four flags. -/
structure TraceFlags where
  instructions : Bool
  registers : Bool
  memory : Bool
  platform : Bool
  /-- Whether printed lines are meant for the console too, which is for the host to do. -/
  echo : Bool
deriving DecidableEq, Repr

def TraceFlags.none : TraceFlags := ⟨false, false, false, false, false⟩

inductive AccessKind where
  | read
  | write
deriving DecidableEq, Repr

structure MemoryAccess where
  kind : AccessKind
  address : UInt64
  width : Nat
  value : UInt64
deriving DecidableEq, Repr

inductive Event where
  /-- Instruction number `count` retired; the value is that of the program counter, if known. -/
  | retire (count : Nat) (counter : Option Value)
  | register (name : String) (value : Value)
  | memory (access : MemoryAccess)
  | platform (message : String)
deriving DecidableEq, Repr

structure ExceptionState where
  pending : Bool
  /-- What was thrown last; it stays when the exception is no longer pending. -/
  thrown : Option Value
  location : String
deriving DecidableEq, Repr

def ExceptionState.initial : ExceptionState := ⟨false, none, ""⟩

structure Machine where
  registers : List Value
  registerNames : List String
  exception : ExceptionState
  memory : Memory
  /-- The address that is reserved, if any. -/
  reservation : Option UInt64
  output : Array String
  trace : TraceFlags
  events : Array Event
deriving Repr

namespace Machine

def record (m : Machine) (event : Event) : Machine := { m with events := m.events.push event }

/-! ### Registers -/

/-- The number of a register; the first one of that name counts. -/
def registerIndex? (m : Machine) (name : String) : Option Nat :=
  m.registerNames.findIdx? fun n => n == name

/-- Keeps the event that register `index` was written. -/
def noteRegister (m : Machine) (index : Nat) : Machine :=
  if m.trace.registers then
    match m.registerNames[index]?, m.registers[index]? with
    | some name, some value => m.record (.register name value)
    | _, _ => m
  else m

def setRegister (m : Machine) (index : Nat) (value : Value) : Machine :=
  { m with registers := m.registers.set index value }.noteRegister index

/-! ### Output -/

def print (m : Machine) (line : String) : Machine := { m with output := m.output.push line }

def notePlatform (m : Machine) (message : String) : Machine :=
  if m.trace.platform then m.record (.platform message) else m

/-! ### Traced memory -/

def noteAccess (m : Machine) (kind : AccessKind) (address : UInt64) (width : Nat)
    (value : UInt64) : Machine :=
  if m.trace.memory then m.record (.memory ⟨kind, address, width, value⟩) else m

def readMemory (m : Machine) (address : UInt64) (width : Nat) :
    Except RunFault UInt64 × Machine :=
  match m.memory.read address width with
  | .error fault => (.error (.memory fault), m)
  | .ok (value, memory) =>
      (.ok value, { m with memory := memory }.noteAccess .read address width value)

def writeMemory (m : Machine) (address : UInt64) (width : Nat) (value : UInt64) :
    Except RunFault Unit × Machine :=
  match m.memory.write address width value with
  | (.error fault, memory) => (.error (.memory fault), { m with memory := memory })
  | (.ok (), memory) =>
      (.ok (), { m with memory := memory }.noteAccess .write address width (truncate value width))

end Machine

end JumpIR
