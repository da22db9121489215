import JumpIR.Machine.Execution
import JumpIR.Machine.Image

/-!
# Simulators

A simulator is a linked program with a machine of its own. Linking finds the support operations of
a program and gives every register its default value.
-/

set_option autoImplicit false

namespace JumpIR

structure SimConfig where
  memory : MemoryKind
  trace : TraceFlags
  maxCallDepth : Nat
deriving DecidableEq, Repr

def SimConfig.default : SimConfig := ⟨.sparse, .none, 1024⟩

structure Simulator where
  linked : Linked
  machine : Machine

namespace Simulator

/-- The operation that a support definition is bound to, which must take as many arguments. -/
def linkSupport (d : SupportDef) : Except RunFault Support.Operation :=
  match Support.find? d.symbol with
  | none => .error (.unknownSupport d.symbol)
  | some op =>
      if op.arity = d.params.length then .ok op
      else .error (.arityMismatch d.name op.arity d.params.length)

def linkSupports : List SupportDef → Except RunFault (List Support.Operation)
  | [] => .ok []
  | d :: rest => do
      let op ← linkSupport d
      let rest ← linkSupports rest
      .ok (op :: rest)

/-- A machine with those registers, and all else as it is at first. -/
def freshMachine (names : List String) (values : List Value) (memory : Memory)
    (trace : TraceFlags) : Machine :=
  ⟨values, names, .initial, memory, none, #[], trace, #[]⟩

def create (program : Program) (config : SimConfig) : Except RunFault Simulator := do
  let supports ← linkSupports program.supports
  let values ← program.defaultValues (program.registers.map (·.type))
  match config.memory.build with
  | .error fault => .error (.memory fault)
  | .ok memory =>
      .ok ⟨⟨program, supports, config.maxCallDepth⟩,
        freshMachine (program.registers.map (·.name)) values memory config.trace⟩

/-- Calls a function by its name, for at most `budget` steps. An exception that the model throws is
no fault: the call then returns a default value with the exception pending. -/
def call (s : Simulator) (budget : Nat) (name : String) (args : List Value) :
    Option (Except RunFault Value × Simulator) :=
  match s.linked.program.functionId? name with
  | none => some (.error (.unknownFunction name), s)
  | some id =>
      (s.linked.call budget id args s.machine).map fun (result, m) =>
        (result, { s with machine := m })

def register? (s : Simulator) (name : String) : Option Value := do
  let index ← s.machine.registerIndex? name
  s.machine.registers[index]?

def setRegister (s : Simulator) (name : String) (value : Value) : Except RunFault Simulator :=
  match s.machine.registerIndex? name with
  | none => .error (.unknownRegister name)
  | some index =>
      if index < s.machine.registers.length then
        .ok { s with machine := s.machine.setRegister index value }
      else .error (.unknownRegister s!"#{index}")

def loadImage (s : Simulator) (image : Image) : Except RunFault Image.Report × Simulator :=
  match image.load s.machine.memory with
  | (.ok report, memory) => (.ok report, { s with machine := { s.machine with memory := memory } })
  | (.error fault, memory) =>
      (.error (.memory fault), { s with machine := { s.machine with memory := memory } })

end Simulator

end JumpIR
