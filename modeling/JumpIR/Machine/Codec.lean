import JumpIR.Json.Decode
import JumpIR.Machine.Driver

/-!
# Configurations and reports as JSON

Configurations take defaults for what they do not give; images, accesses and summaries must be
complete. The kind of a memory is an object whose member `kind` tells which other members count.
-/

set_option autoImplicit false

namespace JumpIR

open Json

/-! ### Memory -/

namespace MemoryKind

def encode : MemoryKind → Json
  | .flat capacity => .object [("kind", .text "flat"), ("capacity", .int capacity)]
  | .sparse => .object [("kind", .text "sparse")]

/-- The kind of that name, with the slot of its capacity. -/
def ofName? (name : String) (room : Nat) (capacity : Option Slot) : Option MemoryKind :=
  if name = "flat" then do
    let bytes ← required decodeU64 room (← capacity)
    some (.flat bytes)
  else if name = "sparse" then some .sparse
  else none

/-- Members that do not count are read in full and left aside. In an array the kind comes first,
and what it needs follows. -/
def decode : Decoder MemoryKind
  | room + 1, .object members => do
      let others := members.filter fun (name, _) => name != "kind"
      guard (membersReadable room others)
      match ← memberSlot? members "kind" with
      | .given kind => ofName? (← decodeText room kind) room (memberSlot? members "capacity")
      | _ => none
  | room + 1, .array [kind] => do
      let name ← decodeText room kind
      if name = "sparse" then some .sparse else none
  | room + 1, .array [kind, capacity] => do
      let name ← decodeText room kind
      if name = "flat" then ofName? name room (some (.given capacity)) else none
  | _, _ => none

end MemoryKind

namespace TraceFlags

def encode (t : TraceFlags) : Json :=
  .object [("print_instr", .bool t.instructions), ("print_reg", .bool t.registers),
    ("print_mem_access", .bool t.memory), ("print_platform", .bool t.platform),
    ("echo_output", .bool t.echo)]

def fieldNames : List String :=
  ["print_instr", "print_reg", "print_mem_access", "print_platform", "echo_output"]

def decode : Decoder TraceFlags := fun room json => do
  match ← openRecord? fieldNames room json with
  | (room, [instructions, registers, memory, platform, echo]) => do
      let instructions ← withDefault TraceFlags.none.instructions decodeBool room instructions
      let registers ← withDefault TraceFlags.none.registers decodeBool room registers
      let memory ← withDefault TraceFlags.none.memory decodeBool room memory
      let platform ← withDefault TraceFlags.none.platform decodeBool room platform
      let echo ← withDefault TraceFlags.none.echo decodeBool room echo
      some ⟨instructions, registers, memory, platform, echo⟩
  | _ => none

end TraceFlags

namespace SimConfig

def encode (c : SimConfig) : Json :=
  .object [("memory", c.memory.encode), ("trace", c.trace.encode),
    ("max_call_depth", .int c.maxCallDepth)]

def decode : Decoder SimConfig := fun room json => do
  match ← openRecord? ["memory", "trace", "max_call_depth"] room json with
  | (room, [memory, trace, maxCallDepth]) => do
      let memory ← withDefault SimConfig.default.memory MemoryKind.decode room memory
      let trace ← withDefault SimConfig.default.trace TraceFlags.decode room trace
      let maxCallDepth ← withDefault SimConfig.default.maxCallDepth decodeU64 room maxCallDepth
      some ⟨memory, trace, maxCallDepth⟩
  | _ => none

end SimConfig

/-! ### The step loop -/

namespace DriverConfig

def encode (c : DriverConfig) : Json :=
  .object [("step_function", .text c.stepFunction),
    ("tick_functions", encodeList .text c.tickFunctions),
    ("insns_per_tick", .int c.insnsPerTick), ("insn_limit", .int c.insnLimit),
    ("done_register", encodeOption .text c.doneRegister),
    ("pc_register", encodeOption .text c.counterRegister)]

def fieldNames : List String :=
  ["step_function", "tick_functions", "insns_per_tick", "insn_limit", "done_register",
   "pc_register"]

def decode : Decoder DriverConfig := fun room json => do
  match ← openRecord? fieldNames room json with
  | (room, [stepFunction, tickFunctions, insnsPerTick, insnLimit, done, counter]) => do
      let stepFunction ← withDefault default.stepFunction decodeText room stepFunction
      let tickFunctions ←
        withDefault default.tickFunctions (decodeList decodeText) room tickFunctions
      let insnsPerTick ← withDefault default.insnsPerTick decodeU64 room insnsPerTick
      let insnLimit ← withDefault default.insnLimit decodeU64 room insnLimit
      let done ← withDefault default.doneRegister (decodeOption decodeText) room done
      let counter ← withDefault default.counterRegister (decodeOption decodeText) room counter
      some ⟨stepFunction, tickFunctions, insnsPerTick, insnLimit, done, counter⟩
  | _ => none

end DriverConfig

namespace StopReason

def encode : StopReason → Json
  | .done => .text "done"
  | .insnLimit => .text "insn_limit"
  | .uncaughtException => .text "uncaught_exception"

def decode : Decoder StopReason := fun room json => do
  match ← openChoice? room json with
  | ("done", rest) => noContent .done rest
  | ("insn_limit", rest) => noContent .insnLimit rest
  | ("uncaught_exception", rest) => noContent .uncaughtException rest
  | _ => none

end StopReason

namespace RunSummary

def encode (s : RunSummary) : Json :=
  .object [("retired", .int s.retired), ("steps", .int s.steps), ("ticks", .int s.ticks),
    ("stop", s.stop.encode)]

def decode : Decoder RunSummary := fun room json => do
  match ← openRecord? ["retired", "steps", "ticks", "stop"] room json with
  | (room, [retired, steps, ticks, stop]) => do
      let retired ← required decodeU64 room retired
      let steps ← required decodeU64 room steps
      let ticks ← required decodeU64 room ticks
      let stop ← required StopReason.decode room stop
      some ⟨retired, steps, ticks, stop⟩
  | _ => none

end RunSummary

/-! ### Accesses and images -/

namespace AccessKind

def encode : AccessKind → Json
  | .read => .text "read"
  | .write => .text "write"

def decode : Decoder AccessKind := fun room json => do
  match ← openChoice? room json with
  | ("read", rest) => noContent .read rest
  | ("write", rest) => noContent .write rest
  | _ => none

end AccessKind

namespace MemoryAccess

def encode (a : MemoryAccess) : Json :=
  .object [("kind", a.kind.encode), ("address", .int a.address.toNat), ("width", .int a.width),
    ("value", .int a.value.toNat)]

def decode : Decoder MemoryAccess := fun room json => do
  match ← openRecord? ["kind", "address", "width", "value"] room json with
  | (room, [kind, address, width, value]) => do
      let kind ← required AccessKind.decode room kind
      let address ← required decodeWord room address
      let width ← required decodeU64 room width
      let value ← required decodeWord room value
      some ⟨kind, address, width, value⟩
  | _ => none

end MemoryAccess

namespace Section

def encode (s : Section) : Json :=
  .object [("name", .text s.name), ("base", .int s.base.toNat),
    ("data", encodeList (fun byte : UInt8 => .int byte.toNat) s.data)]

def decode : Decoder Section := fun room json => do
  match ← openRecord? ["name", "base", "data"] room json with
  | (room, [name, base, data]) => do
      let name ← required decodeText room name
      let base ← required decodeWord room base
      let data ← required (decodeList decodeU8) room data
      some ⟨name, base, data⟩
  | _ => none

end Section

namespace Image

def encode (i : Image) : Json :=
  .object [("sections", encodeList Section.encode i.sections), ("entry", .int i.entry.toNat)]

def decode : Decoder Image := fun room json => do
  match ← openRecord? ["sections", "entry"] room json with
  | (room, [sections, entry]) => do
      let sections ← required (decodeList Section.decode) room sections
      let entry ← required decodeWord room entry
      some ⟨sections, entry⟩
  | _ => none

end Image

end JumpIR
