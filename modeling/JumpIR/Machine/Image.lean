import JumpIR.Memory.Access

/-!
# Images

An image is what is put into memory before a run: sections of bytes at their addresses, and the
address of the first instruction. Where sections overlap, the later one counts.
-/

set_option autoImplicit false

namespace JumpIR

structure Section where
  name : String
  base : UInt64
  data : List UInt8
deriving DecidableEq, Repr

structure Image where
  sections : List Section
  entry : UInt64
deriving DecidableEq, Repr

namespace Image

/-- The section whose address a host watches for the end of a run. -/
def hostSection : String := ".tohost"

structure Report where
  entry : UInt64
  /-- The address of the last section that a host watches. -/
  tohost : Option UInt64
  bytes : Nat
deriving DecidableEq, Repr

/-- Stores a list of sections, in order, on top of what `report` tells. -/
def loadSections : List Section → Report → Memory → Except MemoryFault Report × Memory
  | [], report, m => (.ok report, m)
  | s :: rest, report, m =>
      match m.writeBytes s.base s.data with
      | (.error fault, m) => (.error fault, m)
      | (.ok (), m) =>
          loadSections rest
            { report with
              tohost := if s.name = hostSection then some s.base else report.tohost
              bytes := report.bytes + s.data.length } m

def load (image : Image) (m : Memory) : Except MemoryFault Report × Memory :=
  loadSections image.sections ⟨image.entry, none, 0⟩ m

end Image

end JumpIR
