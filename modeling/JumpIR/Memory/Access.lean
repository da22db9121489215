import JumpIR.Memory.Flat
import JumpIR.Memory.Sparse

/-!
# Reading and writing memory

An access at a multiple of its width takes one word. Any other is split into accesses of one byte
each, of which a write that faults part way keeps what it has stored. Main functions:
`Memory.read`, `Memory.write`, `Memory.readBytes` and `Memory.writeBytes`.
-/

set_option autoImplicit false

namespace JumpIR

inductive MemoryKind where
  | flat (capacity : Nat)
  | sparse
deriving DecidableEq, Repr

inductive Memory where
  | flat (memory : FlatMemory)
  | sparse (memory : SparseMemory)
deriving Repr

def MemoryKind.build : MemoryKind → Except MemoryFault Memory
  | .flat capacity => (FlatMemory.create capacity).map .flat
  | .sparse => .ok (.sparse .empty)

namespace Memory

/-! ### Within one word -/

def alignedRead (m : Memory) (address : UInt64) (width : Nat) :
    Except MemoryFault (UInt64 × Memory) :=
  match m with
  | .flat store => (store.alignedRead address width).map fun value => (value, m)
  | .sparse store =>
      (store.alignedRead address width).map fun (value, store) => (value, .sparse store)

def alignedWrite (m : Memory) (address : UInt64) (width : Nat) (value : UInt64) :
    Except MemoryFault Memory :=
  match m with
  | .flat store => (store.alignedWrite address width value).map .flat
  | .sparse store => (store.alignedWrite address width value).map .sparse

/-! ### Anywhere -/

/-- The value of the `count` bytes from `address` on, the highest of which is read first; `above`
is the value of the bytes above them. -/
def readBytewise (m : Memory) (address : UInt64) :
    (count : Nat) → (above : UInt64) → Except MemoryFault (UInt64 × Memory)
  | 0, above => .ok (above, m)
  | count + 1, above => do
      let (byte, m) ← m.alignedRead (address + UInt64.ofNat count) 1
      readBytewise m address count ((above <<< 8) ||| byte)

def read (m : Memory) (address : UInt64) (width : Nat) : Except MemoryFault (UInt64 × Memory) := do
  checkWidth width
  checkTop address width
  if isAligned address width then m.alignedRead address width
  else m.readBytewise address width 0

/-- What a write did, and the memory behind it. -/
abbrev Written := Except MemoryFault Unit × Memory

/-- Stores the `count` lowest bytes of a value from `address` on, the lowest first. -/
def writeBytewise (m : Memory) (address : UInt64) : (count : Nat) → (value : UInt64) → Written
  | 0, _ => (.ok (), m)
  | count + 1, value =>
      match m.alignedWrite address 1 (value &&& 0xff) with
      | .error fault => (.error fault, m)
      | .ok m => writeBytewise m (address + 1) count (value >>> 8)

def write (m : Memory) (address : UInt64) (width : Nat) (value : UInt64) : Written :=
  match checkWidth width >>= fun _ => checkTop address width with
  | .error fault => (.error fault, m)
  | .ok () =>
      if isAligned address width then
        match m.alignedWrite address width (truncate value width) with
        | .error fault => (.error fault, m)
        | .ok m => (.ok (), m)
      else m.writeBytewise address width (truncate value width)

/-! ### Runs of bytes -/

/-- The address of byte number `index` of a run that starts at `address`. -/
def byteAddress (address : UInt64) (index : Nat) : Except MemoryFault UInt64 :=
  if address.toNat + index < UInt64.size then .ok (address + UInt64.ofNat index)
  else .error (.outOfBounds address 1)

/-- Stores bytes one by one, the first of them at byte number `index` of the run. -/
def writeBytesFrom (m : Memory) (address : UInt64) : (index : Nat) → List UInt8 → Written
  | _, [] => (.ok (), m)
  | index, byte :: rest =>
      match byteAddress address index with
      | .error fault => (.error fault, m)
      | .ok place =>
          match m.write place 1 byte.toUInt64 with
          | (.error fault, m) => (.error fault, m)
          | (.ok (), m) => writeBytesFrom m address (index + 1) rest

def writeBytes (m : Memory) (address : UInt64) (data : List UInt8) : Written :=
  m.writeBytesFrom address 0 data

/-- Reads `count` bytes one by one, the first of them at byte number `index` of the run. -/
def readBytesFrom (m : Memory) (address : UInt64) :
    (index count : Nat) → Except MemoryFault (List UInt8) × Memory
  | _, 0 => (.ok [], m)
  | index, count + 1 =>
      match byteAddress address index with
      | .error fault => (.error fault, m)
      | .ok place =>
          match m.read place 1 with
          | .error fault => (.error fault, m)
          | .ok (value, m) =>
              let (rest, m) := readBytesFrom m address (index + 1) count
              (rest.map (value.toUInt8 :: ·), m)

def readBytes (m : Memory) (address : UInt64) (count : Nat) :
    Except MemoryFault (List UInt8) × Memory :=
  m.readBytesFrom address 0 count

end Memory

end JumpIR
