import JumpIR.Memory.Word

/-!
# Sparse memory

The address space is cut into blocks of 2^20 bytes. A block is allocated, all zero, when an access
first touches it, and keeps its slot from then on. The block of the last access is remembered, and
accesses that find their block so are counted apart from the others.
-/

set_option autoImplicit false

namespace JumpIR

/-- How many low bits of an address tell the byte within its block. -/
def blockBits : Nat := 20

def blockSize : Nat := 1 <<< blockBits

/-- The number of the block that an address lies in. -/
def blockIndex (address : UInt64) : Nat := address.toNat / blockSize

/-- The number of the word that an address lies in, within its block. -/
def wordOffset (address : UInt64) : Nat := address.toNat % blockSize / 8

/-- A block and the slot that holds it. -/
structure BlockSlot where
  block : Nat
  slot : Nat
deriving DecidableEq, Repr

structure SparseMemory where
  /-- The allocated blocks by slot, in the order of their first touch. -/
  blocks : List WordMap
  /-- The slot of each allocated block. -/
  table : List BlockSlot
  last : Option BlockSlot
  hits : Nat
  misses : Nat
deriving Repr

namespace SparseMemory

def empty : SparseMemory := ⟨[], [], none, 0, 0⟩

/-- The slot that the table gives a block. -/
def tableSlot? (m : SparseMemory) (block : Nat) : Option Nat :=
  (m.table.find? fun entry => entry.block == block).map (·.slot)

/-- The memory with a slot for the block, which is the last of them unless it was there before. -/
def allocate (m : SparseMemory) (block : Nat) : Nat × SparseMemory :=
  match m.tableSlot? block with
  | some slot => (slot, m)
  | none =>
      (m.blocks.length,
        { m with
          blocks := m.blocks ++ [.empty]
          table := m.table ++ [⟨block, m.blocks.length⟩] })

/-- The slot of a block that is accessed now. -/
def touch (m : SparseMemory) (block : Nat) : Nat × SparseMemory :=
  match m.last.filter fun entry => entry.block == block with
  | some entry => (entry.slot, { m with hits := m.hits + 1 })
  | none =>
      let (slot, m) := m.allocate block
      (slot, { m with misses := m.misses + 1, last := some ⟨block, slot⟩ })

def word (m : SparseMemory) (slot offset : Nat) : UInt64 := (m.blocks.getD slot .empty).get offset

def alignedRead (m : SparseMemory) (address : UInt64) (width : Nat) :
    Except MemoryFault (UInt64 × SparseMemory) := do
  checkAligned address width
  let (slot, m) := m.touch (blockIndex address)
  .ok (readLane (m.word slot (wordOffset address)) address width, m)

def alignedWrite (m : SparseMemory) (address : UInt64) (width : Nat) (value : UInt64) :
    Except MemoryFault SparseMemory := do
  checkAligned address width
  let (slot, m) := m.touch (blockIndex address)
  let word := writeLane (m.word slot (wordOffset address)) address width value
  .ok { m with blocks := m.blocks.modify slot fun block => block.set (wordOffset address) word }

end SparseMemory

end JumpIR
