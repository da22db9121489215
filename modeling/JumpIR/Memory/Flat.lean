import JumpIR.Memory.Word

/-!
# Flat memory

A memory of a fixed number of words from address zero on.
-/

set_option autoImplicit false

namespace JumpIR

structure FlatMemory where
  size : Nat
  words : WordMap
deriving Repr

namespace FlatMemory

/-- No flat memory has as many bytes as this. -/
def capacityLimit : Nat := 1 <<< 62

/-- A memory of zeros that holds `bytes` bytes, rounded up to whole words. -/
def create (bytes : Nat) : Except MemoryFault FlatMemory :=
  if bytes < capacityLimit then .ok ⟨(bytes + 7) / 8, .empty⟩ else .error (.capacityTooLarge bytes)

def capacity (m : FlatMemory) : Nat := 8 * m.size

/-- The number of the word that an aligned access takes. -/
def wordIndex (m : FlatMemory) (address : UInt64) (width : Nat) : Except MemoryFault Nat := do
  checkAligned address width
  if address.toNat + width < UInt64.size ∧ address.toNat + width ≤ m.capacity then
    .ok (address.toNat / 8)
  else .error (.outOfBounds address width)

def alignedRead (m : FlatMemory) (address : UInt64) (width : Nat) :
    Except MemoryFault UInt64 := do
  let index ← m.wordIndex address width
  .ok (readLane (m.words.get index) address width)

def alignedWrite (m : FlatMemory) (address : UInt64) (width : Nat) (value : UInt64) :
    Except MemoryFault FlatMemory := do
  let index ← m.wordIndex address width
  .ok { m with words := m.words.set index (writeLane (m.words.get index) address width value) }

end FlatMemory

end JumpIR
