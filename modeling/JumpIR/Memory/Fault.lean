import JumpIR.Token

/-!
# Access faults

Why an access to memory is refused.
-/

set_option autoImplicit false

namespace JumpIR

inductive MemoryFault where
  | invalidWidth (width : Nat)
  | outOfBounds (address : UInt64) (width : Nat)
  | misaligned (address : UInt64) (width : Nat)
  | capacityTooLarge (bytes : Nat)
deriving DecidableEq, Repr

def MemoryFault.message : MemoryFault → String
  | .invalidWidth width => s!"invalid access width {width} (expected 1, 2, 4 or 8)"
  | .outOfBounds address width =>
      s!"access of {width} bytes at {hexNumeral address.toNat} is out of bounds"
  | .misaligned address width =>
      s!"word access of {width} bytes at {hexNumeral address.toNat} is not aligned"
  | .capacityTooLarge bytes => s!"flat memory of {bytes} bytes cannot be allocated"

end JumpIR
