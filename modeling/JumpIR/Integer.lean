/-!
# Integers of 64 bits

The values of the IR are signed integers of 64 bits. An unbounded integer, read from a text or
computed exactly, becomes one only if it fits. Main function: `int64?`.
-/

set_option autoImplicit false

namespace JumpIR

/-- The signed integer of 64 bits that is equal to `n`, if there is one. -/
def int64? (n : Int) : Option Int64 :=
  if Int64.minValue.toInt ≤ n ∧ n ≤ Int64.maxValue.toInt then some (Int64.ofInt n) else none

/-- A conversion that succeeds keeps the value, and every value of 64 bits is its own image. -/
theorem int64?_eq_some_iff (n : Int) (k : Int64) : int64? n = some k ↔ k.toInt = n := by
  have low : Int64.minValue.toInt = -9223372036854775808 := rfl
  have high : Int64.maxValue.toInt = 9223372036854775807 := rfl
  unfold int64?
  by_cases fits : Int64.minValue.toInt ≤ n ∧ n ≤ Int64.maxValue.toInt
  · rw [if_pos fits, Option.some.injEq]
    have same : (Int64.ofInt n).toInt = n :=
      Int64.toInt_ofInt_of_le (by omega) (by omega)
    constructor
    · intro equal
      rw [← equal, same]
    · intro equal
      rw [← Int64.toInt_inj, same, equal]
  · rw [if_neg fits]
    constructor
    · intro impossible
      cases impossible
    · intro equal
      have below := Int64.le_toInt k
      have above := Int64.toInt_le k
      omega

end JumpIR
