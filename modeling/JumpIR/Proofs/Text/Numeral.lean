/-!
# Decimal numerals

The characters in which a number is written: a sign where it is negative, and its digits, the first
of which is no zero unless it is the only one.
-/

set_option autoImplicit false

namespace JumpIR

theorem toList_toString (n : Int) :
    (toString n).toList = (if n < 0 then ['-'] else []) ++ Nat.toDigits 10 n.natAbs := by
  rw [Int.toString_eq_repr, Int.repr_eq_if]
  by_cases negative : n < 0
  · have size : (-n).toNat = n.natAbs := by omega
    rw [if_neg (Int.not_le.mpr negative), if_pos negative, String.toList_append, Nat.toList_repr,
      size]
    rfl
  · have size : n.toNat = n.natAbs := by omega
    rw [if_pos (Int.not_lt.mp negative), if_neg negative, Nat.toList_repr, List.nil_append, size]

theorem digitChar_ne_zero {d : Nat} (positive : 0 < d) (small : d < 10) : d.digitChar ≠ '0' := by
  intro same
  have value := Nat.toNat_digitChar_of_lt_ten small
  rw [same] at value
  have code : '0'.toNat = 48 := rfl
  omega

theorem toDigits_first {n : Nat} (positive : 0 < n) :
    ∃ c tail, Nat.toDigits 10 n = c :: tail ∧ c ≠ '0' := by
  induction n using Nat.strongRecOn with
  | ind n ih =>
      rw [Nat.toDigits_eq_if (by decide)]
      by_cases small : n < 10
      · rw [if_pos small]
        exact ⟨_, [], rfl, digitChar_ne_zero positive small⟩
      · rw [if_neg small]
        rcases ih (n / 10) (by omega) (by omega) with ⟨c, tail, same, apart⟩
        exact ⟨c, tail ++ [(n % 10).digitChar], by rw [same]; rfl, apart⟩

end JumpIR
