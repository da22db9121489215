import JumpIR.Proofs.Memory.Bytes
import JumpIR.Proofs.Outcome
import JumpIR.Value.Default

/-!
# Normal values

A value is normal if every bitvector in it, at any depth, has from one to 64 bits and no bit set
beyond them. The operations of `Value` keep values normal.
-/

set_option autoImplicit false

namespace JumpIR

/-- A width that a bitvector may have. -/
def IsWidth (width : Nat) : Prop := 1 ≤ width ∧ width ≤ 64

instance (width : Nat) : Decidable (IsWidth width) := inferInstanceAs (Decidable (_ ∧ _))

theorem toNat_widthMask {width : Nat} (bound : width ≤ 64) :
    (widthMask width).toNat = 2 ^ width - 1 := by
  unfold widthMask
  split
  · rename_i wide
    have full : width = 64 := Nat.le_antisymm bound wide
    rw [full]
    rfl
  · exact lowOnes_toNat (by omega)

namespace Value

mutual

/-- Every bitvector in the value has from one to 64 bits, and none is set beyond them. -/
def Normal : Value → Prop
  | .bits width value => IsWidth width ∧ value.toNat < 2 ^ width
  | .union _ _ payload => Normal payload
  | .tuple items => AllNormal items
  | .unit | .bool _ | .int _ | .string _ | .enum _ _ => True

def AllNormal : List Value → Prop
  | [] => True
  | v :: rest => Normal v ∧ AllNormal rest

end

mutual

instance decidableNormal : (v : Value) → Decidable v.Normal
  | .bits width value => inferInstanceAs (Decidable (IsWidth width ∧ value.toNat < 2 ^ width))
  | .union _ _ payload => decidableNormal payload
  | .tuple items => decidableAllNormal items
  | .unit | .bool _ | .int _ | .string _ | .enum _ _ => inferInstanceAs (Decidable True)

instance decidableAllNormal : (values : List Value) → Decidable (AllNormal values)
  | [] => inferInstanceAs (Decidable True)
  | v :: rest => @instDecidableAnd _ _ (decidableNormal v) (decidableAllNormal rest)

end

theorem allNormal_iff {values : List Value} : AllNormal values ↔ ∀ v ∈ values, v.Normal := by
  induction values with
  | nil => simp [AllNormal]
  | cons v rest ih => simp [AllNormal, ih]

theorem normal_ofBits {width : Nat} (isWidth : IsWidth width) (value : UInt64) :
    (ofBits width value).Normal := by
  refine ⟨isWidth, ?_⟩
  rw [UInt64.toNat_and, toNat_widthMask isWidth.2, Nat.and_two_pow_sub_one_eq_mod]
  exact Nat.mod_lt _ (Nat.two_pow_pos width)

theorem AllNormal.getElem? {values : List Value} {index : Nat} {value : Value}
    (normal : AllNormal values) (found : values[index]? = some value) : value.Normal :=
  allNormal_iff.mp normal value (List.mem_of_getElem? found)

theorem AllNormal.set {values : List Value} {value : Value} (normal : AllNormal values)
    (also : value.Normal) (index : Nat) : AllNormal (values.set index value) := by
  rw [allNormal_iff] at normal ⊢
  intro v member
  rcases List.mem_or_eq_of_mem_set member with old | rfl
  · exact normal v old
  · exact also

theorem normal_field {value part : Value} {index : Nat} (normal : value.Normal)
    (found : value.field index = .ok part) : part.Normal := by
  unfold field at found
  split at found
  · rename_i items
    split at found
    · rename_i item here
      cases found
      exact AllNormal.getElem? normal here
    · cases found
  · cases found

end Value

end JumpIR
