import Mathlib.Algebra.Group.Nat.Defs
import JumpIR.Memory.Word

/-!
# Bytes of words

A `ByteMap` gives every address a byte. Words that are numbered from address zero on spell one, and
a lane of a word is the number that its bytes spell. All of this is settled bit by bit.
-/

set_option autoImplicit false

namespace JumpIR

/-- A byte of a number; byte zero is the lowest. -/
def byteOf (number index : Nat) : UInt8 := UInt8.ofNat (number >>> (8 * index))

theorem testBit_byteOf (number index bit : Nat) :
    (byteOf number index).toNat.testBit bit =
      (decide (bit < 8) && number.testBit (8 * index + bit)) := by
  unfold byteOf
  rw [UInt8.toNat_ofNat', Nat.testBit_mod_two_pow, Nat.testBit_shiftRight]

theorem byte_eq_of_testBit {left right : UInt8}
    (same : ∀ bit < 8, left.toNat.testBit bit = right.toNat.testBit bit) : left = right := by
  apply UInt8.toNat_inj.mp
  apply Nat.eq_of_testBit_eq
  intro bit
  by_cases inside : bit < 8
  · exact same bit inside
  · have large : 2 ^ 8 ≤ 2 ^ bit := Nat.pow_le_pow_right (by omega) (by omega)
    have leftSmall : left.toNat < 2 ^ bit := Nat.lt_of_lt_of_le left.toNat_lt large
    have rightSmall : right.toNat < 2 ^ bit := Nat.lt_of_lt_of_le right.toNat_lt large
    rw [Nat.testBit_lt_two_pow leftSmall, Nat.testBit_lt_two_pow rightSmall]

theorem byteOf_mod {width index : Nat} (number : Nat) (inside : index < width) :
    byteOf (number % 2 ^ (8 * width)) index = byteOf number index := by
  apply byte_eq_of_testBit
  intro bit small
  rw [testBit_byteOf, testBit_byteOf, Nat.testBit_mod_two_pow]
  have below : 8 * index + bit < 8 * width := by omega
  simp [below]

/-- A byte for every address. -/
abbrev ByteMap := UInt64 → UInt8

namespace ByteMap

/-- The number that so many bytes from `address` on spell, the lowest byte first. -/
def number (b : ByteMap) (address : UInt64) : Nat → Nat
  | 0 => 0
  | count + 1 =>
      2 ^ (8 * count) * (b (address + UInt64.ofNat count)).toNat + b.number address count

/-- The map whose `width` bytes from `address` on are the lowest ones of a number. -/
def store (b : ByteMap) (address : UInt64) (width number : Nat) : ByteMap := fun place =>
  if address.toNat ≤ place.toNat ∧ place.toNat < address.toNat + width then
    byteOf number (place.toNat - address.toNat)
  else b place

variable {b : ByteMap} {address : UInt64}

theorem number_lt (b : ByteMap) (address : UInt64) (count : Nat) :
    b.number address count < 2 ^ (8 * count) := by
  induction count with
  | zero => exact Nat.one_pos
  | succ count ih =>
      unfold number
      have byte := (b (address + UInt64.ofNat count)).toNat_lt
      calc 2 ^ (8 * count) * (b (address + UInt64.ofNat count)).toNat + b.number address count
          < 2 ^ (8 * count) * (b (address + UInt64.ofNat count)).toNat + 2 ^ (8 * count) := by
            exact Nat.add_lt_add_left ih _
        _ = 2 ^ (8 * count) * ((b (address + UInt64.ofNat count)).toNat + 1) :=
            (Nat.mul_succ _ _).symm
        _ ≤ 2 ^ (8 * count) * 2 ^ 8 := Nat.mul_le_mul_left _ byte
        _ = 2 ^ (8 * (count + 1)) := by rw [← Nat.pow_add, Nat.mul_succ]

theorem testBit_number (b : ByteMap) (address : UInt64) (count bit : Nat) :
    (b.number address count).testBit bit =
      (decide (bit < 8 * count) &&
        (b (address + UInt64.ofNat (bit / 8))).toNat.testBit (bit % 8)) := by
  induction count with
  | zero =>
      have empty : ¬ bit < 8 * 0 := by omega
      rw [number, Nat.zero_testBit, decide_eq_false empty, Bool.false_and]
  | succ count ih =>
      rw [number, Nat.testBit_two_pow_mul_add _ (b.number_lt address count)]
      split
      · rename_i below
        have also : bit < 8 * (count + 1) := by omega
        rw [ih, decide_eq_true below, decide_eq_true also]
      · rename_i above
        by_cases last : bit < 8 * (count + 1)
        · have whole : bit / 8 = count := by omega
          have part : bit - 8 * count = bit % 8 := by omega
          rw [decide_eq_true last, Bool.true_and, whole, part]
        · rw [decide_eq_false last, Bool.false_and]
          have byte := (b (address + UInt64.ofNat count)).toNat_lt
          have large : 2 ^ 8 ≤ 2 ^ (bit - 8 * count) :=
            Nat.pow_le_pow_right (by omega) (by omega)
          exact Nat.testBit_lt_two_pow (Nat.lt_of_lt_of_le byte large)

end ByteMap

/-! ### Lanes -/

/-- The word whose low `count` bits are ones, if that leaves out the highest bit. -/
theorem lowOnes_toNat {count : Nat} (small : count < 64) :
    (((1 : UInt64) <<< UInt64.ofNat count) - 1).toNat = 2 ^ count - 1 := by
  have shift : (UInt64.ofNat count).toNat % 64 = count := by
    rw [UInt64.toNat_ofNat']
    omega
  have large : 2 ^ count < 2 ^ 64 := Nat.pow_lt_pow_right (by omega) small
  have one : ((1 : UInt64) <<< UInt64.ofNat count).toNat = 2 ^ count := by
    rw [UInt64.toNat_shiftLeft, shift]
    change 1 <<< count % 2 ^ 64 = _
    rw [Nat.one_shiftLeft, Nat.mod_eq_of_lt large]
  have least : (1 : UInt64) ≤ (1 : UInt64) <<< UInt64.ofNat count := by
    rw [UInt64.le_iff_toNat_le, one]
    exact Nat.two_pow_pos count
  rw [UInt64.toNat_sub_of_le _ _ least, one]
  rfl

section

variable {word address value : UInt64} {width : Nat}

theorem truncate_toNat (value : UInt64) (width : Nat) :
    (truncate value width).toNat = value.toNat % 2 ^ (8 * width) := by
  unfold truncate
  split
  · rename_i wide
    have bound : value.toNat < 2 ^ 64 := value.toNat_lt
    have large : 2 ^ 64 ≤ 2 ^ (8 * width) := Nat.pow_le_pow_right (by omega) (by omega)
    exact (Nat.mod_eq_of_lt (Nat.lt_of_lt_of_le bound large)).symm
  · rename_i narrow
    rw [UInt64.toNat_and, lowOnes_toNat (by omega)]
    exact Nat.and_two_pow_sub_one_eq_mod _ _

theorem laneShift_toNat (address : UInt64) :
    (laneShift address).toNat % 64 = 8 * (address.toNat % 8) := by
  have low : (address &&& 7).toNat = address.toNat % 8 := by
    rw [UInt64.toNat_and]
    exact Nat.and_two_pow_sub_one_eq_mod address.toNat 3
  unfold laneShift
  rw [UInt64.toNat_mul, low]
  change address.toNat % 8 * 8 % 2 ^ 64 % 64 = _
  omega

theorem readLane_toNat (inside : address.toNat % 8 + width ≤ 8) :
    (readLane word address width).toNat =
      word.toNat >>> (8 * (address.toNat % 8)) % 2 ^ (8 * width) := by
  unfold readLane
  split
  · rename_i whole
    have first : address.toNat % 8 = 0 := by omega
    rw [first, whole]
    exact (Nat.mod_eq_of_lt word.toNat_lt).symm
  · rw [truncate_toNat, UInt64.toNat_shiftRight, laneShift_toNat]

theorem testBit_laneMask {bit : Nat} (small : bit < 64) (value : UInt64) :
    (truncate value width <<< laneShift address).toNat.testBit bit =
      (decide (8 * (address.toNat % 8) ≤ bit ∧ bit < 8 * (address.toNat % 8 + width)) &&
        value.toNat.testBit (bit - 8 * (address.toNat % 8))) := by
  rw [UInt64.toNat_shiftLeft, laneShift_toNat, truncate_toNat, Nat.testBit_mod_two_pow,
    Nat.testBit_shiftLeft, Nat.testBit_mod_two_pow, decide_eq_true small, Bool.true_and]
  by_cases above : 8 * (address.toNat % 8) ≤ bit
  · by_cases below : bit < 8 * (address.toNat % 8 + width)
    · have within : bit - 8 * (address.toNat % 8) < 8 * width := by omega
      simp [above, below, within]
    · have without : ¬ bit - 8 * (address.toNat % 8) < 8 * width := by omega
      simp [below, without]
  · simp [above]

theorem testBit_writeLane {bit : Nat} (inside : address.toNat % 8 + width ≤ 8) (small : bit < 64) :
    (writeLane word address width value).toNat.testBit bit =
      if 8 * (address.toNat % 8) ≤ bit ∧ bit < 8 * (address.toNat % 8 + width) then
        value.toNat.testBit (bit - 8 * (address.toNat % 8))
      else word.toNat.testBit bit := by
  unfold writeLane
  split
  · rename_i whole
    have first : address.toNat % 8 = 0 := by omega
    rw [first, if_pos (by omega)]
    rfl
  · rename_i part
    -- The mask is the lane of a word of ones.
    have full : ∀ i < 64, (~~~(0 : UInt64)).toNat.testBit i = true := by
      intro i bound
      change (2 ^ 64 - 1).testBit i = true
      rw [Nat.testBit_two_pow_sub_one, decide_eq_true bound]
    dsimp only
    rw [UInt64.toNat_or, UInt64.toNat_and, UInt64.toNat_not, Nat.testBit_or, Nat.testBit_and,
      testBit_laneMask small]
    have flipped : ∀ mask : UInt64, (UInt64.size - 1 - mask.toNat).testBit bit =
        !mask.toNat.testBit bit := by
      intro mask
      have bound : mask.toNat < 2 ^ 64 := mask.toNat_lt
      have same : UInt64.size - 1 - mask.toNat = 2 ^ 64 - (mask.toNat + 1) := by
        change 2 ^ 64 - 1 - mask.toNat = _
        omega
      rw [same, Nat.testBit_two_pow_sub_succ bound, decide_eq_true small, Bool.true_and]
    rw [flipped, testBit_laneMask small]
    split
    · rename_i within
      rw [full _ (by omega), decide_eq_true within]
      simp
    · rename_i without
      rw [decide_eq_false without]
      simp

/-- A write of a lane changes the bytes of the lane and no others. -/
theorem byteOf_writeLane {index : Nat} (inside : address.toNat % 8 + width ≤ 8)
    (small : index < 8) :
    byteOf (writeLane word address width value).toNat index =
      if address.toNat % 8 ≤ index ∧ index < address.toNat % 8 + width then
        byteOf value.toNat (index - address.toNat % 8)
      else byteOf word.toNat index := by
  apply byte_eq_of_testBit
  intro bit low
  have below : 8 * index + bit < 64 := by omega
  rw [testBit_byteOf, testBit_writeLane inside below]
  by_cases within : address.toNat % 8 ≤ index ∧ index < address.toNat % 8 + width
  · rw [if_pos within, if_pos (by omega), testBit_byteOf]
    have same : 8 * index + bit - 8 * (address.toNat % 8) =
        8 * (index - address.toNat % 8) + bit := by omega
    rw [same]
  · rw [if_neg within, if_neg (by omega), testBit_byteOf]

end

/-! ### Words as bytes -/

/-- The bytes that numbered words spell. -/
def wordBytes (words : Nat → UInt64) : ByteMap := fun place =>
  byteOf (words (place.toNat / 8)).toNat (place.toNat % 8)

theorem number_wordBytes {words : Nat → UInt64} {address : UInt64} {width : Nat}
    (inside : address.toNat % 8 + width ≤ 8) :
    (wordBytes words).number address width =
      (readLane (words (address.toNat / 8)) address width).toNat := by
  rw [readLane_toNat inside]
  apply Nat.eq_of_testBit_eq
  intro bit
  rw [ByteMap.testBit_number, Nat.testBit_mod_two_pow, Nat.testBit_shiftRight]
  by_cases low : bit < 8 * width
  · have bound : address.toNat < 2 ^ 64 := address.toNat_lt
    have place : (address + UInt64.ofNat (bit / 8)).toNat = address.toNat + bit / 8 := by
      rw [UInt64.toNat_add, UInt64.toNat_ofNat']
      omega
    have sameWord : (address.toNat + bit / 8) / 8 = address.toNat / 8 := by omega
    have lane : (address.toNat + bit / 8) % 8 = address.toNat % 8 + bit / 8 := by omega
    have whole : 8 * (address.toNat % 8 + bit / 8) + bit % 8 = 8 * (address.toNat % 8) + bit := by
      omega
    have part : bit % 8 < 8 := by omega
    unfold wordBytes
    rw [place, sameWord, lane, testBit_byteOf, whole, decide_eq_true part, Bool.true_and]
  · rw [decide_eq_false low, Bool.false_and, Bool.false_and]

/-- The words of which one is replaced. -/
def setWord (words : Nat → UInt64) (index : Nat) (word : UInt64) : Nat → UInt64 := fun other =>
  if other = index then word else words other

theorem wordBytes_writeLane {words : Nat → UInt64} {address value : UInt64} {width : Nat}
    (inside : address.toNat % 8 + width ≤ 8) :
    wordBytes (setWord words (address.toNat / 8)
      (writeLane (words (address.toNat / 8)) address width value)) =
      (wordBytes words).store address width value.toNat := by
  funext place
  unfold wordBytes setWord ByteMap.store
  dsimp only
  by_cases here : place.toNat / 8 = address.toNat / 8
  · rw [if_pos here, byteOf_writeLane inside (by omega), here]
    by_cases within : address.toNat ≤ place.toNat ∧ place.toNat < address.toNat + width
    · have distance : place.toNat % 8 - address.toNat % 8 = place.toNat - address.toNat := by omega
      rw [if_pos within, if_pos (by omega), distance]
    · rw [if_neg within, if_neg (by omega)]
  · have without : ¬ (address.toNat ≤ place.toNat ∧ place.toNat < address.toNat + width) := by omega
    rw [if_neg here, if_neg without]

end JumpIR
