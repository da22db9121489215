import Mathlib.Algebra.Ring.Int.Defs
import JumpIR.Machine.Support
import JumpIR.Proofs.Value.Normal

/-!
# Exact arithmetic

The operations of the library on integers and bitvectors, held against numbers without a bound. A
bitvector is a `BitVec` of its width here, and what an operation gives is told by the number that
it stands for. Main statement: `exact_arithmetic`.
-/

set_option autoImplicit false

namespace JumpIR

/-! ### Bitvectors as values -/

namespace Value

/-- The value that holds a bitvector of at most 64 bits. -/
def ofBitVec {w : Nat} (a : BitVec w) : Value := .bits w (UInt64.ofBitVec (a.setWidth 64))

theorem toNat_word {w : Nat} (most : w ≤ 64) (a : BitVec w) :
    (UInt64.ofBitVec (a.setWidth 64)).toNat = a.toNat := by
  have bound : 2 ^ w ≤ 2 ^ 64 := Nat.pow_le_pow_right (by omega) most
  have inside := a.isLt
  rw [UInt64.toNat_ofBitVec, BitVec.toNat_setWidth, Nat.mod_eq_of_lt (by omega)]

/-- There are no other normal bitvectors. -/
theorem exists_ofBitVec {w : Nat} {x : UInt64} (normal : (bits w x).Normal) :
    ∃ a : BitVec w, bits w x = ofBitVec a ∧ a.toNat = x.toNat := by
  obtain ⟨isWidth, inside⟩ := normal
  have same : (BitVec.ofNat w x.toNat).toNat = x.toNat := by
    rw [BitVec.toNat_ofNat, Nat.mod_eq_of_lt inside]
  refine ⟨BitVec.ofNat w x.toNat, ?_, same⟩
  rw [ofBitVec, Value.bits.injEq, ← UInt64.toNat_inj, toNat_word isWidth.2, same]
  exact ⟨rfl, rfl⟩

/-- Of a word only the low bits count. -/
theorem ofBits_eq {w : Nat} (most : w ≤ 64) (x : UInt64) :
    ofBits w x = ofBitVec (x.toBitVec.setWidth w) := by
  rw [ofBits, ofBitVec, Value.bits.injEq, ← UInt64.toNat_inj, toNat_word most, UInt64.toNat_and,
    toNat_widthMask most, Nat.and_two_pow_sub_one_eq_mod, BitVec.toNat_setWidth,
    UInt64.toNat_toBitVec]
  exact ⟨rfl, rfl⟩

/-- A result that is exact up to multiples of `2 ^ 64` is exact in every width. -/
theorem ofBits_eq_ofInt {w : Nat} (most : w ≤ 64) {x : UInt64} {z : Int}
    (same : (x.toNat : Int) % 2 ^ 64 = z % 2 ^ 64) : ofBits w x = ofBitVec (BitVec.ofInt w z) := by
  have divides : (2 ^ w : Int) ∣ 2 ^ 64 := by exact_mod_cast Nat.pow_dvd_pow 2 most
  have narrow : (x.toNat : Int) % 2 ^ w = z % 2 ^ w := by
    rw [← Int.emod_emod_of_dvd (x.toNat : Int) divides, same, Int.emod_emod_of_dvd z divides]
  rw [ofBits_eq most]
  apply congrArg
  apply BitVec.eq_of_toNat_eq
  rw [BitVec.toNat_setWidth, UInt64.toNat_toBitVec, BitVec.toNat_ofInt]
  push_cast
  rw [← narrow]
  norm_cast

theorem ofBits_eq_ofNat {w : Nat} (most : w ≤ 64) {x : UInt64} {n : Nat}
    (same : x.toNat % 2 ^ 64 = n % 2 ^ 64) : ofBits w x = ofBitVec (BitVec.ofNat w n) := by
  rw [← BitVec.ofInt_natCast]
  apply ofBits_eq_ofInt most
  exact_mod_cast same

end Value

/-! ### The sign of a bitvector -/

/-- Flipping a bit above all others adds its weight. -/
theorem xor_two_pow {n k : Nat} (below : n < 2 ^ k) : n ^^^ 2 ^ k = 2 ^ k + n := by
  apply Nat.eq_of_testBit_eq
  intro i
  rw [Nat.testBit_xor, Nat.testBit_two_pow]
  rcases Nat.lt_trichotomy i k with small | rfl | large
  · rw [Nat.testBit_two_pow_add_gt small]
    simp [Nat.ne_of_gt small]
  · rw [Nat.testBit_two_pow_add_eq, Nat.testBit_lt_two_pow below]
    simp
  · have wider : 2 ^ k + 2 ^ k ≤ 2 ^ i := by
      rw [← Nat.two_mul, ← Nat.pow_succ']
      exact Nat.pow_le_pow_right (by omega) large
    rw [Nat.testBit_lt_two_pow (by omega : n < 2 ^ i),
      Nat.testBit_lt_two_pow (by omega : 2 ^ k + n < 2 ^ i)]
    simp [Nat.ne_of_lt large]

/-- Flipping the highest bit of a number and taking its weight away again copies the bit to all
places above. -/
theorem xor_sub_signBit {k : Nat} (narrow : k < 63) (a : BitVec (k + 1)) :
    (a.setWidth 64 ^^^ BitVec.twoPow 64 k) - BitVec.twoPow 64 k = a.signExtend 64 := by
  have weight : 2 ^ k < 2 ^ 63 := Nat.pow_lt_pow_right (by omega) narrow
  have inside := a.isLt
  have msb : a.msb = decide (2 ^ k ≤ a.toNat) := BitVec.msb_eq_decide a
  have same : (a.setWidth 64).toNat = a.toNat := by
    rw [BitVec.toNat_setWidth, Nat.mod_eq_of_lt (by omega)]
  have bit : (BitVec.twoPow 64 k).toNat = 2 ^ k := by
    rw [BitVec.toNat_twoPow, Nat.mod_eq_of_lt (by omega)]
  apply BitVec.eq_of_toNat_eq
  rw [BitVec.toNat_sub, BitVec.toNat_xor, BitVec.toNat_signExtend, same, bit, msb]
  by_cases positive : a.toNat < 2 ^ k
  · rw [xor_two_pow positive]
    simp [Nat.not_le.mpr positive]
    omega
  · obtain ⟨n, split⟩ : ∃ n, a.toNat = 2 ^ k + n := Nat.exists_eq_add_of_le (by omega)
    have below : n < 2 ^ k := by omega
    rw [split, ← xor_two_pow below, Nat.xor_assoc, Nat.xor_self, Nat.xor_zero, xor_two_pow below]
    simp
    omega

namespace Support

open Value

theorem signedWord_eq {w : Nat} (isWidth : IsWidth w) (a : BitVec w) :
    signedWord w (UInt64.ofBitVec (a.setWidth 64)) = UInt64.ofBitVec (a.signExtend 64) := by
  obtain ⟨least, most⟩ := isWidth
  unfold signedWord
  split
  · rename_i wide
    obtain rfl : w = 64 := Nat.le_antisymm most wide
    simp
  · rename_i narrow
    obtain ⟨k, rfl⟩ : ∃ k, w = k + 1 := ⟨w - 1, by omega⟩
    have sign : ((1 : UInt64) <<< UInt64.ofNat k).toBitVec = BitVec.twoPow 64 k := by
      have places : (UInt64.ofNat k).toNat % 64 = k := by
        rw [UInt64.toNat_ofNat']
        omega
      apply BitVec.eq_of_toNat_eq
      rw [UInt64.toNat_toBitVec, UInt64.toNat_shiftLeft, places, BitVec.toNat_twoPow,
        Nat.shiftLeft_eq, UInt64.toNat_one, Nat.one_mul]
    rw [← UInt64.toBitVec_inj, Nat.add_sub_cancel, UInt64.toBitVec_sub, UInt64.toBitVec_xor, sign]
    exact xor_sub_signBit (by omega) a

/-! ### What an operation answers -/

/-- The operation of that name gives this answer, and leaves the machine as it was. -/
def Computes (m : Machine) (symbol : String) (args : List Value) (answer : Except RunFault Value) :
    Prop :=
  ∃ op, find? symbol = some op ∧ op.call args m = (answer, m)

def Traps (m : Machine) (symbol : String) (args : List Value) : Prop :=
  ∃ cause, Computes m symbol args (.error (.arithmeticTrap cause))

/-- The operation has a value with the property `good` where it is defined, and traps just where it
is not. -/
structure Partial (m : Machine) (symbol : String) (args : List Value) (defined : Prop)
    (good : Value → Prop) : Prop where
  value : defined → ∃ v, Computes m symbol args (.ok v) ∧ good v
  traps : Traps m symbol args ↔ ¬ defined

section Answers

variable {m : Machine} {symbol : String} {args : List Value} {defined : Prop}
  {good : Value → Prop}

theorem Computes.unique {answer other : Except RunFault Value}
    (left : Computes m symbol args answer) (right : Computes m symbol args other) :
    answer = other := by
  obtain ⟨op, found, answers⟩ := left
  obtain ⟨op', found', answers'⟩ := right
  obtain rfl : op = op' := Option.some.inj (found.symm.trans found')
  exact congrArg Prod.fst (answers.symm.trans answers')

theorem partial_of_cases (value : defined → ∃ v, Computes m symbol args (.ok v) ∧ good v)
    (traps : ¬ defined → Traps m symbol args) : Partial m symbol args defined good := by
  refine ⟨value, ?_, traps⟩
  rintro ⟨cause, trapped⟩ holds
  obtain ⟨v, computed, -⟩ := value holds
  cases computed.unique trapped

theorem Partial.congr {defined' : Prop} (answers : Partial m symbol args defined good)
    (same : defined ↔ defined') : Partial m symbol args defined' good :=
  ⟨fun holds => answers.value (same.mpr holds), answers.traps.trans (not_congr same)⟩

theorem computes_of_compute1 {f : Value → Except RunFault Value}
    (found : find? symbol = some (.compute1 symbol f)) (a : Value) :
    Computes m symbol [a] (f a) :=
  ⟨_, found, rfl⟩

theorem computes_of_compute2 {f : Value → Value → Except RunFault Value}
    (found : find? symbol = some (.compute2 symbol f)) (a b : Value) :
    Computes m symbol [a, b] (f a b) :=
  ⟨_, found, rfl⟩

theorem computes_of_compute3 {f : Value → Value → Value → Except RunFault Value}
    (found : find? symbol = some (.compute3 symbol f)) (a b c : Value) :
    Computes m symbol [a, b, c] (f a b c) :=
  ⟨_, found, rfl⟩

end Answers


/-- Integers of 64 bits. -/
def Fits (z : Int) : Prop := -2 ^ 63 ≤ z ∧ z < 2 ^ 63

/-! ### Bitvectors of one width -/

/-- What the operations give for bitvectors `a` and `b`. -/
structure ExactBits (m : Machine) {w : Nat} (a b : BitVec w) : Prop where
  add : Computes m "add_bits" [ofBitVec a, ofBitVec b]
    (.ok (ofBitVec (BitVec.ofNat w (a.toNat + b.toNat))))
  sub : Computes m "sub_bits" [ofBitVec a, ofBitVec b]
    (.ok (ofBitVec (BitVec.ofInt w (a.toNat - b.toNat))))
  and : Computes m "and_bits" [ofBitVec a, ofBitVec b] (.ok (ofBitVec (a &&& b)))
  or : Computes m "or_bits" [ofBitVec a, ofBitVec b] (.ok (ofBitVec (a ||| b)))
  xor : Computes m "xor_bits" [ofBitVec a, ofBitVec b] (.ok (ofBitVec (a ^^^ b)))
  not : Computes m "not_bits" [ofBitVec a] (.ok (ofBitVec (~~~a)))
  addInt : ∀ k : Int64, Computes m "add_bits_int" [ofBitVec a, .int k]
    (.ok (ofBitVec (BitVec.ofInt w (a.toNat + k.toInt))))
  shiftLeft : ∀ n : Int64, Partial m "shiftl" [ofBitVec a, .int n]
    (0 ≤ n.toInt ∧ n.toInt < 2 ^ 32)
    (· = ofBitVec (BitVec.ofNat w (a.toNat * 2 ^ n.toInt.toNat)))
  shiftRight : ∀ n : Int64, Partial m "shiftr" [ofBitVec a, .int n]
    (0 ≤ n.toInt ∧ n.toInt < 2 ^ 32)
    (· = ofBitVec (BitVec.ofNat w (a.toNat / 2 ^ n.toInt.toNat)))
  zeroExtend : ∀ n : Int64, Partial m "zero_extend" [ofBitVec a, .int n]
    (w ≤ n.toInt ∧ n.toInt ≤ 64)
    (∃ c : BitVec n.toInt.toNat, · = ofBitVec c ∧ c.toNat = a.toNat)
  signExtend : ∀ n : Int64, Partial m "sign_extend" [ofBitVec a, .int n]
    (w ≤ n.toInt ∧ n.toInt ≤ 64)
    (∃ c : BitVec n.toInt.toNat, · = ofBitVec c ∧ c.toInt = a.toInt)
  slice : ∀ s l : Int64, Partial m "slice" [ofBitVec a, .int s, .int l]
    (0 ≤ s.toInt ∧ 1 ≤ l.toInt ∧ s.toInt + l.toInt ≤ w)
    (· = ofBitVec (BitVec.ofNat l.toInt.toNat (a.toNat / 2 ^ s.toInt.toNat)))
  signed : ∃ k : Int64, k.toInt = a.toInt ∧ Computes m "sail_signed" [ofBitVec a] (.ok (.int k))
  unsigned : Partial m "sail_unsigned" [ofBitVec a] (a.toNat < 2 ^ 63)
    (∃ k : Int64, · = .int k ∧ k.toInt = a.toNat)

/-! ### Arguments -/

theorem shiftArg_ok {n : Int64} (inRange : 0 ≤ n.toInt ∧ n.toInt < 2 ^ 32) :
    shiftArg (.int n) = .ok n.toInt.toNat :=
  if_pos inRange

theorem shiftArg_trap {n : Int64} (outside : ¬ (0 ≤ n.toInt ∧ n.toInt < 2 ^ 32)) :
    shiftArg (.int n) = trap (.shift n) :=
  if_neg outside

theorem widthArg_ok {n : Int64} (inRange : 1 ≤ n.toInt ∧ n.toInt ≤ 64) :
    widthArg (.int n) = .ok n.toInt.toNat :=
  if_pos inRange

theorem widthArg_trap {n : Int64} (outside : ¬ (1 ≤ n.toInt ∧ n.toInt ≤ 64)) :
    widthArg (.int n) = trap (.width n) :=
  if_neg outside

/-! ### Operations on bitvectors -/

section Bits

variable {m : Machine} {w : Nat} {a b : BitVec w}

theorem combineBits_eq (f : UInt64 → UInt64 → UInt64) : combineBits f (ofBitVec a) (ofBitVec b) =
    .ok (ofBits w (f (.ofBitVec (a.setWidth 64)) (.ofBitVec (b.setWidth 64)))) := by
  simp [combineBits, sameWidth, ofBitVec, asBits, Bind.bind, Except.bind]

theorem addBits_eq (most : w ≤ 64) : combineBits (· + ·) (ofBitVec a) (ofBitVec b) =
    .ok (ofBitVec (BitVec.ofNat w (a.toNat + b.toNat))) := by
  rw [combineBits_eq, ofBits_eq_ofNat most]
  rw [UInt64.toNat_add, toNat_word most, toNat_word most, Nat.mod_mod]

theorem subBits_eq (most : w ≤ 64) : combineBits (· - ·) (ofBitVec a) (ofBitVec b) =
    .ok (ofBitVec (BitVec.ofInt w (a.toNat - b.toNat))) := by
  have bound := toNat_word most b ▸ UInt64.toNat_lt (UInt64.ofBitVec (b.setWidth 64))
  rw [combineBits_eq, ofBits_eq_ofInt most]
  rw [UInt64.toNat_sub, toNat_word most, toNat_word most]
  omega

theorem andBits_eq (most : w ≤ 64) :
    combineBits (· &&& ·) (ofBitVec a) (ofBitVec b) = .ok (ofBitVec (a &&& b)) := by
  rw [combineBits_eq, ofBits_eq most]
  simp [BitVec.setWidth_setWidth_of_le, most]

theorem orBits_eq (most : w ≤ 64) :
    combineBits (· ||| ·) (ofBitVec a) (ofBitVec b) = .ok (ofBitVec (a ||| b)) := by
  rw [combineBits_eq, ofBits_eq most]
  simp [BitVec.setWidth_setWidth_of_le, most]

theorem xorBits_eq (most : w ≤ 64) :
    combineBits (· ^^^ ·) (ofBitVec a) (ofBitVec b) = .ok (ofBitVec (a ^^^ b)) := by
  rw [combineBits_eq, ofBits_eq most]
  simp [BitVec.setWidth_setWidth_of_le, most]

theorem notBits_eq (most : w ≤ 64) : notBits (ofBitVec a) = .ok (ofBitVec (~~~a)) := by
  show Except.ok (ofBits w (~~~(UInt64.ofBitVec (a.setWidth 64)))) = _
  rw [ofBits_eq most]
  simp [BitVec.setWidth_setWidth_of_le, BitVec.setWidth_not, most]

theorem addBitsInt_eq (most : w ≤ 64) (k : Int64) : addBitsInt (ofBitVec a) (.int k) =
    .ok (ofBitVec (BitVec.ofInt w (a.toNat + k.toInt))) := by
  have wraps : k.toInt % 2 ^ 64 = k.toUInt64.toNat := by
    have inside := k.toBitVec.isLt
    show k.toBitVec.toInt % 2 ^ 64 = k.toBitVec.toNat
    rw [BitVec.toInt_eq_toNat_cond]
    split <;> omega
  show Except.ok (ofBits w (UInt64.ofBitVec (a.setWidth 64) + k.toUInt64)) = _
  rw [ofBits_eq_ofInt most]
  rw [UInt64.toNat_add, toNat_word most]
  omega

theorem toNat_shiftWord_left (x : UInt64) (n : Nat) :
    (shiftWord (· <<< ·) x n).toNat % 2 ^ 64 = x.toNat * 2 ^ n % 2 ^ 64 := by
  unfold shiftWord
  split
  · rename_i narrow
    have places : (UInt64.ofNat n).toNat % 64 = n := by
      rw [UInt64.toNat_ofNat']
      omega
    rw [UInt64.toNat_shiftLeft, places, Nat.shiftLeft_eq, Nat.mod_mod]
  · rename_i wide
    have divides : 2 ^ 64 ∣ x.toNat * 2 ^ n :=
      Nat.dvd_mul_left_of_dvd (Nat.pow_dvd_pow 2 (Nat.le_of_not_lt wide)) _
    rw [Nat.mod_eq_zero_of_dvd divides]
    rfl

theorem toNat_shiftWord_right (x : UInt64) (n : Nat) :
    (shiftWord (· >>> ·) x n).toNat = x.toNat / 2 ^ n := by
  unfold shiftWord
  split
  · rename_i narrow
    have places : (UInt64.ofNat n).toNat % 64 = n := by
      rw [UInt64.toNat_ofNat']
      omega
    rw [UInt64.toNat_shiftRight, places, Nat.shiftRight_eq_div_pow]
  · rename_i wide
    have large : 2 ^ 64 ≤ 2 ^ n := Nat.pow_le_pow_right (by omega) (Nat.le_of_not_lt wide)
    have small := UInt64.toNat_lt x
    rw [Nat.div_eq_of_lt (by omega)]
    rfl

theorem trap_bind {α β : Type} (cause : Trap) (next : α → Except RunFault β) :
    (trap cause >>= next) = trap cause := rfl

theorem partial_shift {symbol : String} {f : Value → Value → Except RunFault Value}
    (found : find? symbol = some (.compute2 symbol f)) {n : Int64} {word : Nat → UInt64}
    (same : f (ofBitVec a) (.int n) = shiftArg (.int n) >>= fun k => .ok (ofBits w (word k))) :
    Partial m symbol [ofBitVec a, .int n] (0 ≤ n.toInt ∧ n.toInt < 2 ^ 32)
      (· = ofBits w (word n.toInt.toNat)) := by
  have answers := computes_of_compute2 (m := m) found (ofBitVec a) (.int n)
  rw [same] at answers
  refine partial_of_cases (fun inRange => ⟨_, ?_, rfl⟩) fun outside => ⟨.shift n, ?_⟩
  · rwa [bind_of_ok (shiftArg_ok inRange)] at answers
  · rwa [shiftArg_trap outside, trap_bind] at answers

theorem partial_shiftLeft (most : w ≤ 64) (n : Int64) : Partial m "shiftl" [ofBitVec a, .int n]
    (0 ≤ n.toInt ∧ n.toInt < 2 ^ 32)
    (· = ofBitVec (BitVec.ofNat w (a.toNat * 2 ^ n.toInt.toNat))) := by
  rw [← toNat_word most, ← ofBits_eq_ofNat most (toNat_shiftWord_left _ _)]
  exact partial_shift (f := shiftLeft) rfl rfl

theorem partial_shiftRight (most : w ≤ 64) (n : Int64) : Partial m "shiftr" [ofBitVec a, .int n]
    (0 ≤ n.toInt ∧ n.toInt < 2 ^ 32)
    (· = ofBitVec (BitVec.ofNat w (a.toNat / 2 ^ n.toInt.toNat))) := by
  rw [← toNat_word most, ← toNat_shiftWord_right, ← ofBits_eq_ofNat most rfl]
  exact partial_shift (f := shiftRight) rfl rfl

theorem partial_extend {symbol : String} {f : Value → Value → Except RunFault Value}
    (found : find? symbol = some (.compute2 symbol f)) {n : Int64} {cause : Nat → Trap}
    {word : UInt64} {good : Value → Prop} (least : 1 ≤ w)
    (same : f (ofBitVec a) (.int n) = widthArg (.int n) >>= fun target =>
      if target < w then trap (cause target) else .ok (ofBits target word))
    (exact : w ≤ n.toInt.toNat → n.toInt.toNat ≤ 64 → good (ofBits n.toInt.toNat word)) :
    Partial m symbol [ofBitVec a, .int n] (w ≤ n.toInt ∧ n.toInt ≤ 64) good := by
  have answers := computes_of_compute2 (m := m) found (ofBitVec a) (.int n)
  rw [same] at answers
  apply partial_of_cases
  · rintro ⟨wider, most⟩
    rw [bind_of_ok (widthArg_ok ⟨by omega, most⟩), if_neg (by omega)] at answers
    exact ⟨_, answers, exact (by omega) (by omega)⟩
  · intro outside
    by_cases inRange : 1 ≤ n.toInt ∧ n.toInt ≤ 64
    · rw [bind_of_ok (widthArg_ok inRange), if_pos (by omega)] at answers
      exact ⟨_, answers⟩
    · rw [widthArg_trap inRange, trap_bind] at answers
      exact ⟨_, answers⟩

theorem partial_zeroExtend (isWidth : IsWidth w) (n : Int64) :
    Partial m "zero_extend" [ofBitVec a, .int n] (w ≤ n.toInt ∧ n.toInt ≤ 64)
      (∃ c : BitVec n.toInt.toNat, · = ofBitVec c ∧ c.toNat = a.toNat) := by
  apply partial_extend (f := zeroExtend) rfl isWidth.1 rfl
  intro wider most
  refine ⟨a.setWidth n.toInt.toNat, ?_, BitVec.toNat_setWidth_of_le wider⟩
  rw [ofBits_eq most, BitVec.setWidth_setWidth_of_le _ most]

theorem setWidth_signExtend {n : Nat} (most : n ≤ 64) (a : BitVec w) :
    (a.signExtend 64).setWidth n = a.signExtend n := by
  apply BitVec.eq_of_getLsbD_eq
  intro i inside
  have bound : i < 64 := by omega
  rw [BitVec.getLsbD_setWidth, BitVec.getLsbD_signExtend, BitVec.getLsbD_signExtend]
  simp [inside, bound]

theorem partial_signExtend (isWidth : IsWidth w) (n : Int64) :
    Partial m "sign_extend" [ofBitVec a, .int n] (w ≤ n.toInt ∧ n.toInt ≤ 64)
      (∃ c : BitVec n.toInt.toNat, · = ofBitVec c ∧ c.toInt = a.toInt) := by
  apply partial_extend (f := signExtend) rfl isWidth.1 rfl
  intro wider most
  refine ⟨a.signExtend n.toInt.toNat, ?_, BitVec.toInt_signExtend_of_le wider⟩
  rw [signedWord_eq isWidth, ofBits_eq most, setWidth_signExtend most]

theorem partial_slice (most : w ≤ 64) (s l : Int64) :
    Partial m "slice" [ofBitVec a, .int s, .int l]
      (0 ≤ s.toInt ∧ 1 ≤ l.toInt ∧ s.toInt + l.toInt ≤ w)
      (· = ofBitVec (BitVec.ofNat l.toInt.toNat (a.toNat / 2 ^ s.toInt.toNat))) := by
  have answers := @computes_of_compute3 m "slice" slice rfl (ofBitVec a) (.int s) (.int l)
  have same : slice (ofBitVec a) (.int s) (.int l) = shiftArg (.int s) >>= fun start =>
      widthArg (.int l) >>= fun length =>
        if w < start + length then trap (.slice start length w)
        else .ok (ofBits length ((UInt64.ofBitVec (a.setWidth 64)) >>> UInt64.ofNat start)) := rfl
  rw [same] at answers
  apply partial_of_cases
  · rintro ⟨startLeast, lengthLeast, fits⟩
    have narrow : s.toInt.toNat < 64 := by omega
    rw [bind_of_ok (shiftArg_ok ⟨startLeast, by omega⟩),
      bind_of_ok (widthArg_ok ⟨lengthLeast, by omega⟩), if_neg (by omega)] at answers
    refine ⟨_, answers, ?_⟩
    have word := toNat_shiftWord_right (UInt64.ofBitVec (a.setWidth 64)) s.toInt.toNat
    rw [shiftWord, if_pos narrow] at word
    rw [← toNat_word most, ← word]
    exact ofBits_eq_ofNat (by omega) rfl
  · intro outside
    by_cases start : 0 ≤ s.toInt ∧ s.toInt < 2 ^ 32
    · rw [bind_of_ok (shiftArg_ok start)] at answers
      by_cases length : 1 ≤ l.toInt ∧ l.toInt ≤ 64
      · rw [bind_of_ok (widthArg_ok length), if_pos (by omega)] at answers
        exact ⟨_, answers⟩
      · rw [widthArg_trap length, trap_bind] at answers
        exact ⟨_, answers⟩
    · rw [shiftArg_trap start, trap_bind] at answers
      exact ⟨_, answers⟩

theorem computes_signed (isWidth : IsWidth w) :
    ∃ k : Int64, k.toInt = a.toInt ∧ Computes m "sail_signed" [ofBitVec a] (.ok (.int k)) := by
  have answers := @computes_of_compute1 m "sail_signed" signed rfl (ofBitVec a)
  have same : signed (ofBitVec a) =
      .ok (.int (signedWord w (UInt64.ofBitVec (a.setWidth 64))).toInt64) := rfl
  rw [same, signedWord_eq isWidth] at answers
  refine ⟨_, ?_, answers⟩
  show (a.signExtend 64).toInt = a.toInt
  exact BitVec.toInt_signExtend_of_le isWidth.2

end Bits

/-! ### Integers -/

/-- What the operations give for integers `x` and `y`: the exact result if it has 64 bits. -/
structure ExactIntegers (m : Machine) (x y : Int64) : Prop where
  add : Partial m "add_int" [.int x, .int y] (Fits (x.toInt + y.toInt))
    (∃ k : Int64, · = .int k ∧ k.toInt = x.toInt + y.toInt)
  sub : Partial m "sub_int" [.int x, .int y] (Fits (x.toInt - y.toInt))
    (∃ k : Int64, · = .int k ∧ k.toInt = x.toInt - y.toInt)
  mult : Partial m "mult_int" [.int x, .int y] (Fits (x.toInt * y.toInt))
    (∃ k : Int64, · = .int k ∧ k.toInt = x.toInt * y.toInt)

section Integers

variable {m : Machine} {symbol : String} {args : List Value}

theorem partial_int {z : Int} (cause : Trap) {answer : Except RunFault Value}
    (answers : Computes m symbol args answer)
    (same : answer = match int64? z with | some n => .ok (.int n) | none => trap cause) :
    Partial m symbol args (Fits z) (∃ k : Int64, · = .int k ∧ k.toInt = z) := by
  have low : Int64.minValue.toInt = -2 ^ 63 := rfl
  have high : Int64.maxValue.toInt = 2 ^ 63 - 1 := rfl
  rw [same] at answers
  unfold Fits
  apply partial_of_cases
  · intro fits
    have within : int64? z = some (Int64.ofInt z) := if_pos (by omega)
    rw [within] at answers
    exact ⟨_, answers, _, rfl, (int64?_eq_some_iff _ _).mp within⟩
  · intro outside
    have beyond : int64? z = none := if_neg (by omega)
    rw [beyond] at answers
    exact ⟨_, answers⟩

theorem partial_exactInt {sign : String} {f : Int → Int → Int}
    (found : find? symbol = some (.compute2 symbol (exactInt sign f))) (x y : Int64) :
    Partial m symbol [.int x, .int y] (Fits (f x.toInt y.toInt))
      (∃ k : Int64, · = .int k ∧ k.toInt = f x.toInt y.toInt) :=
  partial_int (.overflow x sign y) (computes_of_compute2 found (.int x) (.int y)) rfl

theorem partial_unsigned {w : Nat} (most : w ≤ 64) (a : BitVec w) :
    Partial m "sail_unsigned" [ofBitVec a] (a.toNat < 2 ^ 63)
      (∃ k : Int64, · = .int k ∧ k.toInt = a.toNat) := by
  have answers := @computes_of_compute1 m "sail_unsigned" unsigned rfl (ofBitVec a)
  have same := partial_int (.unsignedRange (.ofBitVec (a.setWidth 64))) answers rfl
  rw [toNat_word most] at same
  refine same.congr ?_
  unfold Fits
  omega

end Integers

/-! ### All of them -/

/-- For all bitvectors of one width from one to 64, and for all integers, the operations give what
exact arithmetic gives, and trap just where that has no place in their result. -/
theorem exact_arithmetic (m : Machine) {w : Nat} (isWidth : IsWidth w) :
    (∀ x : UInt64, (Value.bits w x).Normal →
      ∃ a : BitVec w, .bits w x = ofBitVec a ∧ a.toNat = x.toNat) ∧
    (∀ a b : BitVec w, ExactBits m a b) ∧ ∀ x y : Int64, ExactIntegers m x y := by
  have most := isWidth.2
  refine ⟨fun x normal => exists_ofBitVec normal, ?_, ?_⟩
  · intro a b
    exact
      { add := addBits_eq most ▸ computes_of_compute2 rfl _ _
        sub := subBits_eq most ▸ computes_of_compute2 rfl _ _
        and := andBits_eq most ▸ computes_of_compute2 rfl _ _
        or := orBits_eq most ▸ computes_of_compute2 rfl _ _
        xor := xorBits_eq most ▸ computes_of_compute2 rfl _ _
        not := notBits_eq most ▸ computes_of_compute1 rfl _
        addInt := fun k => addBitsInt_eq most k ▸ computes_of_compute2 rfl _ _
        shiftLeft := partial_shiftLeft most
        shiftRight := partial_shiftRight most
        zeroExtend := partial_zeroExtend isWidth
        signExtend := partial_signExtend isWidth
        slice := partial_slice most
        signed := computes_signed isWidth
        unsigned := partial_unsigned most a }
  · intro x y
    exact
      { add := partial_exactInt rfl x y
        sub := partial_exactInt rfl x y
        mult := partial_exactInt rfl x y }

/-- A machine without registers or memory. -/
def bareMachine : Machine :=
  ⟨[], [], .initial, .flat ⟨0, .empty⟩, none, #[], ⟨false, false, false, false, false⟩, #[]⟩

/-- At the full width the lowest number becomes the lowest integer, which has no negative. -/
theorem exact_arithmetic_lowest : IsWidth 64 ∧
    (∃ k : Int64, k.toInt = -2 ^ 63 ∧
      Computes bareMachine "sail_signed" [.bits 64 0x8000000000000000] (.ok (.int k))) ∧
    Traps bareMachine "sail_unsigned" [.bits 64 0x8000000000000000] ∧
    Traps bareMachine "sub_int" [.int 0, .int Int64.minValue] := by
  have isWidth : IsWidth 64 := by decide
  obtain ⟨_, bits, integers⟩ := exact_arithmetic bareMachine isWidth
  have lowest := bits (BitVec.intMin 64) 0
  refine ⟨isWidth, lowest.signed, lowest.unsigned.traps.mpr ?_,
    (integers 0 Int64.minValue).sub.traps.mpr ?_⟩
  · decide
  · unfold Fits
    decide

end Support

end JumpIR
