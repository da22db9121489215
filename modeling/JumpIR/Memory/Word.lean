import JumpIR.Memory.Fault

/-!
# Words and lanes

Memory is kept in words of eight bytes, the lowest byte first. An access of one, two, four or eight
bytes at a multiple of its width lies within one word and takes a lane of its bits. `WordMap` holds
the words that were ever written; all others are zero.
-/

set_option autoImplicit false

namespace JumpIR

def validWidths : List Nat := [1, 2, 4, 8]

/-- The low `width` bytes of a word. -/
def truncate (value : UInt64) (width : Nat) : UInt64 :=
  if 8 ≤ width then value
  else value &&& (((1 : UInt64) <<< UInt64.ofNat (8 * width)) - 1)

/-- Whether an address is a multiple of `width`. -/
def isAligned (address : UInt64) (width : Nat) : Bool := address.toNat % width == 0

/-- Refuses a width that no access may have. -/
def checkWidth (width : Nat) : Except MemoryFault Unit :=
  if width ∈ validWidths then .ok () else .error (.invalidWidth width)

/-- What every access within one word needs. -/
def checkAligned (address : UInt64) (width : Nat) : Except MemoryFault Unit := do
  checkWidth width
  if isAligned address width then .ok () else .error (.misaligned address width)

/-- Refuses an access whose last byte is past the top of the address space. -/
def checkTop (address : UInt64) (width : Nat) : Except MemoryFault Unit :=
  if address.toNat + (width - 1) < UInt64.size then .ok () else .error (.outOfBounds address width)

/-! ### Lanes -/

/-- How far above the lowest bit of its word the byte at `address` stands. -/
def laneShift (address : UInt64) : UInt64 := (address &&& 7) * 8

def readLane (word address : UInt64) (width : Nat) : UInt64 :=
  if width = 8 then word else truncate (word >>> laneShift address) width

/-- The word whose lane of `width` bytes at `address` is replaced by the low bytes of `value`. -/
def writeLane (word address : UInt64) (width : Nat) (value : UInt64) : UInt64 :=
  if width = 8 then value
  else
    let mask := truncate (~~~0) width <<< laneShift address
    (word &&& ~~~mask) ||| (truncate value width <<< laneShift address)

/-! ### Words by number -/

/-- The words that were written, by number. -/
structure WordMap where
  written : List (Nat × UInt64)
deriving Repr

namespace WordMap

def empty : WordMap := ⟨[]⟩

/-- A word; one that was never written is zero. -/
def get (m : WordMap) (index : Nat) : UInt64 := (m.written.lookup index).getD 0

/-- Replaces the word of that number, or adds it behind the others. -/
def replace (index : Nat) (word : UInt64) : List (Nat × UInt64) → List (Nat × UInt64)
  | [] => [(index, word)]
  | (i, w) :: rest => if i = index then (index, word) :: rest else (i, w) :: replace index word rest

def set (m : WordMap) (index : Nat) (word : UInt64) : WordMap := ⟨replace index word m.written⟩

theorem get_empty (index : Nat) : empty.get index = 0 := rfl

private theorem lookup_replace (index other : Nat) (word : UInt64)
    (list : List (Nat × UInt64)) :
    (replace index word list).lookup other =
      if other = index then some word else list.lookup other := by
  induction list with
  | nil =>
      by_cases same : other = index
      · rw [replace, if_pos same, same, List.lookup_cons_self]
      · have apart : (other == index) = false := beq_eq_false_iff_ne.mpr same
        rw [replace, if_neg same, List.lookup_cons, apart]
  | cons head rest ih =>
      obtain ⟨i, w⟩ := head
      rw [replace]
      by_cases found : i = index
      · rw [if_pos found, List.lookup_cons, List.lookup_cons, found]
        by_cases same : other = index
        · rw [if_pos same, same, beq_self_eq_true]
        · rw [if_neg same, beq_eq_false_iff_ne.mpr same]
      · rw [if_neg found, List.lookup_cons, List.lookup_cons, ih]
        by_cases here : other = i
        · rw [here, beq_self_eq_true]
          exact (if_neg found).symm
        · rw [beq_eq_false_iff_ne.mpr here]

/-- A word that is set reads back, and the other words stay as they are. -/
theorem get_set (m : WordMap) (index other : Nat) (word : UInt64) :
    (m.set index word).get other = if other = index then word else m.get other := by
  unfold get set
  rw [lookup_replace]
  by_cases same : other = index
  · rw [if_pos same, if_pos same, Option.getD_some]
  · rw [if_neg same, if_neg same]

end WordMap

end JumpIR
