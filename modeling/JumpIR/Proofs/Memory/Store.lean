import JumpIR.Memory.Access
import JumpIR.Proofs.Memory.Bytes

/-!
# Memories as byte maps

Both kinds of memory hold numbered words, the sparse one behind a table of blocks and the block of
the last access. `Memory.Represents` says which byte map a memory stands for; an access within one
word keeps to it.
-/

set_option autoImplicit false

namespace JumpIR

/-! ### Accesses within one word -/

section

variable {address : UInt64} {width : Nat}

theorem checkWidth_eq_ok (valid : width ∈ validWidths) : checkWidth width = .ok () := by
  unfold checkWidth
  rw [if_pos valid]

theorem checkAligned_eq_ok (valid : width ∈ validWidths)
    (aligned : isAligned address width = true) :
    checkAligned address width = .ok () := by
  unfold checkAligned
  rw [checkWidth_eq_ok valid, aligned]
  rfl

theorem width_cases (valid : width ∈ validWidths) :
    width = 1 ∨ width = 2 ∨ width = 4 ∨ width = 8 := by
  simpa [validWidths] using valid

theorem mod_eq_zero_of_isAligned (aligned : isAligned address width = true) :
    address.toNat % width = 0 := by
  unfold isAligned at aligned
  exact beq_iff_eq.mp aligned

/-- An aligned access ends with its word or before. -/
theorem inside_of_isAligned (valid : width ∈ validWidths)
    (aligned : isAligned address width = true) :
    address.toNat % 8 + width ≤ 8 := by
  have multiple := mod_eq_zero_of_isAligned aligned
  rcases width_cases valid with rfl | rfl | rfl | rfl <;> omega

theorem isAligned_one (address : UInt64) : isAligned address 1 = true := by
  unfold isAligned
  rw [Nat.mod_one]
  rfl

end

theorem WordMap.get_set_eq (m : WordMap) (index : Nat) (word : UInt64) :
    (m.set index word).get = setWord m.get index word := by
  funext other
  exact m.get_set index other word

/-! ### The table of blocks -/

namespace SparseMemory

variable {m : SparseMemory} {block : Nat}

/-- How many words a block has. -/
def blockWords : Nat := blockSize / 8

/-- The word of that number; in a block that is not allocated it is zero. -/
def wordAt (m : SparseMemory) (number : Nat) : UInt64 :=
  match m.tableSlot? (number / blockWords) with
  | some slot => m.word slot (number % blockWords)
  | none => 0

/-- Every block has a slot of its own, and the block of the last access is in the table. -/
structure Sound (m : SparseMemory) : Prop where
  bound : ∀ block slot, m.tableSlot? block = some slot → slot < m.blocks.length
  apart : ∀ block other slot, m.tableSlot? block = some slot → m.tableSlot? other = some slot →
    block = other
  cached : ∀ entry, m.last = some entry → m.tableSlot? entry.block = some entry.slot

theorem sound_empty : empty.Sound := by
  refine ⟨?_, ?_, ?_⟩
  · intro block slot found
    cases found
  · intro block other slot found
    cases found
  · intro entry found
    cases found

/-- The memory with one more block, all zero, behind the others. -/
def grow (m : SparseMemory) (block : Nat) : SparseMemory :=
  { m with
    blocks := m.blocks ++ [.empty]
    table := m.table ++ [⟨block, m.blocks.length⟩] }

theorem tableSlot?_grow (m : SparseMemory) (block other : Nat) :
    (m.grow block).tableSlot? other =
      (m.tableSlot? other).or (if block = other then some m.blocks.length else none) := by
  unfold tableSlot? grow
  rw [List.find?_append]
  cases m.table.find? fun entry => entry.block == other with
  | some entry => rfl
  | none =>
      by_cases same : block = other
      · simp [same]
      · simp [same]

theorem tableSlot?_grow_cases {other slot : Nat}
    (now : (m.grow block).tableSlot? other = some slot) :
    m.tableSlot? other = some slot ∨ other = block ∧ slot = m.blocks.length := by
  rw [tableSlot?_grow] at now
  cases was : m.tableSlot? other with
  | some before =>
      rw [was] at now
      exact Or.inl now
  | none =>
      rw [was, Option.none_or] at now
      split at now
      · rename_i same
        cases now
        exact Or.inr ⟨same.symm, rfl⟩
      · cases now

theorem tableSlot?_grow_of_some {other slot : Nat} (was : m.tableSlot? other = some slot) :
    (m.grow block).tableSlot? other = some slot := by
  rw [tableSlot?_grow, was]
  rfl

theorem sound_grow (sound : m.Sound) (block : Nat) : (m.grow block).Sound := by
  have length : (m.grow block).blocks.length = m.blocks.length + 1 := List.length_append
  refine ⟨?_, ?_, ?_⟩
  · intro other slot now
    rcases tableSlot?_grow_cases now with was | ⟨_, rfl⟩
    · have bound := sound.bound other slot was
      omega
    · omega
  -- Old slots lie below the number of blocks, and the new slot is that number.
  · intro one other slot first second
    rcases tableSlot?_grow_cases first with was | ⟨rfl, rfl⟩
    · rcases tableSlot?_grow_cases second with wasToo | ⟨rfl, rfl⟩
      · exact sound.apart one other slot was wasToo
      · have bound := sound.bound one m.blocks.length was
        omega
    · rcases tableSlot?_grow_cases second with wasToo | ⟨rfl, _⟩
      · have bound := sound.bound other m.blocks.length wasToo
        omega
      · rfl
  · intro entry last
    exact tableSlot?_grow_of_some (sound.cached entry last)

theorem wordAt_grow (sound : m.Sound) (block : Nat) : (m.grow block).wordAt = m.wordAt := by
  funext number
  unfold wordAt
  cases was : m.tableSlot? (number / blockWords) with
  | some slot =>
      have bound := sound.bound _ slot was
      rw [tableSlot?_grow_of_some was]
      unfold word grow
      dsimp only
      rw [List.getD_eq_getElem?_getD, List.getD_eq_getElem?_getD, List.getElem?_append_left bound]
  | none =>
      cases now : (m.grow block).tableSlot? (number / blockWords) with
      | none => rfl
      | some slot =>
          rcases tableSlot?_grow_cases now with impossible | ⟨_, rfl⟩
          · cases was.symm.trans impossible
          · unfold word grow
            dsimp only
            rw [List.getD_eq_getElem?_getD, List.getElem?_append_right (Nat.le_refl _),
              Nat.sub_self]
            rfl

/-- What an access finds out about its block, and leaves as it is. -/
structure Touched (m : SparseMemory) (block slot : Nat) (after : SparseMemory) : Prop where
  sound : after.Sound
  found : after.tableSlot? block = some slot
  words : after.wordAt = m.wordAt

theorem touched_allocate (sound : m.Sound) (block : Nat) :
    m.Touched block (m.allocate block).1 (m.allocate block).2 := by
  unfold allocate
  cases found : m.tableSlot? block with
  | some slot => exact ⟨sound, found, rfl⟩
  | none =>
      have here : (m.grow block).tableSlot? block = some m.blocks.length := by
        rw [tableSlot?_grow, found, if_pos rfl]
        rfl
      exact ⟨sound_grow sound block, here, wordAt_grow sound block⟩

/-- An access finds the slot of its block, through the block of the last access or the table. -/
theorem touched_touch (sound : m.Sound) (block : Nat) :
    m.Touched block (m.touch block).1 (m.touch block).2 := by
  unfold touch
  cases cached : m.last.filter fun entry => entry.block == block with
  | some entry =>
      obtain ⟨last, same⟩ := Option.filter_eq_some_iff.mp cached
      have found := sound.cached entry last
      rw [beq_iff_eq.mp same] at found
      exact ⟨⟨sound.bound, sound.apart, sound.cached⟩, found, rfl⟩
  | none =>
      have touched := touched_allocate sound block
      dsimp only
      refine ⟨⟨touched.sound.bound, touched.sound.apart, ?_⟩, touched.found, touched.words⟩
      intro entry last
      cases last
      exact touched.found

/-- The memory with another word in a slot. -/
def put (m : SparseMemory) (slot offset : Nat) (word : UInt64) : SparseMemory :=
  { m with blocks := m.blocks.modify slot fun block => block.set offset word }

theorem sound_put (sound : m.Sound) (slot offset : Nat) (word : UInt64) :
    (m.put slot offset word).Sound := by
  refine ⟨?_, sound.apart, sound.cached⟩
  intro block place found
  have bound := sound.bound block place found
  unfold put
  dsimp only
  rw [List.length_modify]
  exact bound

/-- A word that is put into the slot of its block is the only one that changes. -/
theorem wordAt_put (sound : m.Sound) {slot offset : Nat} {word : UInt64}
    (found : m.tableSlot? block = some slot) (small : offset < blockWords) :
    (m.put slot offset word).wordAt = setWord m.wordAt (block * blockWords + offset) word := by
  have positive : 0 < blockWords := by decide
  funext number
  unfold setWord wordAt
  change (match m.tableSlot? (number / blockWords) with
    | some other => (m.put slot offset word).word other (number % blockWords)
    | none => 0) = _
  have split := Nat.div_add_mod number blockWords
  have whole : number = block * blockWords + offset → number / blockWords = block := by
    intro same
    rw [same, Nat.mul_comm, Nat.mul_add_div positive, Nat.div_eq_of_lt small, Nat.add_zero]
  cases other : m.tableSlot? (number / blockWords) with
  | none =>
      have apart : number ≠ block * blockWords + offset := by
        intro same
        rw [whole same, found] at other
        cases other
      rw [if_neg apart]
  | some place =>
      dsimp only
      unfold SparseMemory.word put
      dsimp only
      by_cases same : number / blockWords = block
      · rw [same, found] at other
        cases other
        have bound := sound.bound block slot found
        have there : m.blocks[slot]? = some m.blocks[slot] := List.getElem?_eq_getElem bound
        rw [List.getD_eq_getElem?_getD, List.getD_eq_getElem?_getD, List.getElem?_modify_eq, there]
        change (WordMap.set m.blocks[slot] offset word).get (number % blockWords) = _
        rw [WordMap.get_set]
        have iff : number % blockWords = offset ↔ number = block * blockWords + offset := by
          rw [same, Nat.mul_comm] at split
          omega
        simp only [iff, Option.getD_some]
      · have slots : slot ≠ place := by
          intro equal
          subst equal
          exact same (sound.apart _ _ _ other found)
        have apart : number ≠ block * blockWords + offset := fun equal => same (whole equal)
        rw [if_neg apart, List.getD_eq_getElem?_getD, List.getD_eq_getElem?_getD,
          List.getElem?_modify_ne _ _ slots]

theorem number_eq (address : UInt64) :
    blockIndex address = address.toNat / 8 / blockWords ∧
      wordOffset address = address.toNat / 8 % blockWords := by
  have words : blockWords = 131072 := by decide
  have bytes : blockSize = 1048576 := by decide
  unfold blockIndex wordOffset
  rw [words, bytes]
  omega

variable {slot : Nat} {after : SparseMemory} {address : UInt64}

theorem Touched.word_eq (touched : m.Touched (blockIndex address) slot after) :
    after.word slot (wordOffset address) = m.wordAt (address.toNat / 8) := by
  obtain ⟨block, offset⟩ := number_eq address
  rw [← touched.words]
  unfold wordAt
  rw [← block, touched.found, offset]

theorem Touched.wordAt_put (touched : m.Touched (blockIndex address) slot after) (word : UInt64) :
    (after.put slot (wordOffset address) word).wordAt =
      setWord m.wordAt (address.toNat / 8) word := by
  obtain ⟨block, offset⟩ := number_eq address
  have small : wordOffset address < blockWords := by
    rw [offset]
    exact Nat.mod_lt _ (by decide)
  have number : blockIndex address * blockWords + wordOffset address = address.toNat / 8 := by
    rw [block, offset, Nat.mul_comm]
    exact Nat.div_add_mod _ _
  rw [SparseMemory.wordAt_put touched.sound touched.found small, number, touched.words]

end SparseMemory

/-! ### The byte map of a memory -/

namespace Memory

/-- The words of a memory, by number. -/
def words : Memory → Nat → UInt64
  | .flat store => store.words.get
  | .sparse store => store.wordAt

/-- How many bytes can be accessed, from address zero on. -/
def limit : Memory → Nat
  | .flat store => store.capacity
  | .sparse _ => UInt64.size

def Sound : Memory → Prop
  | .flat store => store.capacity < UInt64.size
  | .sparse store => store.Sound

/-- The memory stands for a byte map, up to a limit. -/
structure Represents (m : Memory) (limit : Nat) (b : ByteMap) : Prop where
  sound : m.Sound
  limit : m.limit = limit
  bytes : wordBytes m.words = b

variable {m : Memory} {limit width : Nat} {b : ByteMap} {address : UInt64}

theorem wordIndex_eq_ok {store : FlatMemory} (sound : store.capacity < UInt64.size)
    (valid : width ∈ validWidths) (aligned : isAligned address width = true)
    (inRange : address.toNat + width ≤ store.capacity) :
    store.wordIndex address width = .ok (address.toNat / 8) := by
  have top : address.toNat + width < UInt64.size := Nat.lt_of_le_of_lt inRange sound
  unfold FlatMemory.wordIndex
  rw [checkAligned_eq_ok valid aligned]
  exact if_pos ⟨top, inRange⟩

theorem alignedRead_represents (represents : m.Represents limit b) (valid : width ∈ validWidths)
    (aligned : isAligned address width = true) (inRange : address.toNat + width ≤ limit) :
    ∃ value after, m.alignedRead address width = .ok (value, after) ∧
      value.toNat = b.number address width ∧ after.Represents limit b := by
  have inside := inside_of_isAligned valid aligned
  obtain ⟨sound, rfl, rfl⟩ := represents
  refine ⟨readLane (m.words (address.toNat / 8)) address width, ?_⟩
  rw [number_wordBytes inside]
  cases m with
  | flat store =>
      refine ⟨.flat store, ?_, rfl, sound, rfl, rfl⟩
      unfold Memory.alignedRead FlatMemory.alignedRead
      dsimp only
      rw [wordIndex_eq_ok sound valid aligned inRange]
      rfl
  | sparse store =>
      have touched := SparseMemory.touched_touch sound (blockIndex address)
      refine ⟨.sparse (store.touch (blockIndex address)).2, ?_, rfl, touched.sound, rfl,
        congrArg wordBytes touched.words⟩
      unfold Memory.alignedRead SparseMemory.alignedRead
      dsimp only
      rw [checkAligned_eq_ok valid aligned]
      change Except.ok (readLane _ address width, _) = _
      rw [touched.word_eq]
      rfl

theorem alignedWrite_represents (represents : m.Represents limit b) (valid : width ∈ validWidths)
    (aligned : isAligned address width = true) (inRange : address.toNat + width ≤ limit)
    (value : UInt64) :
    ∃ after, m.alignedWrite address width value = .ok after ∧
      after.Represents limit (b.store address width value.toNat) := by
  have inside := inside_of_isAligned valid aligned
  obtain ⟨sound, rfl, rfl⟩ := represents
  rw [← wordBytes_writeLane inside]
  cases m with
  | flat store =>
      refine ⟨.flat ⟨store.size, store.words.set (address.toNat / 8)
        (writeLane (store.words.get (address.toNat / 8)) address width value)⟩, ?_, sound, rfl, ?_⟩
      · unfold Memory.alignedWrite FlatMemory.alignedWrite
        dsimp only
        rw [wordIndex_eq_ok sound valid aligned inRange]
        rfl
      · exact congrArg wordBytes (store.words.get_set_eq _ _)
  | sparse store =>
      have touched := SparseMemory.touched_touch sound (blockIndex address)
      generalize replaced : writeLane (store.wordAt (address.toNat / 8)) address width value = word
      refine ⟨.sparse ((store.touch (blockIndex address)).2.put
        (store.touch (blockIndex address)).1 (wordOffset address) word), ?_,
        SparseMemory.sound_put touched.sound _ _ _, rfl, ?_⟩
      · unfold Memory.alignedWrite SparseMemory.alignedWrite
        dsimp only
        rw [checkAligned_eq_ok valid aligned]
        change Except.ok (Memory.sparse ((store.touch (blockIndex address)).2.put _ _
          (writeLane _ address width value))) = _
        rw [touched.word_eq, replaced]
      · exact congrArg wordBytes ((touched.wordAt_put word).trans (replaced ▸ rfl))

theorem wordIndex_eq_error {store : FlatMemory} (valid : width ∈ validWidths)
    (aligned : isAligned address width = true) (beyond : store.capacity < address.toNat + width) :
    store.wordIndex address width = .error (.outOfBounds address width) := by
  unfold FlatMemory.wordIndex
  rw [checkAligned_eq_ok valid aligned]
  exact if_neg fun both => Nat.not_le_of_lt beyond both.2

/-- An aligned access never runs past the top of the address space. -/
theorem not_beyond_top (valid : width ∈ validWidths) (aligned : isAligned address width = true) :
    address.toNat + width ≤ UInt64.size := by
  have multiple := mod_eq_zero_of_isAligned aligned
  have bound : address.toNat < 18446744073709551616 := address.toNat_lt
  change _ ≤ 18446744073709551616
  rcases width_cases valid with rfl | rfl | rfl | rfl <;> omega

theorem alignedRead_beyond (represents : m.Represents limit b) (valid : width ∈ validWidths)
    (aligned : isAligned address width = true) (beyond : limit < address.toNat + width) :
    m.alignedRead address width = .error (.outOfBounds address width) := by
  obtain ⟨_sound, rfl, _bytes⟩ := represents
  cases m with
  | flat store =>
      unfold Memory.alignedRead FlatMemory.alignedRead
      dsimp only
      rw [wordIndex_eq_error valid aligned beyond]
      rfl
  | sparse store => exact absurd (not_beyond_top valid aligned) (Nat.not_le_of_lt beyond)

theorem alignedWrite_beyond (represents : m.Represents limit b) (valid : width ∈ validWidths)
    (aligned : isAligned address width = true) (beyond : limit < address.toNat + width)
    (value : UInt64) :
    m.alignedWrite address width value = .error (.outOfBounds address width) := by
  obtain ⟨_sound, rfl, _bytes⟩ := represents
  cases m with
  | flat store =>
      unfold Memory.alignedWrite FlatMemory.alignedWrite
      dsimp only
      rw [wordIndex_eq_error valid aligned beyond]
      rfl
  | sparse store => exact absurd (not_beyond_top valid aligned) (Nat.not_le_of_lt beyond)

end Memory

end JumpIR
