import JumpIR.Proofs.Memory.Torn

/-!
# Runs of bytes

A run of bytes is stored byte by byte, up to the first that lies at the limit of the memory or past
the top of the address space; what is stored by then stays. Main statements:
`Memory.writeBytes_cases` and `Memory.readBytes_data`.
-/

set_option autoImplicit false

namespace JumpIR

/-- The byte that a run has for an address, if the run covers it. -/
def runByte? (start : Nat) (data : List UInt8) (place : UInt64) : Option UInt8 :=
  if start ≤ place.toNat then data[place.toNat - start]? else none

/-- The map on which a run of bytes is laid. -/
def ByteMap.overlay (b : ByteMap) (start : Nat) (data : List UInt8) : ByteMap := fun place =>
  (runByte? start data place).getD (b place)

/-- Every byte of a run has a place in so many bytes. -/
def FitsIn (limit start length : Nat) : Prop := ∀ index < length, start + index < limit

/-- Byte number `count` of a run is the first that has no place in so many bytes. -/
structure EndsAt (limit start length count : Nat) : Prop where
  inRun : count < length
  beyond : limit ≤ start + count
  below : FitsIn limit start count

theorem FitsIn.succ {limit start length : Nat} (first : start < limit)
    (others : FitsIn limit (start + 1) length) : FitsIn limit start (length + 1) := by
  intro index bound
  cases index with
  | zero => exact first
  | succ index =>
      have later := others index (Nat.lt_of_succ_lt_succ bound)
      omega

theorem EndsAt.succ {limit start length count : Nat} (first : start < limit)
    (others : EndsAt limit (start + 1) length count) :
    EndsAt limit start (length + 1) (count + 1) := by
  have beyond := others.beyond
  exact ⟨Nat.succ_lt_succ others.inRun, by omega, FitsIn.succ first others.below⟩

section

variable {start : Nat} {data : List UInt8} {place : UInt64}

theorem runByte?_nil (start : Nat) (place : UInt64) : runByte? start [] place = none := by
  unfold runByte?
  split <;> rfl

theorem runByte?_cons (byte : UInt8) (rest : List UInt8) :
    runByte? start (byte :: rest) place =
      if place.toNat = start then some byte else runByte? (start + 1) rest place := by
  unfold runByte?
  by_cases here : place.toNat = start
  · rw [if_pos here, if_pos (by omega), here, Nat.sub_self, List.getElem?_cons_zero]
  · rw [if_neg here]
    by_cases later : start + 1 ≤ place.toNat
    · have index : place.toNat - start = place.toNat - (start + 1) + 1 := by omega
      rw [if_pos later, if_pos (by omega), index, List.getElem?_cons_succ]
    · rw [if_neg later, if_neg (by omega)]

/-- A run covers no more addresses than it has bytes. -/
theorem lt_of_runByte? {byte : UInt8} (covers : runByte? start data place = some byte) :
    start ≤ place.toNat ∧ place.toNat - start < data.length := by
  unfold runByte? at covers
  split at covers
  · rename_i first
    obtain ⟨last, _same⟩ := List.getElem?_eq_some_iff.mp covers
    exact ⟨first, last⟩
  · cases covers

theorem overlay_nil (b : ByteMap) (start : Nat) : b.overlay start [] = b := by
  funext place
  unfold ByteMap.overlay
  rw [runByte?_nil]
  rfl

/-- The first byte of a run is stored, and then the others are. -/
theorem overlay_cons (b : ByteMap) {address : UInt64} (byte : UInt8) (rest : List UInt8) :
    (b.store address 1 byte.toNat).overlay (address.toNat + 1) rest =
      b.overlay address.toNat (byte :: rest) := by
  funext place
  unfold ByteMap.overlay
  rw [runByte?_cons]
  unfold ByteMap.store
  by_cases here : place.toNat = address.toNat
  · have uncovered : runByte? (address.toNat + 1) rest place = none := by
      unfold runByte?
      rw [if_neg (by omega)]
    have same : byteOf byte.toNat 0 = byte := by
      unfold byteOf
      exact UInt8.ofNat_toNat
    rw [if_pos here, uncovered, if_pos (by omega), here, Nat.sub_self]
    exact same
  · rw [if_neg here, if_neg (by omega)]

end

namespace Memory

variable {m : Memory} {limit : Nat} {b : ByteMap} {address place : UInt64}

/-! ### Single bytes -/

theorem write_byte (represents : m.Represents limit b) (place : UInt64)
    (below : place.toNat < limit) (byte : UInt8) :
    ∃ after, m.write place 1 byte.toUInt64 = (.ok (), after) ∧
      after.Represents limit (b.store place 1 byte.toNat) := by
  obtain ⟨after, wrote, kept⟩ := write_represents represents one_mem_validWidths below byte.toUInt64
  refine ⟨after, wrote, ?_⟩
  rw [UInt8.toNat_toUInt64, Nat.mod_eq_of_lt byte.toNat_lt] at kept
  exact kept

theorem write_byte_beyond (represents : m.Represents limit b) (beyond : limit ≤ place.toNat)
    (value : UInt64) : m.write place 1 value = (.error (.outOfBounds place 1), m) := by
  have inSpace : place.toNat + 1 ≤ UInt64.size := place.toNat_lt
  rw [write_eq m one_mem_validWidths inSpace value, if_pos (isAligned_one place),
    alignedWrite_beyond represents one_mem_validWidths (isAligned_one place) (by omega)]

theorem read_byte (represents : m.Represents limit b) (place : UInt64)
    (below : place.toNat < limit) :
    ∃ value after, m.read place 1 = .ok (value, after) ∧ value.toUInt8 = b place ∧
      after.Represents limit b := by
  obtain ⟨value, after, gave, same, kept⟩ := read_represents represents one_mem_validWidths below
  refine ⟨value, after, gave, ?_, kept⟩
  apply UInt8.toNat_inj.mp
  rw [ByteMap.number_one] at same
  rw [UInt64.toNat_toUInt8, same]
  exact Nat.mod_eq_of_lt (b place).toNat_lt

theorem byteAddress_eq_ok {index : Nat} (inSpace : address.toNat + index < UInt64.size) :
    byteAddress address index = .ok (address + UInt64.ofNat index) := by
  unfold byteAddress
  rw [if_pos inSpace]

theorem byteAddress_eq_error {index : Nat} (past : UInt64.size ≤ address.toNat + index) :
    byteAddress address index = .error (.outOfBounds address 1) := by
  unfold byteAddress
  rw [if_neg (Nat.not_lt_of_le past)]

/-! ### Runs -/

/-- The fault of a run from `address` on whose byte number `index` has no place. -/
def runFault (address : UInt64) (index : Nat) : MemoryFault :=
  if address.toNat + index < UInt64.size then .outOfBounds (address + UInt64.ofNat index) 1
  else .outOfBounds address 1

/-- A run that starts at the limit or behind it is refused at once. -/
theorem writeBytesFrom_here (represents : m.Represents limit b) {index : Nat}
    (beyond : limit ≤ address.toNat + index) (byte : UInt8) (rest : List UInt8) :
    m.writeBytesFrom address index (byte :: rest) = (.error (runFault address index), m) := by
  unfold writeBytesFrom runFault
  by_cases inSpace : address.toNat + index < UInt64.size
  · have next := add_ofNat_toNat address index inSpace
    rw [byteAddress_eq_ok inSpace, if_pos inSpace]
    dsimp only
    rw [write_byte_beyond represents (by omega)]
  · rw [byteAddress_eq_error (Nat.le_of_not_lt inSpace), if_neg inSpace]

/-- A byte that has a place is stored, and the run goes on behind it. -/
theorem writeBytesFrom_step (represents : m.Represents limit b) {index : Nat}
    (below : address.toNat + index < limit) (byte : UInt8) (rest : List UInt8) :
    ∃ (middle : Memory) (c : ByteMap), m.writeBytesFrom address index (byte :: rest) =
        middle.writeBytesFrom address (index + 1) rest ∧ middle.Represents limit c ∧
      ∀ data, c.overlay (address.toNat + index + 1) data =
        b.overlay (address.toNat + index) (byte :: data) := by
  have top := represents.limit_le
  have next := add_ofNat_toNat address index (by omega)
  obtain ⟨middle, wrote, kept⟩ :=
    write_byte represents (address + UInt64.ofNat index) (by omega) byte
  refine ⟨middle, _, ?_, kept, ?_⟩
  · rw [writeBytesFrom, byteAddress_eq_ok (by omega)]
    dsimp only
    rw [wrote]
  · intro data
    rw [← next]
    exact overlay_cons b byte data

theorem writeBytesFrom_cases (address : UInt64) (data : List UInt8) : ∀ {m : Memory}
    {b : ByteMap} (index : Nat), m.Represents limit b →
    (∃ after, m.writeBytesFrom address index data = (.ok (), after) ∧
      FitsIn limit (address.toNat + index) data.length ∧
      after.Represents limit (b.overlay (address.toNat + index) data)) ∨
    ∃ count after, m.writeBytesFrom address index data =
        (.error (runFault address (index + count)), after) ∧
      EndsAt limit (address.toNat + index) data.length count ∧
      after.Represents limit (b.overlay (address.toNat + index) (data.take count)) := by
  induction data with
  | nil =>
      intro m b index represents
      refine Or.inl ⟨m, rfl, fun i impossible => absurd impossible (Nat.not_lt_zero i), ?_⟩
      rw [overlay_nil]
      exact represents
  | cons byte rest ih =>
      intro m b index represents
      by_cases below : address.toNat + index < limit
      -- What is laid on the map with the byte stored is laid, behind the byte, on the old map.
      · obtain ⟨middle, c, step, kept, laid⟩ := writeBytesFrom_step represents below byte rest
        rcases ih (index + 1) kept with
          ⟨after, done, fits, holds⟩ | ⟨count, after, failed, ends, holds⟩
        · exact Or.inl ⟨after, step.trans done, fits.succ below, laid rest ▸ holds⟩
        · have same : index + (count + 1) = index + 1 + count := by omega
          refine Or.inr ⟨count + 1, after, ?_, ends.succ below, laid (rest.take count) ▸ holds⟩
          rw [step, failed, same]
      · have beyond := Nat.le_of_not_lt below
        have ends : EndsAt limit (address.toNat + index) (byte :: rest).length 0 :=
          ⟨Nat.succ_pos _, beyond, fun i impossible => absurd impossible (Nat.not_lt_zero i)⟩
        refine Or.inr ⟨0, m, writeBytesFrom_here represents beyond byte rest, ends, ?_⟩
        rw [List.take_zero, overlay_nil]
        exact represents

/-- A run is stored as a whole, or up to its first byte that has no place. -/
theorem writeBytes_cases (represents : m.Represents limit b) (address : UInt64)
    (data : List UInt8) :
    (∃ after, m.writeBytes address data = (.ok (), after) ∧
      FitsIn limit address.toNat data.length ∧
      after.Represents limit (b.overlay address.toNat data)) ∨
    ∃ count after, m.writeBytes address data = (.error (runFault address count), after) ∧
      EndsAt limit address.toNat data.length count ∧
      after.Represents limit (b.overlay address.toNat (data.take count)) := by
  have cases := writeBytesFrom_cases address data 0 represents
  simp only [Nat.add_zero, Nat.zero_add] at cases
  exact cases

theorem readBytesFrom_data (data : List UInt8) : ∀ {m : Memory} (index : Nat),
    m.Represents limit b → FitsIn limit (address.toNat + index) data.length →
    (∀ place, ∀ byte ∈ runByte? (address.toNat + index) data place, b place = byte) →
    (m.readBytesFrom address index data.length).1 = .ok data := by
  induction data with
  | nil =>
      intro m index _represents _fits _holds
      rfl
  | cons byte rest ih =>
      intro m index represents fits holds
      have below : address.toNat + index < limit := fits 0 (Nat.succ_pos _)
      have top := represents.limit_le
      have next := add_ofNat_toNat address index (by omega)
      obtain ⟨value, middle, gave, same, kept⟩ :=
        read_byte represents (address + UInt64.ofNat index) (by omega)
      have first : b (address + UInt64.ofNat index) = byte := by
        apply holds
        rw [runByte?_cons, if_pos next]
        rfl
      have others := ih (index + 1) kept
        (fun i bound => by
          have later := fits (i + 1) (Nat.succ_lt_succ bound)
          omega)
        (fun place found covers => by
          have after : address.toNat + (index + 1) ≤ place.toNat := (lt_of_runByte? covers).1
          apply holds
          rw [runByte?_cons, if_neg (by omega)]
          exact covers)
      rw [List.length_cons, readBytesFrom, byteAddress_eq_ok (by omega)]
      dsimp only
      rw [gave]
      dsimp only
      rw [others, same, first]
      rfl

/-- What a run has stored is read back. -/
theorem readBytes_data (represents : m.Represents limit b) (address : UInt64) (data : List UInt8)
    (after : Memory) (done : m.writeBytes address data = (.ok (), after)) :
    (after.readBytes address data.length).1 = .ok data := by
  rcases writeBytes_cases represents address data with
    ⟨stored, wrote, fits, holds⟩ | ⟨count, stopped, failed, _ends, _holds⟩
  · cases done.symm.trans wrote
    refine readBytesFrom_data data 0 holds fits ?_
    intro place byte covers
    unfold ByteMap.overlay
    rw [Nat.add_zero] at covers
    rw [covers]
    rfl
  · cases done.symm.trans failed

end Memory

end JumpIR
