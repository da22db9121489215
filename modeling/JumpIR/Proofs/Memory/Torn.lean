import JumpIR.Proofs.Memory.Replay

/-!
# Writes that fault

A fault is found before anything is stored, unless the write is split into bytes and starts below
the end of a flat memory: then the bytes below the end are stored, and stay. The states in which a
memory can be are told by `Memory.Reached`. Main statement: `write_error_bytes`.
-/

set_option autoImplicit false

namespace JumpIR

/-- Storing bytes of a number only needs its low bytes. -/
theorem ByteMap.store_mod (b : ByteMap) (address : UInt64) (number : Nat) {count width : Nat}
    (few : count ≤ width) :
    b.store address count (number % 2 ^ (8 * width)) = b.store address count number := by
  funext place
  unfold store
  split
  · rename_i here
    exact byteOf_mod number (by omega)
  · rfl

/-- A memory of that kind behind any accesses, which may have faulted. -/
inductive Memory.Reached (kind : MemoryKind) : Memory → Prop
  | built {m : Memory} : kind.build = .ok m → Reached kind m
  | alignedRead {m after : Memory} {address value : UInt64} {width : Nat} : Reached kind m →
      m.alignedRead address width = .ok (value, after) → Reached kind after
  | alignedWrite {m after : Memory} {address value : UInt64} {width : Nat} : Reached kind m →
      m.alignedWrite address width value = .ok after → Reached kind after
  | read {m after : Memory} {address value : UInt64} {width : Nat} : Reached kind m →
      m.read address width = .ok (value, after) → Reached kind after
  | write {m : Memory} (address : UInt64) (width : Nat) (value : UInt64) : Reached kind m →
      Reached kind (m.write address width value).2

namespace Memory

variable {kind : MemoryKind} {m after : Memory} {fault : MemoryFault} {limit width : Nat}
  {b : ByteMap} {address value : UInt64}

/-! ### Bytes -/

/-- The byte at an address, if it can be read. -/
def byte? (m : Memory) (place : UInt64) : Option UInt64 :=
  match m.read place 1 with
  | .error _ => none
  | .ok (byte, _) => some byte

/-- Every byte that could be read before has the same value afterwards. -/
def Keeps (m after : Memory) : Prop :=
  ∀ place byte, m.byte? place = some byte → after.byte? place = some byte

/-- The bytes below the limit can be read. -/
theorem Represents.byte?_eq (represents : m.Represents limit b) (place : UInt64) :
    m.byte? place = if place.toNat < limit then some (b place).toUInt64 else none := by
  unfold byte?
  by_cases below : place.toNat + 1 ≤ limit
  · obtain ⟨byte, after, gave, same, _kept⟩ :=
      read_represents represents one_mem_validWidths below
    have isByte : byte = (b place).toUInt64 := by
      apply UInt64.toNat_inj.mp
      rw [same, ByteMap.number_one, UInt8.toNat_toUInt64]
    rw [gave, isByte]
    exact (if_pos below).symm
  · obtain ⟨first, size, faulted⟩ :=
      read_beyond represents one_mem_validWidths (Nat.lt_of_not_le below)
    rw [faulted]
    exact (if_neg below).symm

/-! ### What a faulting write stores -/

/-- A write faults unless its width is valid and all of its bytes lie below the limit. -/
theorem exists_write_error (represents : m.Represents limit b) (address : UInt64) (width : Nat)
    (value : UInt64) (misfit : ¬ (width ∈ validWidths ∧ address.toNat + width ≤ limit)) :
    ∃ fault after, m.write address width value = (.error fault, after) := by
  by_cases valid : width ∈ validWidths
  · have beyond : limit < address.toNat + width :=
      Nat.lt_of_not_le fun inRange => misfit ⟨valid, inRange⟩
    obtain ⟨place, size, after, faulted⟩ := write_beyond represents valid beyond value
    exact ⟨_, after, faulted⟩
  · exact ⟨_, m, write_invalid m address value valid⟩

theorem misfit_of_write_error (represents : m.Represents limit b)
    (faulted : m.write address width value = (.error fault, after)) :
    ¬ (width ∈ validWidths ∧ address.toNat + width ≤ limit) := by
  rintro ⟨valid, inRange⟩
  obtain ⟨stored, wrote, _kept⟩ := write_represents represents valid inRange value
  cases faulted.symm.trans wrote

theorem writeBytewise_error (count : Nat) : ∀ {m : Memory} {b : ByteMap} (address value : UInt64),
    m.Represents limit b → address.toNat + count ≤ UInt64.size →
    m.writeBytewise address count value = (.error fault, after) →
    after.Represents limit (b.store address (limit - address.toNat) value.toNat) := by
  induction count with
  | zero =>
      intro m b address value _represents _inSpace faulted
      cases faulted
  | succ count ih =>
      intro m b address value represents inSpace faulted
      by_cases here : address.toNat + 1 ≤ limit
      · obtain ⟨middle, wrote, kept⟩ := alignedWrite_represents represents one_mem_validWidths
          (isAligned_one address) here (value &&& 0xff)
        unfold writeBytewise at faulted
        rw [wrote] at faulted
        change middle.writeBytewise (address + 1) count (value >>> 8) = _ at faulted
        cases count with
        | zero => cases faulted
        | succ count =>
            -- The rest starts one further up, with one byte less to the limit.
            have next : (address + 1).toNat = address.toNat + 1 :=
              add_ofNat_toNat address 1 (by omega)
            have later := ih _ _ kept (by omega) faulted
            have shifted : (value >>> 8).toNat = value.toNat >>> 8 :=
              UInt64.toNat_shiftRight value 8
            have top := represents.limit_le
            have split : limit - (address.toNat + 1) + 1 = limit - address.toNat := by omega
            rw [next, low_byte_toNat, shifted, ByteMap.store_succ b value.toNat (by omega),
              split] at later
            exact later
      · rw [writeBytewise_here represents count value (Nat.lt_of_not_le here)] at faulted
        cases faulted
        have nothing : limit - address.toNat = 0 := by omega
        rw [nothing, ByteMap.store_zero]
        exact represents

/-- How many bytes of a write are stored below the limit before it faults. -/
def torn (limit : Nat) (address : UInt64) (width : Nat) : Nat :=
  if width ∈ validWidths ∧ isAligned address width = false ∧ address.toNat + width ≤ UInt64.size
  then limit - address.toNat
  else 0

theorem torn_eq_zero_of_kept (kept : isAligned address width = true ∨ limit ≤ address.toNat) :
    torn limit address width = 0 := by
  unfold torn
  split
  · rename_i split
    rcases kept with aligned | past
    · cases aligned.symm.trans split.2.1
    · exact Nat.sub_eq_zero_of_le past
  · rfl

/-- A write that faults has stored the lowest bytes of its value, and only up to the limit. -/
theorem write_error (represents : m.Represents limit b)
    (faulted : m.write address width value = (.error fault, after)) :
    after.Represents limit (b.store address (torn limit address width) value.toNat) := by
  unfold torn
  by_cases valid : width ∈ validWidths
  · by_cases inSpace : address.toNat + width ≤ UInt64.size
    · have beyond : limit < address.toNat + width :=
        Nat.lt_of_not_le fun inRange => misfit_of_write_error represents faulted ⟨valid, inRange⟩
      rw [write_eq m valid inSpace] at faulted
      cases aligned : isAligned address width with
      | true =>
          rw [if_pos aligned, alignedWrite_beyond represents valid aligned beyond] at faulted
          cases faulted
          rw [if_neg (fun split => Bool.noConfusion split.2.1), ByteMap.store_zero]
          exact represents
      | false =>
          rw [aligned] at faulted
          have stored := writeBytewise_error width address _ represents inSpace faulted
          rw [truncate_toNat, ByteMap.store_mod b address value.toNat (by omega)] at stored
          rw [if_pos ⟨valid, rfl, inSpace⟩]
          exact stored
    · have fails : (checkWidth width >>= fun _ => checkTop address width) =
          .error (.outOfBounds address width) := by
        rw [checkWidth_eq_ok valid]
        exact checkTop_eq_error valid (Nat.lt_of_not_le inSpace)
      unfold write at faulted
      rw [fails] at faulted
      cases faulted
      rw [if_neg (fun split => inSpace split.2.2), ByteMap.store_zero]
      exact represents
  · rw [write_invalid m address value valid] at faulted
    cases faulted
    rw [if_neg (fun split => valid split.1), ByteMap.store_zero]
    exact represents

/-! ### Reached memories -/

theorem of_checkAligned (passes : checkAligned address width = .ok ()) :
    width ∈ validWidths ∧ isAligned address width = true := by
  unfold checkAligned checkWidth at passes
  by_cases valid : width ∈ validWidths
  · rw [if_pos valid] at passes
    refine ⟨valid, ?_⟩
    cases aligned : isAligned address width with
    | true => rfl
    | false =>
        rw [aligned] at passes
        cases passes
  · rw [if_neg valid] at passes
    cases passes

theorem alignedRead_of_refused (m : Memory) (refused : checkAligned address width = .error fault) :
    m.alignedRead address width = .error fault := by
  cases m with
  | flat store =>
      unfold alignedRead FlatMemory.alignedRead FlatMemory.wordIndex
      dsimp only
      rw [refused]
      rfl
  | sparse store =>
      unfold alignedRead SparseMemory.alignedRead
      dsimp only
      rw [refused]
      rfl

theorem alignedWrite_of_refused (m : Memory) (value : UInt64)
    (refused : checkAligned address width = .error fault) :
    m.alignedWrite address width value = .error fault := by
  cases m with
  | flat store =>
      unfold alignedWrite FlatMemory.alignedWrite FlatMemory.wordIndex
      dsimp only
      rw [refused]
      rfl
  | sparse store =>
      unfold alignedWrite SparseMemory.alignedWrite
      dsimp only
      rw [refused]
      rfl

theorem Represents.of_alignedRead (represents : m.Represents limit b)
    (done : m.alignedRead address width = .ok (value, after)) : after.Represents limit b := by
  cases check : checkAligned address width with
  | error fault => cases done.symm.trans (alignedRead_of_refused m check)
  | ok _ =>
      obtain ⟨valid, aligned⟩ := of_checkAligned check
      by_cases inRange : address.toNat + width ≤ limit
      · obtain ⟨found, other, gave, _same, kept⟩ :=
          alignedRead_represents represents valid aligned inRange
        cases done.symm.trans gave
        exact kept
      · cases done.symm.trans
          (alignedRead_beyond represents valid aligned (Nat.lt_of_not_le inRange))

theorem Represents.of_alignedWrite (represents : m.Represents limit b)
    (done : m.alignedWrite address width value = .ok after) :
    after.Represents limit (b.store address width value.toNat) := by
  cases check : checkAligned address width with
  | error fault => cases done.symm.trans (alignedWrite_of_refused m value check)
  | ok _ =>
      obtain ⟨valid, aligned⟩ := of_checkAligned check
      by_cases inRange : address.toNat + width ≤ limit
      · obtain ⟨other, wrote, kept⟩ := alignedWrite_represents represents valid aligned inRange value
        cases done.symm.trans wrote
        exact kept
      · cases done.symm.trans
          (alignedWrite_beyond represents valid aligned (Nat.lt_of_not_le inRange) value)

theorem Represents.of_read (represents : m.Represents limit b)
    (done : m.read address width = .ok (value, after)) : after.Represents limit b := by
  by_cases valid : width ∈ validWidths
  · by_cases inRange : address.toNat + width ≤ limit
    · obtain ⟨found, other, gave, _same, kept⟩ := read_represents represents valid inRange
      cases done.symm.trans gave
      exact kept
    · obtain ⟨place, size, faulted⟩ := read_beyond represents valid (Nat.lt_of_not_le inRange)
      cases done.symm.trans faulted
  · cases done.symm.trans (read_invalid m address valid)

theorem Represents.exists_write (represents : m.Represents limit b) (address : UInt64)
    (width : Nat) (value : UInt64) : ∃ c, (m.write address width value).2.Represents limit c := by
  by_cases fits : width ∈ validWidths ∧ address.toNat + width ≤ limit
  · obtain ⟨after, wrote, kept⟩ := write_represents represents fits.1 fits.2 value
    rw [wrote]
    exact ⟨_, kept⟩
  · obtain ⟨fault, after, faulted⟩ := exists_write_error represents address width value fits
    rw [faulted]
    exact ⟨_, write_error represents faulted⟩

/-- Whatever was accessed before, a memory holds some byte map, up to the limit of its kind. -/
theorem Reached.represents (reached : Reached kind m) : ∃ b, m.Represents kind.limit b := by
  induction reached with
  | built built => exact ⟨_, MemoryKind.represents_build built⟩
  | alignedRead _ done ih =>
      obtain ⟨b, represents⟩ := ih
      exact ⟨b, represents.of_alignedRead done⟩
  | alignedWrite _ done ih =>
      obtain ⟨b, represents⟩ := ih
      exact ⟨_, represents.of_alignedWrite done⟩
  | read _ done ih =>
      obtain ⟨b, represents⟩ := ih
      exact ⟨b, represents.of_read done⟩
  | write address width value _ ih =>
      obtain ⟨b, represents⟩ := ih
      exact represents.exists_write address width value

/-! ### What a fault leaves -/

theorem torn_le (limit : Nat) (address : UInt64) (width : Nat) :
    torn limit address width ≤ limit - address.toNat := by
  unfold torn
  split
  · exact Nat.le_refl _
  · exact Nat.zero_le _

/-- A sparse memory has no end below the top of the address space, so nothing is torn there. -/
theorem torn_sparse_eq_zero
    (misfit : ¬ (width ∈ validWidths ∧ address.toNat + width ≤ UInt64.size)) :
    torn UInt64.size address width = 0 :=
  if_neg fun split => misfit ⟨split.1, split.2.2⟩

/-- A byte behind a faulting write is one of those it has stored, or as before. -/
theorem byte?_of_write_error (represents : m.Represents limit b)
    (faulted : m.write address width value = (.error fault, after)) (place : UInt64) :
    after.byte? place =
      if address.toNat ≤ place.toNat ∧ place.toNat < address.toNat + torn limit address width
      then some (byteOf value.toNat (place.toNat - address.toNat)).toUInt64
      else m.byte? place := by
  have few := torn_le limit address width
  rw [(write_error represents faulted).byte?_eq, represents.byte?_eq]
  unfold ByteMap.store
  by_cases stored :
      address.toNat ≤ place.toNat ∧ place.toNat < address.toNat + torn limit address width
  · rw [if_pos stored, if_pos stored, if_pos (by omega)]
  · rw [if_neg stored, if_neg stored]

theorem keeps_iff (represents : m.Represents limit b)
    (faulted : m.write address width value = (.error fault, after)) :
    m.Keeps after ↔ ∀ place : UInt64, address.toNat ≤ place.toNat →
      place.toNat < address.toNat + torn limit address width →
      m.byte? place = some (byteOf value.toNat (place.toNat - address.toNat)).toUInt64 := by
  have few := torn_le limit address width
  constructor
  · intro keeps place first last
    have readable : m.byte? place = some (b place).toUInt64 := by
      rw [represents.byte?_eq, if_pos (by omega)]
    have kept := keeps place _ readable
    rw [byte?_of_write_error represents faulted, if_pos ⟨first, last⟩] at kept
    exact readable.trans kept.symm
  · intro same place byte readable
    rw [byte?_of_write_error represents faulted]
    split
    · rename_i stored
      exact (same place stored.1 stored.2).symm.trans readable
    · exact readable

/-- A write that faults leaves the bytes that it has stored below the limit, and every other byte as
it was; so it changes nothing exactly if these bytes were there before. It has stored none if the
memory is sparse, if the write is aligned, or if it starts at the limit or behind it. -/
theorem write_error_bytes (reached : Reached kind m)
    (faulted : m.write address width value = (.error fault, after)) :
    (∀ place, after.byte? place =
      if address.toNat ≤ place.toNat ∧ place.toNat < address.toNat + torn kind.limit address width
      then some (byteOf value.toNat (place.toNat - address.toNat)).toUInt64
      else m.byte? place) ∧
    (m.Keeps after ↔ ∀ place : UInt64, address.toNat ≤ place.toNat →
      place.toNat < address.toNat + torn kind.limit address width →
      m.byte? place = some (byteOf value.toNat (place.toNat - address.toNat)).toUInt64) ∧
    (kind = .sparse ∨ isAligned address width = true ∨ kind.limit ≤ address.toNat →
      m.Keeps after) := by
  obtain ⟨b, represents⟩ := reached.represents
  refine ⟨byte?_of_write_error represents faulted, keeps_iff represents faulted, ?_⟩
  intro whole
  have nothing : torn kind.limit address width = 0 := by
    rcases whole with rfl | kept
    · exact torn_sparse_eq_zero (misfit_of_write_error represents faulted)
    · exact torn_eq_zero_of_kept kept
  apply (keeps_iff represents faulted).mpr
  intro place first last
  omega

/-- Four bytes that start two below the end of a flat memory: two of them stay. -/
theorem exists_torn_write : ¬ ∀ (kind : MemoryKind) (m after : Memory) (address : UInt64)
    (width : Nat) (value : UInt64) (fault : MemoryFault), Reached kind m →
    m.write address width value = (.error fault, after) → m.Keeps after := by
  intro atomic
  have reached : Reached (.flat 16) (.flat ⟨2, .empty⟩) := .built rfl
  have keeps := atomic (.flat 16) _ _ 14 4 0xffffffff (.outOfBounds 16 1) reached rfl 14 0 rfl
  revert keeps
  decide +kernel

theorem write_error_bytes_flat : ∃ m after fault, Reached (.flat 16) m ∧
    m.write 14 4 0xffffffff = (.error fault, after) ∧
    m.byte? 15 = some 0 ∧ after.byte? 15 = some 255 ∧ after.byte? 13 = m.byte? 13 := by
  have reached : Reached (.flat 16) (.flat ⟨2, .empty⟩) := .built rfl
  have faulted : (Memory.flat ⟨2, .empty⟩).write 14 4 0xffffffff =
      (.error (.outOfBounds 16 1), .flat ⟨2, ⟨[(1, 0xffff000000000000)]⟩⟩) := rfl
  obtain ⟨bytes, _keeps, _whole⟩ := write_error_bytes reached faulted
  exact ⟨_, _, _, reached, faulted, rfl, bytes 15, bytes 13⟩

end Memory

end JumpIR
