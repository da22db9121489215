import JumpIR.Proofs.Memory.Store

/-!
# One byte map behind both memories

Whole accesses, in one piece or byte by byte, and runs of requests. A memory of either kind answers
as one byte map does, and the two kinds cannot be told apart where nothing faults. Main statement:
`serves_after`.
-/

set_option autoImplicit false

namespace JumpIR

/-! ### Byte by byte -/

namespace ByteMap

theorem number_one (b : ByteMap) (address : UInt64) : b.number address 1 = (b address).toNat := by
  have here : address + UInt64.ofNat 0 = address := UInt64.add_zero address
  rw [number, number, here, Nat.mul_zero, Nat.pow_zero, Nat.one_mul, Nat.add_zero]

theorem store_zero (b : ByteMap) (address : UInt64) (number : Nat) :
    b.store address 0 number = b := by
  funext place
  unfold store
  rw [if_neg (by omega)]

/-- Bytes are stored one after the other, the lowest first. -/
theorem store_succ (b : ByteMap) {address : UInt64} {count : Nat} (number : Nat)
    (inRange : address.toNat + (count + 1) ≤ UInt64.size) :
    (b.store address 1 (number % 2 ^ 8)).store (address + 1) count (number >>> 8) =
      b.store address (count + 1) number := by
  cases count with
  | zero =>
      rw [store_zero]
      funext place
      unfold store
      split
      · rename_i here
        have first : place.toNat - address.toNat < 1 := by omega
        exact byteOf_mod number first
      · rfl
  | succ count =>
      have next : (address + 1).toNat = address.toNat + 1 := by
        rw [UInt64.toNat_add]
        exact Nat.mod_eq_of_lt (Nat.lt_of_lt_of_le (by change _ + 1 < _; omega) inRange)
      funext place
      unfold store
      rw [next]
      by_cases later : address.toNat + 1 ≤ place.toNat ∧
          place.toNat < address.toNat + 1 + (count + 1)
      · have index : place.toNat - address.toNat = place.toNat - (address.toNat + 1) + 1 := by omega
        rw [if_pos later, if_pos (by omega), index]
        unfold byteOf
        rw [← Nat.shiftRight_add, Nat.mul_succ, Nat.add_comm]
      · rw [if_neg later]
        by_cases here : place.toNat = address.toNat
        · have first : place.toNat - address.toNat < 1 := by omega
          rw [if_pos (by omega), if_pos (by omega)]
          exact byteOf_mod number first
        · rw [if_neg (by omega), if_neg (by omega)]

end ByteMap

namespace Memory

variable {m : Memory} {limit width : Nat} {b : ByteMap} {address : UInt64}

theorem one_mem_validWidths : 1 ∈ validWidths := by decide

theorem Represents.limit_le (represents : m.Represents limit b) : limit ≤ UInt64.size := by
  obtain ⟨sound, rfl, _bytes⟩ := represents
  cases m with
  | flat store => exact Nat.le_of_lt sound
  | sparse store => exact Nat.le_refl _

theorem add_ofNat_toNat (address : UInt64) (count : Nat)
    (inRange : address.toNat + count < UInt64.size) :
    (address + UInt64.ofNat count).toNat = address.toNat + count := by
  have small : count < UInt64.size := by omega
  rw [UInt64.toNat_add, UInt64.toNat_ofNat', Nat.mod_eq_of_lt small]
  exact Nat.mod_eq_of_lt inRange

theorem shift_or_toNat {above byte : UInt64} (room : above.toNat < 2 ^ 56)
    (small : byte.toNat < 2 ^ 8) :
    ((above <<< 8) ||| byte).toNat = 2 ^ 8 * above.toNat + byte.toNat := by
  have shifted : (above <<< 8).toNat = above.toNat <<< 8 := by
    rw [UInt64.toNat_shiftLeft]
    change above.toNat <<< 8 % 2 ^ 64 = _
    rw [Nat.shiftLeft_eq]
    omega
  rw [UInt64.toNat_or, shifted, ← Nat.shiftLeft_add_eq_or_of_lt small, Nat.shiftLeft_eq,
    Nat.mul_comm]

theorem readBytewise_represents (count : Nat) : ∀ {m : Memory} (above : UInt64),
    m.Represents limit b → address.toNat + count ≤ limit → count ≤ 8 →
    above.toNat < 2 ^ (8 * (8 - count)) →
    ∃ value after, m.readBytewise address count above = .ok (value, after) ∧
      value.toNat = 2 ^ (8 * count) * above.toNat + b.number address count ∧
      after.Represents limit b := by
  induction count with
  | zero =>
      intro m above represents _inRange _few _room
      refine ⟨above, m, rfl, ?_, represents⟩
      rw [ByteMap.number, Nat.mul_zero, Nat.pow_zero, Nat.one_mul, Nat.add_zero]
  | succ count ih =>
      intro m above represents inRange few room
      have top := represents.limit_le
      have place := add_ofNat_toNat address count (by omega)
      obtain ⟨byte, middle, gave, isByte, kept⟩ := alignedRead_represents represents
        one_mem_validWidths (isAligned_one (address + UInt64.ofNat count)) (by omega)
      rw [ByteMap.number_one] at isByte
      have small : byte.toNat < 2 ^ 8 := isByte ▸ UInt8.toNat_lt _
      have low : above.toNat < 2 ^ 56 :=
        Nat.lt_of_lt_of_le room (Nat.pow_le_pow_right (by omega) (by omega))
      have joined := shift_or_toNat low small
      -- Two more hexadecimal digits of the word are taken, so the bytes below still have room.
      have fits : ((above <<< 8) ||| byte).toNat < 2 ^ (8 * (8 - count)) := by
        have wider : 8 * (8 - count) = 8 + 8 * (8 - (count + 1)) := by omega
        rw [joined, wider, Nat.pow_add]
        omega
      obtain ⟨value, after, others, same, represents'⟩ := ih _ kept (by omega) (by omega) fits
      refine ⟨value, after, ?_, ?_, represents'⟩
      · unfold readBytewise
        rw [gave]
        exact others
      · rw [same, joined, isByte, ByteMap.number, Nat.mul_add, ← Nat.mul_assoc, ← Nat.pow_add,
          Nat.mul_succ, Nat.add_assoc]

theorem readBytewise_beyond (represents : m.Represents limit b) {count : Nat} (above : UInt64)
    (beyond : limit < address.toNat + (count + 1))
    (inSpace : address.toNat + (count + 1) ≤ UInt64.size) :
    m.readBytewise address (count + 1) above =
      .error (.outOfBounds (address + UInt64.ofNat count) 1) := by
  have place := add_ofNat_toNat address count (by omega)
  unfold readBytewise
  rw [alignedRead_beyond represents one_mem_validWidths (isAligned_one _) (by omega)]
  rfl

theorem low_byte_toNat (value : UInt64) : (value &&& 0xff).toNat = value.toNat % 2 ^ 8 := by
  rw [UInt64.toNat_and]
  exact Nat.and_two_pow_sub_one_eq_mod value.toNat 8

theorem succ_toNat_le (address : UInt64) : (address + 1).toNat ≤ address.toNat + 1 := by
  rw [UInt64.toNat_add]
  exact Nat.mod_le _ _

theorem writeBytewise_represents (count : Nat) : ∀ (address value : UInt64) {m : Memory}
    {b : ByteMap},
    m.Represents limit b → address.toNat + count ≤ limit →
    ∃ after, m.writeBytewise address count value = (.ok (), after) ∧
      after.Represents limit (b.store address count value.toNat) := by
  induction count with
  | zero =>
      intro address value m b represents _inRange
      refine ⟨m, rfl, ?_⟩
      rw [ByteMap.store_zero]
      exact represents
  | succ count ih =>
      intro address value m b represents inRange
      obtain ⟨middle, wrote, kept⟩ := alignedWrite_represents represents one_mem_validWidths
        (isAligned_one address) (by omega) (value &&& 0xff)
      -- Behind the last byte of the space the next address wraps around, with nothing left to write.
      have next := succ_toNat_le address
      obtain ⟨after, others, represents'⟩ := ih (address + 1) (value >>> 8) kept
        (by omega)
      have shifted : (value >>> 8).toNat = value.toNat >>> 8 := UInt64.toNat_shiftRight value 8
      rw [low_byte_toNat, shifted,
        ByteMap.store_succ b value.toNat (Nat.le_trans inRange represents.limit_le)] at represents'
      refine ⟨after, ?_, represents'⟩
      unfold writeBytewise
      rw [wrote]
      exact others

theorem writeBytewise_here (represents : m.Represents limit b) (count : Nat) (value : UInt64)
    (beyond : limit < address.toNat + 1) :
    m.writeBytewise address (count + 1) value = (.error (.outOfBounds address 1), m) := by
  unfold writeBytewise
  rw [alignedWrite_beyond represents one_mem_validWidths (isAligned_one address) beyond]

theorem writeBytewise_beyond (count : Nat) : ∀ (address value : UInt64) {m : Memory} {b : ByteMap},
    m.Represents limit b → limit < address.toNat + (count + 1) →
    address.toNat + (count + 1) ≤ UInt64.size →
    ∃ place after, m.writeBytewise address (count + 1) value =
      (.error (.outOfBounds place 1), after) := by
  induction count with
  | zero =>
      intro address value m b represents beyond _inSpace
      exact ⟨address, m, writeBytewise_here represents 0 value beyond⟩
  | succ count ih =>
      intro address value m b represents beyond inSpace
      by_cases here : address.toNat + 1 ≤ limit
      · obtain ⟨middle, wrote, kept⟩ := alignedWrite_represents represents one_mem_validWidths
          (isAligned_one address) here (value &&& 0xff)
        have next : (address + 1).toNat = address.toNat + 1 := by
          exact add_ofNat_toNat address 1 (by omega)
        obtain ⟨place, after, others⟩ := ih (address + 1) (value >>> 8) kept
          (by omega) (by omega)
        refine ⟨place, after, ?_⟩
        unfold writeBytewise
        rw [wrote]
        exact others
      · exact ⟨address, m, writeBytewise_here represents _ value (Nat.lt_of_not_le here)⟩

/-! ### Whole accesses -/

theorem width_pos (valid : width ∈ validWidths) : 1 ≤ width ∧ width ≤ 8 := by
  rcases width_cases valid with rfl | rfl | rfl | rfl <;> omega

theorem checkTop_eq_ok (valid : width ∈ validWidths)
    (inSpace : address.toNat + width ≤ UInt64.size) : checkTop address width = .ok () := by
  have positive := width_pos valid
  unfold checkTop
  rw [if_pos (by omega)]

theorem checkTop_eq_error (valid : width ∈ validWidths)
    (beyond : UInt64.size < address.toNat + width) :
    checkTop address width = .error (.outOfBounds address width) := by
  have positive := width_pos valid
  unfold checkTop
  rw [if_neg (by omega)]

theorem checkWidth_eq_error (invalid : width ∉ validWidths) :
    checkWidth width = .error (.invalidWidth width) := by
  unfold checkWidth
  rw [if_neg invalid]

theorem read_invalid (m : Memory) (address : UInt64) (invalid : width ∉ validWidths) :
    m.read address width = .error (.invalidWidth width) := by
  unfold read
  rw [checkWidth_eq_error invalid]
  rfl

theorem read_eq (m : Memory) (valid : width ∈ validWidths)
    (inSpace : address.toNat + width ≤ UInt64.size) :
    m.read address width =
      if isAligned address width then m.alignedRead address width
      else m.readBytewise address width 0 := by
  unfold read
  rw [checkWidth_eq_ok valid, checkTop_eq_ok valid inSpace]
  rfl

theorem read_represents (represents : m.Represents limit b) (valid : width ∈ validWidths)
    (inRange : address.toNat + width ≤ limit) :
    ∃ value after, m.read address width = .ok (value, after) ∧
      value.toNat = b.number address width ∧ after.Represents limit b := by
  rw [read_eq m valid (Nat.le_trans inRange represents.limit_le)]
  split
  · rename_i aligned
    exact alignedRead_represents represents valid aligned inRange
  · obtain ⟨value, after, gave, same, kept⟩ := readBytewise_represents width 0 represents
      inRange (width_pos valid).2 (Nat.two_pow_pos _)
    refine ⟨value, after, gave, ?_, kept⟩
    rw [same]
    change 2 ^ (8 * width) * 0 + _ = _
    rw [Nat.mul_zero, Nat.zero_add]

theorem read_beyond (represents : m.Represents limit b) (valid : width ∈ validWidths)
    (beyond : limit < address.toNat + width) :
    ∃ place size, m.read address width = .error (.outOfBounds place size) := by
  by_cases inSpace : address.toNat + width ≤ UInt64.size
  · rw [read_eq m valid inSpace]
    split
    · rename_i aligned
      exact ⟨address, width, alignedRead_beyond represents valid aligned beyond⟩
    · obtain ⟨count, rfl⟩ := Nat.exists_eq_add_of_le' (width_pos valid).1
      exact ⟨_, 1, readBytewise_beyond represents 0 beyond inSpace⟩
  · refine ⟨address, width, ?_⟩
    unfold read
    rw [checkWidth_eq_ok valid, checkTop_eq_error valid (Nat.lt_of_not_le inSpace)]
    rfl

theorem write_invalid (m : Memory) (address value : UInt64) (invalid : width ∉ validWidths) :
    m.write address width value = (.error (.invalidWidth width), m) := by
  unfold write
  rw [checkWidth_eq_error invalid]
  rfl

theorem write_eq (m : Memory) (valid : width ∈ validWidths)
    (inSpace : address.toNat + width ≤ UInt64.size) (value : UInt64) :
    m.write address width value =
      if isAligned address width then
        match m.alignedWrite address width (truncate value width) with
        | .error fault => (.error fault, m)
        | .ok after => (.ok (), after)
      else m.writeBytewise address width (truncate value width) := by
  have passes : (checkWidth width >>= fun _ => checkTop address width) = .ok () := by
    rw [checkWidth_eq_ok valid]
    exact checkTop_eq_ok valid inSpace
  unfold write
  generalize (checkWidth width >>= fun _ => checkTop address width) = checked at passes ⊢
  subst passes
  rfl

theorem write_represents (represents : m.Represents limit b) (valid : width ∈ validWidths)
    (inRange : address.toNat + width ≤ limit) (value : UInt64) :
    ∃ after, m.write address width value = (.ok (), after) ∧
      after.Represents limit (b.store address width (value.toNat % 2 ^ (8 * width))) := by
  rw [write_eq m valid (Nat.le_trans inRange represents.limit_le), ← truncate_toNat]
  split
  · rename_i aligned
    obtain ⟨after, wrote, kept⟩ := alignedWrite_represents represents valid aligned inRange
      (truncate value width)
    rw [wrote]
    exact ⟨after, rfl, kept⟩
  · exact writeBytewise_represents width address _ represents inRange

theorem write_beyond (represents : m.Represents limit b) (valid : width ∈ validWidths)
    (beyond : limit < address.toNat + width) (value : UInt64) :
    ∃ place size after,
      m.write address width value = (.error (.outOfBounds place size), after) := by
  by_cases inSpace : address.toNat + width ≤ UInt64.size
  · rw [write_eq m valid inSpace]
    split
    · rename_i aligned
      rw [alignedWrite_beyond represents valid aligned beyond]
      exact ⟨address, width, m, rfl⟩
    · obtain ⟨count, rfl⟩ := Nat.exists_eq_add_of_le' (width_pos valid).1
      obtain ⟨place, after, faulted⟩ := writeBytewise_beyond count address
        (truncate value (count + 1)) represents beyond inSpace
      exact ⟨place, 1, after, faulted⟩
  · have fails : (checkWidth width >>= fun _ => checkTop address width) =
        .error (.outOfBounds address width) := by
      rw [checkWidth_eq_ok valid]
      exact checkTop_eq_error valid (Nat.lt_of_not_le inSpace)
    refine ⟨address, width, m, ?_⟩
    unfold write
    generalize (checkWidth width >>= fun _ => checkTop address width) = checked at fails ⊢
    subst fails
    rfl

end Memory

/-! ### Runs of requests -/

/-- An access that is asked for. -/
inductive MemoryRequest where
  | read (address : UInt64) (width : Nat)
  | write (address : UInt64) (width : Nat) (value : UInt64)

namespace MemoryRequest

def address : MemoryRequest → UInt64
  | .read address _ => address
  | .write address _ _ => address

def width : MemoryRequest → Nat
  | .read _ width => width
  | .write _ width _ => width

/-- What the request finds in a byte map: a number if it reads, nothing if it writes. -/
def finds (b : ByteMap) : MemoryRequest → Option UInt64
  | .read address width => some (UInt64.ofNat (b.number address width))
  | .write _ _ _ => none

/-- The byte map behind the request. -/
def leaves (b : ByteMap) : MemoryRequest → ByteMap
  | .read _ _ => b
  | .write address width value => b.store address width (value.toNat % 2 ^ (8 * width))

end MemoryRequest

namespace ByteMap

def zero : ByteMap := fun _ => 0

/-- The byte map behind all of the requests. -/
def after (b : ByteMap) (requests : List MemoryRequest) : ByteMap :=
  requests.foldl MemoryRequest.leaves b

end ByteMap

/-- What a request gives: a fault, a number it has read, or nothing. -/
abbrev Answer := Except MemoryFault (Option UInt64)

namespace Memory

/-- The answer to a request, and the memory behind it. -/
def perform (m : Memory) : MemoryRequest → Answer × Memory
  | .read address width =>
      match m.read address width with
      | .error fault => (.error fault, m)
      | .ok (value, after) => (.ok (some value), after)
  | .write address width value =>
      match m.write address width value with
      | (.error fault, after) => (.error fault, after)
      | (.ok (), after) => (.ok none, after)

/-- The memory behind all of the requests. -/
def after (m : Memory) (requests : List MemoryRequest) : Memory :=
  requests.foldl (fun m request => (m.perform request).2) m

/-- The answers to the requests, each of them made behind those before it. -/
def answers (m : Memory) : List MemoryRequest → List Answer
  | [] => []
  | request :: rest => (m.perform request).1 :: answers (m.perform request).2 rest

/-- No write among the requests faults. -/
def Stores (m : Memory) : List MemoryRequest → Prop
  | [] => True
  | request :: rest =>
      (∀ address width value, request = .write address width value →
        ∀ fault, (m.perform request).1 ≠ .error fault) ∧
      Stores (m.perform request).2 rest

/-- The bytes that a memory holds. -/
def bytes (m : Memory) : ByteMap := wordBytes m.words

/-- The memory holds the byte map, and answers the request as one with so many bytes does. -/
structure Serves (m : Memory) (limit : Nat) (b : ByteMap) (request : MemoryRequest) : Prop where
  holds : m.bytes = b
  invalid : request.width ∉ validWidths →
    (m.perform request).1 = .error (.invalidWidth request.width)
  beyond : request.width ∈ validWidths → limit < request.address.toNat + request.width →
    ∃ place size, (m.perform request).1 = .error (.outOfBounds place size)
  served : request.width ∈ validWidths → request.address.toNat + request.width ≤ limit →
    (m.perform request).1 = .ok (request.finds b) ∧ (m.perform request).2.bytes = request.leaves b

variable {m : Memory} {limit : Nat} {b : ByteMap}

theorem perform_invalid (m : Memory) {request : MemoryRequest}
    (invalid : request.width ∉ validWidths) :
    m.perform request = (.error (.invalidWidth request.width), m) := by
  unfold perform
  cases request with
  | read address width =>
      change width ∉ validWidths at invalid
      dsimp only
      rw [read_invalid m address invalid]
      rfl
  | write address width value =>
      change width ∉ validWidths at invalid
      dsimp only
      rw [write_invalid m address value invalid]
      rfl

theorem perform_beyond (represents : m.Represents limit b) {request : MemoryRequest}
    (valid : request.width ∈ validWidths) (beyond : limit < request.address.toNat + request.width) :
    ∃ place size, (m.perform request).1 = .error (.outOfBounds place size) := by
  unfold perform
  cases request with
  | read address width =>
      change width ∈ validWidths at valid
      change limit < address.toNat + width at beyond
      obtain ⟨place, size, faulted⟩ := read_beyond represents valid beyond
      dsimp only
      rw [faulted]
      exact ⟨place, size, rfl⟩
  | write address width value =>
      change width ∈ validWidths at valid
      change limit < address.toNat + width at beyond
      obtain ⟨place, size, after, faulted⟩ := write_beyond represents valid beyond value
      dsimp only
      rw [faulted]
      exact ⟨place, size, rfl⟩

theorem perform_represents (represents : m.Represents limit b) {request : MemoryRequest}
    (valid : request.width ∈ validWidths)
    (inRange : request.address.toNat + request.width ≤ limit) :
    ∃ after, m.perform request = (.ok (request.finds b), after) ∧
      after.Represents limit (request.leaves b) := by
  unfold perform
  cases request with
  | read address width =>
      change width ∈ validWidths at valid
      change address.toNat + width ≤ limit at inRange
      obtain ⟨value, after, gave, same, kept⟩ := read_represents represents valid inRange
      have found : UInt64.ofNat (b.number address width) = value := by
        rw [← same]
        exact UInt64.ofNat_toNat
      dsimp only
      rw [gave]
      refine ⟨after, ?_, kept⟩
      change (Except.ok (some value), after) = (Except.ok (some (UInt64.ofNat _)), after)
      rw [found]
  | write address width value =>
      change width ∈ validWidths at valid
      change address.toNat + width ≤ limit at inRange
      obtain ⟨after, wrote, kept⟩ := write_represents represents valid inRange value
      dsimp only
      rw [wrote]
      exact ⟨after, rfl, kept⟩

theorem perform_read_error {address : UInt64} {width : Nat} {fault : MemoryFault}
    (faulted : (m.perform (.read address width)).1 = .error fault) :
    (m.perform (.read address width)).2 = m := by
  unfold perform at faulted ⊢
  dsimp only at faulted ⊢
  split
  · rfl
  · rename_i value after gave
    rw [gave] at faulted
    cases faulted

/-- A request keeps to the byte map unless it is a write that faults. -/
theorem represents_perform (represents : m.Represents limit b) {request : MemoryRequest}
    (stores : ∀ address width value, request = .write address width value →
      ∀ fault, (m.perform request).1 ≠ .error fault) :
    (m.perform request).2.Represents limit (request.leaves b) := by
  cases answer : (m.perform request).1 with
  | error fault =>
      cases request with
      | read address width =>
          rw [perform_read_error answer]
          exact represents
      | write address width value => exact absurd answer (stores address width value rfl fault)
  | ok found =>
      by_cases valid : request.width ∈ validWidths
      · by_cases inRange : request.address.toNat + request.width ≤ limit
        · obtain ⟨after, performed, kept⟩ := perform_represents represents valid inRange
          rw [performed]
          exact kept
        · obtain ⟨place, size, faulted⟩ :=
            perform_beyond represents valid (Nat.lt_of_not_le inRange)
          cases answer.symm.trans faulted
      · rw [perform_invalid m valid] at answer
        cases answer

theorem represents_after (requests : List MemoryRequest) : ∀ {m : Memory} {b : ByteMap},
    m.Represents limit b → m.Stores requests →
    (m.after requests).Represents limit (b.after requests) := by
  induction requests with
  | nil =>
      intro m b represents _stores
      exact represents
  | cons request rest ih =>
      intro m b represents stores
      exact ih (represents_perform represents stores.1) stores.2

theorem serves_of_represents (represents : m.Represents limit b) (request : MemoryRequest) :
    m.Serves limit b request := by
  refine ⟨represents.bytes, ?_, perform_beyond represents, ?_⟩
  · intro invalid
    rw [perform_invalid m invalid]
  · intro valid inRange
    obtain ⟨after, performed, kept⟩ := perform_represents represents valid inRange
    rw [performed]
    exact ⟨rfl, kept.bytes⟩

end Memory

namespace MemoryKind

/-- How many bytes a memory of that kind has; a flat one has whole words. -/
def limit : MemoryKind → Nat
  | .flat capacity => 8 * ((capacity + 7) / 8)
  | .sparse => UInt64.size

theorem represents_build {kind : MemoryKind} {m : Memory} (built : kind.build = .ok m) :
    m.Represents kind.limit .zero := by
  have blank : wordBytes (fun _ => 0) = ByteMap.zero := by
    funext place
    unfold wordBytes ByteMap.zero byteOf
    change UInt8.ofNat (0 >>> _) = 0
    rw [Nat.zero_shiftRight]
    rfl
  cases kind with
  | flat capacity =>
      unfold build FlatMemory.create at built
      dsimp only at built
      split at built
      · rename_i small
        cases built
        refine ⟨?_, rfl, blank⟩
        have bound : FlatMemory.capacityLimit = 4611686018427387904 := by decide
        change 8 * ((capacity + 7) / 8) < 18446744073709551616
        omega
      · cases built
  | sparse =>
      cases built
      exact ⟨SparseMemory.sound_empty, rfl, blank⟩

end MemoryKind

namespace Memory

theorem found_of_ok {m : Memory} {limit : Nat} {b : ByteMap} (represents : m.Represents limit b)
    {request : MemoryRequest} {found : Option UInt64} (answer : (m.perform request).1 = .ok found) :
    found = request.finds b := by
  by_cases valid : request.width ∈ validWidths
  · by_cases inRange : request.address.toNat + request.width ≤ limit
    · obtain ⟨after, performed, _kept⟩ := perform_represents represents valid inRange
      rw [performed] at answer
      cases answer
      rfl
    · obtain ⟨place, size, faulted⟩ := perform_beyond represents valid (Nat.lt_of_not_le inRange)
      cases answer.symm.trans faulted
  · rw [perform_invalid m valid] at answer
    cases answer

theorem answers_eq (requests : List MemoryRequest) : ∀ {m other : Memory} {limit bound : Nat}
    {b : ByteMap}, m.Represents limit b → other.Represents bound b →
    (∀ answer ∈ m.answers requests, ∃ found, answer = .ok found) →
    (∀ answer ∈ other.answers requests, ∃ found, answer = .ok found) →
    m.answers requests = other.answers requests := by
  induction requests with
  | nil =>
      intro m other limit bound b _left _right _leftOk _rightOk
      rfl
  | cons request rest ih =>
      intro m other limit bound b left right leftOk rightOk
      unfold answers at leftOk rightOk ⊢
      obtain ⟨found, answer⟩ := leftOk _ List.mem_cons_self
      obtain ⟨foundToo, answerToo⟩ := rightOk _ List.mem_cons_self
      have same := (found_of_ok left answer).trans (found_of_ok right answerToo).symm
      have leftNext : (m.perform request).2.Represents limit (request.leaves b) := by
        apply represents_perform left
        intro address width value _write fault faulted
        cases answer.symm.trans faulted
      have rightNext : (other.perform request).2.Represents bound (request.leaves b) := by
        apply represents_perform right
        intro address width value _write fault faulted
        cases answerToo.symm.trans faulted
      rw [answer, answerToo, same, ih leftNext rightNext
        (fun answer later => leftOk answer (List.mem_cons_of_mem _ later))
        (fun answer later => rightOk answer (List.mem_cons_of_mem _ later))]

end Memory

/-- Whatever was asked before, as long as no write has faulted, a memory holds the byte map that the
writes make of zeros, and serves the next request from it. Where nothing faults, two
memories of any kinds give the same answers. -/
theorem serves_after {kind : MemoryKind} {m : Memory} (built : kind.build = .ok m) :
    (∀ (requests : List MemoryRequest) (request : MemoryRequest), m.Stores requests →
      (m.after requests).Serves kind.limit (ByteMap.zero.after requests) request) ∧
    (∀ (second : MemoryKind) (other : Memory), second.build = .ok other →
      ∀ requests : List MemoryRequest,
        (∀ answer ∈ m.answers requests, ∃ found, answer = .ok found) →
        (∀ answer ∈ other.answers requests, ∃ found, answer = .ok found) →
        m.answers requests = other.answers requests) := by
  have represents := MemoryKind.represents_build built
  constructor
  · intro requests request stores
    exact Memory.serves_of_represents (Memory.represents_after requests represents stores) request
  · intro second other builtToo requests
    exact Memory.answers_eq requests represents (MemoryKind.represents_build builtToo)

theorem serves_after_flat : ∃ m, (MemoryKind.flat 13).build = .ok m ∧
    m.Stores [.write 6 4 0xdeadbeef] ∧
    ((m.after [.write 6 4 0xdeadbeef]).perform (.read 5 8)).1 = .ok (some 0xdeadbeef00) := by
  have stores : (Memory.flat ⟨2, .empty⟩).Stores [.write 6 4 0xdeadbeef] := by
    refine ⟨?_, trivial⟩
    intro address width value _write fault faulted
    cases faulted
  have built : (MemoryKind.flat 13).build = .ok (.flat ⟨2, .empty⟩) := rfl
  have serves := (serves_after built).1 [.write 6 4 0xdeadbeef] (.read 5 8) stores
  refine ⟨.flat ⟨2, .empty⟩, built, stores, ?_⟩
  rw [(serves.served (by decide) (by decide)).1]
  exact congrArg Except.ok (by decide +kernel)

end JumpIR
