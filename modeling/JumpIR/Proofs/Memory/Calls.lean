import JumpIR.Proofs.Memory.Blocks
import JumpIR.Proofs.Memory.Overlay

/-!
# What is asked of a sparse memory

Every call of a sparse memory comes down to a row of accesses within one word each, which the call
alone tells. So after any calls, the blocks, their table and the counts are those of the accesses
that were made. Main statement: `MemoryCall.books_after`.
-/

set_option autoImplicit false

namespace JumpIR

/-! ### Calls -/

/-- What can be asked of a memory. -/
inductive MemoryCall where
  | read (address : UInt64) (width : Nat)
  | write (address : UInt64) (width : Nat) (value : UInt64)
  | alignedRead (address : UInt64) (width : Nat)
  | alignedWrite (address : UInt64) (width : Nat) (value : UInt64)
  | readBytes (address : UInt64) (count : Nat)
  | writeBytes (address : UInt64) (data : List UInt8)

namespace MemoryCall

/-- Whether a call succeeds, and the memory behind it. -/
def perform (m : Memory) : MemoryCall → Memory.Written
  | .read address width =>
      match m.read address width with
      | .error fault => (.error fault, m)
      | .ok (_, after) => (.ok (), after)
  | .write address width value => m.write address width value
  | .alignedRead address width =>
      match m.alignedRead address width with
      | .error fault => (.error fault, m)
      | .ok (_, after) => (.ok (), after)
  | .alignedWrite address width value =>
      match m.alignedWrite address width value with
      | .error fault => (.error fault, m)
      | .ok after => (.ok (), after)
  | .readBytes address count =>
      let (result, after) := m.readBytes address count
      (result.map fun _ => (), after)
  | .writeBytes address data => m.writeBytes address data

/-- The memory behind some calls, whether they succeed or not. -/
def after (m : Memory) (calls : List MemoryCall) : Memory :=
  calls.foldl (fun m call => (call.perform m).2) m

/-- The call is one for a run of bytes. -/
def IsRun : MemoryCall → Prop
  | .readBytes _ _ | .writeBytes _ _ => True
  | .read _ _ | .write _ _ _ | .alignedRead _ _ | .alignedWrite _ _ _ => False

/-- A run of bytes that goes past the top of the address space is refused there. -/
def runOutcome (address : UInt64) (count : Nat) : Except MemoryFault Unit :=
  if address.toNat + count ≤ UInt64.size then .ok () else .error (.outOfBounds address 1)

/-- Whether a sparse memory serves a call, whatever it holds. -/
def outcome : MemoryCall → Except MemoryFault Unit
  | .read address width | .write address width _ => do
      checkWidth width
      checkTop address width
  | .alignedRead address width | .alignedWrite address width _ => checkAligned address width
  | .readBytes address count => runOutcome address count
  | .writeBytes address data => runOutcome address data.length

/-- The addresses of some bytes, the lowest first. -/
def byteAddresses (address : UInt64) (count : Nat) : List UInt64 :=
  (List.range count).map fun index => address + UInt64.ofNat index

/-- How many bytes of a run lie below the top of the address space. -/
def belowTop (address : UInt64) (count : Nat) : Nat := min count (UInt64.size - address.toNat)

/-- The accesses that a sparse memory makes for a call, in order: one if the call is aligned, and
else one for each byte, where reading takes the highest byte first. -/
def accesses : MemoryCall → List UInt64
  | .read address width =>
      if width ∈ validWidths ∧ address.toNat + width ≤ UInt64.size then
        if isAligned address width then [address] else (byteAddresses address width).reverse
      else []
  | .write address width _ =>
      if width ∈ validWidths ∧ address.toNat + width ≤ UInt64.size then
        if isAligned address width then [address] else byteAddresses address width
      else []
  | .alignedRead address width | .alignedWrite address width _ =>
      if width ∈ validWidths ∧ isAligned address width then [address] else []
  | .readBytes address count => byteAddresses address (belowTop address count)
  | .writeBytes address data => byteAddresses address (belowTop address data.length)

/-- The blocks that some calls access, in order. -/
def blocks (calls : List MemoryCall) : List Nat := (calls.flatMap accesses).map blockIndex

theorem byteAddresses_succ (address : UInt64) (count : Nat) :
    byteAddresses address (count + 1) = address :: byteAddresses (address + 1) count := by
  unfold byteAddresses
  rw [List.range_succ_eq_map, List.map_cons, List.map_map]
  congr 1
  · exact UInt64.add_zero address
  · apply List.map_congr_left
    intro index _member
    change address + UInt64.ofNat (index + 1) = address + 1 + UInt64.ofNat index
    rw [UInt64.ofNat_add, UInt64.add_assoc, UInt64.add_comm (UInt64.ofNat index)]
    rfl

theorem byteAddresses_reverse_succ (address : UInt64) (count : Nat) :
    (byteAddresses address (count + 1)).reverse =
      (address + UInt64.ofNat count) :: (byteAddresses address count).reverse := by
  unfold byteAddresses
  rw [List.range_succ, List.map_append, List.reverse_append]
  rfl

end MemoryCall

/-! ### Accesses of a sparse memory -/

namespace SparseMemory

open MemoryCall (byteAddresses belowTop runOutcome)

variable (m : SparseMemory) {address : UInt64} {width : Nat}

theorem access_alignedRead (passes : checkAligned address width = .ok ()) :
    ∃ value after, (Memory.sparse m).alignedRead address width = .ok (value, .sparse after) ∧
      m.Access address after := by
  obtain ⟨value, after, done⟩ :
      ∃ value after, m.alignedRead address width = .ok (value, after) := by
    unfold alignedRead
    rw [passes]
    exact ⟨_, _, rfl⟩
  refine ⟨value, after, ?_, .read done⟩
  unfold Memory.alignedRead
  dsimp only
  rw [done]
  rfl

theorem access_alignedWrite (passes : checkAligned address width = .ok ()) (value : UInt64) :
    ∃ after, (Memory.sparse m).alignedWrite address width value = .ok (.sparse after) ∧
      m.Access address after := by
  obtain ⟨after, done⟩ : ∃ after, m.alignedWrite address width value = .ok after := by
    unfold alignedWrite
    rw [passes]
    exact ⟨_, rfl⟩
  refine ⟨after, ?_, .write done⟩
  unfold Memory.alignedWrite
  dsimp only
  rw [done]
  rfl

theorem checkAligned_byte (address : UInt64) : checkAligned address 1 = .ok () :=
  checkAligned_eq_ok Memory.one_mem_validWidths (isAligned_one address)

theorem access_read_byte (place : UInt64) :
    ∃ value after, (Memory.sparse m).read place 1 = .ok (value, .sparse after) ∧
      m.Access place after := by
  have inSpace : place.toNat + 1 ≤ UInt64.size := place.toNat_lt
  rw [Memory.read_eq _ Memory.one_mem_validWidths inSpace, if_pos (isAligned_one place)]
  exact access_alignedRead m (checkAligned_byte place)

theorem access_write_byte (place value : UInt64) :
    ∃ after, (Memory.sparse m).write place 1 value = (.ok (), .sparse after) ∧
      m.Access place after := by
  have inSpace : place.toNat + 1 ≤ UInt64.size := place.toNat_lt
  obtain ⟨after, wrote, access⟩ :=
    access_alignedWrite m (checkAligned_byte place) (truncate value 1)
  refine ⟨after, ?_, access⟩
  rw [Memory.write_eq _ Memory.one_mem_validWidths inSpace, if_pos (isAligned_one place), wrote]

/-! ### Byte by byte -/

theorem accesses_readBytewise (address : UInt64) (count : Nat) : ∀ (m : SparseMemory)
    (above : UInt64), ∃ value after,
      (Memory.sparse m).readBytewise address count above = .ok (value, .sparse after) ∧
      m.Accesses (byteAddresses address count).reverse after := by
  induction count with
  | zero => exact fun m above => ⟨above, m, rfl, .nil m⟩
  | succ count ih =>
      intro m above
      obtain ⟨byte, middle, gave, access⟩ :=
        access_alignedRead m (checkAligned_byte (address + UInt64.ofNat count))
      obtain ⟨value, after, others, accesses⟩ := ih middle ((above <<< 8) ||| byte)
      refine ⟨value, after, ?_, ?_⟩
      · unfold Memory.readBytewise
        rw [gave]
        exact others
      · rw [MemoryCall.byteAddresses_reverse_succ]
        exact .cons access accesses

theorem accesses_writeBytewise (count : Nat) : ∀ (m : SparseMemory) (address value : UInt64),
    ∃ after, (Memory.sparse m).writeBytewise address count value = (.ok (), .sparse after) ∧
      m.Accesses (byteAddresses address count) after := by
  induction count with
  | zero => exact fun m address value => ⟨m, rfl, .nil m⟩
  | succ count ih =>
      intro m address value
      obtain ⟨middle, wrote, access⟩ :=
        access_alignedWrite m (checkAligned_byte address) (value &&& 0xff)
      obtain ⟨after, others, accesses⟩ := ih middle (address + 1) (value >>> 8)
      refine ⟨after, ?_, ?_⟩
      · unfold Memory.writeBytewise
        rw [wrote]
        exact others
      · rw [MemoryCall.byteAddresses_succ]
        exact .cons access accesses

/-! ### Runs -/

/-- The addresses of a run from byte number `index` on, up to the top of the address space. -/
def runFrom (address : UInt64) (index count : Nat) : List UInt64 :=
  byteAddresses (address + UInt64.ofNat index) (min count (UInt64.size - (address.toNat + index)))

theorem runFrom_start (address : UInt64) (count : Nat) :
    runFrom address 0 count = byteAddresses address (belowTop address count) := by
  have here : address + UInt64.ofNat 0 = address := UInt64.add_zero address
  unfold runFrom
  rw [here]
  rfl

theorem runFrom_none (address : UInt64) {index count : Nat}
    (none : count = 0 ∨ UInt64.size ≤ address.toNat + index) :
    runFrom address index count = [] := by
  have empty : min count (UInt64.size - (address.toNat + index)) = 0 := by omega
  unfold runFrom
  rw [empty]
  rfl

theorem runFrom_succ {address : UInt64} {index : Nat} (below : address.toNat + index < UInt64.size)
    (count : Nat) : runFrom address index (count + 1) =
      (address + UInt64.ofNat index) :: runFrom address (index + 1) count := by
  have fewer : min (count + 1) (UInt64.size - (address.toNat + index)) =
      min count (UInt64.size - (address.toNat + (index + 1))) + 1 := by omega
  have next : address + UInt64.ofNat index + 1 = address + UInt64.ofNat (index + 1) := by
    rw [UInt64.ofNat_add, ← UInt64.add_assoc]
    rfl
  unfold runFrom
  rw [fewer, MemoryCall.byteAddresses_succ, next]

theorem runOutcome_here {address : UInt64} {index : Nat}
    (inSpace : address.toNat + index ≤ UInt64.size) : runOutcome address (index + 0) = .ok () :=
  if_pos inSpace

theorem runOutcome_top {address : UInt64} {index : Nat}
    (top : UInt64.size ≤ address.toNat + index) (count : Nat) :
    runOutcome address (index + (count + 1)) = .error (.outOfBounds address 1) :=
  if_neg (by omega)

theorem accesses_writeBytesFrom (address : UInt64) (data : List UInt8) : ∀ (m : SparseMemory)
    (index : Nat), address.toNat + index ≤ UInt64.size → ∃ after,
      (Memory.sparse m).writeBytesFrom address index data =
        (runOutcome address (index + data.length), .sparse after) ∧
      m.Accesses (runFrom address index data.length) after := by
  induction data with
  | nil =>
      intro m index inSpace
      refine ⟨m, ?_, ?_⟩
      · rw [List.length_nil, runOutcome_here inSpace]
        rfl
      · rw [runFrom_none address (Or.inl List.length_nil)]
        exact .nil m
  | cons byte rest ih =>
      intro m index inSpace
      rw [List.length_cons]
      by_cases below : address.toNat + index < UInt64.size
      · obtain ⟨middle, wrote, access⟩ :=
          access_write_byte m (address + UInt64.ofNat index) byte.toUInt64
        obtain ⟨after, others, accesses⟩ := ih middle (index + 1) below
        refine ⟨after, ?_, ?_⟩
        · unfold Memory.writeBytesFrom
          rw [Memory.byteAddress_eq_ok below]
          dsimp only
          rw [wrote]
          dsimp only
          rw [others, Nat.add_right_comm index 1, Nat.add_assoc]
        · rw [runFrom_succ below]
          exact .cons access accesses
      · have top := Nat.le_of_not_lt below
        refine ⟨m, ?_, ?_⟩
        · unfold Memory.writeBytesFrom
          rw [Memory.byteAddress_eq_error top, runOutcome_top top]
        · rw [runFrom_none address (Or.inr top)]
          exact .nil m

theorem accesses_readBytesFrom (address : UInt64) (count : Nat) : ∀ (m : SparseMemory)
    (index : Nat), address.toNat + index ≤ UInt64.size → ∃ result after,
      (Memory.sparse m).readBytesFrom address index count = (result, .sparse after) ∧
      (result.map fun _ => ()) = runOutcome address (index + count) ∧
      m.Accesses (runFrom address index count) after := by
  induction count with
  | zero =>
      intro m index inSpace
      refine ⟨.ok [], m, rfl, (runOutcome_here inSpace).symm, ?_⟩
      rw [runFrom_none address (Or.inl rfl)]
      exact .nil m
  | succ count ih =>
      intro m index inSpace
      by_cases below : address.toNat + index < UInt64.size
      · obtain ⟨value, middle, gave, access⟩ :=
          access_read_byte m (address + UInt64.ofNat index)
        obtain ⟨result, after, others, told, accesses⟩ := ih middle (index + 1) below
        refine ⟨result.map (value.toUInt8 :: ·), after, ?_, ?_, ?_⟩
        · unfold Memory.readBytesFrom
          rw [Memory.byteAddress_eq_ok below]
          dsimp only
          rw [gave]
          dsimp only
          rw [others]
        · have same : index + (count + 1) = index + 1 + count := by omega
          rw [same, ← told]
          cases result with
          | ok bytes => rfl
          | error fault => rfl
        · rw [runFrom_succ below]
          exact .cons access accesses
      · have top := Nat.le_of_not_lt below
        refine ⟨.error (.outOfBounds address 1), m, ?_, (runOutcome_top top count).symm, ?_⟩
        · unfold Memory.readBytesFrom
          rw [Memory.byteAddress_eq_error top]
        · rw [runFrom_none address (Or.inr top)]
          exact .nil m

end SparseMemory

namespace MemoryCall

/-! ### Whole calls -/

/-- A sparse memory serves a call as the call alone tells, by its accesses. -/
structure Serves (call : MemoryCall) (m after : SparseMemory) : Prop where
  outcome : call.perform (.sparse m) = (call.outcome, .sparse after)
  accesses : m.Accesses call.accesses after

variable {address : UInt64} {width : Nat}

theorem checks_eq_ok (fits : width ∈ validWidths ∧ address.toNat + width ≤ UInt64.size) :
    (checkWidth width >>= fun _ => checkTop address width) = .ok () := by
  rw [checkWidth_eq_ok fits.1]
  exact Memory.checkTop_eq_ok fits.1 fits.2

/-- An access with another width, or past the top of the address space, is refused at once. -/
theorem refused_of_misfit
    (misfit : ¬ (width ∈ validWidths ∧ address.toNat + width ≤ UInt64.size)) :
    ∃ fault, (checkWidth width >>= fun _ => checkTop address width) = .error fault ∧
      (∀ m : Memory, m.read address width = .error fault) ∧
      ∀ (m : Memory) (value : UInt64), m.write address width value = (.error fault, m) := by
  obtain ⟨fault, refused⟩ :
      ∃ fault, (checkWidth width >>= fun _ => checkTop address width) = .error fault := by
    by_cases valid : width ∈ validWidths
    · have beyond := Nat.lt_of_not_le fun inSpace => misfit ⟨valid, inSpace⟩
      rw [checkWidth_eq_ok valid]
      exact ⟨_, Memory.checkTop_eq_error valid beyond⟩
    · rw [Memory.checkWidth_eq_error valid]
      exact ⟨_, rfl⟩
  refine ⟨fault, refused, ?_, ?_⟩
  · intro m
    unfold Memory.read
    rw [← bind_assoc, refused]
    rfl
  · intro m value
    unfold Memory.write
    rw [refused]

/-- A call other than for a run of bytes accesses nothing if it is refused. -/
theorem accesses_of_refused {call : MemoryCall} {fault : MemoryFault} (single : ¬ call.IsRun)
    (refused : call.outcome = .error fault) : call.accesses = [] := by
  cases call with
  | read address width | write address width value =>
      refine if_neg fun fits => ?_
      cases refused.symm.trans (checks_eq_ok fits)
  | alignedRead address width | alignedWrite address width value =>
      refine if_neg fun fits => ?_
      cases refused.symm.trans (checkAligned_eq_ok fits.1 fits.2)
  | readBytes address count | writeBytes address data => exact absurd trivial single

theorem serves_of_refused {call : MemoryCall} {m : SparseMemory} {fault : MemoryFault}
    (single : ¬ call.IsRun) (refused : call.outcome = .error fault)
    (same : call.perform (.sparse m) = (.error fault, .sparse m)) :
    ∃ after, call.Serves m after := by
  refine ⟨m, ?_, ?_⟩
  · rw [same, refused]
  · rw [accesses_of_refused single refused]
    exact .nil m

theorem serves_read (m : SparseMemory) (address : UInt64) (width : Nat) :
    ∃ after, (read address width).Serves m after := by
  by_cases fits : width ∈ validWidths ∧ address.toNat + width ≤ UInt64.size
  · have passes := checks_eq_ok fits
    have served : ∃ value after, (Memory.sparse m).read address width =
        .ok (value, .sparse after) ∧ m.Accesses (read address width).accesses after := by
      unfold accesses
      dsimp only
      rw [if_pos fits, Memory.read_eq _ fits.1 fits.2]
      cases aligned : isAligned address width with
      | true =>
          obtain ⟨value, after, gave, access⟩ :=
            m.access_alignedRead (checkAligned_eq_ok fits.1 aligned)
          exact ⟨value, after, gave, .single access⟩
      | false => exact SparseMemory.accesses_readBytewise address width m 0
    obtain ⟨value, after, gave, accesses⟩ := served
    refine ⟨after, ?_, accesses⟩
    unfold perform outcome
    dsimp only
    rw [gave, passes]
  · obtain ⟨fault, refused, reads, _writes⟩ := refused_of_misfit fits
    refine serves_of_refused id refused ?_
    unfold perform
    dsimp only
    rw [reads]

example : (read 0x2ffffe 4).accesses = [0x300001, 0x300000, 0x2fffff, 0x2ffffe] := by decide

theorem serves_write (m : SparseMemory) (address : UInt64) (width : Nat) (value : UInt64) :
    ∃ after, (write address width value).Serves m after := by
  by_cases fits : width ∈ validWidths ∧ address.toNat + width ≤ UInt64.size
  · have passes := checks_eq_ok fits
    have served : ∃ after, (Memory.sparse m).write address width value =
        (.ok (), .sparse after) ∧ m.Accesses (write address width value).accesses after := by
      unfold accesses
      dsimp only
      rw [if_pos fits, Memory.write_eq _ fits.1 fits.2]
      cases aligned : isAligned address width with
      | true =>
          obtain ⟨after, wrote, access⟩ :=
            m.access_alignedWrite (checkAligned_eq_ok fits.1 aligned) (truncate value width)
          rw [wrote]
          exact ⟨after, rfl, .single access⟩
      | false => exact SparseMemory.accesses_writeBytewise width m address (truncate value width)
    obtain ⟨after, wrote, accesses⟩ := served
    refine ⟨after, ?_, accesses⟩
    unfold perform outcome
    dsimp only
    rw [wrote, passes]
  · obtain ⟨fault, refused, _reads, writes⟩ := refused_of_misfit fits
    exact serves_of_refused id refused (writes _ value)

theorem serves_alignedRead (m : SparseMemory) (address : UInt64) (width : Nat) :
    ∃ after, (alignedRead address width).Serves m after := by
  cases checked : checkAligned address width with
  | ok _ =>
      obtain ⟨value, after, gave, access⟩ := m.access_alignedRead checked
      refine ⟨after, ?_, ?_⟩
      · unfold perform outcome
        dsimp only
        rw [gave, checked]
      · unfold accesses
        dsimp only
        rw [if_pos (Memory.of_checkAligned checked)]
        exact .single access
  | error fault =>
      refine serves_of_refused id checked ?_
      unfold perform
      dsimp only
      rw [Memory.alignedRead_of_refused _ checked]

theorem serves_alignedWrite (m : SparseMemory) (address : UInt64) (width : Nat) (value : UInt64) :
    ∃ after, (alignedWrite address width value).Serves m after := by
  cases checked : checkAligned address width with
  | ok _ =>
      obtain ⟨after, wrote, access⟩ := m.access_alignedWrite checked value
      refine ⟨after, ?_, ?_⟩
      · unfold perform outcome
        dsimp only
        rw [wrote, checked]
      · unfold accesses
        dsimp only
        rw [if_pos (Memory.of_checkAligned checked)]
        exact .single access
  | error fault =>
      refine serves_of_refused id checked ?_
      unfold perform
      dsimp only
      rw [Memory.alignedWrite_of_refused _ value checked]

theorem exists_serves (call : MemoryCall) (m : SparseMemory) : ∃ after, call.Serves m after := by
  cases call with
  | read address width => exact serves_read m address width
  | write address width value => exact serves_write m address width value
  | alignedRead address width => exact serves_alignedRead m address width
  | alignedWrite address width value => exact serves_alignedWrite m address width value
  | readBytes address count =>
      obtain ⟨result, after, gave, told, accesses⟩ :=
        SparseMemory.accesses_readBytesFrom address count m 0 (Nat.le_of_lt address.toNat_lt)
      rw [Nat.zero_add] at told
      rw [SparseMemory.runFrom_start] at accesses
      refine ⟨after, ?_, accesses⟩
      unfold perform outcome Memory.readBytes
      dsimp only
      rw [gave, ← told]
  | writeBytes address data =>
      obtain ⟨after, wrote, accesses⟩ :=
        SparseMemory.accesses_writeBytesFrom address data m 0 (Nat.le_of_lt address.toNat_lt)
      rw [Nat.zero_add] at wrote
      rw [SparseMemory.runFrom_start] at accesses
      exact ⟨after, wrote, accesses⟩

/-- The accesses of some calls, one call after the other. -/
theorem accesses_after (calls : List MemoryCall) : ∀ m : SparseMemory, ∃ last,
    after (.sparse m) calls = .sparse last ∧ m.Accesses (calls.flatMap accesses) last := by
  induction calls with
  | nil => exact fun m => ⟨m, rfl, .nil m⟩
  | cons call rest ih =>
      intro m
      obtain ⟨middle, serves⟩ := call.exists_serves m
      obtain ⟨last, ended, others⟩ := ih middle
      refine ⟨last, ?_, ?_⟩
      · unfold after at ended ⊢
        rw [List.foldl_cons, serves.outcome]
        exact ended
      · rw [List.flatMap_cons]
        exact serves.accesses.trans others

/-- After any calls, the table of a sparse memory numbers the blocks that were accessed in the order
of their first accesses and keeps these numbers, the block of the last access is in it, and each
access was a hit just if the one before it was in the same block. Whether a call is served does not
depend on the memory. If it is not, it changes nothing, except for a run of bytes, which has
accessed every byte below the top of the address space. -/
theorem books_after (calls : List MemoryCall) : ∃ m,
    after (.sparse .empty) calls = .sparse m ∧
    m.Accounts (blocks calls) ∧ m.Bijects (blocks calls) ∧
    (∀ before address later, calls.flatMap accesses = before ++ address :: later →
      ∃ stage next, SparseMemory.empty.Accesses before stage ∧ stage.Access address next ∧
        next.Accesses later m ∧ stage.Accounts (before.map blockIndex) ∧
        stage.table <+: m.table ∧
        (SparseMemory.Repeats (before.map blockIndex) (blockIndex address) →
          next.hits = stage.hits + 1 ∧ next.misses = stage.misses) ∧
        (¬ SparseMemory.Repeats (before.map blockIndex) (blockIndex address) →
          next.hits = stage.hits ∧ next.misses = stage.misses + 1)) ∧
    ∀ call : MemoryCall, ∃ next, call.perform (.sparse m) = (call.outcome, .sparse next) ∧
      m.Accesses call.accesses next ∧
      (¬ call.IsRun → ∀ fault, call.outcome = .error fault → next = m) := by
  obtain ⟨m, ended, accesses⟩ := accesses_after calls .empty
  have accounts := (accesses.accounts SparseMemory.accounts_empty).1
  refine ⟨m, ended, accounts, accounts.bijects, ?_, ?_⟩
  · intro before address later row
    rw [row] at accesses
    obtain ⟨stage, first, others⟩ := accesses.split
    cases others with
    | @cons _ next _ _ _ access last =>
        have here := (first.accounts SparseMemory.accounts_empty).1
        have longer := (access.table_prefix here).trans (last.accounts (access.accounts here)).2
        exact ⟨stage, next, first, access, last, here, longer, access.counts here⟩
  · intro call
    obtain ⟨next, serves⟩ := call.exists_serves m
    refine ⟨next, serves.outcome, serves.accesses, ?_⟩
    intro single fault refused
    have row := serves.accesses
    rw [accesses_of_refused single refused] at row
    cases row
    rfl

/-- Two bytes of which the first is the last of the address space: the call is refused, and the
first byte was accessed and its block allocated. -/
theorem exists_counted_refusal : ¬ ∀ (calls : List MemoryCall) (call : MemoryCall)
    (m next : SparseMemory) (fault : MemoryFault), after (.sparse .empty) calls = .sparse m →
    call.perform (.sparse m) = (.error fault, .sparse next) →
    next.blocks.length = m.blocks.length ∧ next.hits + next.misses = m.hits + m.misses := by
  intro quiet
  have refused : (readBytes 0xffffffffffffffff 2).perform (.sparse .empty) =
      (.error (.outOfBounds 0xffffffffffffffff 1),
        .sparse ⟨[.empty], [⟨0xfffffffffff, 0⟩], some ⟨0xfffffffffff, 0⟩, 0, 1⟩) := rfl
  obtain ⟨blocks, _counts⟩ := quiet [] _ .empty _ _ rfl refused
  cases blocks

end MemoryCall

end JumpIR
