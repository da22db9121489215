import JumpIR.Machine.State
import JumpIR.Proofs.Memory.Refinement

/-!
# Replaying accesses

The writes among accesses that were kept are replayed on the bytes that a memory held before them.
An access that succeeds leaves what its own replay gives; one that faults may leave some of its
bytes, but the memory stays sound.
-/

set_option autoImplicit false

namespace JumpIR

/-- The bytes behind an access that succeeded. -/
def MemoryAccess.leaves (b : ByteMap) (access : MemoryAccess) : ByteMap :=
  match access.kind with
  | .read => b
  | .write => b.store access.address access.width access.value.toNat

/-- The bytes behind all of the accesses, in their order. -/
def ByteMap.replay (b : ByteMap) (log : List MemoryAccess) : ByteMap :=
  log.foldl MemoryAccess.leaves b

theorem ByteMap.replay_append (b : ByteMap) (log more : List MemoryAccess) :
    b.replay (log ++ more) = (b.replay log).replay more := List.foldl_append

namespace Memory

variable {m after : Memory} {address value : UInt64} {width : Nat}

theorem Sound.represents (sound : m.Sound) : m.Represents m.limit m.bytes := ⟨sound, rfl, rfl⟩

theorem read_ok (sound : m.Sound) (done : m.read address width = .ok (value, after)) :
    after.Sound ∧ after.bytes = m.bytes ∧ value.toNat = m.bytes.number address width := by
  by_cases valid : width ∈ validWidths
  · by_cases inRange : address.toNat + width ≤ m.limit
    · obtain ⟨value', after', doneToo, same, kept⟩ :=
        read_represents sound.represents valid inRange
      cases done.symm.trans doneToo
      exact ⟨kept.sound, kept.bytes, same⟩
    · obtain ⟨place, size, faulted⟩ :=
        read_beyond sound.represents valid (Nat.lt_of_not_le inRange)
      cases done.symm.trans faulted
  · cases done.symm.trans (read_invalid m address valid)

theorem write_ok (sound : m.Sound) (done : m.write address width value = (.ok (), after)) :
    after.Sound ∧ after.bytes = m.bytes.store address width (truncate value width).toNat := by
  by_cases valid : width ∈ validWidths
  · by_cases inRange : address.toNat + width ≤ m.limit
    · obtain ⟨after', doneToo, kept⟩ := write_represents sound.represents valid inRange value
      cases done.symm.trans doneToo
      rw [truncate_toNat]
      exact ⟨kept.sound, kept.bytes⟩
    · obtain ⟨place, size, after', faulted⟩ :=
        write_beyond sound.represents valid (Nat.lt_of_not_le inRange) value
      cases done.symm.trans faulted
  · cases done.symm.trans (write_invalid m address value valid)

/-! ### Soundness -/

theorem sound_alignedWrite (sound : m.Sound) (valid : width ∈ validWidths)
    (aligned : isAligned address width = true)
    (done : m.alignedWrite address width value = .ok after) : after.Sound := by
  by_cases inRange : address.toNat + width ≤ m.limit
  · obtain ⟨after', doneToo, kept⟩ :=
      alignedWrite_represents sound.represents valid aligned inRange value
    cases done.symm.trans doneToo
    exact kept.sound
  · have faulted := alignedWrite_beyond sound.represents valid aligned
      (Nat.lt_of_not_le inRange) value
    cases done.symm.trans faulted

theorem sound_writeBytewise (count : Nat) : ∀ {m : Memory} (address value : UInt64), m.Sound →
    (m.writeBytewise address count value).2.Sound := by
  induction count with
  | zero =>
      intro m address value sound
      exact sound
  | succ count ih =>
      intro m address value sound
      unfold writeBytewise
      split
      · exact sound
      · rename_i middle wrote
        exact ih _ _ (sound_alignedWrite sound one_mem_validWidths (isAligned_one address) wrote)

/-- A write that faults may have stored some of its bytes, which leaves the memory sound. -/
theorem sound_write (sound : m.Sound) (address : UInt64) (width : Nat) (value : UInt64) :
    (m.write address width value).2.Sound := by
  by_cases valid : width ∈ validWidths
  · by_cases inSpace : address.toNat + width ≤ UInt64.size
    · rw [write_eq m valid inSpace]
      split
      · rename_i aligned
        split
        · exact sound
        · rename_i after wrote
          exact sound_alignedWrite sound valid aligned wrote
      · exact sound_writeBytewise width address _ sound
    · have fails : (checkWidth width >>= fun _ => checkTop address width) =
          .error (.outOfBounds address width) := by
        rw [checkWidth_eq_ok valid]
        exact checkTop_eq_error valid (Nat.lt_of_not_le inSpace)
      unfold write
      rw [fails]
      exact sound
  · rw [write_invalid m address value valid]
    exact sound

theorem sound_perform (sound : m.Sound) (request : MemoryRequest) :
    (m.perform request).2.Sound := by
  unfold perform
  cases request with
  | read address width =>
      dsimp only
      split
      · exact sound
      · rename_i value after done
        exact (read_ok sound done).1
  | write address width value =>
      have kept := sound_write sound address width value
      dsimp only
      split
      · rename_i fault after done
        rw [done] at kept
        exact kept
      · rename_i after done
        rw [done] at kept
        exact kept

/-- Whatever is asked of a memory, and whether or not it faults, the memory stays sound. -/
theorem sound_after (requests : List MemoryRequest) : ∀ {m : Memory}, m.Sound →
    (m.after requests).Sound := by
  induction requests with
  | nil =>
      intro m sound
      exact sound
  | cons request rest ih =>
      intro m sound
      exact ih (sound_perform sound request)

end Memory

end JumpIR
