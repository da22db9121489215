import JumpIR.Machine.Image
import JumpIR.Proofs.Memory.Overlay

/-!
# What an image leaves in memory

Sections are laid on memory one after the other, so that the last one that covers an address has its
byte. Loading goes on until a byte has no place; what was laid by then stays. Main statement:
`load_bytes`.
-/

set_option autoImplicit false

namespace JumpIR

namespace Image

/-! ### Sections on top of each other -/

/-- The byte of the last section that covers an address. -/
def lastByte? (sections : List Section) (place : UInt64) : Option UInt8 :=
  sections.reverse.findSome? fun s => runByte? s.base.toNat s.data place

/-- The base of the last section that a host watches. -/
def lastHost? (sections : List Section) : Option UInt64 :=
  (sections.reverse.find? fun s => s.name = hostSection).map Section.base

/-- The number of bytes in some sections. -/
def byteCount : List Section → Nat
  | [] => 0
  | s :: rest => s.data.length + byteCount rest

/-- A section without what comes behind its first `count` bytes. -/
def cut (s : Section) (count : Nat) : Section := { s with data := s.data.take count }

/-- The map on which sections are laid, in order. -/
def lay (b : ByteMap) (sections : List Section) : ByteMap := fun place =>
  (lastByte? sections place).getD (b place)

/-- The report behind some sections that are stored on top of what `report` tells. -/
def tell (report : Report) (sections : List Section) : Report :=
  ⟨report.entry, (lastHost? sections).or report.tohost, report.bytes + byteCount sections⟩

theorem lay_nil (b : ByteMap) : lay b [] = b := rfl

theorem lay_cons (b : ByteMap) (s : Section) (rest : List Section) :
    lay (b.overlay s.base.toNat s.data) rest = lay b (s :: rest) := by
  funext place
  unfold lay lastByte? ByteMap.overlay
  rw [List.reverse_cons, List.findSome?_append]
  cases rest.reverse.findSome? fun s => runByte? s.base.toNat s.data place with
  | some byte => rfl
  | none =>
      rw [List.findSome?_singleton, Option.none_or]
      rfl

theorem lay_singleton (b : ByteMap) (s : Section) : lay b [s] = b.overlay s.base.toNat s.data := by
  rw [← lay_cons, lay_nil]

theorem tell_cons (report : Report) (s : Section) (rest : List Section) :
    tell { report with
      tohost := if s.name = hostSection then some s.base else report.tohost
      bytes := report.bytes + s.data.length } rest = tell report (s :: rest) := by
  have counted : report.bytes + s.data.length + byteCount rest =
      report.bytes + byteCount (s :: rest) := Nat.add_assoc _ _ _
  unfold tell
  rw [counted]
  congr 1
  unfold lastHost?
  rw [List.reverse_cons, List.find?_append]
  cases rest.reverse.find? fun s => s.name = hostSection with
  | some host => rfl
  | none =>
      by_cases watched : s.name = hostSection
      · simp only [watched, if_true, decide_true, List.find?_cons_of_pos, Option.none_or,
          Option.map_none, Option.map_some, Option.some_or]
      · simp only [watched, if_false, decide_false, Bool.false_eq_true, not_false_eq_true,
          List.find?_cons_of_neg, List.find?_nil, Option.or_none, Option.map_none, Option.none_or]

/-! ### Loading -/

/-- Every byte of every section has a place in so many bytes. -/
def Fit (limit : Nat) (sections : List Section) : Prop :=
  ∀ s ∈ sections, FitsIn limit s.base.toNat s.data.length

/-- Of some sections, those before `s` fit, and byte number `count` of `s` is the first that does
not. -/
structure StopsAt (limit : Nat) (sections before : List Section) (s : Section) (count : Nat) :
    Prop where
  among : ∃ later, sections = before ++ s :: later
  fit : Fit limit before
  ends : EndsAt limit s.base.toNat s.data.length count

theorem Fit.cons {limit : Nat} {s : Section} {rest : List Section}
    (first : FitsIn limit s.base.toNat s.data.length) (others : Fit limit rest) :
    Fit limit (s :: rest) := by
  intro other member
  cases member with
  | head => exact first
  | tail _ member => exact others other member

theorem StopsAt.cons {limit count : Nat} {first s : Section} {rest before : List Section}
    (fits : FitsIn limit first.base.toNat first.data.length)
    (stops : StopsAt limit rest before s count) :
    StopsAt limit (first :: rest) (first :: before) s count := by
  obtain ⟨later, rfl⟩ := stops.among
  exact ⟨⟨later, rfl⟩, stops.fit.cons fits, stops.ends⟩

theorem loadSections_cases {limit : Nat} (sections : List Section) :
    ∀ {m : Memory} {b : ByteMap} (report : Report), m.Represents limit b →
    (∃ after, loadSections sections report m = (.ok (tell report sections), after) ∧
      Fit limit sections ∧ after.Represents limit (lay b sections)) ∨
    ∃ before s count after,
      loadSections sections report m = (.error (Memory.runFault s.base count), after) ∧
      StopsAt limit sections before s count ∧
      after.Represents limit (lay b (before ++ [cut s count])) := by
  induction sections with
  | nil =>
      intro m b report represents
      exact Or.inl ⟨m, rfl, fun s impossible => absurd impossible List.not_mem_nil, represents⟩
  | cons s rest ih =>
      intro m b report represents
      rcases Memory.writeBytes_cases represents s.base s.data with
        ⟨middle, wrote, fits, kept⟩ | ⟨count, after, failed, ends, kept⟩
      · rcases ih { report with
            tohost := if s.name = hostSection then some s.base else report.tohost
            bytes := report.bytes + s.data.length } kept with
          ⟨after, done, others, holds⟩ | ⟨before, stopped, count, after, failed, stops, holds⟩
        · refine Or.inl ⟨after, ?_, others.cons fits, ?_⟩
          · unfold loadSections
            rw [wrote, ← tell_cons]
            exact done
          · rw [← lay_cons]
            exact holds
        · refine Or.inr ⟨s :: before, stopped, count, after, ?_, stops.cons fits, ?_⟩
          · unfold loadSections
            rw [wrote]
            exact failed
          · rw [List.cons_append, ← lay_cons]
            exact holds
      · refine Or.inr ⟨[], s, count, after, ?_, ⟨⟨rest, rfl⟩, ?_, ends⟩, ?_⟩
        · unfold loadSections
          rw [failed]
        · intro other impossible
          cases impossible
        · rw [List.nil_append, lay_singleton]
          exact kept

/-- What a reader sees of sections on top of a memory. -/
theorem byte?_of_lay {m after : Memory} {limit : Nat} {b : ByteMap} {sections : List Section}
    (represents : m.Represents limit b) (holds : after.Represents limit (lay b sections))
    (covered : ∀ place byte, lastByte? sections place = some byte → place.toNat < limit)
    (place : UInt64) :
    after.byte? place = ((lastByte? sections place).map UInt8.toUInt64).or (m.byte? place) := by
  rw [holds.byte?_eq, represents.byte?_eq]
  unfold lay
  cases found : lastByte? sections place with
  | none => rfl
  | some byte => exact if_pos (covered place byte found)

/-- What fits is covered below the limit. -/
theorem Fit.covered {limit : Nat} {sections : List Section} (fit : Fit limit sections)
    (place : UInt64) (byte : UInt8) (found : lastByte? sections place = some byte) :
    place.toNat < limit := by
  obtain ⟨s, member, covers⟩ := List.exists_of_findSome?_eq_some found
  obtain ⟨first, last⟩ := lt_of_runByte? covers
  have below := fit s (List.mem_reverse.mp member) _ last
  omega

theorem StopsAt.fit_cut {limit count : Nat} {sections before : List Section} {s : Section}
    (stops : StopsAt limit sections before s count) : Fit limit (before ++ [cut s count]) := by
  intro other member
  cases List.mem_append.mp member with
  | inl earlier => exact stops.fit other earlier
  | inr last =>
      cases List.mem_singleton.mp last
      intro index bound
      have short : index < count := by
        have taken : (cut s count).data.length = min count s.data.length := List.length_take
        omega
      exact stops.ends.below index short

/-- An image that is loaded leaves at every address the byte of the last section that covers it, and
the old byte where none does. One that is not has the sections before the failing one laid on memory
like that, and of the failing one the bytes before the first that has no place. What a run of bytes
has stored is read back. -/
theorem load_bytes {kind : MemoryKind} {m : Memory} (reached : Memory.Reached kind m)
    (image : Image) :
    (∀ report after, image.load m = (.ok report, after) →
      Fit kind.limit image.sections ∧
      (∀ place, after.byte? place =
        ((lastByte? image.sections place).map UInt8.toUInt64).or (m.byte? place)) ∧
      report.entry = image.entry ∧ report.bytes = byteCount image.sections ∧
      report.tohost = lastHost? image.sections) ∧
    (∀ fault after, image.load m = (.error fault, after) →
      ∃ before s count, StopsAt kind.limit image.sections before s count ∧
        fault = Memory.runFault s.base count ∧
        ∀ place, after.byte? place =
          ((lastByte? (before ++ [cut s count]) place).map UInt8.toUInt64).or (m.byte? place)) ∧
    ∀ address data after, m.writeBytes address data = (.ok (), after) →
      (after.readBytes address data.length).1 = .ok data := by
  obtain ⟨b, represents⟩ := reached.represents
  have both := loadSections_cases image.sections ⟨image.entry, none, 0⟩ represents
  refine ⟨?_, ?_, Memory.readBytes_data represents⟩
  · intro report after loaded
    rcases both with ⟨stored, done, fit, holds⟩ | ⟨before, s, count, stopped, failed, _, _⟩
    · cases loaded.symm.trans done
      exact ⟨fit, byte?_of_lay represents holds fit.covered, rfl, Nat.zero_add _,
        Option.or_none⟩
    · cases loaded.symm.trans failed
  · intro fault after refused
    rcases both with ⟨stored, done, _, _⟩ | ⟨before, s, count, stopped, failed, stops, holds⟩
    · cases refused.symm.trans done
    · cases refused.symm.trans failed
      exact ⟨before, s, count, stops, rfl, byte?_of_lay represents holds stops.fit_cut.covered⟩

theorem load_bytes_flat : ∃ m after torn, Memory.Reached (.flat 16) m ∧
    load ⟨[⟨".text", 2, [1, 2, 3]⟩, ⟨".tohost", 4, [9, 8]⟩], 2⟩ m = (.ok ⟨2, some 4, 5⟩, after) ∧
    after.byte? 3 = some 2 ∧ after.byte? 4 = some 9 ∧ after.byte? 6 = m.byte? 6 ∧
    load ⟨[⟨".text", 2, [1]⟩, ⟨".data", 14, [7, 7, 7]⟩], 2⟩ m =
      (.error (.outOfBounds 16 1), torn) ∧
    torn.byte? 15 = some 7 ∧ torn.byte? 4 = m.byte? 4 := by
  have reached : Memory.Reached (.flat 16) (.flat ⟨2, .empty⟩) := .built rfl
  have loaded : load ⟨[⟨".text", 2, [1, 2, 3]⟩, ⟨".tohost", 4, [9, 8]⟩], 2⟩
      (.flat ⟨2, .empty⟩) = (.ok ⟨2, some 4, 5⟩, .flat ⟨2, ⟨[(0, 0x80902010000)]⟩⟩) := rfl
  have refused : load ⟨[⟨".text", 2, [1]⟩, ⟨".data", 14, [7, 7, 7]⟩], 2⟩
      (.flat ⟨2, .empty⟩) = (.error (.outOfBounds 16 1),
        .flat ⟨2, ⟨[(0, 0x10000), (1, 0x707000000000000)]⟩⟩) := rfl
  obtain ⟨_fit, bytes, _report⟩ := (load_bytes reached _).1 _ _ loaded
  exact ⟨_, _, _, reached, loaded, bytes 3, bytes 4, bytes 6, refused, rfl, rfl⟩

end Image

end JumpIR
