import Mathlib.Data.List.Induction
import Mathlib.Data.List.Nodup
import JumpIR.Proofs.Memory.Store
import JumpIR.Proofs.Outcome

/-!
# Blocks and the counts of accesses

A block gets the next slot with its first access and keeps it, and an access is a hit just if the
one before it was in the same block. So the table and the counts are told by the list of the blocks
that were accessed. Main statements: `SparseMemory.Accesses.accounts` and
`SparseMemory.Access.counts`.
-/

set_option autoImplicit false

namespace JumpIR

/-! ### New elements of a list -/

section

variable {α : Type} [BEq α] [LawfulBEq α] {l : List α} {a : α}

theorem eraseDups_concat_of_mem (member : a ∈ l) : (l ++ [a]).eraseDups = l.eraseDups := by
  have removed : [a].removeAll l = [] := by
    simp [List.removeAll, member]
  rw [List.eraseDups_append, removed, List.eraseDups_nil, List.append_nil]

theorem eraseDups_concat_of_not_mem (absent : a ∉ l) :
    (l ++ [a]).eraseDups = l.eraseDups ++ [a] := by
  have kept : [a].removeAll l = [a] := by
    simp [List.removeAll, absent]
  rw [List.eraseDups_append, kept]
  rfl

theorem nodup_eraseDups (l : List α) : l.eraseDups.Nodup := by
  induction l using List.reverseRecOn with
  | nil => exact List.nodup_nil
  | append_singleton l a ih =>
      by_cases member : a ∈ l
      · rw [eraseDups_concat_of_mem member]
        exact ih
      · rw [eraseDups_concat_of_not_mem member]
        refine ih.append (List.nodup_singleton a) ?_
        intro other first second
        cases List.mem_singleton.mp second
        exact member (List.mem_eraseDups.mp first)

omit [LawfulBEq α] in
theorem idxOf?_concat (l : List α) (a other : α) :
    (l ++ [a]).idxOf? other = (l.idxOf? other).or (if a == other then some l.length else none) := by
  unfold List.idxOf?
  rw [List.findIdx?_append, List.findIdx?_singleton]
  cases a == other with
  | true => simp
  | false => simp

end

namespace SparseMemory

/-! ### Rows of accesses -/

/-- One access, which passes its check. -/
inductive Access (m : SparseMemory) (address : UInt64) (after : SparseMemory) : Prop where
  | read {width : Nat} {value : UInt64} (done : m.alignedRead address width = .ok (value, after))
  | write {width : Nat} {value : UInt64} (done : m.alignedWrite address width value = .ok after)

/-- Accesses one after the other. -/
inductive Accesses : SparseMemory → List UInt64 → SparseMemory → Prop where
  | nil (m : SparseMemory) : Accesses m [] m
  | cons {m middle after : SparseMemory} {address : UInt64} {rest : List UInt64}
      (first : m.Access address middle) (others : Accesses middle rest after) :
      Accesses m (address :: rest) after

theorem Accesses.single {m after : SparseMemory} {address : UInt64}
    (access : m.Access address after) : m.Accesses [address] after :=
  .cons access (.nil after)

theorem Accesses.trans {m middle after : SparseMemory} {left right : List UInt64}
    (first : m.Accesses left middle) (others : middle.Accesses right after) :
    m.Accesses (left ++ right) after := by
  induction first with
  | nil m => exact others
  | cons access _rest ih => exact .cons access (ih others)

theorem Accesses.split {left right : List UInt64} : ∀ {m after : SparseMemory},
    m.Accesses (left ++ right) after →
    ∃ middle, m.Accesses left middle ∧ middle.Accesses right after := by
  induction left with
  | nil =>
      intro m after accesses
      exact ⟨m, .nil m, accesses⟩
  | cons address left ih =>
      intro m after accesses
      cases accesses with
      | cons access others =>
          obtain ⟨middle, first, last⟩ := ih others
          exact ⟨middle, .cons access first, last⟩

/-! ### What accesses leave -/

/-- The block of the last of some accesses is `block`. -/
def Repeats (log : List Nat) (block : Nat) : Prop := log.getLast? = some block

/-- What a memory keeps of the blocks that were accessed, in the order of the accesses. -/
structure Accounts (m : SparseMemory) (log : List Nat) : Prop where
  /-- A block has the number of its first access among those of new blocks as its slot. -/
  slots : ∀ block, m.tableSlot? block = log.eraseDups.idxOf? block
  entries : m.table.map BlockSlot.block = log.eraseDups
  count : m.blocks.length = log.eraseDups.length
  last : m.last.map BlockSlot.block = log.getLast?
  cached : ∀ entry, m.last = some entry → m.tableSlot? entry.block = some entry.slot
  total : m.hits + m.misses = log.length

/-- The table has one slot for each block of a log, and one block for each slot of the memory. -/
structure Bijects (m : SparseMemory) (log : List Nat) : Prop where
  ofBlock : ∀ block ∈ log, ∃ slot < m.blocks.length, m.tableSlot? block = some slot
  ofSlot : ∀ slot < m.blocks.length, ∃ block ∈ log, m.tableSlot? block = some slot ∧
    ∀ other, m.tableSlot? other = some slot → other = block
  only : ∀ block slot, m.tableSlot? block = some slot → block ∈ log

variable {m after : SparseMemory} {log : List Nat} {block : Nat} {address : UInt64}

theorem accounts_empty : empty.Accounts [] := by
  refine ⟨fun _ => rfl, rfl, rfl, rfl, ?_, rfl⟩
  intro entry last
  cases last

theorem Accounts.mem_iff (accounts : m.Accounts log) (block : Nat) :
    block ∈ log ↔ m.tableSlot? block ≠ none := by
  rw [accounts.slots, ne_eq, List.idxOf?_eq_none_iff, not_not, List.mem_eraseDups]

theorem Accounts.bijects (accounts : m.Accounts log) : m.Bijects log := by
  have found : ∀ block slot, m.tableSlot? block = some slot →
      ∃ bound : slot < log.eraseDups.length, log.eraseDups[slot] = block := by
    intro block slot known
    rw [accounts.slots] at known
    obtain ⟨bound, here, _before⟩ := List.idxOf?_eq_some_iff.mp known
    exact ⟨bound, here⟩
  have only : ∀ block slot, m.tableSlot? block = some slot → block ∈ log := by
    intro block slot known
    apply (accounts.mem_iff block).mpr
    rw [known]
    exact Option.some_ne_none slot
  refine ⟨?_, ?_, only⟩
  · intro block member
    obtain ⟨slot, known⟩ := Option.ne_none_iff_exists'.mp ((accounts.mem_iff block).mp member)
    obtain ⟨bound, _here⟩ := found block slot known
    exact ⟨slot, Nat.lt_of_lt_of_eq bound accounts.count.symm, known⟩
  · intro slot used
    have bound : slot < log.eraseDups.length := Nat.lt_of_lt_of_eq used accounts.count
    have known : m.tableSlot? log.eraseDups[slot] = some slot := by
      rw [accounts.slots]
      -- New blocks are all different, so none before this one is the same.
      refine List.idxOf?_eq_some_iff.mpr ⟨bound, rfl, ?_⟩
      intro earlier less same
      have equal := ((nodup_eraseDups log).getElem_inj_iff).mp same
      omega
    refine ⟨_, only _ slot known, known, ?_⟩
    intro other alike
    obtain ⟨_bound, here⟩ := found other slot alike
    exact here.symm

/-- The memories may differ in what their blocks contain only. -/
structure SameBooks (m after : SparseMemory) : Prop where
  table : after.table = m.table
  last : after.last = m.last
  hits : after.hits = m.hits
  misses : after.misses = m.misses
  count : after.blocks.length = m.blocks.length

theorem Accounts.congr (accounts : m.Accounts log) (same : m.SameBooks after) :
    after.Accounts log := by
  have slots : ∀ block, after.tableSlot? block = m.tableSlot? block := by
    intro block
    unfold tableSlot?
    rw [same.table]
  refine ⟨?_, ?_, ?_, ?_, ?_, ?_⟩
  · intro block
    rw [slots]
    exact accounts.slots block
  · rw [same.table]
    exact accounts.entries
  · rw [same.count]
    exact accounts.count
  · rw [same.last]
    exact accounts.last
  · intro entry last
    rw [same.last] at last
    rw [slots]
    exact accounts.cached entry last
  · rw [same.hits, same.misses]
    exact accounts.total

/-- A touch is a hit if it repeats the block of the last access; otherwise it is a miss, which looks
the slot up or takes the next one. -/
theorem touch_cases (accounts : m.Accounts log) (block : Nat) :
    Repeats log block ∧ (m.touch block).2 = { m with hits := m.hits + 1 } ∨
    ¬ Repeats log block ∧ ∃ slot, (m.tableSlot? block = some slot ∧ (m.touch block).2 =
        { m with misses := m.misses + 1, last := some ⟨block, slot⟩ } ∨
      m.tableSlot? block = none ∧ slot = m.blocks.length ∧ (m.touch block).2 =
        { m.grow block with misses := m.misses + 1, last := some ⟨block, slot⟩ }) := by
  unfold touch Repeats
  rw [← accounts.last]
  cases cached : m.last.filter fun entry => entry.block == block with
  | some entry =>
      obtain ⟨last, same⟩ := Option.filter_eq_some_iff.mp cached
      refine Or.inl ⟨?_, rfl⟩
      rw [last, Option.map_some, beq_iff_eq.mp same]
  | none =>
      refine Or.inr ⟨?_, ?_⟩
      · intro repeats
        obtain ⟨entry, last, same⟩ := Option.map_eq_some_iff.mp repeats
        exact Option.filter_eq_none_iff.mp cached entry last (beq_iff_eq.mpr same)
      · unfold allocate
        cases known : m.tableSlot? block with
        | some slot => exact ⟨slot, Or.inl ⟨rfl, rfl⟩⟩
        | none => exact ⟨_, Or.inr ⟨rfl, rfl, rfl⟩⟩

theorem Accounts.hit (accounts : m.Accounts log) (repeats : Repeats log block) :
    Accounts { m with hits := m.hits + 1 } (log ++ [block]) := by
  have same := eraseDups_concat_of_mem (List.mem_of_getLast? repeats)
  have total := accounts.total
  refine ⟨?_, ?_, ?_, ?_, accounts.cached, ?_⟩
  · rw [same]
    exact accounts.slots
  · rw [same]
    exact accounts.entries
  · rw [same]
    exact accounts.count
  · rw [List.getLast?_concat, ← repeats]
    exact accounts.last
  · rw [List.length_append, List.length_singleton, ← total]
    exact Nat.add_right_comm _ _ _

theorem Accounts.known (accounts : m.Accounts log) {slot : Nat}
    (known : m.tableSlot? block = some slot) :
    Accounts { m with misses := m.misses + 1, last := some ⟨block, slot⟩ } (log ++ [block]) := by
  have same := eraseDups_concat_of_mem (accounts.bijects.only block slot known)
  have total := accounts.total
  refine ⟨?_, ?_, ?_, ?_, ?_, ?_⟩
  · rw [same]
    exact accounts.slots
  · rw [same]
    exact accounts.entries
  · rw [same]
    exact accounts.count
  · exact List.getLast?_concat.symm
  · intro entry last
    cases last
    exact known
  · rw [List.length_append, List.length_singleton, ← total]
    rfl

theorem Accounts.new (accounts : m.Accounts log) (unknown : m.tableSlot? block = none) :
    Accounts { m.grow block with
      misses := m.misses + 1, last := some ⟨block, m.blocks.length⟩ } (log ++ [block]) := by
  have absent : block ∉ log := fun member => (accounts.mem_iff block).mp member unknown
  have longer := eraseDups_concat_of_not_mem absent
  have total := accounts.total
  refine ⟨?_, ?_, ?_, ?_, ?_, ?_⟩
  · intro other
    rw [longer, idxOf?_concat, ← accounts.slots, ← accounts.count]
    refine (tableSlot?_grow m block other).trans ?_
    simp only [beq_iff_eq]
  · rw [longer, ← accounts.entries]
    exact List.map_append
  · rw [longer, List.length_append, ← accounts.count]
    exact List.length_append
  · exact List.getLast?_concat.symm
  · intro entry last
    cases last
    refine (tableSlot?_grow m block block).trans ?_
    rw [unknown, if_pos rfl]
    rfl
  · rw [List.length_append, List.length_singleton, ← total]
    rfl

theorem accounts_touch (accounts : m.Accounts log) (block : Nat) :
    (m.touch block).2.Accounts (log ++ [block]) := by
  rcases touch_cases accounts block with
    ⟨repeats, same⟩ | ⟨_other, slot, ⟨known, same⟩ | ⟨unknown, rfl, same⟩⟩
  · rw [same]
    exact accounts.hit repeats
  · rw [same]
    exact accounts.known known
  · rw [same]
    exact accounts.new unknown

/-! ### Accesses -/

/-- An access touches its block; for the rest it writes into blocks at most. -/
theorem Access.sameBooks (access : m.Access address after) :
    (m.touch (blockIndex address)).2.SameBooks after := by
  cases access with
  | @read width value done =>
      unfold alignedRead at done
      obtain ⟨_unit, _checked, done⟩ := bind_ok done
      cases done
      exact ⟨rfl, rfl, rfl, rfl, rfl⟩
  | @write width value done =>
      unfold alignedWrite at done
      obtain ⟨_unit, _checked, done⟩ := bind_ok done
      cases done
      exact ⟨rfl, rfl, rfl, rfl, List.length_modify ..⟩

theorem Access.accounts (access : m.Access address after) (accounts : m.Accounts log) :
    after.Accounts (log ++ [blockIndex address]) :=
  (accounts_touch accounts _).congr access.sameBooks

/-- The access adds to the hits if it repeats a block, and else to the misses. -/
theorem Access.counts (access : m.Access address after) (accounts : m.Accounts log) :
    (Repeats log (blockIndex address) → after.hits = m.hits + 1 ∧ after.misses = m.misses) ∧
      (¬ Repeats log (blockIndex address) →
        after.hits = m.hits ∧ after.misses = m.misses + 1) := by
  have books := access.sameBooks
  rw [books.hits, books.misses]
  rcases touch_cases accounts (blockIndex address) with
    ⟨repeats, same⟩ | ⟨other, slot, ⟨_known, same⟩ | ⟨_unknown, _next, same⟩⟩
  · rw [same]
    exact ⟨fun _ => ⟨rfl, rfl⟩, fun not => absurd repeats not⟩
  · rw [same]
    exact ⟨fun repeats => absurd repeats other, fun _ => ⟨rfl, rfl⟩⟩
  · rw [same]
    exact ⟨fun repeats => absurd repeats other, fun _ => ⟨rfl, rfl⟩⟩

/-- An access leaves the entries of the table as they are. -/
theorem Access.table_prefix (access : m.Access address after) (accounts : m.Accounts log) :
    m.table <+: after.table := by
  rw [access.sameBooks.table]
  rcases touch_cases accounts (blockIndex address) with
    ⟨_repeats, same⟩ | ⟨_other, slot, ⟨_known, same⟩ | ⟨_unknown, _next, same⟩⟩
  · exact ⟨[], (List.append_nil _).trans (congrArg SparseMemory.table same).symm⟩
  · exact ⟨[], (List.append_nil _).trans (congrArg SparseMemory.table same).symm⟩
  · exact ⟨_, (congrArg SparseMemory.table same).symm⟩

theorem Accesses.accounts {addresses : List UInt64} (accesses : m.Accesses addresses after) :
    ∀ {log : List Nat}, m.Accounts log →
      after.Accounts (log ++ addresses.map blockIndex) ∧ m.table <+: after.table := by
  induction accesses with
  | nil m =>
      intro log accounts
      rw [List.map_nil, List.append_nil]
      exact ⟨accounts, List.prefix_refl _⟩
  | cons access _others ih =>
      intro log accounts
      obtain ⟨others, longer⟩ := ih (access.accounts accounts)
      rw [List.append_assoc] at others
      exact ⟨others, (access.table_prefix accounts).trans longer⟩

end SparseMemory

end JumpIR
