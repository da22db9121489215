import JumpIR.Proofs.Lowering.Globals

/-!
# Graphs under construction

While a body is lowered, blocks only grow at their open end, and a block that is left is never
touched again. `Extends` says so of two stages of a graph; `Ready` is what every stage satisfies.
-/

set_option autoImplicit false

namespace JumpIR

/-- A point of a graph: in front of operation number `next` of a block, or behind the last one. -/
structure Site where
  block : BlockId
  next : Nat
deriving DecidableEq, Repr

namespace Site

def first (id : BlockId) : Site := ⟨id, 0⟩

def succ (s : Site) : Site := ⟨s.block, s.next + 1⟩

/-- The operation that comes next at a site. -/
def HasOp (blocks : List Block) (s : Site) (op : Op) : Prop :=
  ∃ block, blocks[s.block.index]? = some block ∧ block.ops[s.next]? = some op

/-- How the block is left at a site that has no more operations. -/
def HasEnd (blocks : List Block) (s : Site) (terminator : Terminator) : Prop :=
  ∃ block, blocks[s.block.index]? = some block ∧ s.next = block.ops.length ∧
    block.terminator = terminator

theorem HasOp.mem {blocks : List Block} {s : Site} {op : Op} (found : s.HasOp blocks op) :
    ∃ block ∈ blocks, op ∈ block.ops := by
  obtain ⟨block, here, there⟩ := found
  exact ⟨block, List.mem_of_getElem? here, List.mem_of_getElem? there⟩

theorem exists_hasOp {blocks : List Block} {block : Block} {op : Op} (inBlocks : block ∈ blocks)
    (inOps : op ∈ block.ops) : ∃ s : Site, s.HasOp blocks op := by
  obtain ⟨index, here⟩ := List.getElem?_of_mem inBlocks
  obtain ⟨position, there⟩ := List.getElem?_of_mem inOps
  exact ⟨⟨⟨index⟩, position⟩, block, here, there⟩

end Site

namespace Lowering

namespace Graph

def block? (g : Graph) (id : BlockId) : Option Block := g.blocks.toList[id.index]?

/-- The open end of a graph, which takes the next operation. -/
def At (g : Graph) (s : Site) : Prop :=
  g.current = some s.block ∧ ∃ block, g.block? s.block = some block ∧ block.ops.length = s.next

theorem block?_addBlock (g : Graph) (origin : Option Nat) (terminator : Terminator)
    (id : BlockId) :
    (g.addBlock origin terminator).2.block? id =
      if id.index = g.blocks.size then some ⟨origin, [], terminator⟩ else g.block? id := by
  unfold addBlock block?
  simp only [Array.toList_push]
  by_cases new : id.index = g.blocks.size
  · rw [if_pos new, new, ← Array.length_toList, List.getElem?_concat_length]
  · rw [if_neg new]
    by_cases old : id.index < g.blocks.size
    · exact List.getElem?_append_left (by rw [Array.length_toList]; exact old)
    · rw [List.getElem?_eq_none (by simp; omega), List.getElem?_eq_none (by simp; omega)]

private theorem getElem?_modify (blocks : Array Block) (id other : BlockId)
    (change : Block → Block) :
    (blocks.modify id.index change).toList[other.index]? =
      if other = id then blocks.toList[other.index]?.map change
      else blocks.toList[other.index]? := by
  rw [Array.toList_modify, List.getElem?_modify]
  by_cases same : other = id
  · subst other
    simp only [if_pos, Option.map_eq_map]
  · have apart : id.index ≠ other.index := by
      intro equal
      apply same
      cases id
      cases other
      cases equal
      rfl
    simp only [if_neg same, if_neg apart, Option.map_eq_map, Option.map_id']

theorem block?_setTerminator (g : Graph) (id : BlockId) (terminator : Terminator)
    (other : BlockId) :
    (g.setTerminator id terminator).block? other =
      if other = id then (g.block? other).map fun b => { b with terminator := terminator }
      else g.block? other :=
  getElem?_modify g.blocks id other _

theorem block?_addOp (g : Graph) (id : BlockId) (op : Op) (other : BlockId) :
    (g.addOp id op).block? other =
      if other = id then (g.block? other).map fun b => { b with ops := b.ops ++ [op] }
      else g.block? other :=
  getElem?_modify g.blocks id other _

theorem block?_bound {g : Graph} {id : BlockId} {block : Block} (found : g.block? id = some block) :
    id.index < g.blocks.size := by
  have bound := (List.getElem?_eq_some_iff.mp found).1
  rw [Array.length_toList] at bound
  exact bound

end Graph

/-! ### Stages -/

namespace Body

/-- No statement from number `n` on adds to the block. -/
def Sealed (b : Body) (n : Nat) (g : Graph) (id : BlockId) : Prop :=
  g.current ≠ some id ∧ ∀ later, n ≤ later → b.leaderBlock? later ≠ some id

/-- The graph `h`, which still lacks the statements from `m` on, continues `g`, which lacks those
from `n` on. The operations that are new in it stand at `sites`. -/
structure Extends (b : Body) (n : Nat) (g : Graph) (m : Nat) (h : Graph) (sites : List Site) :
    Prop where
  grows : ∀ id block, g.block? id = some block →
    ∃ later, h.block? id = some later ∧ block.ops <+: later.ops ∧ later.origin = block.origin
  keeps : ∀ id block, g.block? id = some block → b.Sealed n g id →
    h.block? id = some block ∧ b.Sealed m h id
  supports : g.supports <+: h.supports
  adds : ∀ s op, Site.HasOp h.blocks.toList s op →
    Site.HasOp g.blocks.toList s op ∨ s ∈ sites

/-- What holds of a graph that lacks the statements from number `n` on. -/
structure Ready (b : Body) (n : Nat) (g : Graph) : Prop where
  /-- The open block is there, and no later statement starts it. -/
  current : ∀ id, g.current = some id → (∃ block, g.block? id = some block) ∧
    ∀ later, n ≤ later → b.leaderBlock? later ≠ some id
  /-- The blocks of later leaders are there, and empty. -/
  leaders : ∀ later id, n ≤ later → b.leaderBlock? later = some id →
    ∃ block, g.block? id = some block ∧ block.ops = [] ∧ block.origin = some later
  propagate : ∀ id, g.propagate = some id →
    (Site.first id).HasEnd g.blocks.toList .arbitrary ∧ b.Sealed n g id
  fallOff : ∀ id, g.fallOff = some id →
    (Site.first id).HasEnd g.blocks.toList b.fellOff ∧ b.Sealed n g id
  supports : b.scope.globals.Lists g.supports

namespace Extends

variable {b : Body} {n m k : Nat} {g h i : Graph} {sites more : List Site}

theorem refl (b : Body) (n : Nat) (g : Graph) : b.Extends n g n g [] where
  grows := fun _id block found => ⟨block, found, List.prefix_rfl, rfl⟩
  keeps := fun _id _block found isSealed => ⟨found, isSealed⟩
  supports := List.prefix_rfl
  adds := fun _s _op found => Or.inl found

theorem trans (left : b.Extends n g m h sites) (right : b.Extends m h k i more) :
    b.Extends n g k i (sites ++ more) where
  grows := by
    intro id block found
    obtain ⟨middle, foundMiddle, before, origin⟩ := left.grows id block found
    obtain ⟨last, foundLast, after, origin'⟩ := right.grows id middle foundMiddle
    exact ⟨last, foundLast, before.trans after, origin'.trans origin⟩
  keeps := by
    intro id block found isSealed
    obtain ⟨foundMiddle, sealedMiddle⟩ := left.keeps id block found isSealed
    exact right.keeps id block foundMiddle sealedMiddle
  supports := left.supports.trans right.supports
  adds := by
    intro s op found
    rcases right.adds s op found with before | new
    · rcases left.adds s op before with old | member
      · exact Or.inl old
      · exact Or.inr (List.mem_append.mpr (Or.inl member))
    · exact Or.inr (List.mem_append.mpr (Or.inr new))

theorem hasOp (extended : b.Extends n g m h sites) {s : Site} {op : Op}
    (found : s.HasOp g.blocks.toList op) : s.HasOp h.blocks.toList op := by
  obtain ⟨block, foundBlock, foundOp⟩ := found
  obtain ⟨later, foundLater, ⟨rest, whole⟩, _origin⟩ := extended.grows s.block block foundBlock
  refine ⟨later, foundLater, ?_⟩
  rw [← whole, List.getElem?_append_left (List.getElem?_eq_some_iff.mp foundOp).1]
  exact foundOp

theorem hasEnd (extended : b.Extends n g m h sites) {s : Site} {terminator : Terminator}
    (found : s.HasEnd g.blocks.toList terminator) (isSealed : b.Sealed n g s.block) :
    s.HasEnd h.blocks.toList terminator ∧ b.Sealed m h s.block := by
  obtain ⟨block, foundBlock, atEnd, left⟩ := found
  obtain ⟨foundLater, sealedLater⟩ := extended.keeps s.block block foundBlock isSealed
  exact ⟨⟨block, foundLater, atEnd, left⟩, sealedLater⟩

end Extends

/-! ### Changes at the open end -/

/-- The graph `h` differs from `g` in the open block and behind the last block only. -/
structure Changes (g h : Graph) (sites : List Site) : Prop where
  others : ∀ id block, g.block? id = some block → g.current ≠ some id → h.block? id = some block
  grows : ∀ id block, g.current = some id → g.block? id = some block →
    ∃ later, h.block? id = some later ∧ block.ops <+: later.ops ∧ later.origin = block.origin
  current : ∀ id, h.current = some id →
    (∃ block, h.block? id = some block) ∧ (g.current = some id ∨ g.blocks.size ≤ id.index)
  adds : ∀ s op, Site.HasOp h.blocks.toList s op →
    Site.HasOp g.blocks.toList s op ∨ s ∈ sites
  supports : g.supports <+: h.supports

namespace Changes

variable {b : Body} {n : Nat} {g h : Graph} {sites : List Site}

theorem isSealed (changed : Changes g h sites) {id : BlockId} {block : Block}
    (found : g.block? id = some block) (before : b.Sealed n g id) : b.Sealed n h id := by
  refine ⟨?_, before.2⟩
  intro isOpen
  rcases (changed.current id isOpen).2 with same | new
  · exact before.1 same
  · have bound := Graph.block?_bound found
    omega

theorem toExtends (changed : Changes g h sites) (b : Body) (n : Nat) :
    b.Extends n g n h sites where
  grows := by
    intro id block found
    by_cases isOpen : g.current = some id
    · exact changed.grows id block isOpen found
    · exact ⟨block, changed.others id block found isOpen, List.prefix_rfl, rfl⟩
  keeps := fun id block found before =>
    ⟨changed.others id block found before.1, changed.isSealed found before⟩
  supports := changed.supports
  adds := changed.adds

theorem hasEnd (changed : Changes g h sites) {s : Site} {terminator : Terminator}
    (found : s.HasEnd g.blocks.toList terminator ∧ b.Sealed n g s.block) :
    s.HasEnd h.blocks.toList terminator ∧ b.Sealed n h s.block :=
  (changed.toExtends b n).hasEnd found.1 found.2

theorem ready (changed : Changes g h sites) (before : b.Ready n g)
    (propagate : h.propagate = g.propagate) (fallOff : h.fallOff = g.fallOff)
    (supports : h.supports = g.supports) : b.Ready n h where
  current := by
    intro id isOpen
    obtain ⟨found, origin⟩ := changed.current id isOpen
    refine ⟨found, ?_⟩
    rcases origin with same | new
    · exact (before.current id same).2
    · intro later bound starts
      obtain ⟨block, foundLeader, _empty⟩ := before.leaders later id bound starts
      have old := Graph.block?_bound foundLeader
      omega
  leaders := by
    intro later id bound starts
    obtain ⟨block, found, empty⟩ := before.leaders later id bound starts
    refine ⟨block, changed.others id block found ?_, empty⟩
    intro isOpen
    exact (before.current id isOpen).2 later bound starts
  propagate := by
    intro id chosen
    exact changed.hasEnd (s := Site.first id) (before.propagate id (propagate ▸ chosen))
  fallOff := by
    intro id chosen
    exact changed.hasEnd (s := Site.first id) (before.fallOff id (fallOff ▸ chosen))
  supports := by
    rw [supports]
    exact before.supports

end Changes

theorem changes_addOp {g : Graph} {s : Site} (here : g.At s) (op : Op) :
    Changes g (g.addOp s.block op) [s] where
  others := by
    intro id block found notOpen
    rw [Graph.block?_addOp, if_neg]
    · exact found
    · intro same
      exact notOpen (same ▸ here.1)
  grows := by
    intro id block isOpen found
    have same : id = s.block := Option.some.inj (isOpen.symm.trans here.1)
    refine ⟨{ block with ops := block.ops ++ [op] }, ?_, List.prefix_append _ _, rfl⟩
    rw [Graph.block?_addOp, if_pos same, found]
    rfl
  current := by
    intro id isOpen
    have same : id = s.block := Option.some.inj (isOpen.symm.trans here.1)
    obtain ⟨block, found, _length⟩ := here.2
    refine ⟨⟨{ block with ops := block.ops ++ [op] }, ?_⟩, Or.inl isOpen⟩
    rw [Graph.block?_addOp, if_pos same, same, found]
    rfl
  adds := by
    rintro t added ⟨block, found, foundOp⟩
    change (g.addOp s.block op).block? t.block = some block at found
    rw [Graph.block?_addOp] at found
    by_cases same : t.block = s.block
    · obtain ⟨old, foundOld, length⟩ := here.2
      rw [if_pos same, same, foundOld, Option.map_some] at found
      cases found
      by_cases inside : t.next < old.ops.length
      · refine Or.inl ⟨old, ?_, ?_⟩
        · rw [same]
          exact foundOld
        · rw [List.getElem?_append_left inside] at foundOp
          exact foundOp
      · have bound := (List.getElem?_eq_some_iff.mp foundOp).1
        rw [List.length_append, List.length_singleton] at bound
        have last : t.next = s.next := by omega
        refine Or.inr (List.mem_singleton.mpr ?_)
        cases t
        cases s
        cases same
        cases last
        rfl
    · rw [if_neg same] at found
      exact Or.inl ⟨block, found, foundOp⟩
  supports := List.prefix_rfl

theorem changes_setTerminator {g h : Graph} {s : Site} (here : g.At s) (terminator : Terminator)
    (blocks : h.blocks = (g.setTerminator s.block terminator).blocks) (closed : h.current = none)
    (supports : h.supports = g.supports) : Changes g h [] where
  others := by
    intro id block found notOpen
    change h.blocks.toList[id.index]? = some block
    rw [blocks]
    change (g.setTerminator s.block terminator).block? id = some block
    rw [Graph.block?_setTerminator, if_neg]
    · exact found
    · intro same
      exact notOpen (same ▸ here.1)
  grows := by
    intro id block isOpen found
    have same : id = s.block := Option.some.inj (isOpen.symm.trans here.1)
    refine ⟨{ block with terminator := terminator }, ?_, List.prefix_rfl, rfl⟩
    change h.blocks.toList[id.index]? = _
    rw [blocks]
    change (g.setTerminator s.block terminator).block? id = _
    rw [Graph.block?_setTerminator, if_pos same, found]
    rfl
  current := by
    intro id isOpen
    rw [closed] at isOpen
    cases isOpen
  adds := by
    rintro t added ⟨block, found, foundOp⟩
    rw [blocks] at found
    change (g.setTerminator s.block terminator).block? t.block = some block at found
    rw [Graph.block?_setTerminator] at found
    by_cases same : t.block = s.block
    · obtain ⟨old, foundOld, _length⟩ := here.2
      rw [if_pos same, same, foundOld, Option.map_some] at found
      cases found
      refine Or.inl ⟨old, ?_, foundOp⟩
      rw [same]
      exact foundOld
    · rw [if_neg same] at found
      exact Or.inl ⟨block, found, foundOp⟩
  supports := supports ▸ List.prefix_rfl

/-- The block that was open is left as told, for good. -/
theorem hasEnd_setTerminator {b : Body} {n : Nat} {g h : Graph} {s : Site} (before : b.Ready n g)
    (here : g.At s) (terminator : Terminator)
    (blocks : h.blocks = (g.setTerminator s.block terminator).blocks) (closed : h.current = none) :
    s.HasEnd h.blocks.toList terminator ∧ b.Sealed n h s.block := by
  obtain ⟨block, found, length⟩ := here.2
  constructor
  · refine ⟨{ block with terminator := terminator }, ?_, length.symm, rfl⟩
    rw [blocks]
    change (g.setTerminator s.block terminator).block? s.block = _
    rw [Graph.block?_setTerminator, if_pos rfl, found]
    rfl
  · refine ⟨?_, (before.current s.block here.1).2⟩
    rw [closed]
    intro impossible
    cases impossible

theorem changes_addBlock {g h : Graph} (origin : Option Nat) (terminator : Terminator)
    (before : ∀ id, g.current = some id → ∃ block, g.block? id = some block)
    (blocks : h.blocks = (g.addBlock origin terminator).2.blocks)
    (current : h.current = g.current) (supports : h.supports = g.supports) :
    Changes g h [] := by
  have found? : ∀ id, h.block? id = (g.addBlock origin terminator).2.block? id := by
    intro id
    unfold Graph.block?
    rw [blocks]
  have kept : ∀ id block, g.block? id = some block → h.block? id = some block := by
    intro id block found
    have bound := Graph.block?_bound found
    rw [found?, Graph.block?_addBlock, if_neg (Nat.ne_of_lt bound)]
    exact found
  refine ⟨fun id block found _notOpen => kept id block found,
    fun id block _isOpen found => ⟨block, kept id block found, List.prefix_rfl, rfl⟩, ?_, ?_, ?_⟩
  · intro id isOpen
    rw [current] at isOpen
    obtain ⟨block, found⟩ := before id isOpen
    exact ⟨⟨block, kept id block found⟩, Or.inl isOpen⟩
  · rintro t op ⟨block, found, foundOp⟩
    change h.block? t.block = some block at found
    rw [found?, Graph.block?_addBlock] at found
    by_cases new : t.block.index = g.blocks.size
    · rw [if_pos new] at found
      cases found
      cases foundOp
    · rw [if_neg new] at found
      exact Or.inl ⟨block, found, foundOp⟩
  · exact supports ▸ List.prefix_rfl

theorem changes_splitBlock {g : Graph} {s : Site} (here : g.At s) (origin : Option Nat)
    (fresh left : Terminator) :
    Changes g { (g.addBlock origin fresh).2.setTerminator s.block left with
      current := some (g.addBlock origin fresh).1 } [] := by
  obtain ⟨block, found, _length⟩ := here.2
  have apart : (g.addBlock origin fresh).1 ≠ s.block := by
    intro same
    have bound := Graph.block?_bound found
    rw [← same] at bound
    exact Nat.lt_irrefl _ bound
  have found? : ∀ id, ({ (g.addBlock origin fresh).2.setTerminator s.block left with
      current := some (g.addBlock origin fresh).1 } : Graph).block? id =
        if id = s.block then some { block with terminator := left }
        else if id.index = g.blocks.size then some ⟨origin, [], fresh⟩ else g.block? id := by
    intro id
    change ((g.addBlock origin fresh).2.setTerminator s.block left).block? id = _
    rw [Graph.block?_setTerminator, Graph.block?_addBlock]
    by_cases same : id = s.block
    · rw [if_pos same, if_pos same, same, if_neg (Nat.ne_of_lt (Graph.block?_bound found)), found]
      rfl
    · rw [if_neg same, if_neg same]
  refine ⟨?_, ?_, ?_, ?_, List.prefix_rfl⟩
  · intro id other foundOther notOpen
    have different : id ≠ s.block := fun same => notOpen (same ▸ here.1)
    rw [found?, if_neg different, if_neg (Nat.ne_of_lt (Graph.block?_bound foundOther))]
    exact foundOther
  · intro id other isOpen foundOther
    have same : id = s.block := Option.some.inj (isOpen.symm.trans here.1)
    subst same
    cases foundOther.symm.trans found
    exact ⟨{ block with terminator := left }, (found? _).trans (if_pos rfl), List.prefix_rfl, rfl⟩
  · intro id isOpen
    cases isOpen
    refine ⟨⟨⟨origin, [], fresh⟩, ?_⟩, Or.inr (Nat.le_refl _)⟩
    rw [found?, if_neg apart]
    exact if_pos rfl
  · rintro t op ⟨other, foundOther, foundOp⟩
    have split := (found? t.block).symm.trans foundOther
    by_cases same : t.block = s.block
    · rw [if_pos same] at split
      cases split
      exact Or.inl ⟨block, same ▸ found, foundOp⟩
    · rw [if_neg same] at split
      by_cases new : t.block.index = g.blocks.size
      · rw [if_pos new] at split
        cases split
        cases foundOp
      · rw [if_neg new] at split
        exact Or.inl ⟨other, split, foundOp⟩

/-- A new block is behind all others, and no statement goes on in it by itself. -/
theorem isSealed_addBlock {b : Body} {n : Nat} {g : Graph} (before : b.Ready n g)
    (origin : Option Nat) (terminator : Terminator) :
    b.Sealed n (g.addBlock origin terminator).2 (g.addBlock origin terminator).1 := by
  constructor
  · intro isOpen
    obtain ⟨⟨block, found⟩, _later⟩ := before.current _ isOpen
    exact Nat.lt_irrefl _ (Graph.block?_bound found)
  · intro later bound starts
    obtain ⟨block, found, _empty⟩ := before.leaders later _ bound starts
    exact Nat.lt_irrefl _ (Graph.block?_bound found)

theorem hasEnd_addBlock (g : Graph) (origin : Option Nat) (terminator : Terminator) :
    (Site.first (g.addBlock origin terminator).1).HasEnd
      (g.addBlock origin terminator).2.blocks.toList terminator := by
  refine ⟨⟨origin, [], terminator⟩, ?_, rfl, rfl⟩
  change (g.addBlock origin terminator).2.block? (g.addBlock origin terminator).1 = _
  rw [Graph.block?_addBlock]
  exact if_pos rfl

end Body

end Lowering

end JumpIR
