import JumpIR.Proofs.Lowering.Graph

/-!
# Stages of one statement

What each part of lowering a statement makes of the graph: the graph before it is extended, the
graph after it is ready for more, and what was added stands at a known site.
-/

set_option autoImplicit false

namespace JumpIR.Lowering.Body

variable {b : Body} {n : Nat} {g h : Graph} {s : Site}

/-! ### Operations and terminators -/

theorem exists_at (before : b.Ready n g) {id : BlockId} (isOpen : g.current = some id) :
    ∃ s, g.At s ∧ s.block = id := by
  obtain ⟨⟨block, found⟩, _later⟩ := before.current id isOpen
  exact ⟨⟨id, block.ops.length⟩, ⟨isOpen, block, found, rfl⟩, rfl⟩

theorem pushOp_stage {op : Op} (before : b.Ready n g) (here : g.At s)
    (pushed : b.pushOp op g = .ok h) :
    b.Ready n h ∧ b.Extends n g n h [s] ∧ h.At s.succ ∧ s.HasOp h.blocks.toList op := by
  unfold pushOp at pushed
  rw [here.1] at pushed
  cases pushed
  have changed := changes_addOp here op
  obtain ⟨block, found, length⟩ := here.2
  have foundAfter : (g.addOp s.block op).block? s.block =
      some { block with ops := block.ops ++ [op] } := by
    rw [Graph.block?_addOp, if_pos rfl, found]
    rfl
  refine ⟨changed.ready before rfl rfl rfl, changed.toExtends b n, ⟨here.1, ?_⟩, ?_⟩
  · refine ⟨_, foundAfter, ?_⟩
    rw [List.length_append, length]
    rfl
  · refine ⟨_, foundAfter, ?_⟩
    rw [← length, List.getElem?_concat_length]

theorem terminate_eq {id : BlockId} (isOpen : g.current = some id) (terminator : Terminator) :
    b.terminate terminator g = .ok { g.setTerminator id terminator with current := none } := by
  unfold terminate
  rw [isOpen]

theorem terminate_stage {terminator : Terminator} (before : b.Ready n g) (here : g.At s)
    (done : b.terminate terminator g = .ok h) :
    b.Ready n h ∧ b.Extends n g n h [] ∧ h.current = none ∧
      s.HasEnd h.blocks.toList terminator ∧ b.Sealed n h s.block := by
  cases (terminate_eq here.1 terminator).symm.trans done
  have changed := changes_setTerminator here terminator
    (h := { g.setTerminator s.block terminator with current := none }) rfl rfl rfl
  exact ⟨changed.ready before rfl rfl rfl, changed.toExtends b n, rfl,
    hasEnd_setTerminator before here terminator rfl rfl⟩

private theorem at_of_changes {sites : List Site} (changed : Changes g h sites)
    (noSites : sites = []) (current : h.current = g.current) (here : g.At s) : h.At s := by
  subst noSites
  obtain ⟨block, found, length⟩ := here.2
  obtain ⟨later, foundLater, ⟨rest, whole⟩, _origin⟩ := changed.grows s.block block here.1 found
  refine ⟨current.trans here.1, later, foundLater, ?_⟩
  cases rest with
  | nil =>
      rw [← whole, List.append_nil]
      exact length
  | cons op rest =>
      have added : (⟨s.block, block.ops.length⟩ : Site).HasOp h.blocks.toList op := by
        refine ⟨later, foundLater, ?_⟩
        rw [← whole]
        simp
      rcases changed.adds _ op added with ⟨old, foundOld, foundOp⟩ | impossible
      · have same : old = block := Option.some.inj (foundOld.symm.trans found)
        subst same
        have bound := (List.getElem?_eq_some_iff.mp foundOp).1
        exact absurd bound (Nat.lt_irrefl _)
      · cases impossible

theorem propagateBlock_stage (before : b.Ready n g) :
    b.Ready n g.propagateBlock.2 ∧ b.Extends n g n g.propagateBlock.2 [] ∧
      (∀ s, g.At s → g.propagateBlock.2.At s) ∧
      (Site.first g.propagateBlock.1).HasEnd g.propagateBlock.2.blocks.toList .arbitrary ∧
      b.Sealed n g.propagateBlock.2 g.propagateBlock.1 := by
  cases chosen : g.propagate with
  | some id =>
      have same : g.propagateBlock = (id, g) := by
        unfold Graph.propagateBlock
        rw [chosen]
      rw [same]
      exact ⟨before, .refl b n g, fun _s here => here, before.propagate id chosen⟩
  | none =>
      let added := g.addBlock none .arbitrary
      have fresh : g.propagateBlock = (added.1, { added.2 with propagate := some added.1 }) := by
        unfold Graph.propagateBlock
        rw [chosen]
      rw [fresh]
      have changed : Changes g { added.2 with propagate := some added.1 } [] :=
        changes_addBlock none .arbitrary (fun id isOpen => (before.current id isOpen).1) rfl rfl rfl
      have after : b.Ready n added.2 :=
        (changes_addBlock none .arbitrary (fun id isOpen => (before.current id isOpen).1)
          rfl rfl rfl).ready before rfl rfl rfl
      have exit := hasEnd_addBlock g none .arbitrary
      have closed := isSealed_addBlock before none .arbitrary
      refine ⟨?_, changed.toExtends b n, ?_, exit, closed⟩
      · refine ⟨after.current, after.leaders, ?_, after.fallOff, after.supports⟩
        intro id same
        cases same
        exact ⟨exit, closed⟩
      · intro s here
        exact at_of_changes changed rfl rfl here

theorem fallOffBlock_stage (before : b.Ready n g) :
    b.Ready n (b.fallOffBlock g).2 ∧ b.Extends n g n (b.fallOffBlock g).2 [] ∧
      (∀ s, g.At s → (b.fallOffBlock g).2.At s) ∧
      (Site.first (b.fallOffBlock g).1).HasEnd (b.fallOffBlock g).2.blocks.toList b.fellOff ∧
      b.Sealed n (b.fallOffBlock g).2 (b.fallOffBlock g).1 := by
  cases chosen : g.fallOff with
  | some id =>
      have same : b.fallOffBlock g = (id, g) := by
        unfold fallOffBlock
        rw [chosen]
      rw [same]
      exact ⟨before, .refl b n g, fun _s here => here, before.fallOff id chosen⟩
  | none =>
      let added := g.addBlock none b.fellOff
      have fresh : b.fallOffBlock g = (added.1, { added.2 with fallOff := some added.1 }) := by
        unfold fallOffBlock
        rw [chosen]
      rw [fresh]
      have changed : Changes g { added.2 with fallOff := some added.1 } [] :=
        changes_addBlock none b.fellOff (fun id isOpen => (before.current id isOpen).1) rfl rfl rfl
      have after : b.Ready n added.2 :=
        (changes_addBlock none b.fellOff (fun id isOpen => (before.current id isOpen).1)
          rfl rfl rfl).ready before rfl rfl rfl
      have trap := hasEnd_addBlock g none b.fellOff
      have closed := isSealed_addBlock before none b.fellOff
      refine ⟨?_, changed.toExtends b n, ?_, trap, closed⟩
      · refine ⟨after.current, after.leaders, after.propagate, ?_, after.supports⟩
        intro id same
        cases same
        exact ⟨trap, closed⟩
      · intro s here
        exact at_of_changes changed rfl rfl here

/-- Behind a checked call the exit is taken on a pending exception, and else a new block. -/
theorem passOn_stage (before : b.Ready n g) (here : g.At s) (passed : b.passOn g = .ok h) :
    ∃ exit next, b.Ready n h ∧ b.Extends n g n h [] ∧ h.At (Site.first next) ∧
      (s.HasEnd h.blocks.toList (.branch (.exception .pending) exit next) ∧
        b.Sealed n h s.block) ∧
      (Site.first exit).HasEnd h.blocks.toList .arbitrary ∧ b.Sealed n h exit := by
  obtain ⟨readied, extended, stays, exits, exitSealed⟩ := propagateBlock_stage before
  unfold passOn at passed
  generalize g.propagateBlock = chosen at readied extended stays exits exitSealed passed
  obtain ⟨exit, middle⟩ := chosen
  have there := stays s here
  obtain ⟨closed, terminated, reopened⟩ := bind_ok passed
  have isOpen : (middle.addBlock none (.unreachable "")).2.current = some s.block := there.1
  cases (terminate_eq isOpen _).symm.trans terminated
  cases reopened
  let next : BlockId := (middle.addBlock none (.unreachable "")).1
  let left : Terminator := .branch (.exception .pending) exit next
  obtain ⟨block, found, length⟩ := there.2
  have bound := Graph.block?_bound found
  have apart : next ≠ s.block := by
    intro same
    rw [← same] at bound
    exact Nat.lt_irrefl _ bound
  have changed := changes_splitBlock there none (.unreachable "") left
  have after := changed.ready readied rfl rfl rfl
  refine ⟨exit, next, after, extended.trans (changed.toExtends b n), ⟨rfl, ?_⟩, ⟨?_, ?_, ?_⟩,
    (changed.hasEnd (s := Site.first exit) ⟨exits, exitSealed⟩)⟩
  · refine ⟨⟨none, [], .unreachable ""⟩, ?_, rfl⟩
    change (((middle.addBlock none (.unreachable "")).2.setTerminator s.block left).block? next) = _
    rw [Graph.block?_setTerminator, if_neg apart, Graph.block?_addBlock]
    exact if_pos rfl
  · refine ⟨{ block with terminator := left }, ?_, length.symm, rfl⟩
    change (((middle.addBlock none (.unreachable "")).2.setTerminator s.block left).block? s.block)
      = _
    rw [Graph.block?_setTerminator, if_pos rfl, Graph.block?_addBlock,
      if_neg (Nat.ne_of_lt bound), found]
    rfl
  · intro isOpen
    exact apart (Option.some.inj isOpen)
  · exact (readied.current s.block there.1).2

theorem leaderBlock?_inj {later : Nat} {id : BlockId} (starts : b.leaderBlock? n = some id)
    (startsToo : b.leaderBlock? later = some id) : later = n := by
  unfold leaderBlock? at starts startsToo
  obtain ⟨index, found, rfl⟩ := Option.map_eq_some_iff.mp starts
  obtain ⟨index', found', same⟩ := Option.map_eq_some_iff.mp startsToo
  cases same
  obtain ⟨bound, left, _first⟩ := List.findIdx?_eq_some_iff_getElem.mp found
  obtain ⟨_bound, right, _first⟩ := List.findIdx?_eq_some_iff_getElem.mp found'
  exact (eq_of_beq right).symm.trans (eq_of_beq left)

theorem Sealed.weaken {id : BlockId} (closed : b.Sealed n g id) : b.Sealed (n + 1) g id :=
  ⟨closed.1, fun later bound => closed.2 later (by omega)⟩

theorem Ready.weaken (before : b.Ready n g) : b.Ready (n + 1) g where
  current := by
    intro id isOpen
    obtain ⟨found, free⟩ := before.current id isOpen
    exact ⟨found, fun later bound => free later (by omega)⟩
  leaders := fun later id bound => before.leaders later id (by omega)
  propagate := fun id chosen =>
    ⟨(before.propagate id chosen).1, (before.propagate id chosen).2.weaken⟩
  fallOff := fun id chosen => ⟨(before.fallOff id chosen).1, (before.fallOff id chosen).2.weaken⟩
  supports := before.supports

theorem Extends.weaken (b : Body) (n : Nat) (g : Graph) : b.Extends n g (n + 1) g [] where
  grows := fun _id block found => ⟨block, found, List.prefix_rfl, rfl⟩
  keeps := fun _id _block found closed => ⟨found, closed.weaken⟩
  supports := List.prefix_rfl
  adds := fun _t _op found => Or.inl found

theorem reopen_stage {id : BlockId} (before : b.Ready n g)
    (starts : b.leaderBlock? n = some id) :
    b.Ready (n + 1) { g with current := some id } ∧
      b.Extends n g (n + 1) { g with current := some id } [] ∧
      Graph.At { g with current := some id } (Site.first id) := by
  obtain ⟨block, found, empty, origin⟩ := before.leaders n id (Nat.le_refl n) starts
  have apart : ∀ other, b.Sealed n g other →
      b.Sealed (n + 1) { g with current := some id } other := by
    intro other isSealed
    refine ⟨?_, isSealed.weaken.2⟩
    intro isOpen
    cases isOpen
    exact isSealed.2 n (Nat.le_refl n) starts
  refine ⟨⟨?_, ?_, ?_, ?_, before.supports⟩, ⟨?_, ?_, List.prefix_rfl, ?_⟩, rfl, block, found, ?_⟩
  · intro other isOpen
    cases isOpen
    refine ⟨⟨block, found⟩, ?_⟩
    intro later bound startsToo
    have same := leaderBlock?_inj starts startsToo
    omega
  · intro later other bound
    exact before.leaders later other (by omega)
  · intro other chosen
    exact ⟨(before.propagate other chosen).1, apart other (before.propagate other chosen).2⟩
  · intro other chosen
    exact ⟨(before.fallOff other chosen).1, apart other (before.fallOff other chosen).2⟩
  · intro other old foundOld
    exact ⟨old, foundOld, List.prefix_rfl, rfl⟩
  · intro other old foundOld isSealed
    exact ⟨foundOld, apart other isSealed⟩
  · intro t op foundOp
    exact Or.inl foundOp
  · rw [empty]
    rfl

/-- In front of a statement that starts a block, that block is opened, and the one before it leads
there. -/
theorem openBlock_stage (before : b.Ready n g) :
    b.Ready (n + 1) (b.openBlock n g) ∧ b.Extends n g (n + 1) (b.openBlock n g) [] ∧
      (∀ id, b.leaderBlock? n = some id → (b.openBlock n g).At (Site.first id)) ∧
      ∀ s, g.At s → (b.openBlock n g).At s ∨ ∃ id, b.leaderBlock? n = some id ∧
        s.HasEnd (b.openBlock n g).blocks.toList (.goto id) ∧
        b.Sealed (n + 1) (b.openBlock n g) s.block := by
  cases starts : b.leaderBlock? n with
  | none =>
      have same : b.openBlock n g = g := by
        unfold openBlock
        rw [starts]
      rw [same]
      refine ⟨before.weaken, .weaken b n g, ?_, fun s here => Or.inl here⟩
      intro id impossible
      cases impossible
  | some leader =>
      cases isOpen : g.current with
      | none =>
          have opened : b.openBlock n g = { g with current := some leader } := by
            unfold openBlock
            rw [starts, isOpen]
          rw [opened]
          obtain ⟨readied, extended, there⟩ := reopen_stage before starts
          refine ⟨readied, extended, ?_, ?_⟩
          · intro id same
            cases same
            exact there
          · intro s here
            cases isOpen.symm.trans here.1
      | some current =>
          have opened : b.openBlock n g =
              { g.setTerminator current (.goto leader) with current := some leader } := by
            unfold openBlock
            rw [starts, isOpen]
          rw [opened]
          obtain ⟨s, here, rfl⟩ := exists_at before isOpen
          obtain ⟨readied, extended, _closed, left⟩ :=
            terminate_stage before here (terminate_eq isOpen (.goto leader))
          obtain ⟨readied', extended', there⟩ := reopen_stage readied starts
          refine ⟨readied', extended.trans extended', ?_, ?_⟩
          · intro id same
            cases same
            exact there
          · intro t there'
            obtain ⟨block, found, length⟩ := here.2
            obtain ⟨block', found', length'⟩ := there'.2
            have sameBlock : t.block = s.block := Option.some.inj (there'.1.symm.trans here.1)
            rw [sameBlock] at found'
            cases found.symm.trans found'
            have same : t = s := by
              cases t
              cases s
              cases sameBlock
              cases length.symm.trans length'
              rfl
            subst same
            exact Or.inr ⟨leader, rfl, extended'.hasEnd left.1 left.2⟩

theorem intern_stage {op : SupportDef} {name : String} {span : Span} (before : b.Ready n g)
    (found : b.scope.globals.target? name span = .ok (some (.support op))) :
    b.Ready n (g.intern op).2 ∧ b.Extends n g n (g.intern op).2 [] ∧
      (∀ s, g.At s → (g.intern op).2.At s) ∧
      (g.intern op).2.supports[(g.intern op).1.index]? = some op := by
  obtain ⟨named, anywhere⟩ := Globals.target?_support found
  unfold Graph.intern
  cases listed : g.supports.findIdx? fun known => known.name == op.name with
  | some index =>
      refine ⟨before, .refl b n g, fun s here => here, ?_⟩
      obtain ⟨bound, sameName, _first⟩ := List.findIdx?_eq_some_iff_getElem.mp listed
      obtain ⟨otherSpan, foundToo⟩ := before.supports _ (List.getElem_mem bound)
      rw [eq_of_beq sameName, named, anywhere] at foundToo
      cases foundToo
      exact List.getElem?_eq_getElem bound
  | none =>
      refine ⟨⟨before.current, before.leaders, before.propagate, before.fallOff, ?_⟩,
        ⟨?_, ?_, List.prefix_append _ _, ?_⟩, fun s here => here, List.getElem?_concat_length⟩
      · intro known member
        rcases List.mem_append.mp member with old | new
        · exact before.supports known old
        · cases List.mem_singleton.mp new
          rw [named]
          exact ⟨span, found⟩
      · intro id block foundBlock
        exact ⟨block, foundBlock, List.prefix_rfl, rfl⟩
      · intro id block foundBlock closed
        exact ⟨foundBlock, closed⟩
      · intro t added foundOp
        exact Or.inl foundOp

end JumpIR.Lowering.Body
