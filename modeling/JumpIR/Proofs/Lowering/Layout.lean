import JumpIR.Proofs.Lowering.Stage

/-!
# Where statements end up

Each statement of a body has a site in the graph where its code starts. `Layout` tells what stands
there for each kind of statement and where control goes on, and that no operation stands anywhere
else. Main statement: every graph of a body has a layout.
-/

set_option autoImplicit false

namespace JumpIR.Lowering.Body

/-! ### What stands where -/

/-- The trap behind the last statement. -/
def trap (b : Body) : Terminator :=
  if b.scope.decl.body.isEmpty then .unreachable s!"{b.scope.name}: empty body" else b.fellOff

/-- Control at a site goes on with statement number `n`, whose code starts at `start n`. -/
def Leads (b : Body) (blocks : List Block) (start : Nat → Site) (n : Nat) (s : Site) : Prop :=
  if n < b.size then
    s = start n ∨ ∃ id, b.leaderBlock? n = some id ∧ s.HasEnd blocks (.goto id)
  else s.HasEnd blocks b.trap

/-- The code of the assignment of a value to `dest` by statement number `n`. -/
inductive Assigns (b : Body) (blocks : List Block) (supports : List SupportDef)
    (leads : Site → Prop) (n : Nat) (dest : Place) : Tree.Expr → Site → Prop where
  | value {value operand} {s : Site} (lowered : b.scope.operand value = .ok operand)
      (op : s.HasOp blocks (.assign dest operand)) (onward : leads s.succ) :
      Assigns b blocks supports leads n dest value s
  | support {callee args span items op id} {s : Site}
      (target : b.scope.globals.target? callee.name callee.span = .ok (some (.support op)))
      (arity : op.params.length = args.length) (listed : supports[id]? = some op)
      (lowered : b.scope.operands args = .ok items)
      (call : s.HasOp blocks (.call (some dest) (.support ⟨id⟩) items)) (onward : leads s.succ) :
      Assigns b blocks supports leads n dest (.call callee args span) s
  | function {callee args span items id mayRaise} {s : Site}
      (target : b.scope.globals.target? callee.name callee.span =
        .ok (some (.function id mayRaise)))
      (lowered : b.scope.operands args = .ok items)
      (call : s.HasOp blocks (.call (some dest) (.function id) items))
      (unchecked : (mayRaise && b.scope.globals.options.checkCalls && !b.testsFlag (n + 1)) = false)
      (onward : leads s.succ) :
      Assigns b blocks supports leads n dest (.call callee args span) s
  | checked {callee args span items id mayRaise exit next} {s : Site}
      (target : b.scope.globals.target? callee.name callee.span =
        .ok (some (.function id mayRaise)))
      (lowered : b.scope.operands args = .ok items)
      (call : s.HasOp blocks (.call (some dest) (.function id) items))
      (checks : (mayRaise && b.scope.globals.options.checkCalls && !b.testsFlag (n + 1)) = true)
      (test : s.succ.HasEnd blocks (.branch (.exception .pending) exit next))
      (exits : (Site.first exit).HasEnd blocks .arbitrary) (onward : leads (Site.first next)) :
      Assigns b blocks supports leads n dest (.call callee args span) s

/-- The code of statement number `n`, from a site on to where `leads` holds. -/
inductive Performs (b : Body) (blocks : List Block) (supports : List SupportDef)
    (leads : Site → Prop) (n : Nat) : Tree.StmtKind → Site → Prop where
  | declare {name type id} {s : Site} (known : b.scope.local? name.name = some id)
      (op : s.HasOp blocks (.declare id)) (onward : leads s.succ) :
      Performs b blocks supports leads n (.declare name type none) s
  | declareInit {name type value id} {s : Site} (known : b.scope.local? name.name = some id)
      (op : s.HasOp blocks (.declare id))
      (init : Assigns b blocks supports leads n (.whole (.localVar id)) value s.succ) :
      Performs b blocks supports leads n (.declare name type (some value)) s
  | assign {target value dest} {s : Site} (lowered : b.scope.place target = .ok dest)
      (code : Assigns b blocks supports leads n dest value s) :
      Performs b blocks supports leads n (.assign target value) s
  | jump {cond target location operand thenBlock elseBlock}
      {s : Site}
      (lowered : b.scope.operand cond = .ok operand)
      (starts : b.leaderBlock? target = some thenBlock)
      (left : s.HasEnd blocks (.branch operand thenBlock elseBlock))
      (onward : leads (Site.first elseBlock)) :
      Performs b blocks supports leads n (.jump cond target location) s
  | goto {target id} {s : Site} (starts : b.leaderBlock? target = some id)
      (left : s.HasEnd blocks (.goto id)) :
      Performs b blocks supports leads n (.goto target) s
  | finish {s : Site} (left : s.HasEnd blocks .ret) : Performs b blocks supports leads n .finish s
  | arbitrary {s : Site} (left : s.HasEnd blocks .arbitrary) :
      Performs b blocks supports leads n .arbitrary s
  | unreachable {s : Site}
      (left : s.HasEnd blocks (.unreachable s!"{b.scope.name}: statement {n}")) :
      Performs b blocks supports leads n .unreachable s

/-- The code of a whole body: where each statement starts and what is done there. -/
structure Layout (b : Body) (blocks : List Block) (supports : List SupportDef) where
  start : Nat → Site
  entry : b.Leads blocks start 0 (Site.first ⟨0⟩)
  starts : ∀ n id, b.leaderBlock? n = some id → start n = Site.first id
  performs : ∀ n stmt, b.stmt? n = some stmt →
    Performs b blocks supports (b.Leads blocks start (n + 1)) n stmt.kind (start n)
  /-- No operation belongs to no statement. -/
  covers : ∀ (s : Site) (op : Op), s.HasOp blocks op → ∃ n stmt, b.stmt? n = some stmt ∧
    (s = start n ∨
      s = (start n).succ ∧ ∃ name type value, stmt.kind = .declare name type (some value))
  origins : ∀ n id, b.leaderBlock? n = some id →
    ∃ block, blocks[id.index]? = some block ∧ block.origin = some n

/-! ### Stages of a body -/

/-- The whole graph, as far as the statements before number `n`, which led to `g`, can tell. -/
structure Whole (b : Body) (n : Nat) (g : Graph) (blocks : List Block)
    (supports : List SupportDef) (leads : Site → Prop) : Prop where
  hasOp : ∀ (s : Site) (op : Op), s.HasOp g.blocks.toList op → s.HasOp blocks op
  hasEnd : ∀ (s : Site) (terminator : Terminator), s.HasEnd g.blocks.toList terminator →
    b.Sealed n g s.block →
    s.HasEnd blocks terminator
  supports : g.supports <+: supports
  onward : ∀ s : Site, g.At s → leads s
  leader : ∀ id, n < b.size → b.leaderBlock? n = some id → leads (Site.first id)
  fellOff : ∀ s : Site, b.size ≤ n → s.HasEnd blocks b.fellOff → leads s

section

variable {b : Body} {n index : Nat} {g h : Graph} {blocks : List Block}
  {supports : List SupportDef} {leads : Site → Prop} {s : Site}

theorem Whole.before {sites : List Site} (whole : b.Whole n h blocks supports leads)
    (extended : b.Extends n g n h sites) (stays : ∀ s, g.At s → h.At s) :
    b.Whole n g blocks supports leads where
  hasOp := fun s op found => whole.hasOp s op (extended.hasOp found)
  hasEnd := by
    intro s terminator found closed
    obtain ⟨later, closed⟩ := extended.hasEnd found closed
    exact whole.hasEnd s terminator later closed
  supports := extended.supports.trans whole.supports
  onward := fun s here => whole.onward s (stays s here)
  leader := whole.leader
  fellOff := whole.fellOff

/-- The code of an assignment is one operation, and what follows a checked call. -/
theorem assign_stage {dest : Place} {value : Tree.Expr} (before : b.Ready n g) (here : g.At s)
    (assigned : b.assign index dest value g = .ok h) :
    b.Ready n h ∧ b.Extends n g n h [s] ∧
      ∀ blocks supports leads, b.Whole n h blocks supports leads →
        Assigns b blocks supports leads index dest value s := by
  have plain : ∀ operand, b.scope.operand value = .ok operand →
      b.pushOp (.assign dest operand) g = .ok h →
      b.Ready n h ∧ b.Extends n g n h [s] ∧
        ∀ blocks supports leads, b.Whole n h blocks supports leads →
          Assigns b blocks supports leads index dest value s := by
    intro operand lowered pushed
    obtain ⟨after, extended, there, op⟩ := pushOp_stage before here pushed
    refine ⟨after, extended, ?_⟩
    intro blocks supports leads whole
    exact .value lowered (whole.hasOp _ _ op) (whole.onward _ there)
  unfold Body.assign at assigned
  split at assigned
  · rename_i callee args span
    obtain ⟨target, found, assigned⟩ := bind_ok assigned
    split at assigned
    · rename_i union tag
      obtain ⟨items, lowered, pushed⟩ := bind_ok assigned
      refine plain _ ?_ pushed
      rw [Scope.operand, bind_of_ok found]
      dsimp only
      rw [bind_of_ok lowered]
    · rename_i op
      obtain ⟨ready, interned, stays, listed⟩ := intern_stage before found
      generalize g.intern op = chosen at ready interned stays listed assigned
      obtain ⟨id, middle⟩ := chosen
      by_cases arity : op.params.length = args.length
      · dsimp only at assigned
        rw [if_pos arity] at assigned
        obtain ⟨items, lowered, pushed⟩ := bind_ok assigned
        obtain ⟨after, extended, there, call⟩ := pushOp_stage ready (stays s here) pushed
        refine ⟨after, interned.trans extended, ?_⟩
        intro blocks supports leads whole
        obtain ⟨rest, same⟩ := extended.supports.trans whole.supports
        refine .support found arity ?_ lowered (whole.hasOp _ _ call) (whole.onward _ there)
        rw [← same, List.getElem?_append_left (List.getElem?_eq_some_iff.mp listed).1]
        exact listed
      · dsimp only at assigned
        rw [if_neg arity] at assigned
        cases assigned
    · rename_i id mayRaise
      obtain ⟨middle, called, assigned⟩ := bind_ok assigned
      obtain ⟨items, lowered, pushed⟩ := bind_ok called
      obtain ⟨ready, extended, there, call⟩ := pushOp_stage before here pushed
      by_cases checks :
          (mayRaise && b.scope.globals.options.checkCalls && !b.testsFlag (index + 1)) = true
      · rw [if_pos checks] at assigned
        obtain ⟨exit, next, after, extended', there', test, exits⟩ :=
          passOn_stage ready there assigned
        refine ⟨after, extended.trans extended', ?_⟩
        intro blocks supports leads whole
        exact .checked found lowered (whole.hasOp _ _ (extended'.hasOp call)) checks
          (whole.hasEnd _ _ test.1 test.2) (whole.hasEnd _ _ exits.1 exits.2)
          (whole.onward _ there')
      · rw [if_neg checks] at assigned
        cases assigned
        refine ⟨ready, extended, ?_⟩
        intro blocks supports leads whole
        exact .function found lowered (whole.hasOp _ _ call) (Bool.eq_false_iff.mpr checks)
          (whole.onward _ there)
    · cases assigned
  · obtain ⟨operand, lowered, pushed⟩ := bind_ok assigned
    exact plain operand lowered pushed

/-! ### Stages of a body -/

theorem exists_current_of_pushOp {op : Op} (pushed : b.pushOp op g = .ok h) :
    ∃ id, g.current = some id := by
  unfold pushOp at pushed
  cases isOpen : g.current with
  | none =>
      rw [isOpen] at pushed
      cases pushed
  | some id => exact ⟨id, rfl⟩

theorem exists_current_of_terminate {terminator : Terminator}
    (done : b.terminate terminator g = .ok h) : ∃ id, g.current = some id := by
  unfold terminate at done
  cases isOpen : g.current with
  | none =>
      rw [isOpen] at done
      cases done
  | some id => exact ⟨id, rfl⟩

theorem exists_current_of_assign {dest : Place} {value : Tree.Expr}
    (assigned : b.assign index dest value g = .ok h) : ∃ id, g.current = some id := by
  unfold Body.assign at assigned
  split at assigned
  · obtain ⟨target, _found, assigned⟩ := bind_ok assigned
    split at assigned
    · obtain ⟨items, _lowered, pushed⟩ := bind_ok assigned
      exact exists_current_of_pushOp pushed
    · rename_i op
      have stays : (g.intern op).2.current = g.current := by
        unfold Graph.intern
        split <;> rfl
      rw [← stays]
      generalize g.intern op = chosen at assigned
      obtain ⟨id, middle⟩ := chosen
      dsimp only at assigned
      split at assigned
      · obtain ⟨items, _lowered, pushed⟩ := bind_ok assigned
        exact exists_current_of_pushOp pushed
      · cases assigned
    · obtain ⟨middle, called, _passed⟩ := bind_ok assigned
      obtain ⟨items, _lowered, pushed⟩ := bind_ok called
      exact exists_current_of_pushOp pushed
    · cases assigned
  · obtain ⟨operand, _lowered, pushed⟩ := bind_ok assigned
    exact exists_current_of_pushOp pushed

theorem exists_current_of_statement {stmt : Tree.Stmt}
    (lowered : b.statement index stmt g = .ok h) : ∃ id, g.current = some id := by
  unfold statement at lowered
  split at lowered
  · split at lowered
    · cases lowered
    · obtain ⟨middle, pushed, _init⟩ := bind_ok lowered
      exact exists_current_of_pushOp pushed
  · obtain ⟨dest, _placed, assigned⟩ := bind_ok lowered
    exact exists_current_of_assign assigned
  · obtain ⟨cond, _lowered, lowered⟩ := bind_ok lowered
    obtain ⟨thenBlock, _starts, lowered⟩ := bind_ok lowered
    split at lowered
    · obtain ⟨elseBlock, _starts, done⟩ := bind_ok lowered
      exact exists_current_of_terminate done
    · have stays : (b.fallOffBlock g).2.current = g.current := by
        unfold fallOffBlock
        split <;> rfl
      rw [← stays]
      exact exists_current_of_terminate lowered
  · obtain ⟨id, _starts, done⟩ := bind_ok lowered
    exact exists_current_of_terminate done
  · exact exists_current_of_terminate lowered
  · exact exists_current_of_terminate lowered
  · exact exists_current_of_terminate lowered

theorem leaderBlock?_of_blockOf {id : BlockId} (found : b.blockOf index = .ok id) :
    b.leaderBlock? index = some id := by
  unfold blockOf at found
  cases starts : b.leaderBlock? index with
  | none =>
      rw [starts] at found
      cases found
  | some other =>
      rw [starts] at found
      cases found
      rfl

private theorem terminator_stage {kind : Tree.StmtKind} {terminator : Terminator}
    (before : b.Ready (n + 1) g) (here : g.At s) (done : b.terminate terminator g = .ok h)
    (performs : ∀ blocks supports leads, b.Whole (n + 1) h blocks supports leads →
      s.HasEnd blocks terminator → Performs b blocks supports leads n kind s) :
    b.Ready (n + 1) h ∧ ∃ sites, b.Extends (n + 1) g (n + 1) h sites ∧
      (∀ t ∈ sites, t = s ∨
        t = s.succ ∧ ∃ name type value, kind = .declare name type (some value)) ∧
      ∀ blocks supports leads, b.Whole (n + 1) h blocks supports leads →
        Performs b blocks supports leads n kind s := by
  obtain ⟨after, extended, _closed, left⟩ := terminate_stage before here done
  refine ⟨after, [], extended, ?_, ?_⟩
  · intro t member
    cases member
  · intro blocks supports leads whole
    exact performs blocks supports leads whole (whole.hasEnd _ _ left.1 left.2)

theorem declare_stage {name : Tree.Ident} {type : Tree.TypeExpr} {init : Option Tree.Expr}
    {span : Span} (before : b.Ready (n + 1) g) (here : g.At s)
    (lowered : b.statement n ⟨.declare name type init, span⟩ g = .ok h) :
    b.Ready (n + 1) h ∧ ∃ sites, b.Extends (n + 1) g (n + 1) h sites ∧
      (∀ t ∈ sites, t = s ∨ t = s.succ ∧ ∃ value, init = some value) ∧
      ∀ blocks supports leads, b.Whole (n + 1) h blocks supports leads →
        Performs b blocks supports leads n (.declare name type init) s := by
  unfold statement at lowered
  dsimp only at lowered
  cases known : b.scope.local? name.name with
  | none =>
      rw [known] at lowered
      cases lowered
  | some id =>
      rw [known] at lowered
      obtain ⟨middle, pushed, lowered⟩ := bind_ok lowered
      obtain ⟨ready, extended, there, op⟩ := pushOp_stage before here pushed
      cases init with
      | none =>
          cases lowered
          refine ⟨ready, [s], extended, ?_, ?_⟩
          · intro t member
            exact Or.inl (List.mem_singleton.mp member)
          · intro blocks supports leads whole
            exact .declare known (whole.hasOp _ _ op) (whole.onward _ there)
      | some value =>
          obtain ⟨after, extended', assigns⟩ := assign_stage ready there lowered
          refine ⟨after, [s] ++ [s.succ], extended.trans extended', ?_, ?_⟩
          · intro t member
            rcases List.mem_append.mp member with first | second
            · exact Or.inl (List.mem_singleton.mp first)
            · exact Or.inr ⟨List.mem_singleton.mp second, value, rfl⟩
          · intro blocks supports leads whole
            exact .declareInit known (whole.hasOp _ _ (extended'.hasOp op))
              (assigns blocks supports leads whole)

/-- A jump goes on with the next statement, or to the trap where there is none. -/
theorem jump_stage {cond : Tree.Expr} {target : Nat} {location : Option String} {span : Span}
    (before : b.Ready (n + 1) g) (here : g.At s)
    (lowered : b.statement n ⟨.jump cond target location, span⟩ g = .ok h) :
    b.Ready (n + 1) h ∧ ∃ sites, b.Extends (n + 1) g (n + 1) h sites ∧ sites = [] ∧
      ∀ blocks supports leads, b.Whole (n + 1) h blocks supports leads →
        Performs b blocks supports leads n (.jump cond target location) s := by
  unfold statement at lowered
  obtain ⟨operand, condition, lowered⟩ := bind_ok lowered
  obtain ⟨thenBlock, starts, lowered⟩ := bind_ok lowered
  by_cases inside : n + 1 < b.size
  · rw [if_pos inside] at lowered
    obtain ⟨elseBlock, next, done⟩ := bind_ok lowered
    obtain ⟨after, extended, _closed, left⟩ := terminate_stage before here done
    refine ⟨after, [], extended, rfl, ?_⟩
    intro blocks supports leads whole
    exact .jump condition (leaderBlock?_of_blockOf starts) (whole.hasEnd _ _ left.1 left.2)
      (whole.leader _ inside (leaderBlock?_of_blockOf next))
  · rw [if_neg inside] at lowered
    obtain ⟨ready, extended, stays, traps, closed⟩ := fallOffBlock_stage before
    generalize b.fallOffBlock g = chosen at ready extended stays traps closed lowered
    obtain ⟨elseBlock, middle⟩ := chosen
    obtain ⟨after, extended', _closed, left⟩ := terminate_stage ready (stays s here) lowered
    refine ⟨after, [] ++ [], extended.trans extended', rfl, ?_⟩
    intro blocks supports leads whole
    obtain ⟨traps, closed⟩ := extended'.hasEnd traps closed
    exact .jump condition (leaderBlock?_of_blockOf starts) (whole.hasEnd _ _ left.1 left.2)
      (whole.fellOff _ (by omega) (whole.hasEnd _ _ traps closed))

theorem kind_stage {stmt : Tree.Stmt} (before : b.Ready (n + 1) g) (here : g.At s)
    (lowered : b.statement n stmt g = .ok h) :
    b.Ready (n + 1) h ∧ ∃ sites, b.Extends (n + 1) g (n + 1) h sites ∧
      (∀ t ∈ sites, t = s ∨
        t = s.succ ∧ ∃ name type value, stmt.kind = .declare name type (some value)) ∧
      ∀ blocks supports leads, b.Whole (n + 1) h blocks supports leads →
        Performs b blocks supports leads n stmt.kind s := by
  obtain ⟨kind, span⟩ := stmt
  cases kind with
  | declare name type init =>
      obtain ⟨after, sites, extended, only, performs⟩ := declare_stage before here lowered
      refine ⟨after, sites, extended, ?_, performs⟩
      intro t member
      rcases only t member with first | ⟨second, value, rfl⟩
      · exact Or.inl first
      · exact Or.inr ⟨second, name, type, value, rfl⟩
  | assign target value =>
      obtain ⟨dest, placed, assigned⟩ := bind_ok lowered
      obtain ⟨after, extended, assigns⟩ := assign_stage before here assigned
      refine ⟨after, [s], extended, ?_, ?_⟩
      · intro t member
        exact Or.inl (List.mem_singleton.mp member)
      · intro blocks supports leads whole
        exact .assign placed (assigns blocks supports leads whole)
  | jump cond target location =>
      obtain ⟨after, sites, extended, none, performs⟩ := jump_stage before here lowered
      refine ⟨after, sites, extended, ?_, performs⟩
      intro t member
      rw [none] at member
      cases member
  | goto target =>
      obtain ⟨id, starts, done⟩ := bind_ok lowered
      refine terminator_stage before here done ?_
      intro blocks supports leads _whole left
      exact .goto (leaderBlock?_of_blockOf starts) left
  | finish => exact terminator_stage before here lowered fun _ _ _ _ left => .finish left
  | arbitrary => exact terminator_stage before here lowered fun _ _ _ _ left => .arbitrary left
  | unreachable => exact terminator_stage before here lowered fun _ _ _ _ left => .unreachable left

theorem at_unique {s t : Site} (here : g.At s) (there : g.At t) : t = s := by
  obtain ⟨isOpen, block, found, length⟩ := here
  obtain ⟨isOpen', block', found', length'⟩ := there
  have same : t.block = s.block := Option.some.inj (isOpen'.symm.trans isOpen)
  rw [same] at found'
  cases found.symm.trans found'
  cases s
  cases t
  cases same
  cases length.symm.trans length'
  rfl

theorem statement_stage {stmt : Tree.Stmt} (before : b.Ready n g)
    (lowered : b.statement n stmt (b.openBlock n g) = .ok h) :
    ∃ s sites, b.Ready (n + 1) h ∧ b.Extends n g (n + 1) h sites ∧
      (∀ t ∈ sites, t = s ∨
        t = s.succ ∧ ∃ name type value, stmt.kind = .declare name type (some value)) ∧
      (∀ id, b.leaderBlock? n = some id → s = Site.first id) ∧
      (∀ t, g.At t → t = s ∨ ∃ id, b.leaderBlock? n = some id ∧
        t.HasEnd h.blocks.toList (.goto id) ∧ b.Sealed (n + 1) h t.block) ∧
      ∀ blocks supports leads, b.Whole (n + 1) h blocks supports leads →
        Performs b blocks supports leads n stmt.kind s := by
  obtain ⟨ready, extended, starts, leads⟩ := openBlock_stage before
  obtain ⟨id, isOpen⟩ := exists_current_of_statement lowered
  obtain ⟨s, here, _block⟩ := exists_at ready isOpen
  obtain ⟨after, sites, extended', only, performs⟩ := kind_stage ready here lowered
  refine ⟨s, [] ++ sites, after, extended.trans extended', only, ?_, ?_, performs⟩
  · intro id leader
    exact at_unique (starts id leader) here
  · intro t open'
    rcases leads t open' with same | ⟨id, leader, left, closed⟩
    · exact Or.inl (at_unique here same)
    · exact Or.inr ⟨id, leader, extended'.hasEnd left closed⟩

/-- What is known of the statements from number `n` on, once the graph is complete. -/
structure Placed (b : Body) (n : Nat) (g : Graph) (blocks : List Block)
    (supports : List SupportDef) (sites : List Site) (start : Nat → Site) : Prop where
  extension : ∃ m h, b.Extends n g m h sites ∧ h.blocks.toList = blocks ∧ h.supports = supports
  lists : b.scope.globals.Lists supports
  starts : ∀ later id, n ≤ later → later < b.size → b.leaderBlock? later = some id →
    start later = Site.first id
  onward : ∀ s, g.At s → b.Leads blocks start n s
  performs : ∀ later stmt, n ≤ later → b.stmt? later = some stmt →
    Performs b blocks supports (b.Leads blocks start (later + 1)) later stmt.kind (start later)
  covers : ∀ s ∈ sites, ∃ later stmt, n ≤ later ∧ b.stmt? later = some stmt ∧
    (s = start later ∨
      s = (start later).succ ∧ ∃ name type value, stmt.kind = .declare name type (some value))

theorem leads_congr {start other : Nat → Site} (same : n < b.size → start n = other n)
    (leads : b.Leads blocks start n s) : b.Leads blocks other n s := by
  unfold Leads at leads ⊢
  by_cases inside : n < b.size
  · rw [if_pos inside] at leads ⊢
    rw [← same inside]
    exact leads
  · rw [if_neg inside] at leads ⊢
    exact leads

theorem Performs.mono {more : List SupportDef} {leads' : Site → Prop} {kind : Tree.StmtKind}
    (grown : supports <+: more) (weaker : ∀ s, leads s → leads' s)
    (performs : Performs b blocks supports leads n kind s) :
    Performs b blocks more leads' n kind s := by
  have assigns : ∀ {dest value s}, Assigns b blocks supports leads n dest value s →
      Assigns b blocks more leads' n dest value s := by
    intro dest value s code
    cases code with
    | value lowered op onward => exact .value lowered op (weaker _ onward)
    | support target arity listed lowered call onward =>
        obtain ⟨rest, whole⟩ := grown
        refine .support target arity ?_ lowered call (weaker _ onward)
        rw [← whole, List.getElem?_append_left (List.getElem?_eq_some_iff.mp listed).1]
        exact listed
    | function target lowered call unchecked onward =>
        exact .function target lowered call unchecked (weaker _ onward)
    | checked target lowered call checks test exits onward =>
        exact .checked target lowered call checks test exits (weaker _ onward)
  cases performs with
  | declare known op onward => exact .declare known op (weaker _ onward)
  | declareInit known op init => exact .declareInit known op (assigns init)
  | assign lowered code => exact .assign lowered (assigns code)
  | jump lowered starts left onward => exact .jump lowered starts left (weaker _ onward)
  | goto starts left => exact .goto starts left
  | finish left => exact .finish left
  | arbitrary left => exact .arbitrary left
  | unreachable left => exact .unreachable left

theorem trap_eq_fellOff (nonempty : b.scope.decl.body ≠ []) : b.trap = b.fellOff := by
  unfold trap
  rw [if_neg]
  rw [List.isEmpty_iff]
  exact nonempty

theorem stmt?_lt {stmt : Tree.Stmt} (found : b.stmt? n = some stmt) : n < b.size :=
  (List.getElem?_eq_some_iff.mp found).1

theorem Placed.whole {sites : List Site} {start : Nat → Site} (nonempty : b.scope.decl.body ≠ [])
    (placed : b.Placed n g blocks supports sites start) :
    b.Whole n g blocks supports (b.Leads blocks start n) := by
  obtain ⟨m, h, extended, rfl, rfl⟩ := placed.extension
  refine ⟨fun s op found => extended.hasOp found,
    fun s terminator found closed => (extended.hasEnd found closed).1, extended.supports,
    placed.onward, ?_, ?_⟩
  · intro id inside leader
    unfold Leads
    rw [if_pos inside]
    exact Or.inl (placed.starts n id (Nat.le_refl n) inside leader).symm
  · intro s behind traps
    unfold Leads
    rw [if_neg (by omega), trap_eq_fellOff nonempty]
    exact traps

/-- Closing the graph gives what is still open its end, and changes nothing else. -/
theorem close_stage (before : b.Ready n g) :
    b.Extends n g n (b.close g) [] ∧
      (∀ s, g.At s → s.HasEnd (b.close g).blocks.toList b.fellOff) ∧
      (b.close g).supports = g.supports := by
  unfold close
  cases isOpen : g.current with
  | none =>
      refine ⟨.refl b n g, ?_, rfl⟩
      intro s here
      cases isOpen.symm.trans here.1
  | some id =>
      obtain ⟨s, here, rfl⟩ := exists_at before isOpen
      have changed := changes_setTerminator here b.fellOff
        (h := { g.setTerminator s.block b.fellOff with current := none }) rfl rfl rfl
      refine ⟨changed.toExtends b n, ?_, rfl⟩
      intro t there
      cases at_unique here there
      exact (hasEnd_setTerminator (h := { g.setTerminator s.block b.fellOff with
        current := none }) before here b.fellOff rfl rfl).1

theorem placed_close (nonempty : b.scope.decl.body ≠ []) (before : b.Ready n g)
    (atEnd : b.size ≤ n) :
    b.Placed n g (b.close g).blocks.toList (b.close g).supports [] (fun _ => Site.first ⟨0⟩) := by
  obtain ⟨extended, closed, supports⟩ := close_stage before
  refine ⟨⟨n, b.close g, extended, rfl, rfl⟩, supports ▸ before.supports, ?_, ?_, ?_, ?_⟩
  · intro later id bound inside
    omega
  · intro s here
    unfold Leads
    rw [if_neg (by omega), trap_eq_fellOff nonempty]
    exact closed s here
  · intro later stmt bound found
    have inside := stmt?_lt found
    omega
  · intro s impossible
    cases impossible

theorem Placed.cons {stmt : Tree.Stmt} {sites later : List Site} {start : Nat → Site}
    (nonempty : b.scope.decl.body ≠ []) (found : b.stmt? n = some stmt)
    (extended : b.Extends n g (n + 1) h sites)
    (only : ∀ t ∈ sites, t = s ∨
      t = s.succ ∧ ∃ name type value, stmt.kind = .declare name type (some value))
    (starts : ∀ id, b.leaderBlock? n = some id → s = Site.first id)
    (leads : ∀ t, g.At t → t = s ∨ ∃ id, b.leaderBlock? n = some id ∧
      t.HasEnd h.blocks.toList (.goto id) ∧ b.Sealed (n + 1) h t.block)
    (performs : ∀ blocks supports leads, b.Whole (n + 1) h blocks supports leads →
      Performs b blocks supports leads n stmt.kind s)
    (placed : b.Placed (n + 1) h blocks supports later start) :
    b.Placed n g blocks supports (sites ++ later)
      (fun number => if number = n then s else start number) := by
  have whole := placed.whole nonempty
  generalize joined : (fun number => if number = n then s else start number) = both
  have atN : both n = s := by
    rw [← joined]
    exact if_pos rfl
  have behind : ∀ number, number ≠ n → both number = start number := by
    intro number other
    rw [← joined]
    exact if_neg other
  refine ⟨?_, placed.lists, ?_, ?_, ?_, ?_⟩
  · obtain ⟨m, last, extended', blocks, supports⟩ := placed.extension
    exact ⟨m, last, extended.trans extended', blocks, supports⟩
  · intro number id bound inside leader
    by_cases same : number = n
    · subst same
      rw [atN]
      exact starts id leader
    · rw [behind number same]
      exact placed.starts number id (by omega) inside leader
  · intro t here
    unfold Leads
    rw [if_pos (stmt?_lt found), atN]
    rcases leads t here with same | ⟨id, leader, left, closed⟩
    · exact Or.inl same
    · exact Or.inr ⟨id, leader, whole.hasEnd _ _ left closed⟩
  · intro number other bound foundOther
    have onward : ∀ t, b.Leads blocks start (number + 1) t →
        b.Leads blocks both (number + 1) t := by
      intro t
      exact leads_congr fun _ => (behind (number + 1) (by omega)).symm
    by_cases same : number = n
    · subst same
      cases found.symm.trans foundOther
      rw [atN]
      exact (performs _ _ _ whole).mono List.prefix_rfl onward
    · rw [behind number same]
      exact (placed.performs number other (by omega) foundOther).mono List.prefix_rfl onward
  · intro t member
    rcases List.mem_append.mp member with here | there
    · refine ⟨n, stmt, Nat.le_refl n, found, ?_⟩
      rw [atN]
      exact only t here
    · obtain ⟨number, other, bound, foundOther, sites⟩ := placed.covers t there
      refine ⟨number, other, by omega, foundOther, ?_⟩
      rw [behind number (by omega)]
      exact sites

/-- The statements from number `n` on have their places in the closed graph. -/
theorem statements_stage (nonempty : b.scope.decl.body ≠ []) (rest : List Tree.Stmt) :
    ∀ n g h, b.scope.decl.body.drop n = rest → b.Ready n g → b.statements n rest g = .ok h →
      ∃ sites start, b.Placed n g (b.close h).blocks.toList (b.close h).supports sites start := by
  -- The last statement is placed first: the ones before it need to know the whole graph behind.
  induction rest with
  | nil =>
      intro n g h isRest before lowered
      cases lowered
      exact ⟨[], _, placed_close nonempty before (List.drop_eq_nil_iff.mp isRest)⟩
  | cons stmt rest ih =>
      intro n g h isRest before lowered
      obtain ⟨middle, first, others⟩ := bind_ok lowered
      have found : b.stmt? n = some stmt := by
        unfold stmt?
        rw [← List.head?_drop, isRest]
        rfl
      have isRest' : b.scope.decl.body.drop (n + 1) = rest := by
        rw [← List.drop_drop, isRest]
        rfl
      obtain ⟨s, sites, ready, extended, only, starts, leads, performs⟩ :=
        statement_stage before first
      obtain ⟨later, start, placed⟩ := ih (n + 1) middle h isRest' ready others
      exact ⟨_, _, placed.cons nonempty found extended only starts leads performs⟩

theorem leaderBlock?_eq_some {id : BlockId} :
    b.leaderBlock? n = some id ↔
      b.leaders.findIdx? (fun leader => leader == n) = some id.index := by
  unfold leaderBlock?
  cases b.leaders.findIdx? fun leader => leader == n with
  | none => simp
  | some index =>
      cases id
      simp

theorem leaderBlock?_lt {id : BlockId} (cut : b.leaders = Lowering.leaders b.scope.decl.body)
    (leader : b.leaderBlock? n = some id) : n < b.size := by
  obtain ⟨bound, found, _first⟩ :=
    List.findIdx?_eq_some_iff_getElem.mp (leaderBlock?_eq_some.mp leader)
  have member := List.getElem_mem bound
  rw [eq_of_beq found, cut] at member
  exact List.mem_range.mp (List.mem_filter.mp member).1

theorem leaderBlock?_zero (cut : b.leaders = Lowering.leaders b.scope.decl.body)
    (nonempty : b.scope.decl.body ≠ []) : b.leaderBlock? 0 = some ⟨0⟩ := by
  rw [leaderBlock?_eq_some, cut]
  unfold Lowering.leaders
  cases body : b.scope.decl.body with
  | nil => exact absurd body nonempty
  | cons first rest =>
      rw [List.length_cons, List.range_succ_eq_map, List.filter_cons_of_pos rfl,
        List.findIdx?_cons]
      rfl

theorem block?_ofLeaders (list : List Nat) (supports : List SupportDef) (id : BlockId) :
    (Graph.ofLeaders list supports).block? id =
      list[id.index]?.map fun leader => ⟨some leader, [], .unreachable ""⟩ :=
  List.getElem?_map

theorem ready_ofLeaders (b : Body) {supports : List SupportDef}
    (lists : b.scope.globals.Lists supports) :
    b.Ready 0 (.ofLeaders b.leaders supports) where
  current := by
    intro id impossible
    cases impossible
  leaders := by
    intro later id _bound starts
    obtain ⟨bound, found, _first⟩ :=
      List.findIdx?_eq_some_iff_getElem.mp (leaderBlock?_eq_some.mp starts)
    refine ⟨⟨some later, [], .unreachable ""⟩, ?_, rfl, rfl⟩
    rw [block?_ofLeaders, List.getElem?_eq_getElem bound, eq_of_beq found]
    rfl
  propagate := by
    intro id impossible
    cases impossible
  fallOff := by
    intro id impossible
    cases impossible
  supports := lists

/-- Every graph of a body is laid out as its statements say. -/
theorem exists_layout (cut : b.leaders = Lowering.leaders b.scope.decl.body)
    (nonempty : b.scope.decl.body ≠ []) (lists : b.scope.globals.Lists supports)
    (lowered : b.graph supports = .ok g) :
    Nonempty (b.Layout g.blocks.toList g.supports) ∧ supports <+: g.supports ∧
      b.scope.globals.Lists g.supports := by
  obtain ⟨_checked, _targets, lowered⟩ := bind_ok lowered
  obtain ⟨last, built, same⟩ := bind_ok lowered
  cases same
  obtain ⟨sites, start, placed⟩ := statements_stage nonempty b.scope.decl.body 0
    (.ofLeaders b.leaders supports) last rfl (ready_ofLeaders b lists) built
  obtain ⟨m, h, extended, blocks, after⟩ := placed.extension
  refine ⟨⟨start, ?_, ?_, ?_, ?_, ?_⟩, ?_, placed.lists⟩
  · have first := leaderBlock?_zero cut nonempty
    have inside : 0 < b.size := List.length_pos_iff.mpr nonempty
    unfold Leads
    rw [if_pos inside]
    exact Or.inl (placed.starts 0 ⟨0⟩ (Nat.zero_le 0) inside first).symm
  · intro n id leader
    exact placed.starts n id (Nat.zero_le n) (leaderBlock?_lt cut leader) leader
  · intro n stmt found
    exact placed.performs n stmt (Nat.zero_le n) found
  · intro s op found
    rw [← blocks] at found
    rcases extended.adds s op found with ⟨block, foundBlock, foundOp⟩ | member
    · have atFirst := (block?_ofLeaders b.leaders supports s.block).symm.trans foundBlock
      obtain ⟨leader, _listed, same⟩ := Option.map_eq_some_iff.mp atFirst
      subst same
      cases foundOp
    · obtain ⟨n, stmt, _bound, foundStmt, where'⟩ := placed.covers s member
      exact ⟨n, stmt, foundStmt, where'⟩
  · intro n id leader
    obtain ⟨block, found, _empty, origin⟩ :=
      (ready_ofLeaders b lists).leaders n id (Nat.zero_le n) leader
    obtain ⟨later, foundLater, _grown, origin'⟩ := extended.grows id block found
    rw [← blocks]
    exact ⟨later, foundLater, origin'.trans origin⟩
  · rw [← after]
    exact extended.supports

/-- The block of a body without statements is its trap. -/
def Layout.ofEmpty (empty : b.scope.decl.body = []) (supports : List SupportDef)
    (cut : b.leaders = Lowering.leaders b.scope.decl.body) :
    b.Layout [⟨none, [], b.trap⟩] supports where
  start := fun _ => Site.first ⟨0⟩
  entry := by
    unfold Leads size
    rw [if_neg (by rw [empty]; exact Nat.lt_irrefl 0)]
    exact ⟨_, rfl, rfl, rfl⟩
  starts := by
    intro n id leader
    rw [leaderBlock?_eq_some, cut, empty] at leader
    cases leader
  performs := by
    intro n stmt found
    unfold stmt? at found
    rw [empty] at found
    cases found
  covers := by
    rintro s op ⟨block, found, foundOp⟩
    have only := List.mem_of_getElem? found
    cases List.mem_singleton.mp only
    cases foundOp
  origins := by
    intro n id leader
    rw [leaderBlock?_eq_some, cut, empty] at leader
    cases leader

/-- More support operations do not disturb a layout. -/
def Layout.mono {more : List SupportDef} (layout : b.Layout blocks supports)
    (grown : supports <+: more) : b.Layout blocks more where
  start := layout.start
  entry := layout.entry
  starts := layout.starts
  performs := fun n stmt found => (layout.performs n stmt found).mono grown fun _ leads => leads
  covers := layout.covers
  origins := layout.origins

end

end JumpIR.Lowering.Body
