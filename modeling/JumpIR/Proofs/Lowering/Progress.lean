import JumpIR.Proofs.Lowering.Admissible
import JumpIR.Proofs.Lowering.Targets

/-!
# Bodies that are lowered

Lowering a body fails only where a name lacks its meaning: there is always a block that takes the
next operation, and a block behind each jump. Main statement: `succeeds_lowerBody_iff`.
-/

set_option autoImplicit false

namespace JumpIR.Lowering

def Globals.Target.Takes (count : Nat) : Globals.Target → Prop
  | .support op => op.params.length = count
  | .constructor _ _ | .function _ _ => True

/-- The look-ups of the scope give each name this meaning. -/
structure Scope.Means (s : Scope) (names : Tree.Meanings) : Prop where
  value : ∀ name, Succeeds (s.nameOperand name) ↔ names.value name.name
  place : ∀ name path, Succeeds (s.place (.named name path)) ↔ names.place name.name
  variant : ∀ name, (∃ found, s.globals.variant? name = some found) ↔ names.variant name
  callee : ∀ name span count, (∃ target : Globals.Target,
    s.globals.target? name span = .ok (some target) ∧ target.Takes count) ↔ names.callee name count

/-! ### Expressions and places -/

namespace Scope

variable {s : Scope} {names : Tree.Meanings}

theorem Means.succeeds_variant_iff (means : s.Means names) {name : Tree.Ident} :
    Succeeds (s.variant name) ↔ names.variant name.name := by
  rw [← means.variant]
  unfold Scope.variant
  cases s.globals.variant? name.name with
  | none => simp
  | some found => simp

mutual

theorem Means.succeeds_operand_iff (means : s.Means names) :
    ∀ e : Tree.Expr, Succeeds (s.operand e) ↔ e.Admissible names
  | .name name _ => means.value name
  | .literal _ _ => by simp [operand, Tree.Expr.Admissible]
  | .exception _ _ => by simp [operand, Tree.Expr.Admissible]
  | .field value _ _ => by
      rw [operand, Tree.Expr.Admissible, succeeds_bind_left fun _ => succeeds_ok _]
      exact means.succeeds_operand_iff value
  | .isNot value variant _ => by
      rw [operand, Tree.Expr.Admissible, ← means.succeeds_variant_iff]
      refine succeeds_bind_iff fun _found _done => ?_
      rw [succeeds_bind_left fun _ => succeeds_ok _]
      exact means.succeeds_operand_iff value
  | .project value variant _ => by
      rw [operand, Tree.Expr.Admissible, ← means.succeeds_variant_iff]
      refine succeeds_bind_iff fun _found _done => ?_
      rw [succeeds_bind_left fun _ => succeeds_ok _]
      exact means.succeeds_operand_iff value
  | .prim op args span => by
      rw [operand, Tree.Expr.Admissible, ← means.succeeds_operands_iff args]
      cases PrimOp.ofName? op.name with
      | none => simp
      | some prim =>
          dsimp only
          split
          · rename_i arity
            rw [succeeds_bind_left fun _ => succeeds_ok _]
            simp [arity]
          · rename_i arity
            simp [arity]
  | .call callee args span => by
      rw [operand, Tree.Expr.Admissible, ← means.succeeds_operands_iff args, ← means.variant,
        succeeds_bind]
      constructor
      · rintro ⟨target, found, done⟩
        split at done
        · rw [succeeds_bind_left fun _ => succeeds_ok _] at done
          exact ⟨⟨_, Globals.target?_constructor found⟩, done⟩
        · exact absurd done (not_succeeds_error _)
        · exact absurd done (not_succeeds_error _)
      · rintro ⟨⟨⟨union, tag⟩, found⟩, done⟩
        refine ⟨some (.constructor union tag), ?_, ?_⟩
        · rw [Globals.target?, found]
        · exact (succeeds_bind_left fun _ => succeeds_ok _).mpr done

theorem Means.succeeds_operands_iff (means : s.Means names) :
    ∀ es : List Tree.Expr, Succeeds (s.operands es) ↔ Tree.Expr.AllAdmissible names es
  | [] => by simp [operands, Tree.Expr.AllAdmissible]
  | e :: rest => by
      rw [operands, Tree.Expr.AllAdmissible, ← means.succeeds_operand_iff e]
      refine succeeds_bind_iff fun _first _done => ?_
      rw [succeeds_bind_left fun _ => succeeds_ok _]
      exact means.succeeds_operands_iff rest

end

theorem Means.succeeds_place_iff (means : s.Means names) (target : Tree.Place) :
    Succeeds (s.place target) ↔ target.Admissible names := by
  cases target with
  | named name path => exact means.place name path
  | result => simp [Scope.place, Tree.Place.Admissible]
  | exception part => simp [Scope.place, Tree.Place.Admissible]

end Scope

/-! ### Operations -/

namespace Body

variable {b : Body} {g h : Graph} {names : Tree.Meanings}

theorem succeeds_pushOp (isOpen : g.current.isSome = true) (op : Op) :
    Succeeds (b.pushOp op g) := by
  obtain ⟨id, isOpen⟩ := Option.isSome_iff_exists.mp isOpen
  rw [pushOp, isOpen]
  exact succeeds_ok _

theorem succeeds_terminate (isOpen : g.current.isSome = true) (terminator : Terminator) :
    Succeeds (b.terminate terminator g) := by
  obtain ⟨id, isOpen⟩ := Option.isSome_iff_exists.mp isOpen
  rw [terminate, isOpen]
  exact succeeds_ok _

theorem isSome_of_pushOp {op : Op} (pushed : b.pushOp op g = .ok h) : h.current.isSome = true := by
  obtain ⟨id, isOpen⟩ := exists_current_of_pushOp pushed
  rw [pushOp, isOpen] at pushed
  cases pushed
  exact Option.isSome_of_eq_some isOpen

theorem current_propagateBlock (g : Graph) : g.propagateBlock.2.current = g.current := by
  unfold Graph.propagateBlock
  split <;> rfl

theorem current_fallOffBlock (b : Body) (g : Graph) :
    (b.fallOffBlock g).2.current = g.current := by
  unfold fallOffBlock
  split <;> rfl

theorem current_intern (g : Graph) (op : SupportDef) : (g.intern op).2.current = g.current := by
  unfold Graph.intern
  split <;> rfl

theorem succeeds_passOn (isOpen : g.current.isSome = true) : Succeeds (b.passOn g) := by
  have stays := current_propagateBlock g
  unfold passOn
  generalize g.propagateBlock = exit at stays
  rw [← stays] at isOpen
  rw [succeeds_bind_left fun _ => succeeds_ok _]
  apply succeeds_terminate
  exact isOpen

theorem isSome_of_passOn (passed : b.passOn g = .ok h) : h.current.isSome = true := by
  unfold passOn at passed
  obtain ⟨middle, _ended, done⟩ := bind_ok passed
  cases done
  rfl

theorem succeeds_call_iff (means : b.scope.Means names) (isOpen : g.current.isSome = true)
    (dest : Place) (callee : Callee) (args : List Tree.Expr) :
    Succeeds (b.call dest callee args g) ↔ Tree.Expr.AllAdmissible names args := by
  rw [call, succeeds_bind_left fun _ => succeeds_pushOp isOpen _]
  exact means.succeeds_operands_iff args

theorem isSome_of_call {dest : Place} {callee : Callee} {args : List Tree.Expr}
    (called : b.call dest callee args g = .ok h) : h.current.isSome = true := by
  obtain ⟨_items, _lowered, pushed⟩ := bind_ok called
  exact isSome_of_pushOp pushed

/-- Whatever a callee stands for, a call of it succeeds if the arguments are as it takes them. -/
private theorem succeeds_assign_call_iff (means : b.scope.Means names)
    (isOpen : g.current.isSome = true) {callee : Tree.Ident} {span : Span}
    {target : Globals.Target}
    (known : b.scope.globals.target? callee.name callee.span = .ok (some target))
    (index : Nat) (dest : Place) (args : List Tree.Expr) :
    Succeeds (b.assign index dest (.call callee args span) g) ↔
      target.Takes args.length ∧ Tree.Expr.AllAdmissible names args := by
  rw [assign, bind_of_ok known]
  cases target with
  | constructor union tag =>
      dsimp only
      rw [succeeds_bind_left fun _ => succeeds_pushOp isOpen _, Globals.Target.Takes, true_and]
      exact means.succeeds_operands_iff args
  | support op =>
      have stays := current_intern g op
      dsimp only
      generalize g.intern op = chosen at stays
      rw [← stays] at isOpen
      split
      · rename_i count
        rw [Globals.Target.Takes, and_iff_right count]
        exact succeeds_call_iff means isOpen _ _ args
      · rename_i count
        simp [Globals.Target.Takes, count]
  | function id mayRaise =>
      dsimp only
      rw [Globals.Target.Takes, true_and,
        ← succeeds_call_iff means isOpen dest (.function id), succeeds_bind]
      constructor
      · rintro ⟨middle, called, _later⟩
        exact ⟨middle, called⟩
      · rintro ⟨middle, called⟩
        refine ⟨middle, called, ?_⟩
        split
        · exact succeeds_passOn (isSome_of_call called)
        · exact succeeds_ok _

theorem succeeds_assign_iff (means : b.scope.Means names) (isOpen : g.current.isSome = true)
    (index : Nat) (dest : Place) (value : Tree.Expr) :
    Succeeds (b.assign index dest value g) ↔ value.Assignable names := by
  have plain : ∀ value : Tree.Expr,
      Succeeds (b.scope.operand value >>= fun o => b.pushOp (.assign dest o) g) ↔
        value.Admissible names := by
    intro value
    rw [succeeds_bind_left fun _ => succeeds_pushOp isOpen _]
    exact means.succeeds_operand_iff value
  cases value with
  | name | literal | prim | isNot | project | field | exception => exact plain _
  | call callee args span =>
      rw [Tree.Expr.Assignable, ← means.callee callee.name callee.span]
      constructor
      · intro done
        obtain ⟨found, known, later⟩ := succeeds_bind.mp done
        cases found with
        | none => exact absurd later (not_succeeds_error _)
        | some target =>
            obtain ⟨takes, admissible⟩ :=
              (succeeds_assign_call_iff means isOpen known index dest args).mp done
            exact ⟨⟨target, known, takes⟩, admissible⟩
      · rintro ⟨⟨target, known, takes⟩, admissible⟩
        exact (succeeds_assign_call_iff means isOpen known index dest args).mpr
          ⟨takes, admissible⟩

theorem isSome_of_assign {index : Nat} {dest : Place} {value : Tree.Expr}
    (assigned : b.assign index dest value g = .ok h) : h.current.isSome = true := by
  unfold assign at assigned
  split at assigned
  · obtain ⟨target, _found, assigned⟩ := bind_ok assigned
    split at assigned
    · obtain ⟨_items, _lowered, pushed⟩ := bind_ok assigned
      exact isSome_of_pushOp pushed
    · dsimp only at assigned
      split at assigned
      · exact isSome_of_call assigned
      · cases assigned
    · obtain ⟨middle, called, assigned⟩ := bind_ok assigned
      split at assigned
      · exact isSome_of_passOn assigned
      · cases assigned
        exact isSome_of_call called
    · cases assigned
  · obtain ⟨_operand, _lowered, pushed⟩ := bind_ok assigned
    exact isSome_of_pushOp pushed

/-! ### Leaders -/

theorem leaderBlock?_of_isLeader (cut : b.leaders = Lowering.leaders b.scope.decl.body)
    {index : Nat} (inside : index < b.size) (leads : isLeader b.scope.decl.body index = true) :
    (b.leaderBlock? index).isSome = true := by
  rw [leaderBlock?, Option.isSome_map, List.findIdx?_isSome, List.any_eq_true, cut]
  refine ⟨index, ?_, beq_self_eq_true index⟩
  exact List.mem_filter.mpr ⟨List.mem_range.mpr inside, leads⟩

theorem leaderBlock?_of_target (cut : b.leaders = Lowering.leaders b.scope.decl.body)
    {stmt : Tree.Stmt} (member : stmt ∈ b.scope.decl.body) {target : Nat}
    (jumps : jumpTarget? stmt.kind = some target) (inside : target < b.size) :
    (b.leaderBlock? target).isSome = true := by
  refine leaderBlock?_of_isLeader cut inside ?_
  have any : b.scope.decl.body.any (fun s => jumpTarget? s.kind == some target) = true :=
    List.any_eq_true.mpr ⟨stmt, member, by rw [jumps]; exact beq_self_eq_true _⟩
  simp [isLeader, any]

theorem leaderBlock?_of_endsBlock (cut : b.leaders = Lowering.leaders b.scope.decl.body)
    {stmt : Tree.Stmt} {index : Nat} (here : b.stmt? index = some stmt)
    (ends : stmt.kind.endsBlock = true) (inside : index + 1 < b.size) :
    (b.leaderBlock? (index + 1)).isSome = true := by
  refine leaderBlock?_of_isLeader cut inside ?_
  unfold stmt? at here
  simp [isLeader, here, ends]

theorem succeeds_blockOf_iff (cut : b.leaders = Lowering.leaders b.scope.decl.body)
    {stmt : Tree.Stmt} (member : stmt ∈ b.scope.decl.body) {target : Nat}
    (jumps : jumpTarget? stmt.kind = some target) :
    Succeeds (b.blockOf target) ↔ target < b.size := by
  constructor
  · rintro ⟨id, found⟩
    exact leaderBlock?_lt cut (leaderBlock?_of_blockOf found)
  · intro inside
    have starts := leaderBlock?_of_target cut member jumps inside
    obtain ⟨id, leads⟩ := Option.isSome_iff_exists.mp starts
    rw [blockOf, leads]
    exact succeeds_ok id

/-! ### Statements -/

/-- What the lowering of a body starts from. -/
structure Begins (b : Body) (names : Tree.Meanings) : Prop where
  means : b.scope.Means names
  cut : b.leaders = Lowering.leaders b.scope.decl.body
  locals : ∀ stmt ∈ b.scope.decl.body, ∀ name type init, stmt.kind = .declare name type init →
    (b.scope.local? name.name).isSome = true

theorem succeeds_statement_iff (begins : b.Begins names) {index : Nat} {stmt : Tree.Stmt}
    (here : b.stmt? index = some stmt) (isOpen : g.current.isSome = true) :
    Succeeds (b.statement index stmt g) ↔ stmt.kind.Admissible names b.size := by
  have member : stmt ∈ b.scope.decl.body := List.mem_of_getElem? here
  obtain ⟨kind, span⟩ := stmt
  cases kind with
  | declare name type init =>
      obtain ⟨id, found⟩ :=
        Option.isSome_iff_exists.mp (begins.locals _ member name type init rfl)
      rw [statement]
      dsimp only
      rw [found]
      dsimp only
      rw [Tree.StmtKind.Admissible, succeeds_bind_iff, and_iff_right (succeeds_pushOp isOpen _)]
      intro middle pushed
      cases init with
      | none => simp
      | some value =>
          simpa using succeeds_assign_iff begins.means (isSome_of_pushOp pushed) _ _ value
  | assign target value =>
      rw [statement, Tree.StmtKind.Admissible, ← begins.means.succeeds_place_iff]
      exact succeeds_bind_iff fun dest _placed =>
        succeeds_assign_iff begins.means isOpen index dest value
  | jump cond target location =>
      rw [statement, Tree.StmtKind.Admissible, ← begins.means.succeeds_operand_iff,
        ← succeeds_blockOf_iff begins.cut member rfl]
      refine succeeds_bind_iff fun cond' _lowered => ?_
      refine succeeds_bind_left fun thenBlock => ?_
      split
      · rename_i inside
        have next := leaderBlock?_of_endsBlock begins.cut here rfl inside
        obtain ⟨elseBlock, leads⟩ := Option.isSome_iff_exists.mp next
        rw [blockOf, leads]
        exact succeeds_terminate isOpen _
      · have stays := current_fallOffBlock b g
        dsimp only
        generalize b.fallOffBlock g = chosen at stays
        rw [← stays] at isOpen
        exact succeeds_terminate isOpen _
  | goto target =>
      rw [statement, Tree.StmtKind.Admissible, ← succeeds_blockOf_iff begins.cut member rfl]
      exact succeeds_bind_left fun id => succeeds_terminate isOpen _
  | finish => exact iff_of_true (succeeds_terminate isOpen _) trivial
  | arbitrary => exact iff_of_true (succeeds_terminate isOpen _) trivial
  | unreachable => exact iff_of_true (succeeds_terminate isOpen _) trivial

/-- Behind a statement that does not end its block, the block goes on. -/
theorem isSome_of_statement {index : Nat} {stmt : Tree.Stmt}
    (lowered : b.statement index stmt g = .ok h) (goesOn : stmt.kind.endsBlock = false) :
    h.current.isSome = true := by
  obtain ⟨kind, span⟩ := stmt
  cases kind with
  | declare name type init =>
      unfold statement at lowered
      dsimp only at lowered
      split at lowered
      · cases lowered
      · obtain ⟨middle, pushed, lowered⟩ := bind_ok lowered
        cases init with
        | none =>
            cases lowered
            exact isSome_of_pushOp pushed
        | some value => exact isSome_of_assign lowered
  | assign target value =>
      obtain ⟨dest, _placed, assigned⟩ := bind_ok lowered
      exact isSome_of_assign assigned
  | jump _ _ _ | goto _ | finish | arbitrary | unreachable => cases goesOn

theorem isSome_openBlock {index : Nat}
    (either : (b.leaderBlock? index).isSome = true ∨ g.current.isSome = true) :
    (b.openBlock index g).current.isSome = true := by
  unfold openBlock
  cases leads : b.leaderBlock? index with
  | none =>
      rw [leads] at either
      exact either.resolve_left (by simp)
  | some leader => cases g.current <;> rfl

/-- At each statement a block is open, or the statement starts one. -/
theorem succeeds_statements_iff (begins : b.Begins names) (stmts : List Tree.Stmt) :
    ∀ {index : Nat} {g : Graph}, b.scope.decl.body.drop index = stmts →
      (index < b.size → (b.leaderBlock? index).isSome = true ∨ g.current.isSome = true) →
      (Succeeds (b.statements index stmts g) ↔
        ∀ stmt ∈ stmts, stmt.kind.Admissible names b.size) := by
  induction stmts with
  | nil =>
      intro index g _rest _open
      simp [statements]
  | cons stmt rest ih =>
      intro index g isRest either
      have here : b.stmt? index = some stmt := by
        rw [stmt?, ← List.head?_drop, isRest, List.head?_cons]
      have later : b.scope.decl.body.drop (index + 1) = rest := by
        rw [← List.tail_drop, isRest, List.tail_cons]
      rw [statements, List.forall_mem_cons,
        ← succeeds_statement_iff begins here (isSome_openBlock (either (stmt?_lt here)))]
      refine succeeds_bind_iff fun middle lowered => ih later ?_
      -- A statement that ends its block is followed by a leader, and any other leaves it open.
      intro inside
      cases ends : stmt.kind.endsBlock with
      | true => exact Or.inl (leaderBlock?_of_endsBlock begins.cut here ends inside)
      | false => exact Or.inr (isSome_of_statement lowered ends)

theorem succeeds_checkTargets_iff {function : String} {size : Nat} {stmts : List Tree.Stmt} :
    Succeeds (checkTargets function size stmts) ↔
      ∀ stmt ∈ stmts, ∀ target, jumpTarget? stmt.kind = some target → target < size := by
  induction stmts with
  | nil => simp [checkTargets]
  | cons stmt rest ih =>
      rw [checkTargets, List.forall_mem_cons, ← ih]
      cases jumps : jumpTarget? stmt.kind with
      | none => simp
      | some target =>
          dsimp only
          split
          · rename_i inside
            simp [inside]
          · rename_i outside
            simp [outside]

theorem target_lt_of_admissible {kind : Tree.StmtKind} {size target : Nat}
    (admissible : kind.Admissible names size) (jumps : jumpTarget? kind = some target) :
    target < size := by
  cases kind with
  | jump cond aim location =>
      cases jumps
      exact admissible.2
  | goto aim =>
      cases jumps
      exact admissible
  | declare _ _ _ | assign _ _ | finish | arbitrary | unreachable => cases jumps

theorem succeeds_graph_iff (begins : b.Begins names) (nonempty : b.scope.decl.body ≠ [])
    (supports : List SupportDef) : Succeeds (b.graph supports) ↔
      ∀ stmt ∈ b.scope.decl.body, stmt.kind.Admissible names b.size := by
  have first := leaderBlock?_zero begins.cut nonempty
  have all : Succeeds (b.statements 0 b.scope.decl.body (.ofLeaders b.leaders supports)) ↔
      ∀ stmt ∈ b.scope.decl.body, stmt.kind.Admissible names b.size :=
    succeeds_statements_iff begins b.scope.decl.body rfl
      fun _inside => Or.inl (Option.isSome_of_eq_some first)
  rw [graph, succeeds_bind_iff fun _unit _checked => succeeds_bind_left fun _ => succeeds_ok _, all,
    succeeds_checkTargets_iff, and_iff_right_iff_imp]
  -- The check in front asks for nothing that the statements do not ask for themselves.
  intro admissible stmt member target jumps
  exact target_lt_of_admissible (admissible stmt member) jumps

end Body

/-- A body is lowered exactly if its statements have a meaning. -/
theorem succeeds_lowerBody_iff {scope : Scope} {names : Tree.Meanings} (means : scope.Means names)
    (locals : ∀ stmt ∈ scope.decl.body, ∀ name type init, stmt.kind = .declare name type init →
      (scope.local? name.name).isSome = true) (supports : List SupportDef) :
    Succeeds (lowerBody scope supports) ↔
      ∀ stmt ∈ scope.decl.body, stmt.kind.Admissible names scope.decl.body.length := by
  unfold lowerBody
  split
  · rename_i empty
    rw [List.isEmpty_iff.mp empty]
    simp
  · rename_i nonempty
    rw [succeeds_bind_left fun _ => succeeds_ok _]
    exact Body.succeeds_graph_iff (b := scope.cut) ⟨means, rfl, locals⟩
      (fun empty => nonempty (List.isEmpty_iff.mpr empty)) supports

end JumpIR.Lowering
