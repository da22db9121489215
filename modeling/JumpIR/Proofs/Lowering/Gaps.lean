import JumpIR.Proofs.Lowering.Function
import JumpIR.Proofs.Lowering.Numbering
import JumpIR.Proofs.Lowering.Progress

/-!
# Lowering without gaps

What lowering expects of its own work is always there, whatever the module and its symbols: a number
for each union, a block for each operation and each jump, and a place for each local. So a module
without a program has a fault of its own. Main statement: `gapless_generate`.
-/

set_option autoImplicit false

namespace JumpIR.Lowering

/-! ### Passes -/

/-- The pass has a result, or it fails by a fault of the module. -/
def Gapless {α : Type} (pass : Except Fault α) : Prop :=
  ∀ function gap, pass ≠ .error (.internal function gap)

section Passes

variable {α β : Type}

@[simp] theorem gapless_ok (result : α) : Gapless (.ok result) := by
  intro function gap impossible
  cases impossible

theorem gapless_of_succeeds {pass : Except Fault α} (succeeds : Succeeds pass) : Gapless pass := by
  obtain ⟨result, rfl⟩ := succeeds
  exact gapless_ok result

theorem Gapless.bind {first : Except Fault α} {rest : α → Except Fault β} (gapless : Gapless first)
    (next : ∀ value, first = .ok value → Gapless (rest value)) : Gapless (first >>= rest) := by
  cases first with
  | ok value => exact next value rfl
  | error fault =>
      intro function gap same
      cases same
      exact gapless function gap rfl

/-- A pass that only makes something of the result of another one. -/
theorem Gapless.map {first : Except Fault α} (gapless : Gapless first) (make : α → β) :
    Gapless (first >>= fun value => .ok (make value)) :=
  gapless.bind fun value _done => gapless_ok (make value)

@[simp] theorem gapless_error {fault : Fault} :
    Gapless (.error fault : Except Fault α) ↔ ∀ function gap, fault ≠ .internal function gap := by
  constructor
  · intro gapless function gap same
    exact gapless function gap (same ▸ rfl)
  · intro other function gap same
    cases same
    exact other function gap rfl

end Passes

/-! ### Types and declarations -/

mutual

theorem gapless_type (numbers : Numbering) : ∀ type, Gapless (numbers.type type)
  | .base type _ => by cases type <;> exact gapless_ok _
  | .tuple items _ => (gapless_types numbers items).map _
  | .named .enum _ _ _ => by
      unfold Numbering.type
      split <;> simp
  | .named .union _ _ _ => by
      unfold Numbering.type
      split <;> simp
  | .function _ _ _ => by simp [Numbering.type]

theorem gapless_types (numbers : Numbering) : ∀ types, Gapless (numbers.types types)
  | [] => gapless_ok _
  | type :: rest =>
      (gapless_type numbers type).bind fun _type _done => (gapless_types numbers rest).map _

end

theorem gapless_symbolOf (symbols : SymbolTable) (name : Tree.Ident) :
    Gapless (symbolOf symbols name) := by
  unfold symbolOf
  split <;> simp

theorem gapless_numberAll (symbols : SymbolTable) (decls : List Tree.Decl) :
    ∀ defs : TypeDefs, Gapless (numberAll symbols decls defs) := by
  induction decls with
  | nil => exact fun defs => gapless_ok defs
  | cons decl rest ih =>
      intro defs
      cases decl with
      | enum e => exact (gapless_symbolOf symbols e.name).bind fun _symbol _found => ih _
      | union u => exact (gapless_symbolOf symbols u.name).bind fun _symbol _found => ih _
      | function _ | value _ | register _ => exact ih _

theorem gapless_variantDefs (numbers : Numbering) (variants : List Tree.UnionVariant) :
    Gapless (variantDefs numbers variants) := by
  induction variants with
  | nil => exact gapless_ok _
  | cons v rest ih => exact (gapless_type numbers v.payload).bind fun _payload _done => ih.map _

theorem gapless_defineAll (symbols : SymbolTable) (decls : List Tree.Decl) :
    ∀ types registers, Gapless (defineAll symbols decls types registers) := by
  induction decls with
  | nil => exact fun types registers => gapless_ok _
  | cons decl rest ih =>
      intro types registers
      cases decl with
      | union u =>
          apply (gapless_variantDefs types.numbers u.variants).bind
          intro variants _done
          exact (gapless_symbolOf symbols u.name).bind fun _symbol _found => ih _ _
      | register r => exact (gapless_type types.numbers r.type).bind fun _type _done => ih _ _
      | value _ | enum _ | function _ => exact ih _ _

theorem gapless_declareGlobals (m : Tree.Module) (symbols : SymbolTable) (options : Options) :
    Gapless (declareGlobals m symbols options) := by
  apply (gapless_numberAll symbols m.decls _).bind
  intro types _numbered
  exact (gapless_defineAll symbols m.decls types _).map _

/-! ### Names -/

namespace Globals

theorem gapless_supportDef (g : Globals) (name symbol : String) (type : Option Tree.TypeExpr)
    (span : Span) : Gapless (g.supportDef name symbol type span) := by
  unfold supportDef
  split
  · apply (gapless_types g.numbers _).bind
    intro params _done
    exact (gapless_type g.numbers _).map _
  · simp

theorem gapless_target? (g : Globals) (name : String) (span : Span) :
    Gapless (g.target? name span) := by
  unfold target?
  split
  · exact gapless_ok _
  · split
    · exact gapless_ok _
    · split
      · exact (gapless_supportDef g name _ _ span).map _
      · exact gapless_ok _
      · exact gapless_ok _

theorem gapless_signature (g : Globals) (f : Tree.FunctionDecl) : Gapless (g.signature f) := by
  unfold signature
  dsimp only
  split
  · simp
  · split
    · simp
    · split
      · apply (gapless_types g.numbers _).bind
        intro params _done
        exact (gapless_type g.numbers _).map _
      · simp
    · simp

end Globals

namespace Scope

variable (s : Scope)

theorem gapless_variant (name : Tree.Ident) : Gapless (s.variant name) := by
  unfold variant
  split <;> simp [unresolved]

theorem gapless_nameOperand (name : Tree.Ident) : Gapless (s.nameOperand name) := by
  unfold nameOperand
  split
  · exact gapless_ok _
  · split
    · exact gapless_ok _
    · split <;> simp [unresolved]

mutual

theorem gapless_operand : ∀ e, Gapless (s.operand e)
  | .name name _ => gapless_nameOperand s name
  | .literal _ _ | .exception _ _ => gapless_ok _
  | .call callee args span => by
      apply (Globals.gapless_target? s.globals callee.name callee.span).bind
      intro target _found
      split
      · exact (gapless_operands args).map _
      · simp
      · simp [unresolved]
  | .prim op args span => by
      unfold operand
      split
      · simp
      · split
        · exact (gapless_operands args).map _
        · simp
  | .isNot value variant _ =>
      (gapless_variant s variant).bind fun _found _done => (gapless_operand value).map _
  | .project value variant _ =>
      (gapless_variant s variant).bind fun _found _done => (gapless_operand value).map _
  | .field value _ _ => (gapless_operand value).map _

theorem gapless_operands : ∀ es, Gapless (s.operands es)
  | [] => gapless_ok _
  | e :: rest => (gapless_operand e).bind fun _first _done => (gapless_operands rest).map _

end

theorem gapless_place (target : Tree.Place) : Gapless (s.place target) := by
  cases target with
  | result | exception _ => exact gapless_ok _
  | named name path =>
      unfold place
      dsimp only
      split
      · exact gapless_ok _
      · split <;> simp [unresolved]

end Scope

theorem gapless_declareLocal (function : String) (locals : List LocalDef) (name : Tree.Ident)
    (type : Ty) : Gapless (declareLocal function locals name type) := by
  unfold declareLocal
  split
  · exact gapless_ok _
  · split <;> simp

theorem gapless_declareParams (function : String) (names : List Tree.Ident) :
    ∀ types locals, Gapless (declareParams function names types locals) := by
  induction names with
  | nil => exact fun types locals => gapless_ok _
  | cons name rest ih =>
      intro types locals
      cases types with
      | nil => exact gapless_ok _
      | cons type others =>
          exact (gapless_declareLocal function locals name type).bind fun _more _done => ih _ _

theorem gapless_declareLocals (globals : Globals) (function : String) (stmts : List Tree.Stmt) :
    ∀ locals, Gapless (declareLocals globals function stmts locals) := by
  induction stmts with
  | nil => exact fun locals => gapless_ok _
  | cons stmt rest ih =>
      intro locals
      unfold declareLocals
      split
      · apply (gapless_type globals.numbers _).bind
        intro type _done
        exact (gapless_declareLocal function locals _ type).bind fun _more _done => ih _
      · exact ih _

/-! ### The open block -/

namespace Graph

/-- The block that takes the next operation, if one is open, is a block of the graph. -/
def Inside (g : Graph) : Prop := ∀ id, g.current = some id → id.index < g.blocks.size

/-- From `g` to `h` no block was lost, and the open one is still a block of the graph. -/
structure Grows (g h : Graph) : Prop where
  size : g.blocks.size ≤ h.blocks.size
  inside : g.Inside → h.Inside

theorem Grows.refl (g : Graph) : g.Grows g := ⟨Nat.le_refl _, id⟩

theorem Grows.trans {f g h : Graph} (left : f.Grows g) (right : g.Grows h) : f.Grows h :=
  ⟨Nat.le_trans left.size right.size, fun inside => right.inside (left.inside inside)⟩

theorem size_addBlock (g : Graph) (origin : Option Nat) (terminator : Terminator) :
    (g.addBlock origin terminator).2.blocks.size = g.blocks.size + 1 :=
  Array.size_push _

theorem grows_addBlock (g : Graph) (origin : Option Nat) (terminator : Terminator) :
    g.Grows (g.addBlock origin terminator).2 := by
  have size := size_addBlock g origin terminator
  refine ⟨by omega, ?_⟩
  intro inside id isOpen
  have before := inside id isOpen
  omega

theorem size_setTerminator (g : Graph) (id : BlockId) (terminator : Terminator) :
    (g.setTerminator id terminator).blocks.size = g.blocks.size :=
  Array.size_modify

theorem grows_addOp (g : Graph) (id : BlockId) (op : Op) : g.Grows (g.addOp id op) := by
  have size : (g.addOp id op).blocks.size = g.blocks.size := Array.size_modify
  exact ⟨Nat.le_of_eq size.symm, fun inside id isOpen => size ▸ inside id isOpen⟩

theorem grows_propagateBlock (g : Graph) : g.Grows g.propagateBlock.2 := by
  unfold propagateBlock
  split
  · exact .refl g
  · have grown := grows_addBlock g none .arbitrary
    exact ⟨grown.size, grown.inside⟩

theorem grows_intern (g : Graph) (op : SupportDef) : g.Grows (g.intern op).2 := by
  unfold intern
  split
  · exact .refl g
  · exact ⟨Nat.le_refl _, id⟩

end Graph

namespace Body

variable {b : Body} {g h : Graph}

theorem grows_fallOffBlock (b : Body) (g : Graph) : g.Grows (b.fallOffBlock g).2 := by
  unfold fallOffBlock
  split
  · exact .refl g
  · have grown := g.grows_addBlock none b.fellOff
    exact ⟨grown.size, grown.inside⟩

theorem grows_pushOp {op : Op} (pushed : b.pushOp op g = .ok h) : g.Grows h := by
  obtain ⟨id, isOpen⟩ := exists_current_of_pushOp pushed
  rw [pushOp, isOpen] at pushed
  cases pushed
  exact g.grows_addOp id op

theorem grows_terminate {terminator : Terminator} (ended : b.terminate terminator g = .ok h) :
    g.Grows h := by
  obtain ⟨id, isOpen⟩ := exists_current_of_terminate ended
  cases (terminate_eq isOpen terminator).symm.trans ended
  refine ⟨Nat.le_of_eq (g.size_setTerminator id terminator).symm, ?_⟩
  intro _inside other impossible
  cases impossible

theorem grows_passOn (passed : b.passOn g = .ok h) : g.Grows h := by
  unfold passOn at passed
  have first := g.grows_propagateBlock
  generalize g.propagateBlock = exit at first passed
  obtain ⟨middle, ended, done⟩ := bind_ok passed
  cases done
  have second := exit.2.grows_addBlock none (.unreachable "")
  have size := exit.2.size_addBlock none (.unreachable "")
  have third := grows_terminate ended
  refine ⟨((first.trans second).trans third).size, ?_⟩
  -- The block that is open now was added here, behind all others.
  intro _inside id isOpen
  cases isOpen
  have last : (exit.2.addBlock none (.unreachable "")).2.blocks.size ≤ middle.blocks.size :=
    third.size
  show exit.2.blocks.size < middle.blocks.size
  omega

theorem grows_call {dest : Place} {callee : Callee} {args : List Tree.Expr}
    (called : b.call dest callee args g = .ok h) : g.Grows h := by
  obtain ⟨_items, _lowered, pushed⟩ := bind_ok called
  exact grows_pushOp pushed

theorem grows_assign {index : Nat} {dest : Place} {value : Tree.Expr}
    (assigned : b.assign index dest value g = .ok h) : g.Grows h := by
  unfold assign at assigned
  split at assigned
  · obtain ⟨target, _found, assigned⟩ := bind_ok assigned
    split at assigned
    · obtain ⟨_items, _lowered, pushed⟩ := bind_ok assigned
      exact grows_pushOp pushed
    · rename_i op
      dsimp only at assigned
      split at assigned
      · exact (g.grows_intern op).trans (grows_call assigned)
      · cases assigned
    · obtain ⟨middle, called, assigned⟩ := bind_ok assigned
      split at assigned
      · exact (grows_call called).trans (grows_passOn assigned)
      · cases assigned
        exact grows_call called
    · cases assigned
  · obtain ⟨_operand, _lowered, pushed⟩ := bind_ok assigned
    exact grows_pushOp pushed

theorem grows_statement {index : Nat} {stmt : Tree.Stmt}
    (lowered : b.statement index stmt g = .ok h) : g.Grows h := by
  obtain ⟨kind, span⟩ := stmt
  cases kind with
  | declare name type init =>
      unfold statement at lowered
      dsimp only at lowered
      split at lowered
      · cases lowered
      · obtain ⟨middle, pushed, lowered⟩ := bind_ok lowered
        cases init with
        | none =>
            cases lowered
            exact grows_pushOp pushed
        | some value => exact (grows_pushOp pushed).trans (grows_assign lowered)
  | assign target value =>
      obtain ⟨dest, _placed, assigned⟩ := bind_ok lowered
      exact grows_assign assigned
  | jump cond target location =>
      obtain ⟨_cond, _lowered, lowered⟩ := bind_ok lowered
      obtain ⟨_thenBlock, _found, lowered⟩ := bind_ok lowered
      split at lowered
      · obtain ⟨_elseBlock, _found, ended⟩ := bind_ok lowered
        exact grows_terminate ended
      · exact (b.grows_fallOffBlock g).trans (grows_terminate lowered)
  | goto target =>
      obtain ⟨_id, _found, ended⟩ := bind_ok lowered
      exact grows_terminate ended
  | finish | arbitrary | unreachable => exact grows_terminate lowered

/-- What holds of the graph in front of statement `index`: the statement starts a block or one is
open, and the open block and those of the leaders are blocks of the graph. -/
structure Stands (b : Body) (index : Nat) (g : Graph) : Prop where
  follows : index < b.size → (b.leaderBlock? index).isSome = true ∨ g.current.isSome = true
  inside : g.Inside
  leaders : b.leaders.length ≤ g.blocks.size

theorem stands_ofLeaders (cut : b.leaders = Lowering.leaders b.scope.decl.body)
    (supports : List SupportDef) : b.Stands 0 (.ofLeaders b.leaders supports) where
  follows := by
    intro inside
    have nonempty : b.scope.decl.body ≠ [] := List.ne_nil_of_length_pos inside
    exact Or.inl (Option.isSome_of_eq_some (leaderBlock?_zero cut nonempty))
  inside := by
    intro id impossible
    cases impossible
  leaders := by simp [Graph.ofLeaders]

/-- A statement is lowered into a block that is open and part of the graph. -/
theorem Stands.exists_open {index : Nat} (stands : b.Stands index g) (inside : index < b.size) :
    ∃ id, (b.openBlock index g).current = some id ∧
      id.index < (b.openBlock index g).blocks.size := by
  unfold openBlock
  cases leads : b.leaderBlock? index with
  | some leader =>
      have bound : leader.index < b.leaders.length :=
        (List.findIdx?_eq_some_iff_getElem.mp (leaderBlock?_eq_some.mp leads)).1
      have size := stands.leaders
      cases isOpen : g.current with
      | some id =>
          refine ⟨leader, rfl, ?_⟩
          show leader.index < (g.setTerminator id (.goto leader)).blocks.size
          rw [Graph.size_setTerminator]
          omega
      | none => exact ⟨leader, rfl, Nat.lt_of_lt_of_le bound size⟩
  | none =>
      have isOpen := (stands.follows inside).resolve_left (by simp [leads])
      obtain ⟨id, isOpen⟩ := Option.isSome_iff_exists.mp isOpen
      exact ⟨id, isOpen, stands.inside id isOpen⟩

theorem size_openBlock (b : Body) (index : Nat) (g : Graph) :
    (b.openBlock index g).blocks.size = g.blocks.size := by
  unfold openBlock
  split
  · rfl
  · split
    · exact g.size_setTerminator _ _
    · rfl

/-- A statement that ends its block is followed by a leader, and any other leaves it open. -/
theorem Stands.step (cut : b.leaders = Lowering.leaders b.scope.decl.body) {index : Nat}
    {stmt : Tree.Stmt} (stands : b.Stands index g) (here : b.stmt? index = some stmt)
    (lowered : b.statement index stmt (b.openBlock index g) = .ok h) :
    b.Stands (index + 1) h := by
  obtain ⟨id, isOpen, bound⟩ := stands.exists_open (stmt?_lt here)
  have grown := grows_statement lowered
  have size := stands.leaders
  refine ⟨?_, grown.inside ?_, ?_⟩
  · intro inside
    cases ends : stmt.kind.endsBlock with
    | true => exact Or.inl (leaderBlock?_of_endsBlock cut here ends inside)
    | false => exact Or.inr (isSome_of_statement lowered ends)
  · intro other isOpen'
    cases isOpen.symm.trans isOpen'
    exact bound
  · have last := grown.size
    rw [size_openBlock] at last
    omega

theorem Stands.run (cut : b.leaders = Lowering.leaders b.scope.decl.body) (stmts : List Tree.Stmt) :
    ∀ {index : Nat} {g : Graph}, stmts <+: b.scope.decl.body.drop index → b.Stands index g →
      b.statements index stmts g = .ok h → b.Stands (index + stmts.length) h := by
  induction stmts with
  | nil =>
      intro index g _isPrefix stands lowered
      cases lowered
      exact stands
  | cons stmt rest ih =>
      intro index g isPrefix stands lowered
      obtain ⟨behind, whole⟩ := isPrefix
      have here : b.stmt? index = some stmt := by
        rw [stmt?, ← List.head?_drop, ← whole]
        rfl
      have later : b.scope.decl.body.drop (index + 1) = rest ++ behind := by
        rw [← List.tail_drop, ← whole]
        rfl
      obtain ⟨middle, first, others⟩ := bind_ok lowered
      have stands' := ih ⟨behind, later.symm⟩ (stands.step cut here first) others
      rwa [List.length_cons, Nat.add_comm rest.length 1, ← Nat.add_assoc]

/-! ### Statements -/

theorem gapless_passOn (isOpen : g.current.isSome = true) : Gapless (b.passOn g) :=
  gapless_of_succeeds (succeeds_passOn isOpen)

theorem gapless_pushOp (isOpen : g.current.isSome = true) (op : Op) : Gapless (b.pushOp op g) :=
  gapless_of_succeeds (succeeds_pushOp isOpen op)

theorem gapless_terminate (isOpen : g.current.isSome = true) (terminator : Terminator) :
    Gapless (b.terminate terminator g) :=
  gapless_of_succeeds (succeeds_terminate isOpen terminator)

theorem gapless_call (isOpen : g.current.isSome = true) (dest : Place) (callee : Callee)
    (args : List Tree.Expr) : Gapless (b.call dest callee args g) :=
  (b.scope.gapless_operands args).bind fun _items _done => gapless_pushOp isOpen _

theorem gapless_assign (isOpen : g.current.isSome = true) (index : Nat) (dest : Place)
    (value : Tree.Expr) : Gapless (b.assign index dest value g) := by
  unfold assign
  split
  · apply (Globals.gapless_target? b.scope.globals _ _).bind
    intro target _found
    split
    · exact (b.scope.gapless_operands _).bind fun _items _done => gapless_pushOp isOpen _
    · rename_i op
      dsimp only
      split
      · exact gapless_call (current_intern g op ▸ isOpen) _ _ _
      · simp
    · apply (gapless_call isOpen _ _ _).bind
      intro middle called
      split
      · exact gapless_passOn (isSome_of_call called)
      · exact gapless_ok _
    · simp [Scope.unresolved]
  · exact (b.scope.gapless_operand _).bind fun _operand _done => gapless_pushOp isOpen _

/-- What the lowering of a body relies on: the targets of its jumps are in range, and its locals are
declared. -/
structure Prepared (b : Body) : Prop where
  cut : b.leaders = Lowering.leaders b.scope.decl.body
  targets : ∀ stmt ∈ b.scope.decl.body, ∀ target, jumpTarget? stmt.kind = some target →
    target < b.size
  locals : ∀ stmt ∈ b.scope.decl.body, ∀ name type init, stmt.kind = .declare name type init →
    (b.scope.local? name.name).isSome = true

theorem Prepared.gapless_blockOf (prepared : b.Prepared) {stmt : Tree.Stmt}
    (member : stmt ∈ b.scope.decl.body) {target : Nat}
    (jumps : jumpTarget? stmt.kind = some target) : Gapless (b.blockOf target) :=
  gapless_of_succeeds
    ((succeeds_blockOf_iff prepared.cut member jumps).mpr (prepared.targets _ member _ jumps))

theorem Prepared.gapless_statement (prepared : b.Prepared) {index : Nat} {stmt : Tree.Stmt}
    (here : b.stmt? index = some stmt) (isOpen : g.current.isSome = true) :
    Gapless (b.statement index stmt g) := by
  have member : stmt ∈ b.scope.decl.body := List.mem_of_getElem? here
  obtain ⟨kind, span⟩ := stmt
  cases kind with
  | declare name type init =>
      obtain ⟨id, found⟩ :=
        Option.isSome_iff_exists.mp (prepared.locals _ member name type init rfl)
      rw [statement]
      dsimp only
      rw [found]
      apply (gapless_pushOp isOpen _).bind
      intro middle pushed
      cases init with
      | none => exact gapless_ok _
      | some value => exact gapless_assign (isSome_of_pushOp pushed) _ _ value
  | assign target value =>
      exact (b.scope.gapless_place target).bind fun dest _done =>
        gapless_assign isOpen index dest value
  | jump cond target location =>
      apply (b.scope.gapless_operand cond).bind
      intro cond' _lowered
      apply (prepared.gapless_blockOf member rfl).bind
      intro thenBlock _found
      split
      · rename_i inside
        have next := leaderBlock?_of_endsBlock prepared.cut here rfl inside
        obtain ⟨elseBlock, leads⟩ := Option.isSome_iff_exists.mp next
        rw [blockOf, leads]
        exact gapless_terminate isOpen _
      · exact gapless_terminate (current_fallOffBlock b g ▸ isOpen) _
  | goto target =>
      exact (prepared.gapless_blockOf member rfl).bind fun id _found => gapless_terminate isOpen _
  | finish | arbitrary | unreachable => exact gapless_terminate isOpen _

theorem Prepared.gapless_statements (prepared : b.Prepared) (stmts : List Tree.Stmt) :
    ∀ {index : Nat} {g : Graph}, b.scope.decl.body.drop index = stmts → b.Stands index g →
      Gapless (b.statements index stmts g) := by
  induction stmts with
  | nil => exact fun _isRest _stands => gapless_ok _
  | cons stmt rest ih =>
      intro index g isRest stands
      have here : b.stmt? index = some stmt := by
        rw [stmt?, ← List.head?_drop, isRest, List.head?_cons]
      have later : b.scope.decl.body.drop (index + 1) = rest := by
        rw [← List.tail_drop, isRest, List.tail_cons]
      obtain ⟨id, isOpen, _bound⟩ := stands.exists_open (stmt?_lt here)
      apply (prepared.gapless_statement here (Option.isSome_of_eq_some isOpen)).bind
      intro middle lowered
      exact ih later (stands.step prepared.cut here lowered)

theorem gapless_checkTargets (function : String) (size : Nat) (stmts : List Tree.Stmt) :
    Gapless (checkTargets function size stmts) := by
  induction stmts with
  | nil => exact gapless_ok ()
  | cons stmt rest ih =>
      unfold checkTargets
      split
      · split
        · exact ih
        · simp
      · exact ih

/-- Only the locals have to be there. The targets of the jumps are checked on the way. -/
theorem gapless_graph (cut : b.leaders = Lowering.leaders b.scope.decl.body)
    (locals : ∀ stmt ∈ b.scope.decl.body, ∀ name type init,
      stmt.kind = .declare name type init → (b.scope.local? name.name).isSome = true)
    (supports : List SupportDef) : Gapless (b.graph supports) := by
  apply (gapless_checkTargets b.scope.name b.size b.scope.decl.body).bind
  intro _unit checked
  have targets := succeeds_checkTargets_iff.mp ⟨_, checked⟩
  have prepared : b.Prepared := ⟨cut, targets, locals⟩
  exact (prepared.gapless_statements _ rfl (stands_ofLeaders cut supports)).map b.close

/-- What lowering asks for while it works on a body is there. -/
structure Complete (b : Body) : Prop where
  /-- The statements in front are lowered: this one finds an open block of the graph. -/
  opens : ∀ index stmt supports g, b.stmt? index = some stmt →
    b.statements 0 (b.scope.decl.body.take index) (.ofLeaders b.leaders supports) = .ok g →
    ∃ id, (b.openBlock index g).current = some id ∧
      id.index < (b.openBlock index g).blocks.size
  /-- Every target of a jump that is in range starts a block. -/
  targets : ∀ stmt ∈ b.scope.decl.body, ∀ target, jumpTarget? stmt.kind = some target →
    target < b.size → ∃ id, b.blockOf target = .ok id
  /-- A statement that ends its block is the last one, or the next one starts a block. -/
  follows : ∀ index stmt, b.stmt? index = some stmt → stmt.kind.endsBlock = true →
    index + 1 < b.size → ∃ id, b.blockOf (index + 1) = .ok id
  /-- Every declared local has its place. -/
  locals : ∀ stmt ∈ b.scope.decl.body, ∀ name type init, stmt.kind = .declare name type init →
    ∃ id, b.scope.local? name.name = some id

theorem exists_blockOf {index : Nat} (leads : (b.leaderBlock? index).isSome = true) :
    ∃ id, b.blockOf index = .ok id := by
  obtain ⟨id, leads⟩ := Option.isSome_iff_exists.mp leads
  exact ⟨id, by rw [blockOf, leads]⟩

theorem complete_of_locals (cut : b.leaders = Lowering.leaders b.scope.decl.body)
    (locals : ∀ stmt ∈ b.scope.decl.body, ∀ name type init,
      stmt.kind = .declare name type init → (b.scope.local? name.name).isSome = true) :
    b.Complete where
  opens := by
    intro index stmt supports g here lowered
    have bound := stmt?_lt here
    have length : (b.scope.decl.body.take index).length = index :=
      List.length_take_of_le (Nat.le_of_lt bound)
    have stands := (stands_ofLeaders cut supports).run cut (b.scope.decl.body.take index)
      (List.take_prefix index _) lowered
    rw [length, Nat.zero_add] at stands
    exact stands.exists_open bound
  targets := by
    intro stmt member target jumps inside
    exact exists_blockOf (leaderBlock?_of_target cut member jumps inside)
  follows := by
    intro index stmt here ends inside
    exact exists_blockOf (leaderBlock?_of_endsBlock cut here ends inside)
  locals := by
    intro stmt member name type init kind
    exact Option.isSome_iff_exists.mp (locals stmt member name type init kind)

end Body

/-! ### Functions -/

/-- The locals are those that lowering collects for the function. -/
def Scope.Collected (s : Scope) : Prop :=
  ∃ types result params, s.globals.signature s.decl = .ok (types, result) ∧
    declareParams s.name s.decl.params types [] = .ok params ∧
    declareLocals s.globals s.name s.decl.body params = .ok s.locals

theorem Scope.Collected.isSome_local? {s : Scope} (collected : s.Collected) :
    ∀ stmt ∈ s.decl.body, ∀ name type init, stmt.kind = .declare name type init →
      (s.local? name.name).isSome = true := by
  obtain ⟨_types, _result, params, _signed, _params, locals⟩ := collected
  intro stmt member name type init kind
  obtain ⟨known, _typed, index, found, first, _here, _same⟩ :=
    (declareLocals_ok locals).2 stmt member name type init kind
  rw [Scope.local?, first]
  rfl

theorem Scope.Collected.complete {s : Scope} (collected : s.Collected) : s.cut.Complete :=
  Body.complete_of_locals rfl collected.isSome_local?

theorem Scope.Collected.gapless_lowerBody {s : Scope} (collected : s.Collected)
    (supports : List SupportDef) : Gapless (lowerBody s supports) := by
  unfold lowerBody
  split
  · exact gapless_ok _
  · exact (Body.gapless_graph (b := s.cut) rfl collected.isSome_local? supports).map _

theorem gapless_lowerFunction (globals : Globals) (f : Tree.FunctionDecl)
    (supports : List SupportDef) : Gapless (lowerFunction globals f supports) := by
  apply (globals.gapless_signature f).bind
  rintro ⟨types, result⟩ signed
  apply (gapless_declareParams f.name.name f.params types []).bind
  intro params paramsDone
  apply (gapless_declareLocals globals f.name.name f.body params).bind
  intro locals localsDone
  have collected : Scope.Collected ⟨globals, f, locals⟩ :=
    ⟨types, result, params, signed, paramsDone, localsDone⟩
  exact (collected.gapless_lowerBody supports).map _

theorem gapless_lowerFunctions (globals : Globals) (functions : List Tree.FunctionDecl) :
    ∀ supports, Gapless (lowerFunctions globals functions supports) := by
  induction functions with
  | nil => exact fun supports => gapless_ok _
  | cons f rest ih =>
      intro supports
      apply (gapless_lowerFunction globals f supports).bind
      rintro ⟨first, more⟩ _done
      exact (ih more).map _

/-! ### Unions -/

/-- The numbers of unions are those of definitions. -/
def TypeDefs.InRange (defs : TypeDefs) : Prop :=
  ∀ symbol id, defs.numbers.unions.lookup symbol = some id → id.index < defs.unions.length

/-- One more definition, with the next number. -/
def TypeDefs.snocUnion (defs : TypeDefs) (symbol : SymbolId) (u : UnionDef) : TypeDefs :=
  { defs with
    numbers.unions := assign symbol ⟨defs.unions.length⟩ defs.numbers.unions
    unions := defs.unions ++ [u] }

theorem TypeDefs.lookup_snocUnion (defs : TypeDefs) (symbol : SymbolId) (u : UnionDef)
    (other : SymbolId) : (defs.snocUnion symbol u).numbers.unions.lookup other =
      if other = symbol then some ⟨defs.unions.length⟩ else defs.numbers.unions.lookup other :=
  lookup_assign symbol _ _ other

theorem TypeDefs.InRange.snocUnion {defs : TypeDefs} (inRange : defs.InRange) (symbol : SymbolId)
    (u : UnionDef) : (defs.snocUnion symbol u).InRange := by
  intro other id known
  rw [lookup_snocUnion] at known
  show id.index < (defs.unions ++ [u]).length
  rw [List.length_append, List.length_singleton]
  split at known
  · cases known
    exact Nat.lt_succ_self _
  · exact Nat.lt_succ_of_lt (inRange other id known)

/-- Numbering keeps the numbers in range, loses none, and gives one to every union. -/
theorem numberAll_unions {symbols : SymbolTable} {decls : List Tree.Decl} :
    ∀ {defs types : TypeDefs}, defs.InRange → numberAll symbols decls defs = .ok types →
      types.InRange ∧
      (∀ symbol, (defs.numbers.unions.lookup symbol).isSome = true →
        (types.numbers.unions.lookup symbol).isSome = true) ∧
      ∀ u, .union u ∈ decls → ∃ symbol, symbolOf symbols u.name = .ok symbol ∧
        (types.numbers.unions.lookup symbol).isSome = true := by
  induction decls with
  | nil =>
      intro defs types inRange numbered
      cases numbered
      refine ⟨inRange, fun _symbol known => known, ?_⟩
      intro u member
      cases member
  | cons decl rest ih =>
      intro defs types inRange numbered
      -- Any other declaration leaves the numbers of the unions alone.
      have pass : ∀ {middle : TypeDefs}, (∀ u, decl ≠ .union u) →
          numberAll symbols rest middle = .ok types → middle.InRange →
          middle.numbers.unions = defs.numbers.unions →
          types.InRange ∧
          (∀ symbol, (defs.numbers.unions.lookup symbol).isSome = true →
            (types.numbers.unions.lookup symbol).isSome = true) ∧
          ∀ u, .union u ∈ decl :: rest → ∃ symbol, symbolOf symbols u.name = .ok symbol ∧
            (types.numbers.unions.lookup symbol).isSome = true := by
        intro middle other later inRange' same
        obtain ⟨inRange'', keeps, others⟩ := ih inRange' later
        rw [same] at keeps
        refine ⟨inRange'', keeps, ?_⟩
        intro u member
        exact others u ((List.mem_cons.mp member).resolve_left fun here => other u here.symm)
      cases decl with
      | union u =>
          obtain ⟨symbol, found, later⟩ := bind_ok numbered
          obtain ⟨inRange', keeps, others⟩ :=
            ih (inRange.snocUnion symbol ⟨u.name.name, []⟩) later
          simp only [TypeDefs.lookup_snocUnion] at keeps
          refine ⟨inRange', ?_, ?_⟩
          · intro other known
            apply keeps
            split
            · rfl
            · exact known
          · intro u' member
            rcases List.mem_cons.mp member with here | later
            · cases here
              refine ⟨symbol, found, keeps symbol ?_⟩
              rw [if_pos rfl]
              rfl
            · exact others u' later
      | enum e =>
          obtain ⟨_symbol, _found, later⟩ := bind_ok numbered
          exact pass nofun later inRange rfl
      | function f => exact pass nofun numbered inRange rfl
      | value _ | register _ => exact pass nofun numbered inRange rfl

/-! ### Programs -/

/-- Lowering a module works on a body in this scope. -/
structure Scope.Of (s : Scope) (m : Tree.Module) (symbols : SymbolTable) (options : Options) :
    Prop where
  globals : ∃ program, declareGlobals m symbols options = .ok (s.globals, program)
  member : s.decl ∈ m.functions
  collected : s.Collected

/-- Every function is lowered in a scope, when all are. -/
theorem exists_collected {globals : Globals} {functions : List Tree.FunctionDecl} :
    ∀ {supports : List SupportDef} {result : List FunctionDef × List SupportDef},
      lowerFunctions globals functions supports = .ok result → ∀ f ∈ functions,
      ∃ locals, Scope.Collected ⟨globals, f, locals⟩ := by
  induction functions with
  | nil =>
      intro supports result lowered f member
      cases member
  | cons first rest ih =>
      intro supports result lowered f member
      obtain ⟨⟨d, more⟩, lowered, others⟩ := bind_ok lowered
      obtain ⟨later, lowered', _done⟩ := bind_ok others
      rcases List.mem_cons.mp member with here | behind
      · subst here
        obtain ⟨⟨types, result⟩, signed, lowered⟩ := bind_ok lowered
        obtain ⟨params, paramsDone, lowered⟩ := bind_ok lowered
        obtain ⟨locals, localsDone, _lowered⟩ := bind_ok lowered
        exact ⟨locals, types, result, params, signed, paramsDone, localsDone⟩
      · exact ih lowered' f behind

theorem exists_scope_of_generate {m : Tree.Module} {symbols : SymbolTable} {options : Options}
    {program : Program} (generated : generate m symbols options = .ok program)
    {f : Tree.FunctionDecl} (member : f ∈ m.functions) :
    ∃ s, Scope.Of s m symbols options ∧ s.decl = f := by
  obtain ⟨⟨globals, before⟩, declared, lowered⟩ := bind_ok generated
  obtain ⟨_result, lowered, _done⟩ := bind_ok lowered
  obtain ⟨locals, collected⟩ := exists_collected lowered f member
  exact ⟨⟨globals, f, locals⟩, ⟨⟨before, declared⟩, member, collected⟩, rfl⟩

/-- Lowering a module gives a program or finds a fault of the module. Whenever it defines a union,
that union has its number, and whenever it works on a body, what it asks for is there. -/
theorem gapless_generate (m : Tree.Module) (symbols : SymbolTable) (options : Options) :
    ((∃ program, generate m symbols options = .ok program) ∨
      ∃ fault, generate m symbols options = .error fault ∧
        ∀ function gap, fault ≠ .internal function gap) ∧
    (∀ types, numberAll symbols m.decls ⟨⟨[], [], []⟩, [], []⟩ = .ok types →
      ∀ u, .union u ∈ m.decls → ∃ symbol id, symbolOf symbols u.name = .ok symbol ∧
        types.numbers.unions.lookup symbol = some id ∧ id.index < types.unions.length) ∧
    ∀ s, Scope.Of s m symbols options → s.cut.Complete := by
  refine ⟨?_, ?_, fun s isOf => isOf.collected.complete⟩
  · have gapless : Gapless (generate m symbols options) := by
      apply (gapless_declareGlobals m symbols options).bind
      rintro ⟨globals, program⟩ _declared
      exact (gapless_lowerFunctions globals m.functions []).map _
    cases done : generate m symbols options with
    | ok program => exact Or.inl ⟨program, rfl⟩
    | error fault => exact Or.inr ⟨fault, rfl, gapless_error.mp (done ▸ gapless)⟩
  · intro types numbered u member
    have inRange : TypeDefs.InRange ⟨⟨[], [], []⟩, [], []⟩ := by
      intro symbol id impossible
      cases impossible
    obtain ⟨inRange', _keeps, all⟩ := numberAll_unions inRange numbered
    obtain ⟨symbol, found, known⟩ := all u member
    obtain ⟨id, known⟩ := Option.isSome_iff_exists.mp known
    exact ⟨symbol, id, found, known, inRange' symbol id known⟩

/-- A function that starts over and over again. -/
def loopDecl : Tree.FunctionDecl :=
  ⟨⟨"loop", .point .origin⟩, [], [⟨.goto 0, .point .origin⟩], .point .origin⟩

def loopModule : Tree.Module := ⟨[.function loopDecl], .point .origin⟩

def loopSymbols : SymbolTable :=
  let type := .function [] (.base .unit (.point .origin)) (.point .origin)
  ⟨#[⟨"loop", .value, some type, .none, 0, none⟩]⟩

theorem gapless_generate_loop : ∃ s, Scope.Of s loopModule loopSymbols .default ∧
    s.decl = loopDecl ∧ s.cut.Complete := by
  have works : (generate loopModule loopSymbols .default).toOption.isSome = true := by
    decide +kernel
  obtain ⟨_safe, _unions, complete⟩ := gapless_generate loopModule loopSymbols .default
  cases generated : generate loopModule loopSymbols .default with
  | error fault =>
      rw [generated] at works
      cases works
  | ok program =>
      have member : loopDecl ∈ loopModule.functions := List.mem_singleton_self loopDecl
      obtain ⟨s, isOf, decl⟩ := exists_scope_of_generate generated member
      exact ⟨s, isOf, decl, complete s isOf⟩

end JumpIR.Lowering
