import JumpIR.Proofs.Lowering.Compilation
import JumpIR.Proofs.Lowering.Raising
import JumpIR.Proofs.Machine.Flag

/-!
# Where operations come from

Every operation of a compiled function belongs to a statement of its text. So a function calls what
its text calls, and sets the pending flag where its text assigns it.
-/

set_option autoImplicit false

namespace JumpIR

theorem Site.hasOp_unique {blocks : List Block} {s : Site} {op other : Op}
    (found : s.HasOp blocks op) (found' : s.HasOp blocks other) : op = other := by
  obtain ⟨block, here, foundOp⟩ := found
  obtain ⟨block', here', foundOp'⟩ := found'
  cases here.symm.trans here'
  exact Option.some.inj (foundOp.symm.trans foundOp')

theorem Site.not_hasEnd {blocks : List Block} {s : Site} {op : Op} {terminator : Terminator}
    (found : s.HasOp blocks op) : ¬ s.HasEnd blocks terminator := by
  rintro ⟨block', here', atEnd, _left⟩
  obtain ⟨block, here, foundOp⟩ := found
  cases here.symm.trans here'
  have bound := (List.getElem?_eq_some_iff.mp foundOp).1
  omega

namespace Lowering

namespace Body

variable {b : Body} {blocks : List Block} {supports : List SupportDef} {leads : Site → Prop}
  {n : Nat} {s : Site} {op : Op}

/-- The statement assigns `value` to `dest`. -/
def Sets (b : Body) (kind : Tree.StmtKind) (dest : Place) (value : Tree.Expr) : Prop :=
  (∃ target, kind = .assign target value ∧ b.scope.place target = .ok dest) ∨
    ∃ name type id, kind = .declare name type (some value) ∧ dest = .whole (.localVar id)

/-- An operation declares a local, or belongs to an assignment. -/
theorem Layout.operation (layout : b.Layout blocks supports) (found : s.HasOp blocks op) :
    ∃ n stmt, b.stmt? n = some stmt ∧ ((∃ id, op = .declare id) ∨
      ∃ dest value, b.Sets stmt.kind dest value ∧
        Assigns b blocks supports (b.Leads blocks layout.start (n + 1)) n dest value s ∧
        (s = layout.start n ∨ s = (layout.start n).succ)) := by
  obtain ⟨n, stmt, foundStmt, here⟩ := layout.covers s op found
  refine ⟨n, stmt, foundStmt, ?_⟩
  have code := layout.performs n stmt foundStmt
  generalize layout.start n = start at code here ⊢
  generalize stmt.kind = kind at code here ⊢
  rcases here with rfl | ⟨rfl, name, type, value, rfl⟩
  · cases code with
    | @declare name type id _ known declared onward =>
        exact Or.inl ⟨id, Site.hasOp_unique found declared⟩
    | @declareInit name type value id _ known declared init =>
        exact Or.inl ⟨id, Site.hasOp_unique found declared⟩
    | @assign target value dest _ lowered code =>
        exact Or.inr ⟨dest, value, Or.inl ⟨target, rfl, lowered⟩, code, Or.inl rfl⟩
    | jump lowered starts left onward => exact absurd left (Site.not_hasEnd found)
    | goto starts left => exact absurd left (Site.not_hasEnd found)
    | finish left => exact absurd left (Site.not_hasEnd found)
    | arbitrary left => exact absurd left (Site.not_hasEnd found)
    | unreachable left => exact absurd left (Site.not_hasEnd found)
  · cases code with
    | @declareInit name type value id _ known declared init =>
        exact Or.inr ⟨.whole (.localVar id), value, Or.inr ⟨name, type, id, rfl, rfl⟩, init,
          Or.inr rfl⟩

/-- The operation of an assignment assigns its operand, or calls. -/
theorem Assigns.operation {dest : Place} {value : Tree.Expr}
    (code : Assigns b blocks supports leads n dest value s) (found : s.HasOp blocks op) :
    (∃ operand, op = .assign dest operand ∧ b.scope.operand value = .ok operand) ∨
    ∃ name args span callee items, value = .call name args span ∧
      op = .call (some dest) callee items ∧ ∀ id, callee = .function id →
        ∃ mayRaise, b.scope.globals.target? name.name name.span =
          .ok (some (.function id mayRaise)) := by
  cases code with
  | value lowered assigned onward =>
      exact Or.inl ⟨_, Site.hasOp_unique found assigned, lowered⟩
  | support known arity listed lowered call onward =>
      refine Or.inr ⟨_, _, _, _, _, rfl, Site.hasOp_unique found call, ?_⟩
      intro id impossible
      cases impossible
  | function known lowered call unchecked onward =>
      refine Or.inr ⟨_, _, _, _, _, rfl, Site.hasOp_unique found call, ?_⟩
      intro id same
      cases same
      exact ⟨_, known⟩
  | checked known lowered call checks test exits onward =>
      refine Or.inr ⟨_, _, _, _, _, rfl, Site.hasOp_unique found call, ?_⟩
      intro id same
      cases same
      exact ⟨_, known⟩

end Body

/-! ### Truth values -/

/-- Only a literal is lowered to a constant truth value. -/
theorem Scope.literal_of_operand {s : Scope} {value : Tree.Expr} {truth : Bool}
    (lowered : s.operand value = .ok (.const (.bool truth))) :
    ∃ span, value = .literal (.bool truth) span := by
  cases value with
  | name name span =>
      rw [operand] at lowered
      unfold nameOperand at lowered
      split at lowered
      · cases lowered
      · split at lowered
        · cases lowered
        · split at lowered
          · rename_i c known
            cases lowered
            obtain ⟨id, ordinal, impossible⟩ := Globals.enumConst?_eq known
            cases impossible
          · cases lowered
  | literal literal span =>
      rw [operand] at lowered
      cases literal with
      | bool other =>
          cases lowered
          exact ⟨span, rfl⟩
      | unit => cases lowered
      | int n => cases lowered
      | bits width bits => cases lowered
      | string text => cases lowered
  | call callee args span =>
      rw [operand] at lowered
      obtain ⟨target, found, lowered⟩ := bind_ok lowered
      split at lowered
      · obtain ⟨items, _items, made⟩ := bind_ok lowered
        unfold construct at made
        split at made <;> cases made
      · cases lowered
      · cases lowered
  | prim op args span =>
      rw [operand] at lowered
      split at lowered
      · cases lowered
      · split at lowered
        · obtain ⟨items, _items, made⟩ := bind_ok lowered
          cases made
        · cases lowered
  | isNot value variant span =>
      rw [operand] at lowered
      obtain ⟨found, _known, lowered⟩ := bind_ok lowered
      obtain ⟨inner, _inner, made⟩ := bind_ok lowered
      cases made
  | project value variant span =>
      rw [operand] at lowered
      obtain ⟨found, _known, lowered⟩ := bind_ok lowered
      obtain ⟨inner, _inner, made⟩ := bind_ok lowered
      cases made
  | field value index span =>
      rw [operand] at lowered
      obtain ⟨inner, _inner, made⟩ := bind_ok lowered
      cases made
  | exception part span =>
      rw [operand] at lowered
      cases lowered

theorem Scope.target_of_place {s : Scope} {target : Tree.Place} {dest : Place}
    (lowered : s.place target = .ok dest) (root : dest.root = .exception .pending) :
    target = .exception .pending := by
  unfold place at lowered
  cases target with
  | named name path =>
      dsimp only at lowered
      split at lowered
      · cases lowered
        cases root
      · split at lowered
        · cases lowered
          cases root
        · cases lowered
  | result =>
      cases lowered
      cases root
  | exception part =>
      cases lowered
      cases root
      rfl

/-! ### What functions do -/

/-- The assignments of the pending flag in a module are all of literals. -/
def FlagsByLiteral (m : Tree.Module) : Prop :=
  ∀ decl ∈ m.functions, ∀ stmt ∈ decl.body, ∀ value,
    stmt.kind = .assign (.exception .pending) value →
      ∃ truth span, value = .literal (.bool truth) span

/-- The statement does not assign the flag, or assigns a literal to it. -/
def flagByLiteral (stmt : Tree.Stmt) : Bool :=
  match stmt.kind with
  | .assign (.exception .pending) (.literal (.bool _) _) => true
  | .assign (.exception .pending) _ => false
  | _ => true

theorem flagsByLiteral_of_all {m : Tree.Module}
    (all : (m.functions.all fun decl => decl.body.all flagByLiteral) = true) :
    FlagsByLiteral m := by
  intro decl member stmt inBody value same
  have here := List.all_eq_true.mp (List.all_eq_true.mp all decl member) stmt inBody
  unfold flagByLiteral at here
  rw [same] at here
  split at here
  · rename_i truth span isLiteral
    cases isLiteral
    exact ⟨truth, span, rfl⟩
  · cases here
  · rename_i other
    exact (other value rfl).elim

namespace Compilation

variable {c : Compilation} {f : Reference.Function} {d : FunctionDef} {supports : List SupportDef}

theorem decl_mem (member : f ∈ c.functions) : f.scope.decl ∈ c.linked.tree.functions := by
  rw [← c.decls]
  exact List.mem_map_of_mem member

theorem mayRaise_eq (member : f ∈ c.functions) (compiles : Compiles c.program.supports f d) :
    d.mayRaise = c.linked.tree.raising.contains f.name := by
  rw [compiles.mayRaise, c.inGlobals f member]
  unfold Globals.mayRaise
  rw [c.raising_eq]

theorem exists_compiles (member : d ∈ c.program.functions) :
    ∃ f ∈ c.functions, Compiles c.program.supports f d :=
  exists_source c.compiles member

theorem operation_cases (compiles : Compiles supports f d) {s : Site} {op : Op}
    (found : s.HasOp d.blocks op) :
    (∃ id, op = .declare id) ∨
    ∃ stmt ∈ f.body, ∃ dest value, f.scope.cut.Sets stmt.kind dest value ∧
      ((∃ operand, op = .assign dest operand ∧ f.scope.operand value = .ok operand) ∨
      ∃ name args span callee items, value = .call name args span ∧
        op = .call (some dest) callee items ∧ ∀ id, callee = .function id →
          ∃ mayRaise, f.scope.globals.target? name.name name.span =
            .ok (some (.function id mayRaise))) := by
  obtain ⟨layout⟩ := compiles.layout
  obtain ⟨n, stmt, foundStmt, declares | ⟨dest, value, sets, code, _site⟩⟩ := layout.operation found
  · exact Or.inl declares
  · exact Or.inr ⟨stmt, List.mem_of_getElem? foundStmt, dest, value, sets, code.operation found⟩

theorem assigns_of_sets {kind : Tree.StmtKind} {dest : Place} {value : Tree.Expr}
    (sets : f.scope.cut.Sets kind dest value) (root : dest.root = .exception .pending) :
    kind = .assign (.exception .pending) value := by
  rcases sets with ⟨place, rfl, placed⟩ | ⟨name, type, id, _kind, local'⟩
  · cases Scope.target_of_place placed root
    rfl
  · rw [local'] at root
    cases root

/-- Assigning true to the flag by a literal makes a function one that may raise. -/
theorem mayRaise_of_assigns (member : f ∈ c.functions) (compiles : Compiles c.program.supports f d)
    {s : Site} {dest : Place} (root : dest.root = .exception .pending)
    (found : s.HasOp d.blocks (.assign dest (.const (.bool true)))) : d.mayRaise = true := by
  rcases operation_cases compiles found with
    ⟨id, impossible⟩ | ⟨stmt, inBody, target, value, sets, way⟩
  · cases impossible
  · rcases way with ⟨operand, same, lowered⟩ | ⟨_, _, _, _, _, _, impossible, _⟩
    · cases same
      obtain ⟨span, rfl⟩ := Scope.literal_of_operand lowered
      have raises : stmt.raises = true := by
        unfold Tree.Stmt.raises
        rw [assigns_of_sets sets root]
      rw [mayRaise_eq member compiles, List.contains_iff_mem]
      refine Tree.Module.mem_raising_of_raises (decl_mem member) ?_
      exact List.any_eq_true.mpr ⟨stmt, inBody, raises⟩
    · cases impossible

theorem mayRaise_of_target (member : f ∈ c.functions) {name : String} {span : Span} {id : FuncId}
    {mayRaise : Bool}
    (known : f.scope.globals.target? name span = .ok (some (.function id mayRaise)))
    (numbered : c.program.function? id = some d) :
    d.mayRaise = mayRaise ∧ d.mayRaise = c.linked.tree.raising.contains name := by
  obtain ⟨lookup, same⟩ := Globals.target?_function known
  rw [c.inGlobals f member] at lookup same
  obtain ⟨g, d', found, numbered', compiles⟩ := function_of_lookup lookup
  cases numbered.symm.trans numbered'
  have named : g.name = name := by
    have holds := List.find?_some found
    exact eq_of_beq holds
  have raises := mayRaise_eq (List.mem_of_find?_eq_some found) compiles
  rw [named] at raises
  refine ⟨?_, raises⟩
  rw [raises, same]
  unfold Globals.mayRaise
  rw [c.raising_eq]

theorem mayRaise_of_calls (member : f ∈ c.functions) (compiles : Compiles c.program.supports f d)
    {s : Site} {dest : Option Place} {id : FuncId} {args : List Operand} {callee : FunctionDef}
    (found : s.HasOp d.blocks (.call dest (.function id) args))
    (called : c.program.function? id = some callee) (raises : callee.mayRaise = true) :
    d.mayRaise = true := by
  rcases operation_cases compiles found with
    ⟨id, impossible⟩ | ⟨stmt, inBody, target, value, sets, way⟩
  · cases impossible
  · rcases way with ⟨_, impossible, _⟩ | ⟨name, args', span, callee', items, isCall, same, targets⟩
    · cases impossible
    · cases same
      obtain ⟨mayRaise, known⟩ := targets id rfl
      have inStmt : name.name ∈ stmt.calls := by
        have mentioned : name.name ∈ value.calls := by
          rw [isCall, Tree.Expr.calls]
          exact List.mem_cons_self
        unfold Tree.Stmt.calls
        rcases sets with ⟨place, kind, _placed⟩ | ⟨declared, type, local', kind, _local⟩
        · rw [kind]
          exact mentioned
        · rw [kind]
          exact mentioned
      rw [(mayRaise_of_target member known called).2, List.contains_iff_mem] at raises
      rw [mayRaise_eq member compiles, List.contains_iff_mem]
      refine Tree.Module.mem_raising_of_calls c.distinct (decl_mem member) ?_ raises
      exact List.mem_flatMap.mpr ⟨stmt, inBody, inStmt⟩

/-- Where the text assigns the flag by literals only, no other assignment stores into it. -/
theorem literal_of_assign (literals : FlagsByLiteral c.linked.tree) (member : f ∈ c.functions)
    (compiles : Compiles c.program.supports f d) {s : Site} {dest : Place} {operand : Operand}
    (found : s.HasOp d.blocks (.assign dest operand)) (root : dest.root = .exception .pending) :
    ∃ truth, operand = .const (.bool truth) := by
  rcases operation_cases compiles found with
    ⟨id, impossible⟩ | ⟨stmt, inBody, target, value, sets, way⟩
  · cases impossible
  · rcases way with ⟨_, same, lowered⟩ | ⟨_, _, _, _, _, _, impossible, _⟩
    · cases same
      obtain ⟨truth, span, rfl⟩ :=
        literals f.scope.decl (decl_mem member) stmt inBody value (assigns_of_sets sets root)
      rw [Scope.operand] at lowered
      cases lowered
      exact ⟨truth, rfl⟩
    · cases impossible

theorem not_flag_of_call (literals : FlagsByLiteral c.linked.tree) (member : f ∈ c.functions)
    (compiles : Compiles c.program.supports f d) {s : Site} {dest : Option Place} {callee : Callee}
    {args : List Operand} (found : s.HasOp d.blocks (.call dest callee args)) :
    ¬ Linked.IsFlag dest := by
  rintro ⟨place, rfl, root⟩
  rcases operation_cases compiles found with
    ⟨id, impossible⟩ | ⟨stmt, inBody, target, value, sets, way⟩
  · cases impossible
  · rcases way with ⟨_, impossible, _⟩ | ⟨name, args', span, callee', items, isCall, same, _⟩
    · cases impossible
    · cases same
      obtain ⟨truth, span, rfl⟩ :=
        literals f.scope.decl (decl_mem member) stmt inBody value (assigns_of_sets sets root)
      cases isCall

end Compilation

end Lowering

end JumpIR
