import JumpIR.Proofs.Lowering.Closed

/-!
# Argument counts in compiled programs

Lowering counts the operands of a primitive and the arguments of a support operation, but not those
of a function. Main statements: `Compilation.counted`, and `Compilation.length_of_call` for a text
whose own calls fit.
-/

set_option autoImplicit false

namespace JumpIR

/-! ### Counted programs -/

mutual

/-- Each primitive in the operand has as many operands as it takes. -/
def Operand.Counted : Operand → Prop
  | .const _ | .localVar _ | .register _ | .exception _ => True
  | .prim op args => op.arity = args.length ∧ Operand.AllCounted args
  | .isVariant value _ _ | .asVariant value _ _ | .field value _ => value.Counted
  | .tuple items => Operand.AllCounted items
  | .construct _ _ payload => payload.Counted

def Operand.AllCounted : List Operand → Prop
  | [] => True
  | item :: rest => item.Counted ∧ Operand.AllCounted rest

end

/-- Support operations have as many arguments as their definitions have parameters. -/
def Op.Counted (p : Program) : Op → Prop
  | .declare _ => True
  | .assign _ value => value.Counted
  | .call _ (.function _) args => Operand.AllCounted args
  | .call _ (.support id) args =>
      Operand.AllCounted args ∧ ∃ op, p.support? id = some op ∧ op.params.length = args.length

structure FunctionDef.Counted (p : Program) (d : FunctionDef) : Prop where
  ops : ∀ block ∈ d.blocks, ∀ op ∈ block.ops, op.Counted p
  conds : ∀ block ∈ d.blocks, ∀ cond ∈ block.terminator.conds, cond.Counted

theorem FunctionDef.Counted.op {p : Program} {d : FunctionDef} {s : Site} {op : Op}
    (counted : d.Counted p) (found : s.HasOp d.blocks op) : op.Counted p := by
  obtain ⟨block, inBlocks, inOps⟩ := found.mem
  exact counted.ops block inBlocks op inOps

namespace Tree

/-- The right-hand side of a statement that stores a value. -/
def StmtKind.value? : StmtKind → Option Expr
  | .declare _ _ init => init
  | .assign _ value => some value
  | .jump _ _ _ | .goto _ | .finish | .arbitrary | .unreachable => none

/-- Where a statement of the module calls one of its functions, it gives it as many arguments as the
function has parameters. -/
def Module.WellCounted (m : Module) : Prop :=
  ∀ f ∈ m.functions, ∀ stmt ∈ f.body, ∀ (callee : Ident) (args : List Expr) (span : Span),
    stmt.kind.value? = some (.call callee args span) →
    ∀ g ∈ m.functions, g.name.name = callee.name → args.length = g.params.length

variable {p : Program} {d : FunctionDef}

theorem StmtKind.Stores.value?_eq {kind : StmtKind} {dest : JumpIR.Place} {value : Expr}
    (stores : kind.Stores p d dest value) : kind.value? = some value := by
  cases stores <;> rfl

/-- A call operation has the arguments of a call that is a statement's right-hand side. -/
theorem StmtKind.Yields.call_of {m : Module} {kind : StmtKind} {dest : Option JumpIR.Place}
    {callee : Callee} {items : List Operand}
    (yields : kind.Yields m p d (.call dest callee items)) : ∃ name args span,
      kind.value? = some (.call name args span) ∧ m.Calls p name.name callee ∧
        items.length = args.length := by
  cases yields with
  | call stores calls all => exact ⟨_, _, _, stores.value?_eq, calls, all.related.length_eq.symm⟩

end Tree

namespace Lowering

/-! ### Expressions -/

namespace Scope

variable {s : Scope}

theorem counted_of_name {name : Tree.Ident} {operand : Operand}
    (lowered : s.nameOperand name = .ok operand) : operand.Counted := by
  unfold nameOperand at lowered
  split at lowered
  · cases lowered
    trivial
  · split at lowered
    · cases lowered
      trivial
    · split at lowered
      · cases lowered
        trivial
      · cases lowered

theorem counted_construct {union : UnionId} {tag : Nat} {items : List Operand}
    (counted : Operand.AllCounted items) : (construct union tag items).Counted := by
  unfold construct
  split
  · trivial
  · exact counted.1
  · exact counted

theorem length_of_operands {es : List Tree.Expr} : ∀ {items : List Operand},
    s.operands es = .ok items → items.length = es.length := by
  induction es with
  | nil =>
      intro items lowered
      rw [operands] at lowered
      cases lowered
      rfl
  | cons e rest ih =>
      intro items lowered
      rw [operands] at lowered
      obtain ⟨first, _here, lowered⟩ := bind_ok lowered
      obtain ⟨others, later, done⟩ := bind_ok lowered
      cases done
      rw [List.length_cons, List.length_cons, ih later]

mutual

theorem counted_of_operand : ∀ (e : Tree.Expr) {operand : Operand}, s.operand e = .ok operand →
    operand.Counted
  | .name name span, _, lowered => by
      rw [Scope.operand] at lowered
      exact counted_of_name lowered
  | .literal value span, _, lowered | .exception part span, _, lowered => by
      rw [Scope.operand] at lowered
      cases lowered
      trivial
  | .call callee args span, _, lowered => by
      rw [Scope.operand] at lowered
      obtain ⟨target, _found, lowered⟩ := bind_ok lowered
      split at lowered
      · obtain ⟨items, all, done⟩ := bind_ok lowered
        cases done
        exact counted_construct (counted_of_operands args all)
      · cases lowered
      · cases lowered
  | .prim op args span, _, lowered => by
      rw [Scope.operand] at lowered
      split at lowered
      · cases lowered
      · split at lowered
        · rename_i arity
          obtain ⟨items, all, done⟩ := bind_ok lowered
          cases done
          exact ⟨arity.trans (length_of_operands all).symm, counted_of_operands args all⟩
        · cases lowered
  | .isNot value variant span, _, lowered => by
      rw [Scope.operand] at lowered
      obtain ⟨⟨union, tag⟩, _known, lowered⟩ := bind_ok lowered
      obtain ⟨inner, loweredInner, done⟩ := bind_ok lowered
      cases done
      have counted : inner.Counted := counted_of_operand value loweredInner
      exact ⟨rfl, counted, trivial⟩
  | .project value variant span, _, lowered => by
      rw [Scope.operand] at lowered
      obtain ⟨⟨union, tag⟩, _known, lowered⟩ := bind_ok lowered
      obtain ⟨inner, loweredInner, done⟩ := bind_ok lowered
      cases done
      have counted : inner.Counted := counted_of_operand value loweredInner
      exact counted
  | .field value index span, _, lowered => by
      rw [Scope.operand] at lowered
      obtain ⟨inner, loweredInner, done⟩ := bind_ok lowered
      cases done
      have counted : inner.Counted := counted_of_operand value loweredInner
      exact counted

theorem counted_of_operands : ∀ (es : List Tree.Expr) {items : List Operand},
    s.operands es = .ok items → Operand.AllCounted items
  | [], _, lowered => by
      rw [Scope.operands] at lowered
      cases lowered
      trivial
  | e :: rest, _, lowered => by
      rw [Scope.operands] at lowered
      obtain ⟨first, here, lowered⟩ := bind_ok lowered
      obtain ⟨others, later, done⟩ := bind_ok lowered
      cases done
      exact ⟨counted_of_operand e here, counted_of_operands rest later⟩

end

end Scope

/-! ### Operations -/

theorem Body.Assigns.counted {b : Body} {blocks : List Block} {p : Program} {leads : Site → Prop}
    {n : Nat} {dest : Place} {value : Tree.Expr} {s : Site} {op : Op}
    (code : Assigns b blocks p.supports leads n dest value s) (found : s.HasOp blocks op) :
    op.Counted p := by
  cases code with
  | value lowered assigned onward =>
      cases Site.hasOp_unique found assigned
      have counted : Operand.Counted _ := Scope.counted_of_operand _ lowered
      exact counted
  | support known arity listed lowered call onward =>
      cases Site.hasOp_unique found call
      exact ⟨Scope.counted_of_operands _ lowered, _, listed,
        arity.trans (Scope.length_of_operands lowered).symm⟩
  | function known lowered call unchecked onward =>
      cases Site.hasOp_unique found call
      have counted : Operand.AllCounted _ := Scope.counted_of_operands _ lowered
      exact counted
  | checked known lowered call checks test exits onward =>
      cases Site.hasOp_unique found call
      have counted : Operand.AllCounted _ := Scope.counted_of_operands _ lowered
      exact counted

namespace Compilation

variable {c : Compilation} {d : FunctionDef}

/-- Primitives and support operations of a compiled program have as many arguments as they take. -/
theorem counted (member : d ∈ c.program.functions) : d.Counted c.program := by
  obtain ⟨f, _listed, compiles⟩ := exists_compiles member
  refine ⟨?_, ?_⟩
  · intro block inBlocks op inOps
    obtain ⟨layout⟩ := compiles.layout
    obtain ⟨site, found⟩ := Site.exists_hasOp inBlocks inOps
    obtain ⟨n, stmt, _foundStmt, ⟨id, rfl⟩ | ⟨dest, value, _sets, code, _site⟩⟩ :=
      layout.operation found
    · trivial
    · exact code.counted found
  · intro block inBlocks cond inConds
    obtain ⟨before, after, body⟩ := compiles.body
    obtain ⟨_nonempty, leaves⟩ := Body.bound_lowerBody body
    rcases (leaves block inBlocks).asks inConds with
      rfl | ⟨stmt, _inBody, value, target, location, _kind, lowered⟩
    · trivial
    · exact Scope.counted_of_operand value lowered

/-- A function is called with as many arguments as it has parameters, if the text calls it so. -/
theorem length_of_call {source : SourceText} (linked : source.linked = .ok c.linked)
    (wellCounted : c.linked.tree.WellCounted) (member : d ∈ c.program.functions) {s : Site}
    {dest : Option Place} {id : FuncId} {items : List Operand} {callee : FunctionDef}
    (found : s.HasOp d.blocks (.call dest (.function id) items))
    (called : c.program.function? id = some callee) : items.length = callee.params.length := by
  obtain ⟨f, inModule, same⟩ := exists_source (c.becomes linked).functions member
  obtain ⟨block, inBlocks, inOps⟩ := found.mem
  obtain ⟨stmt, inBody, yields⟩ := same.ops block inBlocks _ inOps
  obtain ⟨name, args, span, stored, calls, length⟩ := yields.call_of
  cases calls with
  | function found' named =>
      cases called.symm.trans found'
      obtain ⟨g, listed, compiles⟩ := exists_compiles (List.mem_of_getElem? called)
      have counts := wellCounted f inModule stmt inBody name args span stored g.scope.decl
        (decl_mem listed) (compiles.name.symm.trans named)
      rw [length, counts, compiles.params, List.length_map, List.length_range]

end Compilation

end Lowering

end JumpIR
