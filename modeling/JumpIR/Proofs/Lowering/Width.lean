import JumpIR.Proofs.Grammar.Width
import JumpIR.Proofs.Lowering.Closed
import JumpIR.Proofs.Program.Width

/-!
# Compiled programs are sized

What denotes something sized is sized: a program has the types and the literals of its text, whose
widths were checked when it was read. Main statement: `Lowering.Compilation.sized`.
-/

set_option autoImplicit false

namespace JumpIR

namespace Tree

variable {p : Program} {d : FunctionDef}

mutual

theorem TypeExpr.Denotes.sized : ∀ {t : TypeExpr} {type : Ty}, t.Denotes p type → t.Sized →
    type.Sized
  | .base type _, _, .base, sized => by
      cases type with
      | bits width =>
          cases width with
          | none => exact ⟨by decide, Nat.le_refl 64⟩
          | some width => exact sized
      | _ => trivial
  | _, _, .tuple all, sized => TypeExpr.AllDenote.sized all sized
  | _, _, .enum _, _ | _, _, .union _, _ => trivial

theorem TypeExpr.AllDenote.sized : ∀ {ts : List TypeExpr} {types : List Ty},
    TypeExpr.AllDenote p ts types → TypeExpr.AllSized ts → Ty.AllSized types
  | _, _, .nil, _ => trivial
  | _, _, .cons first rest, sized => ⟨first.sized sized.1, TypeExpr.AllDenote.sized rest sized.2⟩

end

theorem sized_construct {union : UnionId} {tag : Nat} {items : List Operand}
    (sized : Operand.AllSized items) : (Lowering.Scope.construct union tag items).Sized := by
  unfold Lowering.Scope.construct
  split
  · trivial
  · exact sized.1
  · exact sized

mutual

theorem Expr.Denotes.sized : ∀ {e : Expr} {operand : Operand}, e.Denotes p d operand → e.Sized →
    operand.Sized
  | .literal value _, _, .literal, sized => by
      cases value with
      | bits width value => exact sized
      | _ => trivial
  | _, _, .construct _ all, sized => sized_construct (Expr.AllDenote.sized all sized)
  | _, _, .prim _ all, sized => Expr.AllDenote.sized all sized
  | _, _, .isNot _ inner, sized => ⟨inner.sized sized, trivial⟩
  | _, _, .project _ inner, sized => inner.sized sized
  | _, _, .field inner, sized => inner.sized sized
  | _, _, .localVar _ _, _ | _, _, .register _, _ | _, _, .ordinal _, _ | _, _, .exception, _ =>
      trivial

theorem Expr.AllDenote.sized : ∀ {es : List Expr} {operands : List Operand},
    Expr.AllDenote p d es operands → Expr.AllSized es → Operand.AllSized operands
  | _, _, .nil, _ => trivial
  | _, _, .cons first rest, sized => ⟨first.sized sized.1, Expr.AllDenote.sized rest sized.2⟩

end

theorem StmtKind.Stores.sized {kind : StmtKind} {dest : JumpIR.Place} {value : Expr}
    (stores : kind.Stores p d dest value) (sized : kind.Sized) : value.Sized := by
  cases stores with
  | assign denotes => exact sized
  | init found known => exact sized.2 _ rfl

theorem StmtKind.Yields.sized {m : Module} {kind : StmtKind} {op : Op}
    (yields : kind.Yields m p d op) (sized : kind.Sized) : op.Sized := by
  cases yields with
  | declare found known => trivial
  | assign stores denotes => exact denotes.sized (stores.sized sized)
  | call stores calls all => exact Expr.AllDenote.sized all (stores.sized sized)

theorem FunctionDecl.Becomes.sized {m : Module} {f : FunctionDecl} (becomes : f.Becomes m p d)
    (sized : m.Sized) (member : f ∈ m.functions) : d.Sized := by
  have ofBody : ∀ stmt ∈ f.body, stmt.kind.Sized := sized _ (Module.mem_functions.mp member)
  obtain ⟨v, params, result, span, declared, _named, isFunction, _arity, ofResult, ofLocals⟩ :=
    becomes.signature
  have ofValue : v.type.Sized := sized _ declared
  rw [isFunction] at ofValue
  refine ⟨?_, ?_, ofResult.sized ofValue.2⟩
  · intro block inBlocks
    refine ⟨?_, ?_⟩
    · intro op inOps
      obtain ⟨stmt, inBody, yields⟩ := becomes.ops block inBlocks op inOps
      exact yields.sized (ofBody stmt inBody)
    · intro cond inConds
      rcases (becomes.ends block inBlocks).conds cond inConds with
        rfl | ⟨stmt, inBody, value, target, location, kind, denotes⟩
      · trivial
      · have ofJump := ofBody stmt inBody
        rw [kind] at ofJump
        exact denotes.sized ofJump
  · intro l inLocals
    cases ofLocals l inLocals with
    | param found typed known denotes =>
        exact denotes.sized (TypeExpr.allSized_iff.mp ofValue.1 _ (List.mem_of_getElem? typed))
    | declared inBody kind known denotes =>
        have ofDeclare := ofBody _ inBody
        rw [kind] at ofDeclare
        exact denotes.sized ofDeclare.1

theorem Module.Becomes.sized {m : Module} (becomes : m.Becomes p) (sized : m.Sized) :
    p.Sized where
  unions := by
    intro u member v inUnion
    obtain ⟨decl, inModule, same⟩ := exists_source becomes.unions member
    obtain ⟨variant, inDecl, same⟩ := exists_source same.variants inUnion
    have ofUnion : ∀ v ∈ decl.variants, v.payload.Sized := sized _ (Module.mem_unions.mp inModule)
    exact same.payload.sized (ofUnion variant inDecl)
  registers := by
    intro r member
    obtain ⟨decl, inModule, same⟩ := exists_source becomes.registers member
    have ofRegister : decl.type.Sized := sized _ (Module.mem_registers.mp inModule)
    exact same.type.sized ofRegister
  supports := by
    intro op member
    obtain ⟨v, declared, binds⟩ := becomes.supports op member
    obtain ⟨params, result, span, isFunction, ofParams, ofResult⟩ := binds.type
    have ofValue : v.type.Sized := sized _ declared
    rw [isFunction] at ofValue
    exact ⟨Ty.allSized_iff.mp (ofParams.sized ofValue.1), ofResult.sized ofValue.2⟩
  functions := by
    intro d member
    obtain ⟨f, inModule, same⟩ := exists_source becomes.functions member
    exact same.sized sized inModule

end Tree

namespace Lowering

theorem Links.sized {source : SourceText} {m : Tree.Module} {l : LinkedModule}
    (links : Links source m l) : l.tree.Sized := by
  have read := Tree.Module.sized_of_quiet links.tokens (congrArg Prod.snd links.parsed)
  rw [links.parsed] at read
  rw [← Tree.Module.sized_unlinked, links.resolved.2.unchanged, Tree.Module.sized_unlinked]
  exact read

/-- A text that compiles gives a sized program. -/
theorem Compilation.sized {c : Compilation} {source : SourceText}
    (linked : source.linked = .ok c.linked) : c.program.Sized := by
  obtain ⟨m, links⟩ := links_of_linked linked
  exact (c.becomes linked).sized links.sized

end Lowering

end JumpIR
