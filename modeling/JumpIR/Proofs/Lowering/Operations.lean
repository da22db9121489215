import JumpIR.Proofs.Lowering.Names
import JumpIR.Proofs.Lowering.Origin

/-!
# What operations stand for

The operands, the places and the operations of a compiled function denote what its text has, and its
locals are the parameters and the declared names of its text.
-/

set_option autoImplicit false

namespace JumpIR.Lowering

/-! ### Expressions and places -/

namespace Scope

variable {s : Scope} {m : Tree.Module} {p : Program} {d : FunctionDef}

theorem local_of_local? (locals : d.locals = s.locals) {name : String} {id : LocalId}
    (found : s.local? name = some id) : ∃ l, d.locals[id.index]? = some l ∧ l.name = name := by
  obtain ⟨index, first, rfl⟩ := Option.map_eq_some_iff.mp found
  obtain ⟨bound, named, _before⟩ := List.findIdx?_eq_some_iff_getElem.mp first
  rw [locals]
  exact ⟨s.locals[index], List.getElem?_eq_getElem bound, eq_of_beq named⟩

theorem denotes_of_name (describes : s.globals.Describes m p) (locals : d.locals = s.locals)
    {name : Tree.Ident} {span : Span} {operand : Operand}
    (lowered : s.nameOperand name = .ok operand) :
    (Tree.Expr.name name span).Denotes p d operand := by
  unfold nameOperand at lowered
  split at lowered
  · rename_i id found
    cases lowered
    obtain ⟨l, here, named⟩ := local_of_local? locals found
    exact .localVar here named
  · split at lowered
    · rename_i id found
      cases lowered
      exact .register (describes.registerName?_of_register? found)
    · split at lowered
      · rename_i c found
        cases lowered
        obtain ⟨id, ordinal, rfl⟩ := Globals.enumConst?_eq found
        exact .ordinal (describes.ordinalName?_of_enumConst? found)
      · cases lowered

theorem variantName?_of_variant (describes : s.globals.Describes m p) {name : Tree.Ident}
    {union : UnionId} {tag : Nat} (found : s.variant name = .ok (union, tag)) :
    p.variantName? union tag = some name.name := by
  unfold variant at found
  split at found
  · rename_i known
    cases found
    exact describes.variantName?_of_variant? known
  · cases found

mutual

theorem denotes_of_operand (describes : s.globals.Describes m p) (locals : d.locals = s.locals) :
    ∀ (e : Tree.Expr) {operand : Operand}, s.operand e = .ok operand → e.Denotes p d operand
  | .name name span, _, lowered => by
      rw [Scope.operand] at lowered
      exact denotes_of_name describes locals lowered
  | .literal value span, _, lowered => by
      rw [Scope.operand] at lowered
      cases lowered
      exact .literal
  | .call callee args span, _, lowered => by
      rw [Scope.operand] at lowered
      obtain ⟨target, found, lowered⟩ := bind_ok lowered
      split at lowered
      · obtain ⟨items, all, done⟩ := bind_ok lowered
        cases done
        exact .construct (describes.variantName?_of_variant? (Globals.target?_constructor found))
          (allDenote_of_operands describes locals args all)
      · cases lowered
      · cases lowered
  | .prim op args span, _, lowered => by
      rw [Scope.operand] at lowered
      split at lowered
      · cases lowered
      · rename_i prim known
        split at lowered
        · obtain ⟨items, all, done⟩ := bind_ok lowered
          cases done
          have named := List.find?_some known
          exact .prim (eq_of_beq named) (allDenote_of_operands describes locals args all)
        · cases lowered
  | .isNot value variant span, _, lowered => by
      rw [Scope.operand] at lowered
      obtain ⟨⟨union, tag⟩, known, lowered⟩ := bind_ok lowered
      obtain ⟨inner, loweredInner, done⟩ := bind_ok lowered
      cases done
      exact .isNot (variantName?_of_variant describes known)
        (denotes_of_operand describes locals value loweredInner)
  | .project value variant span, _, lowered => by
      rw [Scope.operand] at lowered
      obtain ⟨⟨union, tag⟩, known, lowered⟩ := bind_ok lowered
      obtain ⟨inner, loweredInner, done⟩ := bind_ok lowered
      cases done
      exact .project (variantName?_of_variant describes known)
        (denotes_of_operand describes locals value loweredInner)
  | .field value index span, _, lowered => by
      rw [Scope.operand] at lowered
      obtain ⟨inner, loweredInner, done⟩ := bind_ok lowered
      cases done
      exact .field (denotes_of_operand describes locals value loweredInner)
  | .exception part span, _, lowered => by
      rw [Scope.operand] at lowered
      cases lowered
      exact .exception

theorem allDenote_of_operands (describes : s.globals.Describes m p)
    (locals : d.locals = s.locals) :
    ∀ (es : List Tree.Expr) {operands : List Operand}, s.operands es = .ok operands →
      Tree.Expr.AllDenote p d es operands
  | [], _, lowered => by
      rw [Scope.operands] at lowered
      cases lowered
      exact .nil
  | e :: rest, _, lowered => by
      rw [Scope.operands] at lowered
      obtain ⟨first, loweredFirst, lowered⟩ := bind_ok lowered
      obtain ⟨others, loweredOthers, done⟩ := bind_ok lowered
      cases done
      exact .cons (denotes_of_operand describes locals e loweredFirst)
        (allDenote_of_operands describes locals rest loweredOthers)

end

theorem denotes_of_place (describes : s.globals.Describes m p) (locals : d.locals = s.locals)
    {target : Tree.Place} {dest : Place} (lowered : s.place target = .ok dest) :
    target.Denotes p d dest := by
  unfold place at lowered
  cases target with
  | named name path =>
      dsimp only at lowered
      split at lowered
      · rename_i id found
        cases lowered
        obtain ⟨l, here, named⟩ := local_of_local? locals found
        exact .localVar here named
      · split at lowered
        · rename_i id found
          cases lowered
          exact .register (describes.registerName?_of_register? found)
        · cases lowered
  | result =>
      cases lowered
      exact .result
  | exception part =>
      cases lowered
      exact .exception

end Scope

/-! ### Operations -/

namespace Body

variable {b : Body} {blocks : List Block} {supports : List SupportDef} {leads : Site → Prop}
  {n : Nat} {s : Site} {op : Op} {m : Tree.Module} {p : Program} {d : FunctionDef}

theorem Assigns.yields (describes : b.scope.globals.Describes m p)
    (locals : d.locals = b.scope.locals) {kind : Tree.StmtKind} {dest : Place} {value : Tree.Expr}
    (code : Assigns b blocks p.supports leads n dest value s)
    (stores : kind.Stores p d dest value) (found : s.HasOp blocks op) : kind.Yields m p d op := by
  cases code with
  | value lowered assigned onward =>
      cases Site.hasOp_unique found assigned
      exact .assign stores (Scope.denotes_of_operand describes locals _ lowered)
  | support known arity listed lowered call onward =>
      cases Site.hasOp_unique found call
      exact .call stores (describes.calls_of_support known listed)
        (Scope.allDenote_of_operands describes locals _ lowered)
  | function known lowered call unchecked onward =>
      cases Site.hasOp_unique found call
      exact .call stores (describes.calls_of_function known)
        (Scope.allDenote_of_operands describes locals _ lowered)
  | checked known lowered call checks test exits onward =>
      cases Site.hasOp_unique found call
      exact .call stores (describes.calls_of_function known)
        (Scope.allDenote_of_operands describes locals _ lowered)

/-- Every operation is part of what a statement of the body does. -/
theorem Layout.yields (layout : b.Layout blocks p.supports)
    (describes : b.scope.globals.Describes m p) (locals : d.locals = b.scope.locals)
    (found : s.HasOp blocks op) : ∃ stmt ∈ b.scope.decl.body, stmt.kind.Yields m p d op := by
  obtain ⟨n, stmt, foundStmt, here⟩ := layout.covers s op found
  refine ⟨stmt, List.mem_of_getElem? foundStmt, ?_⟩
  have code := layout.performs n stmt foundStmt
  generalize layout.start n = start at code here
  generalize stmt.kind = kind at code here ⊢
  rcases here with rfl | ⟨rfl, name, type, value, rfl⟩
  · cases code with
    | declare known declared onward =>
        cases Site.hasOp_unique found declared
        obtain ⟨l, listed, named⟩ := Scope.local_of_local? locals known
        exact .declare listed named
    | declareInit known declared init =>
        cases Site.hasOp_unique found declared
        obtain ⟨l, listed, named⟩ := Scope.local_of_local? locals known
        exact .declare listed named
    | assign lowered code =>
        exact code.yields describes locals
          (.assign (Scope.denotes_of_place describes locals lowered)) found
    | jump lowered starts left onward => exact absurd left (Site.not_hasEnd found)
    | goto starts left => exact absurd left (Site.not_hasEnd found)
    | finish left => exact absurd left (Site.not_hasEnd found)
    | arbitrary left => exact absurd left (Site.not_hasEnd found)
    | unreachable left => exact absurd left (Site.not_hasEnd found)
  · cases code with
    | declareInit known declared init =>
        obtain ⟨l, listed, named⟩ := Scope.local_of_local? locals known
        exact init.yields describes locals (.init listed named) found

end Body

/-! ### Locals -/

theorem declareLocal_cases {function : String} {locals more : List LocalDef} {name : Tree.Ident}
    {type : Ty} (done : declareLocal function locals name type = .ok more) :
    more = locals ∨ more = locals ++ [⟨name.name, type⟩] := by
  unfold declareLocal at done
  split at done
  · cases done
    exact Or.inr rfl
  · split at done
    · cases done
      exact Or.inl rfl
    · cases done

/-- Every local that the parameters bring is one of them, with its type. -/
theorem source_of_declareParams {function : String} {names : List Tree.Ident} :
    ∀ {types : List Ty} {locals more : List LocalDef},
      declareParams function names types locals = .ok more → ∀ l ∈ more, l ∈ locals ∨
        ∃ (index : Nat) (name : Tree.Ident), names[index]? = some name ∧
          types[index]? = some l.type ∧ l.name = name.name := by
  induction names with
  | nil =>
      intro types locals more done l member
      cases done
      exact Or.inl member
  | cons name rest ih =>
      intro types locals more done l member
      cases types with
      | nil =>
          cases done
          exact Or.inl member
      | cons type others =>
          obtain ⟨middle, declared, done⟩ := bind_ok done
          rcases ih done l member with before | ⟨index, other, here, typed, named⟩
          · rcases declareLocal_cases declared with rfl | rfl
            · exact Or.inl before
            · rcases List.mem_append.mp before with old | new
              · exact Or.inl old
              · cases List.mem_singleton.mp new
                exact Or.inr ⟨0, name, rfl, rfl, rfl⟩
          · exact Or.inr ⟨index + 1, other, here, typed, named⟩

/-- Every local that the statements bring is one that they declare, with its type. -/
theorem source_of_declareLocals {globals : Globals} {function : String} {stmts : List Tree.Stmt} :
    ∀ {locals more : List LocalDef}, declareLocals globals function stmts locals = .ok more →
      ∀ l ∈ more, l ∈ locals ∨ ∃ stmt ∈ stmts, ∃ name type init,
        stmt.kind = .declare name type init ∧ l.name = name.name ∧
          globals.type type = .ok l.type := by
  induction stmts with
  | nil =>
      intro locals more done l member
      cases done
      exact Or.inl member
  | cons stmt rest ih =>
      intro locals more done l member
      unfold declareLocals at done
      split at done
      · rename_i name type init kind
        obtain ⟨known, typed, done⟩ := bind_ok done
        obtain ⟨middle, declared, done⟩ := bind_ok done
        rcases ih done l member with before | ⟨other, inRest, found⟩
        · rcases declareLocal_cases declared with rfl | rfl
          · exact Or.inl before
          · rcases List.mem_append.mp before with old | new
            · exact Or.inl old
            · cases List.mem_singleton.mp new
              exact Or.inr ⟨stmt, List.mem_cons_self, name, type, init, kind, rfl, typed⟩
        · exact Or.inr ⟨other, List.mem_cons_of_mem _ inRest, found⟩
      · rcases ih done l member with before | ⟨other, inRest, found⟩
        · exact Or.inl before
        · exact Or.inr ⟨other, List.mem_cons_of_mem _ inRest, found⟩

end JumpIR.Lowering
