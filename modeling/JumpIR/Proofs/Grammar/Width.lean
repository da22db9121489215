import JumpIR.Proofs.Grammar.Module
import JumpIR.Proofs.Symbol.Names
import JumpIR.Proofs.Token.Partition
import JumpIR.Proofs.Value.Normal

/-!
# Widths in modules

A module is sized if every bitvector in it, in a type with a width or in a literal, has from one to
64 bits. Literals are checked where tokens are read, and types where names of types are. Main
statement: `Module.sized_of_quiet`.
-/

set_option autoImplicit false

open JumpIR.Grammar JumpIR.Scan

namespace JumpIR

/-! ### Tokens -/

def TokenKind.Sized : TokenKind → Prop
  | .bits width _ => IsWidth width
  | _ => True

theorem Scan.sized_of_spells {lexeme : List Char} {kind : TokenKind}
    (spells : Spells lexeme kind) : kind.Sized := by
  cases spells with
  | text quotes => trivial
  | bits digits fits =>
      unfold bitsKind? at fits
      dsimp only at fits
      split at fits
      · rename_i range
        cases fits
        exact range
      · cases fits
  | natural digits fits =>
      obtain ⟨n, _, made⟩ := Option.map_eq_some_iff.mp fits
      cases made
      trivial
  | negative digits fits =>
      obtain ⟨n, _, made⟩ := Option.map_eq_some_iff.mp fits
      cases made
      trivial
  | word letter chars =>
      unfold wordKind
      split <;> trivial
  | mark m => trivial

namespace Tree

/-! ### Sized modules -/

def BaseType.Sized : BaseType → Prop
  | .bits (some width) => IsWidth width
  | .bits none | .unit | .bool | .int | .int64 | .bit | .string => True

mutual

/-- Every bitvector in the type that has a width has from one to 64 bits. -/
def TypeExpr.Sized : TypeExpr → Prop
  | .base type _ => type.Sized
  | .tuple items _ => TypeExpr.AllSized items
  | .named _ _ _ _ => True
  | .function params result _ => TypeExpr.AllSized params ∧ result.Sized

def TypeExpr.AllSized : List TypeExpr → Prop
  | [] => True
  | type :: rest => type.Sized ∧ TypeExpr.AllSized rest

end

theorem TypeExpr.allSized_iff {types : List TypeExpr} :
    TypeExpr.AllSized types ↔ ∀ type ∈ types, type.Sized := by
  induction types with
  | nil => simp [AllSized]
  | cons type rest ih => simp [AllSized, ih]

def Literal.Sized : Literal → Prop
  | .bits width _ => IsWidth width
  | .unit | .bool _ | .int _ | .string _ => True

mutual

/-- Every bitvector literal in the expression has from one to 64 bits. -/
def Expr.Sized : Expr → Prop
  | .name _ _ | .exception _ _ => True
  | .literal value _ => value.Sized
  | .call _ args _ | .prim _ args _ => Expr.AllSized args
  | .isNot value _ _ | .project value _ _ | .field value _ _ => value.Sized

def Expr.AllSized : List Expr → Prop
  | [] => True
  | e :: rest => e.Sized ∧ Expr.AllSized rest

end

theorem Expr.allSized_iff {es : List Expr} : Expr.AllSized es ↔ ∀ e ∈ es, e.Sized := by
  induction es with
  | nil => simp [AllSized]
  | cons e rest ih => simp [AllSized, ih]

def StmtKind.Sized : StmtKind → Prop
  | .declare _ type init => type.Sized ∧ ∀ value ∈ init, value.Sized
  | .assign _ value => value.Sized
  | .jump cond _ _ => cond.Sized
  | .goto _ | .finish | .arbitrary | .unreachable => True

def Decl.Sized : Decl → Prop
  | .value v => v.type.Sized
  | .enum _ => True
  | .union u => ∀ v ∈ u.variants, v.payload.Sized
  | .function f => ∀ stmt ∈ f.body, stmt.kind.Sized
  | .register r => r.type.Sized

def Module.Sized (m : Module) : Prop := ∀ decl ∈ m.decls, decl.Sized

/-! ### Regions and links have no part in it -/

mutual

@[simp] theorem TypeExpr.sized_bare : ∀ t : TypeExpr, t.bare.Sized ↔ t.Sized
  | .base _ _ => Iff.rfl
  | .tuple items _ => TypeExpr.allSized_bare items
  | .named _ _ _ _ => Iff.rfl
  | .function params result _ =>
      and_congr (TypeExpr.allSized_bare params) (TypeExpr.sized_bare result)

theorem TypeExpr.allSized_bare : ∀ ts : List TypeExpr,
    TypeExpr.AllSized (TypeExpr.allBare ts) ↔ TypeExpr.AllSized ts
  | [] => Iff.rfl
  | t :: rest => and_congr (TypeExpr.sized_bare t) (TypeExpr.allSized_bare rest)

end

mutual

@[simp] theorem TypeExpr.sized_unlinked : ∀ t : TypeExpr, t.unlinked.Sized ↔ t.Sized
  | .base _ _ => Iff.rfl
  | .tuple items _ => TypeExpr.allSized_unlinked items
  | .named _ _ _ _ => Iff.rfl
  | .function params result _ =>
      and_congr (TypeExpr.allSized_unlinked params) (TypeExpr.sized_unlinked result)

theorem TypeExpr.allSized_unlinked : ∀ ts : List TypeExpr,
    TypeExpr.AllSized (TypeExpr.allUnlinked ts) ↔ TypeExpr.AllSized ts
  | [] => Iff.rfl
  | t :: rest => and_congr (TypeExpr.sized_unlinked t) (TypeExpr.allSized_unlinked rest)

end

mutual

@[simp] theorem Expr.sized_bare : ∀ e : Expr, e.bare.Sized ↔ e.Sized
  | .name _ _ | .literal _ _ | .exception _ _ => Iff.rfl
  | .call _ args _ | .prim _ args _ => Expr.allSized_bare args
  | .isNot value _ _ | .project value _ _ | .field value _ _ => Expr.sized_bare value

theorem Expr.allSized_bare : ∀ es : List Expr,
    Expr.AllSized (Expr.allBare es) ↔ Expr.AllSized es
  | [] => Iff.rfl
  | e :: rest => and_congr (Expr.sized_bare e) (Expr.allSized_bare rest)

end

@[simp] theorem StmtKind.sized_bare (kind : StmtKind) : kind.bare.Sized ↔ kind.Sized := by
  cases kind <;> simp [StmtKind.bare, StmtKind.Sized]

theorem Decl.sized_bare (decl : Decl) : decl.bare.Sized ↔ decl.Sized := by
  cases decl <;> simp [Decl.bare, Decl.Sized, UnionVariant.bare, Stmt.bare]

theorem Stmt.sized_unlinked (s : Stmt) : s.unlinked.kind.Sized ↔ s.kind.Sized := by
  obtain ⟨kind, span⟩ := s
  cases kind <;> simp [Stmt.unlinked, StmtKind.Sized]

theorem Decl.sized_unlinked (decl : Decl) : decl.unlinked.Sized ↔ decl.Sized := by
  cases decl <;> simp [Decl.unlinked, Decl.Sized, UnionVariant.unlinked, Stmt.sized_unlinked]

theorem Module.sized_unlinked (m : Module) : m.unlinked.Sized ↔ m.Sized := by
  simp [Module.unlinked, Module.Sized, Decl.sized_unlinked]

end Tree

/-! ### What the grammar derives -/

namespace Grammar

open JumpIR.Tree

variable {α : Type} {item : List TokenKind → α → Prop} {good : α → Prop} {ks : List TokenKind}

theorem CommaList.all {as : List α} (list : CommaList item ks as) (sized : ∀ k ∈ ks, k.Sized)
    (each : ∀ ks a, item ks a → (∀ k ∈ ks, k.Sized) → good a) : ∀ a ∈ as, good a := by
  induction list with
  | nil => simp
  | last only => simpa using each _ _ only sized
  | cons first _rest ih =>
      rw [List.forall_mem_append, List.forall_mem_cons] at sized
      rw [List.forall_mem_cons]
      exact ⟨each _ _ first sized.1, ih sized.2.2⟩

theorem Many.all {as : List α} (list : Many item ks as) (sized : ∀ k ∈ ks, k.Sized)
    (each : ∀ ks a, item ks a → (∀ k ∈ ks, k.Sized) → good a) : ∀ a ∈ as, good a := by
  induction list with
  | nil => simp
  | cons first _rest ih =>
      rw [List.forall_mem_append] at sized
      rw [List.forall_mem_cons]
      exact ⟨each _ _ first sized.1, ih sized.2⟩

theorem sized_of_isNamed {type : TypeExpr} (named : IsNamed ks type) : type.Sized := by
  cases named with
  | base named =>
      cases named with
      | bits decimal least most => exact ⟨least, most⟩
      | _ => trivial
  | enum => trivial
  | union => trivial

theorem sized_grouped {types : List TypeExpr} (sized : TypeExpr.AllSized types) :
    (grouped types).Sized := by
  unfold grouped
  split
  · trivial
  · exact sized.1
  · exact sized

/-- The widths of types are checked where they are read. -/
theorem sized_of_isType {type : TypeExpr} (derives : IsType ks type) : type.Sized := by
  refine @IsType.rec (fun _ type _ => type.Sized) (fun _ types _ => TypeExpr.AllSized types)
    ?named ?group ?function ?nil ?last ?cons ks type derives
  case named => exact fun named => sized_of_isNamed named
  case group => exact fun _items sized => sized_grouped sized
  case function => exact fun _params _returns ofParams ofResult => ⟨ofParams, ofResult⟩
  case nil => trivial
  case last => exact fun _only sized => ⟨sized, trivial⟩
  case cons => exact fun _first _rest sized others => ⟨sized, others⟩

section

variable {inner : List TokenKind → Expr → Prop}
  (sizedInner : ∀ ks e, inner ks e → (∀ k ∈ ks, k.Sized) → e.Sized)

include sizedInner

theorem sized_of_isArgs {es : List Expr} (args : IsArgs inner ks es)
    (sized : ∀ k ∈ ks, k.Sized) : Expr.AllSized es := by
  cases args with
  | intro items =>
      simp only [List.cons_append, List.forall_mem_cons, List.forall_mem_append] at sized
      exact Expr.allSized_iff.mpr (items.all sized.2.1 sizedInner)

theorem sized_of_isAtom {e : Expr} (atom : IsAtom inner ks e) (sized : ∀ k ∈ ks, k.Sized) :
    e.Sized := by
  cases atom with
  | bits => exact sized _ List.mem_cons_self
  | paren value =>
      simp only [List.cons_append, List.forall_mem_cons, List.forall_mem_append] at sized
      exact sizedInner _ _ value sized.2.1
  | prim args =>
      simp only [List.forall_mem_cons] at sized
      exact sized_of_isArgs sizedInner args sized.2.2
  | call args =>
      simp only [List.forall_mem_cons] at sized
      exact sized_of_isArgs sizedInner args sized.2
  | int | text | true | false | haveException | currentException | throwLocation | unit | name =>
      trivial

end

theorem sized_of_isPostfix {value e : Expr} (postfixes : IsPostfix value ks e)
    (sized : value.Sized) : e.Sized := by
  induction postfixes with
  | nil => exact sized
  | field _field _rest ih => exact ih sized
  | isNot _rest ih => exact ih sized
  | project _rest ih => exact ih sized

theorem sized_of_isExprWithin (levels : Nat) : ∀ ks e, IsExprWithin levels ks e →
    (∀ k ∈ ks, k.Sized) → e.Sized := by
  induction levels with
  | zero =>
      intro ks e derives
      cases derives
  | succ levels ih =>
      intro ks e derives sized
      cases derives with
      | intro atom postfixes =>
          rw [List.forall_mem_append] at sized
          exact sized_of_isPostfix postfixes (sized_of_isAtom ih atom sized.1)

theorem sized_of_isExpr {e : Expr} (derives : IsExpr ks e) (sized : ∀ k ∈ ks, k.Sized) :
    e.Sized :=
  sized_of_isExprWithin _ ks e derives sized

theorem sized_of_isStmtKind {kind : StmtKind} (derives : IsStmtKind ks kind)
    (sized : ∀ k ∈ ks, k.Sized) : kind.Sized := by
  cases derives with
  | declare typed => exact ⟨sized_of_isType typed, fun value none => nomatch none⟩
  | init typed init =>
      simp only [List.cons_append, List.forall_mem_cons, List.forall_mem_append] at sized
      refine ⟨sized_of_isType typed, ?_⟩
      rintro value ⟨⟩
      exact sized_of_isExpr init sized.2.2.2.2
  | assign place expr =>
      rw [List.forall_mem_append, List.forall_mem_cons] at sized
      exact sized_of_isExpr expr sized.2.2
  | jump expr least =>
      simp only [List.cons_append, List.forall_mem_cons, List.forall_mem_append] at sized
      exact sized_of_isExpr expr sized.2.1
  | jumpFrom expr least =>
      simp only [List.cons_append, List.forall_mem_cons, List.forall_mem_append] at sized
      exact sized_of_isExpr expr sized.2.1
  | goto least => trivial
  | finish | arbitrary | unreachable => trivial

theorem sized_of_isStmt (ks : List TokenKind) (stmt : Stmt) (derives : IsStmt ks stmt)
    (sized : ∀ k ∈ ks, k.Sized) : stmt.kind.Sized := by
  cases derives with
  | intro derives =>
      rw [List.forall_mem_append] at sized
      exact sized_of_isStmtKind derives sized.1

theorem sized_of_isVariant (ks : List TokenKind) (v : UnionVariant) (derives : IsVariant ks v) :
    v.payload.Sized := by
  cases derives with
  | intro typed => exact sized_of_isType typed

theorem sized_of_isDecl (ks : List TokenKind) (decl : Decl) (derives : IsDecl ks decl)
    (sized : ∀ k ∈ ks, k.Sized) : decl.Sized := by
  cases derives with
  | enum items nonempty => trivial
  | union items nonempty =>
      simp only [List.cons_append, List.forall_mem_cons, List.forall_mem_append] at sized
      exact items.all sized.2.2.2.1 fun ks v derives _ => sized_of_isVariant ks v derives
  | value typed => exact sized_of_isType typed
  | bound typed => exact sized_of_isType typed
  | function items stmts =>
      simp only [List.cons_append, List.forall_mem_cons, List.forall_mem_append] at sized
      exact stmts.all sized.2.2.2.1.2.2.2 sized_of_isStmt
  | register typed => exact sized_of_isType typed

end Grammar

/-! ### Texts -/

namespace Tree.Module

/-- A text whose tokens and declarations are read without a fault is a sized module. -/
theorem sized_of_quiet {text : List Char} (quiet : (tokensOf text).2 = [])
    (parsed : (ofTokens (tokensOf text).1).2 = []) : (ofTokens (tokensOf text).1).1.Sized := by
  obtain ⟨tokens, listed, laid⟩ :=
    laid_of_tokens (text.length + 1) .origin text (Nat.lt_succ_self _) quiet
  change (tokensOf text).1 = _ at listed
  have spelled : ∀ k ∈ tokens.map Token.kind, ∃ lexeme, Spells lexeme k := by
    intro k member
    obtain ⟨t, inTokens, rfl⟩ := List.mem_map.mp member
    obtain ⟨_before, lexeme, _after, _split, spells, _region⟩ :=
      stands_of_laid laid [] rfl t inTokens
    exact ⟨lexeme, spells⟩
  have closed : (tokensOf text).1.map Token.kind = tokens.map Token.kind ++ [.endOfFile] := by
    rw [listed, List.map_append]
    rfl
  have inside : .endOfFile ∉ tokens.map Token.kind := by
    intro member
    obtain ⟨lexeme, spells⟩ := spelled _ member
    exact kind_of_spells spells rfl
  have ready := ready_ofTokens closed inside
  have enough : (tokens.map Token.kind).length < (Cursor.ofTokens (tokensOf text).1).budget := by
    rw [ready.stands.budget]
    omega
  have derives := (derives_of_declarations _ _ _ ready.stands enough _ _ rfl parsed).2
  have sized : ∀ k ∈ tokens.map Token.kind, k.Sized := by
    intro k member
    obtain ⟨lexeme, spells⟩ := spelled k member
    exact sized_of_spells spells
  intro decl member
  rw [← Decl.sized_bare]
  exact derives.all sized sized_of_isDecl _ (List.mem_map_of_mem member)

end Tree.Module

end JumpIR
