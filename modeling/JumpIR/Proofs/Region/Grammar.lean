import JumpIR.Proofs.Grammar.Syntax
import JumpIR.Proofs.Region.Row

/-!
# The grammar with regions

The rules of the grammar once more, now between the tokens themselves and trees with their regions.
Each tree takes the region of all its tokens; one type in parentheses is the exception, since it is
the tree of what stands inside. In the body of a function and in a module there may be gaps, which
hold the tokens of the parts that had faults.
-/

set_option autoImplicit false

namespace JumpIR.Grammar

open JumpIR.Tree

/-! ### Lists -/

/-- Items with a comma behind each of them, which may be missing behind the last one. -/
inductive Separated {α : Type} (item : List Token → α → Prop) : List Token → List α → Prop where
  | nil : Separated item [] []
  | last {ts a} (only : item ts a) : Separated item ts [a]
  | cons {ts a comma us as} (first : item ts a) (between : comma.kind = .mark .comma)
      (rest : Separated item us as) : Separated item (ts ++ comma :: us) (a :: as)

inductive Parens {α : Type} (item : List Token → α → Prop) : List Token → List α → Prop where
  | intro {opening ts closing as} (opens : opening.kind = .mark .openParen)
      (items : Separated item ts as) (closes : closing.kind = .mark .closeParen) :
      Parens item (opening :: ts ++ [closing]) as

/-- Items in the order of their tokens, with any tokens before, between and behind them. -/
inductive Scattered {α : Type} (item : List Token → α → Prop) : List Token → List α → Prop where
  | nil {ts} : Scattered item ts []
  | cons {gap ts a us as} (first : item ts a) (rest : Scattered item us as) :
      Scattered item (gap ++ ts ++ us) (a :: as)

inductive IdentOn : List Token → Ident → Prop where
  | intro {t name} (word : t.kind = .ident name) : IdentOn [t] ⟨name, t.span⟩

theorem IdentOn.ne_nil {ts : List Token} {i : Ident} (on : IdentOn ts i) : ts ≠ [] := by
  cases on
  exact List.cons_ne_nil _ _

/-! ### Types -/

/-- What types in parentheses denote, if the parentheses take the region. -/
def groupedIn (span : Span) : List TypeExpr → TypeExpr
  | [] => .base .unit span
  | [type] => type
  | types => .tuple types span

theorem groupedIn_of_several {types : List TypeExpr} (span : Span) (some : types = [] → False)
    (several : ∀ type, types = [type] → False) : groupedIn span types = .tuple types span := by
  match types with
  | [] => exact absurd rfl some
  | [type] => exact absurd rfl (several type)
  | _ :: _ :: _ => rfl

inductive TypeOn : List Token → TypeExpr → Prop where
  | base {percent t name type} (opens : percent.kind = .mark .percent)
      (word : t.kind = .ident name) (named : IsBase name type) :
      TypeOn [percent, t] (.base type (region [percent, t]))
  | enum {percent t ts name} (opens : percent.kind = .mark .percent)
      (word : t.kind = .keyword .enumDecl) (named : IdentOn ts name) :
      TypeOn (percent :: t :: ts) (.named .enum name none (region (percent :: t :: ts)))
  | union {percent t ts name} (opens : percent.kind = .mark .percent)
      (word : t.kind = .keyword .unionDecl) (named : IdentOn ts name) :
      TypeOn (percent :: t :: ts) (.named .union name none (region (percent :: t :: ts)))
  | group {ts types} (items : Parens TypeOn ts types) : TypeOn ts (groupedIn (region ts) types)
  | function {ts types arrow us result} (params : Parens TypeOn ts types)
      (points : arrow.kind = .mark .arrow) (returns : TypeOn us result) :
      TypeOn (ts ++ arrow :: us) (.function types result (region (ts ++ arrow :: us)))

/-! ### Expressions -/

inductive ExprOn : List Token → Expr → Prop where
  | literal {t make} (word : Expr.literalAtom? t.kind = some make) : ExprOn [t] (make t.span)
  | unit {opening closing} (opens : opening.kind = .mark .openParen)
      (closes : closing.kind = .mark .closeParen) :
      ExprOn [opening, closing] (.literal .unit (region [opening, closing]))
  /-- The tree in parentheses takes the region of the parentheses. -/
  | paren {opening ts closing e} (opens : opening.kind = .mark .openParen) (value : ExprOn ts e)
      (closes : closing.kind = .mark .closeParen) :
      ExprOn (opening :: ts ++ [closing]) (e.withSpan (region (opening :: ts ++ [closing])))
  | prim {sign ts op us es} (signs : sign.kind = .mark .atSign) (named : IdentOn ts op)
      (args : Parens ExprOn us es) :
      ExprOn (sign :: ts ++ us) (.prim op es (region (sign :: ts ++ us)))
  | call {ts callee us es} (named : IdentOn ts callee) (args : Parens ExprOn us es) :
      ExprOn (ts ++ us) (.call callee es (region (ts ++ us)))
  | name {ts i} (named : IdentOn ts i) : ExprOn ts (.name i (region ts))
  | field {ts e dot t index} (value : ExprOn ts e) (dots : dot.kind = .mark .dot)
      (field : IsField t.kind index) :
      ExprOn (ts ++ [dot, t]) (.field e index (region (ts ++ [dot, t])))
  | isNot {ts e t us variant} (value : ExprOn ts e) (word : t.kind = .keyword .isNot)
      (named : IdentOn us variant) :
      ExprOn (ts ++ t :: us) (.isNot e variant (region (ts ++ t :: us)))
  | project {ts e t us variant} (value : ExprOn ts e) (word : t.kind = .keyword .project)
      (named : IdentOn us variant) :
      ExprOn (ts ++ t :: us) (.project e variant (region (ts ++ t :: us)))

/-- An atom of one token has no parts. -/
theorem leaf_of_literalAtom? {k : TokenKind} {make : Span → Expr}
    (known : Expr.literalAtom? k = some make) :
    (∃ value, make = .literal value) ∨ ∃ part, make = .exception part := by
  cases k with
  | int _ | bits _ _ | text _ =>
      cases known
      exact .inl ⟨_, rfl⟩
  | ident _ => cases known
  | keyword word =>
      cases word <;> cases known
      · exact .inl ⟨_, rfl⟩
      · exact .inl ⟨_, rfl⟩
      · exact .inr ⟨_, rfl⟩
      · exact .inr ⟨_, rfl⟩
      · exact .inr ⟨_, rfl⟩
  | mark m => cases m <;> cases known
  | endOfFile => cases known

theorem ExprOn.ne_nil {ts : List Token} {e : Expr} (on : ExprOn ts e) : ts ≠ [] := by
  cases on with
  | name named => exact named.ne_nil
  | call named args => exact List.append_ne_nil_of_left_ne_nil named.ne_nil _
  | _ => simp

theorem ExprOn.span_eq {ts : List Token} {e : Expr} (on : ExprOn ts e) : e.span = region ts := by
  cases on with
  | literal word =>
      obtain ⟨value, rfl⟩ | ⟨part, rfl⟩ := leaf_of_literalAtom? word
      · rfl
      · rfl
  | @paren _ _ _ e => cases e <;> rfl
  | _ => rfl

/-! ### Statements -/

inductive PathOn : List Token → List Nat → Prop where
  | nil : PathOn [] []
  | cons {dot t index ts path} (dots : dot.kind = .mark .dot) (field : IsField t.kind index)
      (rest : PathOn ts path) : PathOn (dot :: t :: ts) (index :: path)

inductive PlaceOn : List Token → Tree.Place → Prop where
  | result {t} (word : t.kind = .keyword .result) : PlaceOn [t] .result
  | currentException {t} (word : t.kind = .keyword .currentException) :
      PlaceOn [t] (.exception .thrown)
  | haveException {t} (word : t.kind = .keyword .haveException) : PlaceOn [t] (.exception .pending)
  | throwLocation {t} (word : t.kind = .keyword .throwLocation) :
      PlaceOn [t] (.exception .location)
  | named {ts name us path} (named : IdentOn ts name) (fields : PathOn us path) :
      PlaceOn (ts ++ us) (.named name path)

/-- A statement up to its semicolon. -/
inductive StmtKindOn : List Token → StmtKind → Prop where
  | declare {ts name colon us type} (named : IdentOn ts name) (colons : colon.kind = .mark .colon)
      (typed : TypeOn us type) : StmtKindOn (ts ++ colon :: us) (.declare name type none)
  | init {ts name colon us type equals vs value} (named : IdentOn ts name)
      (colons : colon.kind = .mark .colon) (typed : TypeOn us type)
      (becomes : equals.kind = .mark .equals) (init : ExprOn vs value) :
      StmtKindOn (ts ++ colon :: us ++ equals :: vs) (.declare name type (some value))
  | assign {ts target equals us value} (place : PlaceOn ts target)
      (becomes : equals.kind = .mark .equals) (expr : ExprOn us value) :
      StmtKindOn (ts ++ equals :: us) (.assign target value)
  | jump {t ts cond goto number} {n : Int64} (word : t.kind = .keyword .jump)
      (expr : ExprOn ts cond) (goes : goto.kind = .keyword .goto) (target : number.kind = .int n)
      (least : 0 ≤ n.toInt) :
      StmtKindOn (t :: ts ++ [goto, number]) (.jump cond n.toInt.toNat none)
  | jumpFrom {t ts cond goto number tick text s} {n : Int64} (word : t.kind = .keyword .jump)
      (expr : ExprOn ts cond) (goes : goto.kind = .keyword .goto) (target : number.kind = .int n)
      (least : 0 ≤ n.toInt) (ticks : tick.kind = .mark .backtick) (spells : text.kind = .text s) :
      StmtKindOn (t :: ts ++ [goto, number, tick, text]) (.jump cond n.toInt.toNat (some s))
  | goto {t number} {n : Int64} (word : t.kind = .keyword .goto) (target : number.kind = .int n)
      (least : 0 ≤ n.toInt) : StmtKindOn [t, number] (.goto n.toInt.toNat)
  | finish {t} (word : t.kind = .keyword .finish) : StmtKindOn [t] .finish
  | arbitrary {t} (word : t.kind = .keyword .arbitrary) : StmtKindOn [t] .arbitrary
  | unreachable {t} (word : t.kind = .keyword .unreachable) : StmtKindOn [t] .unreachable

theorem StmtKindOn.ne_nil {ts : List Token} {kind : StmtKind} (on : StmtKindOn ts kind) :
    ts ≠ [] := by
  cases on <;> simp

inductive StmtOn : List Token → Stmt → Prop where
  | intro {ts kind semicolon} (derives : StmtKindOn ts kind)
      (ends : semicolon.kind = .mark .semicolon) :
      StmtOn (ts ++ [semicolon]) ⟨kind, region (ts ++ [semicolon])⟩

/-! ### Modules -/

inductive VariantOn : List Token → UnionVariant → Prop where
  | intro {ts name colon us type} (named : IdentOn ts name) (colons : colon.kind = .mark .colon)
      (typed : TypeOn us type) : VariantOn (ts ++ colon :: us) ⟨name, type⟩

/-- The name of a support operation, if there is one. -/
inductive BindingOn : List Token → Option String → Prop where
  | none : BindingOn [] none
  | some {equals text s} (binds : equals.kind = .mark .equals) (spells : text.kind = .text s) :
      BindingOn [equals, text] (some s)

/-- An enum or a union without variants has a fault, and is a declaration all the same. -/
inductive DeclOn : List Token → Decl → Prop where
  | enum {t ts name opening us variants closing} (word : t.kind = .keyword .enumDecl)
      (named : IdentOn ts name) (opens : opening.kind = .mark .openBrace)
      (items : Separated IdentOn us variants) (closes : closing.kind = .mark .closeBrace) :
      DeclOn (t :: ts ++ opening :: us ++ [closing])
        (.enum ⟨name, variants, region (t :: ts ++ opening :: us ++ [closing])⟩)
  | union {t ts name opening us variants closing} (word : t.kind = .keyword .unionDecl)
      (named : IdentOn ts name) (opens : opening.kind = .mark .openBrace)
      (items : Separated VariantOn us variants) (closes : closing.kind = .mark .closeBrace) :
      DeclOn (t :: ts ++ opening :: us ++ [closing])
        (.union ⟨name, variants, region (t :: ts ++ opening :: us ++ [closing])⟩)
  | value {t ts name bs binding colon us type} (word : t.kind = .keyword .valDecl)
      (named : IdentOn ts name) (bound : BindingOn bs binding) (colons : colon.kind = .mark .colon)
      (typed : TypeOn us type) :
      DeclOn (t :: ts ++ bs ++ colon :: us)
        (.value ⟨name, binding, type, region (t :: ts ++ bs ++ colon :: us)⟩)
  | function {t ts name ps params opening us body closing} (word : t.kind = .keyword .fnDecl)
      (named : IdentOn ts name) (items : Parens IdentOn ps params)
      (opens : opening.kind = .mark .openBrace) (stmts : Scattered StmtOn us body)
      (closes : closing.kind = .mark .closeBrace) :
      DeclOn (t :: ts ++ ps ++ opening :: us ++ [closing])
        (.function ⟨name, params, body, region (t :: ts ++ ps ++ opening :: us ++ [closing])⟩)
  | register {t ts name colon us type} (word : t.kind = .keyword .registerDecl)
      (named : IdentOn ts name) (colons : colon.kind = .mark .colon) (typed : TypeOn us type) :
      DeclOn (t :: ts ++ colon :: us) (.register ⟨name, type, region (t :: ts ++ colon :: us)⟩)

/-- A module of no tokens has no region that they could tell. -/
structure ModuleOn (ts : List Token) (m : Module) : Prop where
  decls : Scattered DeclOn ts m.decls
  span : ts ≠ [] → m.span = region ts

/-! ### Rows with gaps -/

section Scattered

variable {α β : Type} {item : List Token → α → Prop} {ts us : List Token} {as bs : List α}

theorem Scattered.behind (scattered : Scattered item ts as) (gap : List Token) :
    Scattered item (gap ++ ts) as := by
  cases scattered with
  | nil => exact .nil
  | cons first rest =>
      rw [← List.append_assoc, ← List.append_assoc]
      exact .cons first rest

theorem Scattered.append (left : Scattered item ts as) (right : Scattered item us bs) :
    Scattered item (ts ++ us) (as ++ bs) := by
  induction left with
  | nil => exact right.behind _
  | cons first _rest ih =>
      rw [List.append_assoc]
      exact .cons first ih

theorem Scattered.before (scattered : Scattered item ts as) (gap : List Token) :
    Scattered item (ts ++ gap) as := by
  have whole := scattered.append (@Scattered.nil α item gap)
  rwa [List.append_nil] at whole

/-- An item without a gap before it. -/
theorem Scattered.cons_here {a : α} (first : item ts a) (rest : Scattered item us as) :
    Scattered item (ts ++ us) (a :: as) :=
  @Scattered.cons α item [] ts a us as first rest

theorem Scattered.single {a : α} (one : item ts a) : Scattered item ts [a] := by
  have whole := cons_here one (@Scattered.nil α item [])
  rwa [List.append_nil] at whole

/-- Each item has tokens of its own. -/
theorem Scattered.exists_part (scattered : Scattered item ts as) {a : α} (member : a ∈ as) :
    ∃ part, part <:+: ts ∧ item part a := by
  induction scattered with
  | nil => cases member
  | @cons gap ts a us as first rest ih =>
      rcases List.mem_cons.mp member with rfl | later
      · exact ⟨ts, ⟨gap, us, rfl⟩, first⟩
      · obtain ⟨part, inside, one⟩ := ih later
        exact ⟨part, inside.trans (List.suffix_append _ us).isInfix, one⟩

end Scattered

end JumpIR.Grammar
