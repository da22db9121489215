import JumpIR.Proofs.Cursor.Rounds

/-!
# Parsing ends

Wherever a cursor stands in a token list, every loop of the parser ends there, round by round, and
the cursor stays on a token of the list. Main statement: `ofTokens_progress`.
-/

set_option autoImplicit false

open JumpIR.Parser

namespace JumpIR

/-! ### Places in a list -/

namespace Cursor

/-- The list that is read, with an end of the file behind it if it has none. -/
def closed (tokens : List Token) : List Token :=
  match tokens.getLast? with
  | none => [⟨.endOfFile, .point .origin⟩]
  | some last => if last.kind = .endOfFile then tokens else tokens ++ [⟨.endOfFile, last.span⟩]

/-- The cursor is on token `pos` of the list, and it has the region of the token before. -/
structure Stands (list : List Token) (pos : Nat) (c : Cursor) : Prop where
  current : list[pos]? = some c.current
  rest : list.drop (pos + 1) = c.rest
  previous : c.previous = ((list.take pos).getLast?.map Token.span).getD (.point .origin)

variable {list taken : List Token} {pos : Nat} {c d : Cursor}

theorem getLast?_closed (tokens : List Token) :
    (closed tokens).getLast?.map Token.kind = some .endOfFile := by
  unfold closed
  split
  case h_1 => rfl
  case h_2 last isLast =>
      split
      case isTrue ended => rw [isLast, Option.map_some, ended]
      case isFalse => simp

theorem stands_ofTokens (tokens : List Token) : (ofTokens tokens).Stands (closed tokens) 0 := by
  unfold ofTokens
  dsimp only
  split
  case h_1 none =>
      have last := getLast?_closed tokens
      have none : closed tokens = [] := none
      rw [none] at last
      cases last
  case h_2 first rest whole =>
      have whole : closed tokens = first :: rest := whole
      rw [whole]
      exact ⟨rfl, rfl, rfl⟩

theorem Stands.tokens (stands : c.Stands list pos) : list.drop pos = c.tokens := by
  obtain ⟨bound, here⟩ := List.getElem?_eq_some_iff.mp stands.current
  rw [List.drop_eq_getElem_cons bound, here, stands.rest]
  rfl

/-- A cursor in a list stays in it. -/
theorem Stands.passes (stands : c.Stands list pos) (passes : Passes taken c d) :
    d.Stands list (pos + taken.length) := by
  have whole : list = list.take pos ++ (taken ++ d.tokens) := by
    rw [← passes.tokens, ← stands.tokens, List.take_append_drop]
  have bound : pos ≤ list.length :=
    Nat.le_of_lt (List.getElem?_eq_some_iff.mp stands.current).1
  have length : (list.take pos).length = pos := List.length_take_of_le bound
  have behind : list.drop (pos + taken.length) = d.tokens := by
    rw [← List.drop_drop, stands.tokens, passes.tokens, List.drop_left]
  have before : list.take (pos + taken.length) = list.take pos ++ taken := by
    rw [List.take_add, stands.tokens, passes.tokens, List.take_left]
  refine ⟨?_, ?_, ?_⟩
  · rw [← List.head?_drop, behind]
    rfl
  · rw [← List.tail_drop, behind]
    rfl
  · rw [passes.previous, stands.previous, before]
    cases taken with
    | nil => simp
    | cons t rest => simp [List.getLast?_cons]

theorem Stands.bounded (ends : list.getLast?.map Token.kind = some .endOfFile)
    (stands : c.Stands list pos) : c.Bounded := by
  rw [Bounded, ← stands.tokens, List.getLast?_drop, if_neg, ends]
  have bound := (List.getElem?_eq_some_iff.mp stands.current).1
  omega

end Cursor

/-! ### Every loop from every place -/

namespace Tree

/-- What the parser does from a place on: its readers go forward, and its loops end. -/
structure Progress (c : Cursor) : Prop where
  forward : (∀ p, Decl.parser? c.kind = some p → ∃ taken, Cursor.Passes taken c (p.run c).2) ∧
    (∃ taken, Cursor.Passes taken c (Stmt.parse.run c).2) ∧
    (∃ taken, Cursor.Passes taken c (Expr.parse.run c).2) ∧
    ∃ taken, Cursor.Passes taken c (TypeExpr.parse.run c).2
  declarations : Loops Module.declarationRound [] c
    (some (Module.declarations c.budget c).1, (Module.declarations c.budget c).2)
  statements : Loops Decl.statementRound [] c (Decl.parseStatements.run c)
  enumVariants : Loops (commaRound (.mark .closeBrace) identifier) [] c
    ((commaSeparated (.mark .closeBrace) identifier).run c)
  unionVariants : Loops (commaRound (.mark .closeBrace) Decl.parseVariant) [] c
    ((commaSeparated (.mark .closeBrace) Decl.parseVariant).run c)
  parameters : Loops (commaRound (.mark .closeParen) identifier) [] c
    ((commaSeparated (.mark .closeParen) identifier).run c)
  arguments : ∀ levels, Loops (commaRound (.mark .closeParen) (Expr.parseWithin levels)) [] c
    ((commaSeparated (.mark .closeParen) (Expr.parseWithin levels)).run c)
  typeItems : Loops (commaRound (.mark .closeParen) TypeExpr.parse) [] c
    ((commaSeparated (.mark .closeParen) TypeExpr.parse).run c)
  types : TypeExpr.parse.run c = (TypeExpr.parseBy TypeExpr.parse).run c
  path : ∀ budget, c.rest.length < budget →
    Loops Place.fieldRound [] c ((Place.fields budget).run c)
  postfixes : ∀ value, Loops Expr.postfixRound value c ((Expr.postfixes c.budget value).run c)
  skipStatement : Loops Cursor.skipStatementRound () c (some (), c.skipStatement c.budget)
  skipToDecl : Loops Cursor.skipToDeclRound () c (some (), c.skipToDecl c.budget)

theorem progress {c : Cursor} (bounded : c.Bounded) : Progress c where
  forward := by
    refine ⟨?_, ?_, ?_, ?_⟩
    · intro p known
      have inside := Decl.inside_of_parser? known
      obtain ⟨-, taken, passes, -⟩ := (Decl.departs_parser? known c).motion bounded inside
      exact ⟨taken, passes⟩
    · obtain ⟨taken, passes, -⟩ := (Stmt.moves_parse c bounded).passes
      exact ⟨taken, passes⟩
    · have moves : Expr.parse.Moves True 1 := Expr.moves_parse
      obtain ⟨taken, passes, -⟩ := (moves c bounded).passes
      exact ⟨taken, passes⟩
    · have moves : TypeExpr.parse.Moves True 1 := TypeExpr.moves_parse
      obtain ⟨taken, passes, -⟩ := (moves c bounded).passes
      exact ⟨taken, passes⟩
  declarations := Module.loops_declarations bounded
  statements := Decl.loops_parseStatements bounded
  enumVariants := loops_commaSeparated moves_identifier bounded
  unionVariants := loops_commaSeparated Decl.moves_parseVariant bounded
  parameters := loops_commaSeparated moves_identifier bounded
  arguments := fun levels => loops_commaSeparated (Expr.moves_parseWithin levels) bounded
  typeItems := loops_commaSeparated TypeExpr.moves_parse bounded
  types := TypeExpr.run_parse bounded
  path := fun _budget enough => Place.loops_fields bounded enough
  postfixes := fun value => Expr.loops_postfixes bounded value
  skipStatement := Cursor.loops_skipStatement bounded
  skipToDecl := Cursor.loops_skipToDecl bounded

/-- On every token list the loop over the declarations ends in the module that is read, and from
every place in the list each reader goes forward, each loop ends, and the list is not left. -/
theorem ofTokens_progress (tokens : List Token) :
    (Cursor.ofTokens tokens).Stands (Cursor.closed tokens) 0 ∧
    (∃ last pos, Loops Module.declarationRound [] (Cursor.ofTokens tokens)
        (some (Module.ofTokens tokens).1.decls, last) ∧
      last.reports = (Module.ofTokens tokens).2 ∧ last.Stands (Cursor.closed tokens) pos) ∧
    ∀ pos c, c.Stands (Cursor.closed tokens) pos → Progress c ∧
      ∀ taken d, Cursor.Passes taken c d →
        d.Stands (Cursor.closed tokens) (pos + taken.length) := by
  have starts := Cursor.stands_ofTokens tokens
  have ends := Cursor.getLast?_closed tokens
  have bounded := starts.bounded ends
  have loops := Module.loops_declarations bounded
  obtain ⟨taken, passes⟩ := loops.passes
  refine ⟨starts, ⟨_, _, loops, rfl, starts.passes passes⟩, ?_⟩
  intro pos c stands
  exact ⟨progress (stands.bounded ends), fun taken d passes => stands.passes passes⟩

end Tree

end JumpIR
