import JumpIR.Proofs.Grammar.Stmt

/-!
# Declarations by the grammar

The word that a declaration starts with picks its reader. The statements of a body are read in
rounds, and the rounds suffice, since each statement takes a token.
-/

set_option autoImplicit false

open JumpIR.Grammar JumpIR.Parser

namespace JumpIR

variable {c d : Cursor} {rest : List TokenKind}

/-! ### Resuming behind a fault -/

namespace Cursor

theorem skipStatement_closed (budget : Nat) (closed : c.Closed) :
    (c.skipStatement budget).Closed := by
  induction budget generalizing c with
  | zero => exact closed
  | succ budget ih =>
      unfold skipStatement
      split_ifs
      · exact closed
      · exact closed.advance
      · exact closed
      · exact ih closed.advance

theorem skipStatement_reports (budget : Nat) (c : Cursor) :
    (c.skipStatement budget).reports = c.reports := by
  induction budget generalizing c with
  | zero => rfl
  | succ budget ih =>
      unfold skipStatement
      split_ifs
      · rfl
      · exact advance_reports c
      · rfl
      · rw [ih, advance_reports]

end Cursor

namespace Tree

theorem reads_closeBody (owner : Ident) :
    (closeBody owner).Reads fun used _ => used = [.mark .closeBrace] := by
  intro c closed
  simp only [Parser.run, closeBody]
  split
  case isTrue kind => exact reading_advance closed kind (by simp) rfl
  case isFalse => exact reading_report closed

namespace Decl

/-! ### What is read -/

theorem reads_ident : identifier.Reads fun ks i => IsIdent ks i.bare := by
  apply reads_identifier.imp
  rintro _ i rfl
  exact .intro

theorem reads_parseVariant : parseVariant.Reads fun ks v => IsVariant ks v.bare := by
  apply reads_identifier.bind
  intro name
  apply (reads_expect (by simp)).bind
  intro _
  apply TypeExpr.reads_parse.bind
  intro type
  apply reads_pure
  rintro ks typed _ rfl _ rfl
  simpa [UnionVariant.bare, Ident.bare] using IsVariant.intro typed

/-- Behind its closing brace, an enum or a union is read just if it has a variant. -/
theorem reads_unlessEmpty {α : Type} (variants : List α) (fault : ParseFault) (span start : Span)
    (make : Span → Decl) :
    (do if variants.isEmpty then warn fault span
        return make (← spanFrom start) : Parser Decl).Reads fun used decl =>
      used = [] ∧ variants ≠ [] ∧ ∃ region, decl = make region := by
  dsimp only
  split
  case isTrue =>
      apply (reads_warn _ _).bind
      intro _
      apply (reads_spanFrom _).bind
      intro region
      apply reads_pure
      rintro _ _ _ ⟨⟩
  case isFalse nonempty =>
      apply (reads_spanFrom _).bind
      intro region
      apply reads_pure
      rintro _ rfl
      exact ⟨rfl, by simpa using nonempty, region, rfl⟩

theorem readsAt_parseEnum (kind : c.kind = .keyword .enumDecl) :
    parseEnum.ReadsAt (fun ks decl => IsDecl ks decl.bare) c := by
  apply readsAt_here
  apply (readsAt_advance kind (by simp)).bind
  intro _
  apply reads_identifier.bind
  intro name
  apply (reads_expect (by simp)).bind
  intro _
  apply (reads_commaSeparated reads_ident).bind
  intro variants
  apply (reads_closeBody name).bind
  intro _
  apply (reads_unlessEmpty variants _ _ _ fun region => .enum ⟨name, variants, region⟩).imp
  rintro _ _ ⟨rfl, nonempty, region, rfl⟩ _ rfl ks items _ rfl _ rfl _ rfl
  have some : variants.map Ident.bare ≠ [] := by simpa using nonempty
  simpa [bare, Ident.bare] using IsDecl.enum items some

theorem readsAt_parseUnion (kind : c.kind = .keyword .unionDecl) :
    parseUnion.ReadsAt (fun ks decl => IsDecl ks decl.bare) c := by
  apply readsAt_here
  apply (readsAt_advance kind (by simp)).bind
  intro _
  apply reads_identifier.bind
  intro name
  apply (reads_expect (by simp)).bind
  intro _
  apply (reads_commaSeparated reads_parseVariant).bind
  intro variants
  apply (reads_closeBody name).bind
  intro _
  apply (reads_unlessEmpty variants _ _ _ fun region => .union ⟨name, variants, region⟩).imp
  rintro _ _ ⟨rfl, nonempty, region, rfl⟩ _ rfl ks items _ rfl _ rfl _ rfl
  have some : variants.map UnionVariant.bare ≠ [] := by simpa using nonempty
  simpa [bare, Ident.bare] using IsDecl.union items some

/-- The tokens that a val has between its name and its colon. -/
def bindingKinds : Option String → List TokenKind
  | none => []
  | some s => [.mark .equals, .text s]

theorem reads_parseBinding :
    parseBinding.Reads fun used binding => used = bindingKinds binding := by
  apply (reads_eat (by simp)).bind
  intro equals
  cases equals with
  | false =>
      apply reads_pure
      rintro _ rfl
      rfl
  | true =>
      apply reads_string.bind
      intro s
      apply reads_pure
      rintro _ rfl _ rfl
      rfl

theorem readsAt_parseValue (kind : c.kind = .keyword .valDecl) :
    parseValue.ReadsAt (fun ks decl => IsDecl ks decl.bare) c := by
  apply readsAt_here
  apply (readsAt_advance kind (by simp)).bind
  intro _
  apply reads_identifier.bind
  intro name
  apply reads_parseBinding.bind
  intro binding
  apply (reads_expect (by simp)).bind
  intro _
  apply TypeExpr.reads_parse.bind
  intro type
  apply (reads_spanFrom _).bind
  intro span
  apply reads_pure
  rintro _ rfl ks typed _ rfl _ rfl _ rfl _ rfl
  cases binding with
  | none => simpa [bare, Ident.bare, bindingKinds] using IsDecl.value typed
  | some s => simpa [bare, Ident.bare, bindingKinds] using IsDecl.bound typed

theorem readsAt_parseRegister (kind : c.kind = .keyword .registerDecl) :
    parseRegister.ReadsAt (fun ks decl => IsDecl ks decl.bare) c := by
  apply readsAt_here
  apply (readsAt_advance kind (by simp)).bind
  intro _
  apply reads_identifier.bind
  intro name
  apply (reads_expect (by simp)).bind
  intro _
  apply TypeExpr.reads_parse.bind
  intro type
  apply (reads_spanFrom _).bind
  intro span
  apply reads_pure
  rintro _ rfl ks typed _ rfl _ rfl _ rfl
  simpa [bare, Ident.bare] using IsDecl.register typed

theorem reading_statements (budget : Nat) : ∀ c, c.Closed → ∀ stmts d,
    statements budget c = (stmts, d) →
      Reading (fun ks stmts => Many IsStmt ks (stmts.map Stmt.bare)) c (some stmts, d) := by
  induction budget with
  | zero =>
      intro c closed stmts d run
      cases run
      exact .took (.refl closed) .nil
  | succ budget ih =>
      intro c closed stmts d run
      unfold statements at run
      split at run
      case isTrue =>
          cases run
          exact .took (.refl closed) .nil
      case isFalse =>
          have outcome := Stmt.reads_parse c closed
          split at run
          case h_1 stmt next parsed =>
              rw [Parser.run, parsed] at outcome
              split at run
              case isTrue =>
                  cases run
                  apply outcome.map
                  intro used derives
                  simpa using Many.cons derives .nil
              case isFalse =>
                  cases run
                  apply outcome.trans
                  apply (ih next outcome.closed _ _ rfl).map
                  intro others derives used first
                  exact .cons first derives
          case h_2 failed parsed =>
              -- What is read behind a fault cannot take the fault back.
              rw [Parser.run, parsed] at outcome
              have closed' := Cursor.skipStatement_closed failed.budget outcome.closed
              have reported : (failed.skipStatement failed.budget).reports ≠ [] := by
                cases outcome with
                | fault closed reported => rwa [Cursor.skipStatement_reports]
              dsimp only at run
              split at run
              case isTrue =>
                  cases run
                  exact .fault closed' reported
              case isFalse =>
                  have later := ih _ closed' _ _ run
                  exact .fault later.closed (later.reported reported)

theorem reads_parseStatements :
    parseStatements.Reads fun ks stmts => Many IsStmt ks (stmts.map Stmt.bare) := by
  intro c closed
  show Reading _ c (some (statements c.budget c).1, (statements c.budget c).2)
  exact reading_statements c.budget c closed _ _ rfl

theorem readsAt_parseFunction (kind : c.kind = .keyword .fnDecl) :
    parseFunction.ReadsAt (fun ks decl => IsDecl ks decl.bare) c := by
  apply readsAt_here
  apply (readsAt_advance kind (by simp)).bind
  intro _
  apply reads_identifier.bind
  intro name
  apply (reads_expect (by simp)).bind
  intro _
  apply (reads_commaSeparated reads_ident).bind
  intro params
  apply (reads_expect (by simp)).bind
  intro _
  apply (reads_expect (by simp)).bind
  intro _
  apply reads_parseStatements.bind
  intro stmts
  apply (reads_closeBody name).bind
  intro _
  apply (reads_spanFrom _).bind
  intro span
  apply reads_pure
  rintro _ rfl _ rfl others body _ rfl _ rfl ks items _ rfl _ rfl _ rfl
  simpa [bare, Ident.bare] using IsDecl.function items body

theorem readsAt_parser? {k : TokenKind} {p : Parser Decl} (known : parser? k = some p)
    (kind : c.kind = k) : p.ReadsAt (fun ks decl => IsDecl ks decl.bare) c := by
  unfold parser? at known
  split at known
  case h_1 => cases known; exact readsAt_parseEnum kind
  case h_2 => cases known; exact readsAt_parseUnion kind
  case h_3 => cases known; exact readsAt_parseValue kind
  case h_4 => cases known; exact readsAt_parseFunction kind
  case h_5 => cases known; exact readsAt_parseRegister kind
  case h_6 => cases known

/-! ### What is derived -/

end Decl

end Tree

end JumpIR
