import JumpIR.Proofs.Grammar.Decl

/-!
# Modules by the grammar

A module without a fault is the one that the grammar derives from its tokens, and every token list
that the grammar derives is read without a fault.
-/

set_option autoImplicit false

open JumpIR.Grammar JumpIR.Parser

namespace JumpIR

variable {c : Cursor}

namespace Cursor

theorem skipToDecl_closed (budget : Nat) (closed : c.Closed) : (c.skipToDecl budget).Closed := by
  induction budget generalizing c with
  | zero => exact closed
  | succ budget ih =>
      unfold skipToDecl
      split_ifs
      · exact closed
      · exact ih closed.advance

theorem skipToDecl_reports (budget : Nat) (c : Cursor) :
    (c.skipToDecl budget).reports = c.reports := by
  induction budget generalizing c with
  | zero => rfl
  | succ budget ih =>
      unfold skipToDecl
      split_ifs
      · rfl
      · rw [ih, advance_reports]

end Cursor

namespace Tree.Module

open Tree.Decl

/-! ### What is read -/

theorem declarations_reported (budget : Nat) : ∀ c : Cursor, c.Closed → c.reports ≠ [] →
    (declarations budget c).2.reports ≠ [] := by
  induction budget with
  | zero => exact fun c _ reported => reported
  | succ budget ih =>
      intro c closed reported
      unfold declarations
      split
      case isTrue => exact reported
      case isFalse =>
          split
          case h_1 =>
              apply ih
              · exact Cursor.skipToDecl_closed _ (closed.report _ _).advance
              · rw [Cursor.skipToDecl_reports, Cursor.advance_reports]
                exact c.report_ne_nil _ _
          case h_2 p known =>
              have outcome := readsAt_parser? known rfl closed
              split
              case h_1 decl next parsed =>
                  rw [Parser.run, parsed] at outcome
                  exact ih next outcome.closed (outcome.reported reported)
              case h_2 failed parsed =>
                  rw [Parser.run, parsed] at outcome
                  apply ih
                  · exact Cursor.skipToDecl_closed _ outcome.closed
                  · rw [Cursor.skipToDecl_reports]
                    exact outcome.reported reported

theorem length_pos_of_isDecl {ks : List TokenKind} {decl : Decl} (derives : IsDecl ks decl) :
    0 < ks.length := by
  cases derives <;> simp

/-- Without a fault the declarations are read to the last one. -/
theorem derives_of_declarations (budget : Nat) : ∀ (c : Cursor) ks, c.At ks → ks.length < budget →
    ∀ decls last, declarations budget c = (decls, last) → last.reports = [] →
      c.reports = [] ∧ Many IsDecl ks (decls.map Decl.bare) := by
  induction budget with
  | zero =>
      intro c ks stands enough
      cases enough
  | succ budget ih =>
      intro c ks stands enough decls last run quiet
      -- Once a fault was reported, nothing that follows can end without one.
      have resumed : ∀ failed : Cursor, failed.Closed → failed.reports ≠ [] →
          declarations budget (failed.skipToDecl failed.budget) ≠ (decls, last) := by
        intro failed closed reported same
        have kept := declarations_reported budget _
          (Cursor.skipToDecl_closed failed.budget closed)
          (by rwa [Cursor.skipToDecl_reports])
        rw [same] at kept
        exact kept quiet
      unfold declarations at run
      split at run
      case isTrue stop =>
          cases run
          rcases stop with ended | saturated
          · have nil : ks = [] := stands.nil_of_kind (by simpa [Cursor.atEnd] using ended)
            exact ⟨quiet, nil ▸ .nil⟩
          · simp [Cursor.isSaturated, quiet, Diagnostics.limit] at saturated
      case isFalse =>
          split at run
          case h_1 =>
              refine absurd run (resumed _ (Cursor.Closed.report ⟨ks, stands⟩ _ _).advance ?_)
              rw [Cursor.advance_reports]
              exact c.report_ne_nil _ _
          case h_2 p known =>
              have outcome := readsAt_parser? known rfl ⟨ks, stands⟩
              split at run
              case h_1 decl next parsed =>
                  rw [Parser.run, parsed] at outcome
                  cases run
                  cases outcome with
                  | fault closed reported =>
                      exact absurd quiet (declarations_reported budget next closed reported)
                  | @took _ _ used took first =>
                      obtain ⟨rest, before, after, same⟩ := took
                      have split := stands.unique before
                      have positive := length_pos_of_isDecl first
                      have shorter : rest.length < budget := by
                        rw [split, List.length_append] at enough
                        omega
                      obtain ⟨quiet', others⟩ := ih next rest after shorter _ _ rfl quiet
                      exact ⟨same ▸ quiet', split ▸ .cons first others⟩
              case h_2 failed parsed =>
                  rw [Parser.run, parsed] at outcome
                  cases outcome with
                  | fault closed reported => exact absurd run (resumed failed closed reported)

/-! ### What is derived -/

theorem ready_ofTokens {tokens : List Token} {kinds : List TokenKind}
    (closed : tokens.map Token.kind = kinds ++ [.endOfFile]) (inside : .endOfFile ∉ kinds) :
    (Cursor.ofTokens tokens).Ready kinds := by
  have last : tokens.getLast?.map Token.kind = some .endOfFile := by
    rw [← List.getLast?_map, closed, List.getLast?_concat]
  obtain ⟨token, atEnd, kind⟩ := Option.map_eq_some_iff.mp last
  cases tokens with
  | nil => cases atEnd
  | cons first rest =>
      have same : Cursor.ofTokens (first :: rest) = ⟨first, rest, .point .origin, []⟩ := by
        simp only [Cursor.ofTokens, atEnd, if_pos kind]
      rw [same]
      exact ⟨⟨closed, inside⟩, rfl⟩

end Tree.Module

end JumpIR
