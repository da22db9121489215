import JumpIR.Proofs.Region.Expr

/-!
# Statements and declarations where they stand

As for expressions, up to the bodies of functions: there the tokens of a statement that had a fault
are in no tree, and the statements that were read stand between such gaps.
-/

set_option autoImplicit false

open JumpIR.Grammar JumpIR.Parser

namespace JumpIR.Tree

/-! ### Statements -/

namespace Place

theorem locates_fields (budget : Nat) : (fields budget).Locates PathOn := by
  induction budget with
  | zero => exact fun c => locatesAt_pure .nil
  | succ budget ih =>
      intro c
      apply (locatesAt_eat (by simp)).bind
      rintro _ _ d _passes (⟨rfl, rfl, dot⟩ | ⟨rfl, rfl⟩)
      · apply Expr.locatesAt_fieldIndex.bind
        rintro index _ e _passes ⟨t, rfl, field⟩
        apply ih.at.bind
        intro path ts f _passes rest
        apply locatesAt_pure
        simpa using PathOn.cons dot field rest
      · exact locatesAt_pure .nil

theorem locates_parse : Place.parse.Locates PlaceOn := by
  intro c
  apply locatesAt_here
  split
  case h_1 kind => exact locatesAt_word kind (by simp) (.result kind)
  case h_2 kind => exact locatesAt_word kind (by simp) (.currentException kind)
  case h_3 kind => exact locatesAt_word kind (by simp) (.haveException kind)
  case h_4 kind => exact locatesAt_word kind (by simp) (.throwLocation kind)
  case h_5 =>
      apply locates_identifier.at.bind
      intro name ts d _passes named
      apply (locates_fields c.budget).at.bind
      intro path us e _passes fields
      apply locatesAt_pure
      simpa using PlaceOn.named named fields
  case h_6 => exact locatesAt_fail _ _

end Place

namespace Stmt

theorem locatesAt_declare {c : Cursor} (colon : c.nextKind = .mark .colon) :
    declare.LocatesAt [] StmtKindOn c := by
  apply locatesAt_identifier.bind
  rintro i _ d passes ⟨rfl, named⟩
  have colon' : d.kind = .mark .colon := passes.kind_eq_next.trans colon
  apply (locatesAt_advance colon' (by simp)).bind
  rintro _ _ e _passes rfl
  apply TypeExpr.locates_parse.at.bind
  intro type ts f _passes typed
  apply (locatesAt_eat (by simp)).bind
  rintro _ _ g _passes (⟨rfl, rfl, equals⟩ | ⟨rfl, rfl⟩)
  · apply Expr.locates_parse.at.bind
    intro value us h _passes init
    apply locatesAt_pure
    simpa using StmtKindOn.init named colon' typed equals init
  · apply locatesAt_pure
    simpa using StmtKindOn.declare named colon' typed

/-- What stands behind the word `jump`. -/
theorem locatesAt_jump {t : Token} (word : t.kind = .keyword .jump) (c : Cursor) :
    jump.LocatesAt [t] (fun more kind => StmtKindOn (t :: more) kind) c := by
  apply Expr.locates_parse.at.bind
  intro cond ts d _passes expr
  apply (locatesAt_expect (by simp)).bind
  rintro _ _ e _passes ⟨rfl, goes⟩
  apply (locatesAt_index _).bind
  rintro _ _ f _passes ⟨rfl, n, number, least, rfl⟩
  apply (locatesAt_eat (by simp)).bind
  rintro _ _ g _passes (⟨rfl, rfl, tick⟩ | ⟨rfl, rfl⟩)
  · apply locatesAt_string.bind
    rintro s _ h _passes ⟨rfl, text⟩
    apply locatesAt_pure
    simpa using StmtKindOn.jumpFrom word expr goes number least tick text
  · apply locatesAt_pure
    simpa using StmtKindOn.jump word expr goes number least

theorem locates_assign : assign.Locates StmtKindOn := by
  intro c
  apply (Place.locates_parse c).bind
  intro target ts d _passes place
  apply (locatesAt_expect (by simp)).bind
  rintro _ _ e _passes ⟨rfl, equals⟩
  apply Expr.locates_parse.at.bind
  intro value us f _passes expr
  apply locatesAt_pure
  simpa using StmtKindOn.assign place equals expr

theorem locates_body : body.Locates StmtKindOn := by
  intro c
  apply locatesAt_here
  split
  case h_1 kind =>
      apply (locatesAt_advance kind (by simp)).bind
      rintro _ _ d _passes rfl
      exact locatesAt_jump kind d
  case h_2 kind =>
      apply (locatesAt_advance kind (by simp)).bind
      rintro _ _ d _passes rfl
      apply (locatesAt_index _).bind
      rintro _ _ e _passes ⟨rfl, n, number, least, rfl⟩
      exact locatesAt_pure (.goto kind number least)
  case h_3 kind => exact locatesAt_word kind (by simp) (.finish kind)
  case h_4 kind => exact locatesAt_word kind (by simp) (.arbitrary kind)
  case h_5 kind => exact locatesAt_word kind (by simp) (.unreachable kind)
  case h_6 name kind =>
      split
      case isTrue colon => exact locatesAt_declare colon
      case isFalse => exact locates_assign c
  case h_7 => exact locates_assign c

theorem locates_parse : parse.Locates StmtOn := by
  intro c
  apply locatesAt_here
  apply (locates_body c).bind
  intro kind ts d passes derives
  have front := passes.front derives.ne_nil
  apply (locatesAt_expect (by simp)).bind
  rintro _ _ e _passes ⟨rfl, semicolon⟩
  apply locatesAt_spanFrom (List.cons_ne_nil c.current []) rfl
    (front.trans (List.prefix_append _ _))
  apply locatesAt_pure
  simpa using StmtOn.intro derives semicolon

end Stmt

/-! ### Declarations -/

namespace Decl

variable {c : Cursor}

end Decl

end JumpIR.Tree
