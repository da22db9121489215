import JumpIR.Proofs.Grammar.Expr
import JumpIR.Proofs.Region.Reading

/-!
# Types and expressions where they stand

The readers of types and of expressions give trees that the grammar with regions derives from the
tokens taken.
-/

set_option autoImplicit false

open JumpIR.Grammar JumpIR.Parser

namespace JumpIR.Tree

/-! ### Types -/

namespace TypeExpr

theorem locatesAt_afterPercent {percent : Token} (opens : percent.kind = .mark .percent)
    (c : Cursor) : (afterPercent percent.span).LocatesAt [percent]
      (fun more type => TypeOn (percent :: more) type) c := by
  apply locatesAt_here
  split
  case h_1 kind =>
      apply (locatesAt_advance kind (by simp)).bind
      rintro _ _ d _passes rfl
      apply locates_identifier.at.bind
      intro name ts e _passes named
      apply locatesAt_spanFrom (List.cons_ne_nil percent []) rfl ⟨_, rfl⟩
      apply locatesAt_pure
      simpa using TypeOn.enum opens kind named
  case h_2 kind =>
      apply (locatesAt_advance kind (by simp)).bind
      rintro _ _ d _passes rfl
      apply locates_identifier.at.bind
      intro name ts e _passes named
      apply locatesAt_spanFrom (List.cons_ne_nil percent []) rfl ⟨_, rfl⟩
      apply locatesAt_pure
      simpa using TypeOn.union opens kind named
  case h_3 name kind =>
      apply (locatesAt_advance kind (by simp)).bind
      rintro _ _ d _passes rfl
      split
      case h_1 type known =>
          apply locatesAt_spanFrom (List.cons_ne_nil percent []) rfl ⟨_, rfl⟩
          apply locatesAt_pure
          exact TypeOn.base opens kind (isBase_of_ofName? known)
      case h_2 => exact locatesAt_fail _ _
  case h_4 => exact locatesAt_fail _ _

theorem locates_parseWithin (levels : Nat) : (parseWithin levels).Locates TypeOn := by
  induction levels with
  | zero => exact fun c => locatesAt_here (locatesAt_fail _ _)
  | succ levels ih =>
      intro c
      apply locatesAt_here
      apply (locatesAt_eat (by simp)).bind
      rintro _ _ d passes (⟨rfl, rfl, opens⟩ | ⟨rfl, rfl⟩)
      · apply (locates_commaSeparated ih).at.bind
        intro types ts e _passes items
        apply (locatesAt_expect (by simp)).bind
        rintro _ _ f _passes ⟨rfl, closes⟩
        have group := TypeOn.group (.intro opens items closes)
        apply (locatesAt_eat (by simp)).bind
        rintro _ _ g _passes (⟨rfl, rfl, arrow⟩ | ⟨rfl, rfl⟩)
        · apply ih.at.bind
          intro result us h _passes returns
          apply locatesAt_spanFrom (List.cons_ne_nil c.current []) rfl ⟨_, rfl⟩
          apply locatesAt_pure
          simpa using TypeOn.function (.intro opens items closes) arrow returns
        · rw [if_neg Bool.false_ne_true]
          split
          case h_1 =>
              apply locatesAt_spanFrom (List.cons_ne_nil c.current []) rfl ⟨_, rfl⟩
              apply locatesAt_pure
              simpa [groupedIn] using group
          case h_2 type =>
              apply locatesAt_pure
              simpa [groupedIn] using group
          case h_3 _ some several =>
              apply locatesAt_spanFrom (List.cons_ne_nil c.current []) rfl ⟨_, rfl⟩
              apply locatesAt_pure
              rw [groupedIn_of_several _ some several] at group
              simpa using group
      · apply (locatesAt_expect (by simp)).bind
        rintro _ _ e _passes ⟨rfl, opens⟩
        rw [← passes.current_eq]
        exact locatesAt_afterPercent opens e

theorem locates_parse : parse.Locates TypeOn :=
  fun c => locatesAt_here (locates_parseWithin (c.budget + 1) c)

end TypeExpr

/-! ### Expressions -/

namespace Expr

theorem locatesAt_fieldIndex {used : List Token} {c : Cursor} :
    fieldIndex.LocatesAt used (fun more index => ∃ t, more = [t] ∧ IsField t.kind index) c := by
  apply locatesAt_here
  split
  case h_1 n kind =>
      split
      case isTrue bounds =>
          refine locatesAt_word kind (by simp) ⟨c.current, rfl, ?_⟩
          have word : c.current.kind = .int n := kind
          rw [word]
          exact .number bounds.1 bounds.2
      case isFalse => exact locatesAt_fail _ _
  case h_2 spelling kind =>
      split
      case h_1 n found =>
          obtain ⟨digits, rfl, decimal, most⟩ := fieldOfName?_eq_some.mp found
          refine locatesAt_word kind (by simp) ⟨c.current, rfl, ?_⟩
          have word : c.current.kind = .ident _ := kind
          rw [word]
          exact .name decimal most
      case h_2 => exact locatesAt_fail _ _
  case h_3 => exact locatesAt_fail _ _

/-- The postfix forms behind a value. Their regions begin where the one of the value begins. -/
theorem locatesAt_postfixes (budget : Nat) : ∀ {ts : List Token} {value : Expr} {c : Cursor},
    ExprOn ts value →
    (postfixes budget value).LocatesAt ts (fun more e => ExprOn (ts ++ more) e) c := by
  induction budget with
  | zero =>
      intro ts value c on
      apply locatesAt_pure
      rwa [List.append_nil]
  | succ budget ih =>
      intro ts value c on
      apply locatesAt_here
      split
      case h_1 kind =>
          apply (locatesAt_advance kind (by simp)).bind
          rintro _ _ d _passes rfl
          apply locatesAt_fieldIndex.bind
          rintro index _ e _passes ⟨t, rfl, field⟩
          rw [List.append_assoc]
          apply locatesAt_spanFrom on.ne_nil on.span_eq (List.prefix_append _ _)
          apply (ih (.field on kind field)).imp
          intro more e derives
          simpa using derives
      case h_2 kind =>
          apply (locatesAt_advance kind (by simp)).bind
          rintro _ _ d _passes rfl
          apply locates_identifier.at.bind
          intro variant us e _passes named
          rw [List.append_assoc]
          apply locatesAt_spanFrom on.ne_nil on.span_eq (List.prefix_append _ _)
          apply (ih (.isNot on kind named)).imp
          intro more e derives
          simpa using derives
      case h_3 kind =>
          apply (locatesAt_advance kind (by simp)).bind
          rintro _ _ d _passes rfl
          apply locates_identifier.at.bind
          intro variant us e _passes named
          rw [List.append_assoc]
          apply locatesAt_spanFrom on.ne_nil on.span_eq (List.prefix_append _ _)
          apply (ih (.project on kind named)).imp
          intro more e derives
          simpa using derives
      case h_4 =>
          apply locatesAt_pure
          rwa [List.append_nil]

theorem locates_args {inner : Parser Expr} (item : inner.Locates ExprOn) :
    (args inner).Locates (Parens ExprOn) := by
  intro c
  apply (locatesAt_expect (by simp)).bind
  rintro _ _ d _passes ⟨rfl, opens⟩
  apply (locates_commaSeparated item).at.bind
  intro es ts e _passes items
  apply (locatesAt_expect (by simp)).bind
  rintro _ _ f _passes ⟨rfl, closes⟩
  apply locatesAt_pure
  simpa using Parens.intro opens items closes

theorem locates_atom {inner : Parser Expr} (item : inner.Locates ExprOn) :
    (atom inner).Locates ExprOn := by
  intro c
  apply locatesAt_here
  dsimp only
  split
  case h_1 make literal =>
      apply (locatesAt_advance rfl (inside_of_literalAtom? literal).1).bind
      rintro _ _ d _passes rfl
      apply locatesAt_spanFrom (List.cons_ne_nil c.current []) rfl ⟨_, rfl⟩
      exact locatesAt_pure (.literal literal)
  case h_2 =>
      split
      case h_1 kind =>
          apply (locatesAt_advance kind (by simp)).bind
          rintro _ _ d _passes rfl
          apply (locatesAt_eat (by simp)).bind
          rintro _ _ e _passes (⟨rfl, rfl, closes⟩ | ⟨rfl, rfl⟩)
          · apply locatesAt_spanFrom (List.cons_ne_nil c.current []) rfl ⟨_, rfl⟩
            exact locatesAt_pure (.unit kind closes)
          · rw [if_neg Bool.false_ne_true]
            apply item.at.bind
            intro value ts f _passes inside
            apply (locatesAt_expect (by simp)).bind
            rintro _ _ g _passes ⟨rfl, closes⟩
            apply locatesAt_spanFrom (List.cons_ne_nil c.current []) rfl ⟨_, rfl⟩
            apply locatesAt_pure
            simpa using ExprOn.paren kind inside closes
      case h_2 kind =>
          apply (locatesAt_advance kind (by simp)).bind
          rintro _ _ d _passes rfl
          apply locates_identifier.at.bind
          intro op ts e _passes named
          apply (locates_args item).at.bind
          intro es us f _passes list
          apply locatesAt_spanFrom (List.cons_ne_nil c.current []) rfl ⟨_, rfl⟩
          apply locatesAt_pure
          simpa using ExprOn.prim kind named list
      case h_3 =>
          apply locatesAt_identifier.bind
          rintro head _ d _passes ⟨rfl, named⟩
          apply locatesAt_here
          split
          · apply (locates_args item).at.bind
            intro es us f _passes list
            apply locatesAt_spanFrom (List.cons_ne_nil c.current []) rfl ⟨_, rfl⟩
            apply locatesAt_pure
            simpa using ExprOn.call named list
          · apply locatesAt_spanFrom (List.cons_ne_nil c.current []) rfl ⟨_, rfl⟩
            exact locatesAt_pure (.name named)
      case h_4 => exact locatesAt_fail _ _

theorem locates_parseWithin (levels : Nat) : (parseWithin levels).Locates ExprOn := by
  induction levels with
  | zero => exact fun c => locatesAt_here (locatesAt_fail _ _)
  | succ levels ih =>
      intro c
      apply (locates_atom ih c).bind
      intro value ts d _passes on
      apply locatesAt_here
      exact locatesAt_postfixes _ on

theorem locates_parse : parse.Locates ExprOn := locates_parseWithin _

end Expr

end JumpIR.Tree
