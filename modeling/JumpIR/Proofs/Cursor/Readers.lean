import JumpIR.Proofs.Cursor.Movement

/-!
# How the readers of the grammar move

The readers of types, expressions and the parts of statements report once or not at all, and pass no
semicolon. A statement passes one only if it is read. Declarations take the word they start with.
-/

set_option autoImplicit false

open JumpIR.Parser

namespace JumpIR

namespace Tree

variable {c : Cursor} {strict : Prop}

/-! ### Types -/

namespace TypeExpr

theorem moves_afterPercent (start : Span) : (afterPercent start).Moves strict 1 := by
  intro c
  apply movesAt_here
  split
  case h_1 kind =>
      apply (movesAt_advance kind (by simp) (by simp)).bind
      intro _
      apply moves_identifier.bind
      intro name
      exact (moves_spanFrom _).bind fun span => moves_pure _
  case h_2 kind =>
      apply (movesAt_advance kind (by simp) (by simp)).bind
      intro _
      apply moves_identifier.bind
      intro name
      exact (moves_spanFrom _).bind fun span => moves_pure _
  case h_3 name kind =>
      apply (movesAt_advance kind (by simp) (by simp)).bind
      intro _
      split
      · exact (moves_spanFrom _).bind fun span => moves_pure _
      · exact moves_fail _ _
  case h_4 => exact moves_fail _ _ c

theorem moves_parseWithin (levels : Nat) : (parseWithin levels).Moves strict 1 := by
  induction levels with
  | zero => exact fun c => movesAt_here (moves_fail _ _ c)
  | succ levels ih =>
      have inner : (parseWithin levels).Moves strict 0 := ih.zero
      intro c
      apply movesAt_here
      refine moves_ifEaten (by simp) (by simp) ?_ ?_ c
      · apply (moves_commaSeparated inner).bind
        intro items
        apply (moves_expect (by simp) (by simp)).bind
        intro _
        apply (moves_eat (by simp) (by simp)).bind
        intro arrow
        cases arrow with
        | true =>
            apply inner.bind
            intro result
            exact (moves_spanFrom _).bind fun span => moves_pure _
        | false =>
            rw [if_neg Bool.false_ne_true]
            split
            · exact (moves_spanFrom _).bind fun span => moves_pure _
            · exact moves_pure _
            · exact (moves_spanFrom _).bind fun span => moves_pure _
      · apply (moves_expect (by simp) (by simp)).bind
        intro _
        exact (moves_afterPercent _).zero

theorem moves_parse : parse.Moves strict 1 :=
  fun c => movesAt_here (moves_parseWithin _ c)

end TypeExpr

/-! ### Expressions -/

namespace Expr

theorem moves_fieldIndex : fieldIndex.Moves strict 1 := by
  intro c
  apply movesAt_here
  split
  case h_1 n kind =>
      split
      case isTrue => exact movesAt_word kind (by simp) (by simp)
      case isFalse => exact moves_fail _ _ c
  case h_2 spelling kind =>
      split
      case h_1 n found => exact movesAt_word kind (by simp) (by simp)
      case h_2 => exact moves_fail _ _ c
  case h_3 => exact moves_fail _ _ c

theorem moves_postfixes (budget : Nat) (value : Expr) :
    (postfixes budget value).Moves strict 0 := by
  induction budget generalizing value with
  | zero => exact moves_pure value
  | succ budget ih =>
      intro c
      apply movesAt_here
      split
      case h_1 kind =>
          apply MovesAt.zero
          apply (movesAt_advance kind (by simp) (by simp)).bind
          intro _
          apply moves_fieldIndex.bind
          intro index
          exact (moves_spanFrom _).bind fun span => ih _
      case h_2 kind =>
          apply MovesAt.zero
          apply (movesAt_advance kind (by simp) (by simp)).bind
          intro _
          apply moves_identifier.bind
          intro variant
          exact (moves_spanFrom _).bind fun span => ih _
      case h_3 kind =>
          apply MovesAt.zero
          apply (movesAt_advance kind (by simp) (by simp)).bind
          intro _
          apply moves_identifier.bind
          intro variant
          exact (moves_spanFrom _).bind fun span => ih _
      case h_4 => exact moves_pure value c

theorem moves_args {item : Parser Expr} (moves : item.Moves strict 1) :
    (args item).Moves strict 1 := by
  apply (moves_expect (by simp) (by simp)).bind
  intro _
  apply (moves_commaSeparated moves.zero).bind
  intro list
  apply (moves_expect (by simp) (by simp)).bind
  exact fun _ => moves_pure list

theorem inside_of_literalAtom? {k : TokenKind} {make : Span → Expr}
    (literal : literalAtom? k = some make) : k ≠ .endOfFile ∧ k ≠ .mark .semicolon := by
  constructor
  · rintro rfl
    cases literal
  · rintro rfl
    cases literal

theorem moves_atom {inner : Parser Expr} (moves : inner.Moves strict 1) :
    (atom inner).Moves strict 1 := by
  intro c
  apply movesAt_here
  dsimp only
  split
  case h_1 make literal =>
      obtain ⟨inside, plain⟩ := inside_of_literalAtom? literal
      apply (movesAt_advance rfl inside plain).bind
      intro _
      exact (moves_spanFrom _).bind fun span => moves_pure _
  case h_2 =>
      split
      case h_1 kind =>
          apply (movesAt_advance kind (by simp) (by simp)).bind
          intro _
          apply (moves_eat (by simp) (by simp)).bind
          intro closed
          cases closed with
          | true => exact (moves_spanFrom _).bind fun span => moves_pure _
          | false =>
              apply Moves.zero
              apply moves.bind
              intro value
              apply (moves_expect (by simp) (by simp)).bind
              intro _
              exact (moves_spanFrom _).bind fun span => moves_pure _
      case h_2 kind =>
          apply (movesAt_advance kind (by simp) (by simp)).bind
          intro _
          apply moves_identifier.bind
          intro op
          apply (moves_args moves).bind
          intro list
          exact (moves_spanFrom _).bind fun span => moves_pure _
      case h_3 =>
          apply (moves_identifier c).bind
          intro head d
          apply movesAt_here
          split
          · apply MovesAt.zero
            apply (moves_args moves d).bind
            intro list
            exact (moves_spanFrom _).bind fun span => moves_pure _
          · exact (moves_spanFrom _ d).bind fun span => moves_pure _
      case h_4 => exact moves_fail _ _ c

theorem moves_parseWithin (levels : Nat) : (parseWithin levels).Moves strict 1 := by
  induction levels with
  | zero => exact fun c => movesAt_here (moves_fail _ _ c)
  | succ levels ih =>
      apply (moves_atom ih).bind
      intro value c
      exact movesAt_here (moves_postfixes _ value c)

theorem moves_parse : parse.Moves strict 1 := moves_parseWithin _

end Expr

/-! ### Statements -/

namespace Place

theorem moves_fields (budget : Nat) : (fields budget).Moves strict 0 := by
  induction budget with
  | zero => exact moves_pure []
  | succ budget ih =>
      apply (moves_eat (by simp) (by simp)).bind
      intro dot
      cases dot with
      | false => exact moves_pure []
      | true =>
          apply Moves.zero
          apply Expr.moves_fieldIndex.bind
          intro index
          exact ih.bind fun others => moves_pure _

theorem moves_parse : parse.Moves strict 1 := by
  intro c
  apply movesAt_here
  split
  case h_1 kind => exact movesAt_word kind (by simp) (by simp)
  case h_2 kind => exact movesAt_word kind (by simp) (by simp)
  case h_3 kind => exact movesAt_word kind (by simp) (by simp)
  case h_4 kind => exact movesAt_word kind (by simp) (by simp)
  case h_5 =>
      apply (moves_identifier c).bind
      intro name
      exact (moves_fields _).bind fun path => moves_pure _
  case h_6 => exact moves_fail _ _ c

end Place

namespace Stmt

theorem movesAt_declare {name : String} (named : c.kind = .ident name)
    (colon : c.nextKind = .mark .colon) : declare.MovesAt strict 1 c := by
  have run : identifier.run c = (some ⟨name, c.current.span⟩, c.advance) := by
    simp only [Parser.run, identifier, named]
  apply movesAt_after run (moves_identifier c)
  apply (movesAt_advance (c.kind_advance colon) (by simp) (by simp)).bind
  intro _
  apply TypeExpr.moves_parse.bind
  intro type
  apply (moves_eat (by simp) (by simp)).bind
  intro equals
  cases equals with
  | true => exact (Expr.moves_parse.bind fun value => moves_pure _).zero
  | false => exact moves_pure _

theorem moves_jump : jump.Moves strict 1 := by
  apply Expr.moves_parse.bind
  intro cond
  apply (moves_expect (by simp) (by simp)).bind
  intro _
  apply (moves_index _).bind
  intro target
  apply (moves_eat (by simp) (by simp)).bind
  intro tick
  cases tick with
  | true => exact (moves_string.bind fun location => moves_pure _).zero
  | false => exact moves_pure _

theorem moves_assign : assign.Moves strict 1 := by
  apply Place.moves_parse.bind
  intro target
  apply (moves_expect (by simp) (by simp)).bind
  intro _
  exact Expr.moves_parse.bind fun value => moves_pure _

theorem moves_body : body.Moves strict 1 := by
  intro c
  apply movesAt_here
  split
  case h_1 kind =>
      apply (movesAt_advance kind (by simp) (by simp)).bind
      exact fun _ => moves_jump.zero
  case h_2 kind =>
      apply (movesAt_advance kind (by simp) (by simp)).bind
      intro _
      exact (moves_index _).bind fun target => moves_pure _
  case h_3 kind => exact movesAt_word kind (by simp) (by simp)
  case h_4 kind => exact movesAt_word kind (by simp) (by simp)
  case h_5 kind => exact movesAt_word kind (by simp) (by simp)
  case h_6 named =>
      split
      case isTrue colon => exact movesAt_declare named colon
      case isFalse => exact moves_assign c
  case h_7 => exact moves_assign c

theorem moves_parse : parse.Moves False 1 := by
  intro c
  apply movesAt_here
  apply (moves_body c).bind
  intro kind
  apply (moves_expect (by simp) (by simp)).bind
  intro _
  exact (moves_spanFrom _).bind fun span => moves_pure _

/-- A statement without a result has not passed its semicolon, and has reported once. -/
theorem motion_of_fault {d : Cursor} (bounded : c.Bounded) (run : parse.run c = (none, d)) :
    Motion True 0 c ((none : Option Stmt), d) := by
  have motion : Motion True 1 c (body.run c) := moves_body c bounded
  rw [parse, run_here] at run
  cases ran : body.run c with
  | mk result e =>
      rw [ran] at motion
      cases result with
      | none =>
          rw [bind_of_none ran] at run
          cases run
          exact motion.fault
      | some kind =>
          rw [bind_of_some ran] at run
          by_cases semicolon : e.kind = .mark .semicolon
          · have ended : (expect (.mark .semicolon)).run e = (some (), e.advance) :=
              if_pos semicolon
            rw [bind_of_some ended] at run
            cases run
          · have missed : (expect (.mark .semicolon)).run e = (none, _) := if_neg semicolon
            rw [bind_of_none missed] at run
            cases run
            exact motion.trans (n := 0) (.report _ _) (Nat.zero_le _)

end Stmt

end Tree

/-! ### Resuming behind a fault -/

namespace Cursor

theorem motion_skipStatement (budget : Nat) : ∀ c : Cursor, c.Bounded →
    Motion False 0 c (some (), c.skipStatement budget) := by
  induction budget with
  | zero => exact fun c _bounded => .stay (some ()) rfl rfl
  | succ budget ih =>
      intro c bounded
      unfold skipStatement
      split_ifs with ended semicolon stops
      · exact .stay (some ()) rfl rfl
      · exact .advance bounded (by simp [semicolon]) False.elim (Nat.zero_le 1)
      · exact .stay (some ()) rfl rfl
      · have inside : c.kind ≠ .endOfFile := by simpa [atEnd] using ended
        have first : Motion False 0 c (some (), c.advance) :=
          .advance bounded inside False.elim (Nat.zero_le 1)
        exact first.trans (ih c.advance (first.bounded bounded)) (Nat.zero_le _)

theorem motion_skipToDecl (budget : Nat) : ∀ c : Cursor, c.Bounded →
    Motion False 0 c (some (), c.skipToDecl budget) := by
  induction budget with
  | zero => exact fun c _bounded => .stay (some ()) rfl rfl
  | succ budget ih =>
      intro c bounded
      unfold skipToDecl
      split_ifs with stops
      · exact .stay (some ()) rfl rfl
      · have inside : c.kind ≠ .endOfFile := by
          intro ended
          exact stops (.inl (by simp [atEnd, ended]))
        have first : Motion False 0 c (some (), c.advance) :=
          .advance bounded inside False.elim (Nat.zero_le 1)
        exact first.trans (ih c.advance (first.bounded bounded)) (Nat.zero_le _)

end Cursor

/-! ### Declarations -/

namespace Tree

variable {c : Cursor} {strict : Prop}

theorem moves_closeBody (owner : Ident) : (closeBody owner).Moves strict 1 := by
  intro c bounded
  simp only [Parser.run, closeBody]
  split
  case isTrue kind =>
      exact .advance bounded (by simp [kind]) (fun _ => by simp [kind]) (Nat.le_refl 1)
  case isFalse => exact .report _ _

theorem moves_warn (cause : ParseFault) (span : Span) : (warn cause span).Moves False 0 := by
  intro c _bounded
  refine ⟨⟨[], (Cursor.Passes.refl c).report cause span, ?_, fun _ => Nat.le_refl 0⟩,
    [⟨cause, span⟩], rfl, nofun, nofun⟩
  intro t member
  cases member

namespace Decl

theorem moves_parseVariant : parseVariant.Moves strict 1 := by
  apply moves_identifier.bind
  intro name
  apply (moves_expect (by simp) (by simp)).bind
  intro _
  exact TypeExpr.moves_parse.bind fun payload => moves_pure _

/-- Behind its closing brace an enum or a union moves no more. -/
theorem moves_unlessEmpty {α : Type} (variants : List α) (fault : ParseFault) (span start : Span)
    (make : Span → Decl) :
    (do if variants.isEmpty then warn fault span
        return make (← spanFrom start) : Parser Decl).Moves False 0 := by
  dsimp only
  split
  · exact (moves_warn _ _).bind fun _ => (moves_spanFrom _).bind fun region => moves_pure _
  · exact (moves_spanFrom _).bind fun region => moves_pure _

theorem departs_parseEnum (c : Cursor) : parseEnum.Departs c := by
  apply departs_here
  apply departs_advance
  apply moves_identifier.bind
  intro name
  apply (moves_expect (by simp) (by simp)).bind
  intro _
  apply (moves_commaSeparated moves_identifier.zero).bind
  intro variants
  apply (moves_closeBody name).bind
  exact fun _ => moves_unlessEmpty variants _ _ _ fun region => .enum ⟨name, variants, region⟩

theorem departs_parseUnion (c : Cursor) : parseUnion.Departs c := by
  apply departs_here
  apply departs_advance
  apply moves_identifier.bind
  intro name
  apply (moves_expect (by simp) (by simp)).bind
  intro _
  apply (moves_commaSeparated moves_parseVariant.zero).bind
  intro variants
  apply (moves_closeBody name).bind
  exact fun _ => moves_unlessEmpty variants _ _ _ fun region => .union ⟨name, variants, region⟩

theorem moves_parseBinding : parseBinding.Moves strict 0 := by
  apply (moves_eat (by simp) (by simp)).bind
  intro equals
  cases equals with
  | true => exact (moves_string.bind fun s => moves_pure _).zero
  | false => exact moves_pure _

theorem departs_parseValue (c : Cursor) : parseValue.Departs c := by
  apply departs_here
  apply departs_advance
  apply moves_identifier.bind
  intro name
  apply moves_parseBinding.bind
  intro binding
  apply (moves_expect (by simp) (by simp)).bind
  intro _
  apply TypeExpr.moves_parse.bind
  intro type
  exact (moves_spanFrom _).bind fun span => moves_pure _

theorem departs_parseRegister (c : Cursor) : parseRegister.Departs c := by
  apply departs_here
  apply departs_advance
  apply moves_identifier.bind
  intro name
  apply (moves_expect (by simp) (by simp)).bind
  intro _
  apply TypeExpr.moves_parse.bind
  intro type
  exact (moves_spanFrom _).bind fun span => moves_pure _

theorem motion_statements (budget : Nat) : ∀ c : Cursor, c.Bounded →
    Motion False 0 c (some (statements budget c).1, (statements budget c).2) := by
  induction budget with
  | zero => exact fun c _bounded => .stay (some []) rfl rfl
  | succ budget ih =>
      intro c bounded
      unfold statements
      split
      case isTrue => exact .stay (some []) rfl rfl
      case isFalse =>
          have motion := Stmt.moves_parse c bounded
          split
          case h_1 stmt next parsed =>
              rw [Parser.run, parsed] at motion
              split
              case isTrue => exact motion.trans (.stay (some [stmt]) rfl rfl) (Nat.zero_le _)
              case isFalse =>
                  have later := ih next (motion.bounded bounded)
                  exact motion.trans ⟨later.passes, later.reports⟩ (Nat.zero_le _)
          case h_2 failed parsed =>
              rw [Parser.run, parsed] at motion
              have resumed :=
                motion.resume (Cursor.motion_skipStatement failed.budget _ (motion.bounded bounded))
              dsimp only
              split
              case isTrue => exact ⟨resumed.passes, resumed.reports⟩
              case isFalse =>
                  exact resumed.trans (ih _ (resumed.bounded bounded)) (Nat.zero_le _)

theorem moves_parseStatements : parseStatements.Moves False 0 :=
  fun c bounded => motion_statements c.budget c bounded

theorem departs_parseFunction (c : Cursor) : parseFunction.Departs c := by
  apply departs_here
  apply departs_advance
  apply moves_identifier.bind
  intro name
  apply (moves_expect (by simp) (by simp)).bind
  intro _
  apply (moves_commaSeparated moves_identifier.zero).bind
  intro params
  apply (moves_expect (by simp) (by simp)).bind
  intro _
  apply (moves_expect (by simp) (by simp)).bind
  intro _
  apply moves_parseStatements.bind
  intro body
  apply (moves_closeBody name).bind
  intro _
  exact (moves_spanFrom _).bind fun span => moves_pure _

theorem parser?_isSome (k : TokenKind) : (parser? k).isSome = k.startsDecl := by
  cases k with
  | keyword word => cases word <;> rfl
  | _ => rfl

theorem inside_of_parser? {k : TokenKind} {p : Parser Decl} (known : parser? k = some p) :
    k ≠ .endOfFile := by
  rintro rfl
  cases known

theorem departs_parser? {k : TokenKind} {p : Parser Decl} (known : parser? k = some p)
    (c : Cursor) : p.Departs c := by
  unfold parser? at known
  split at known
  case h_1 => cases known; exact departs_parseEnum c
  case h_2 => cases known; exact departs_parseUnion c
  case h_3 => cases known; exact departs_parseValue c
  case h_4 => cases known; exact departs_parseFunction c
  case h_5 => cases known; exact departs_parseRegister c
  case h_6 => cases known

end Decl

end Tree

end JumpIR
