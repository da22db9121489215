import JumpIR.Proofs.Cursor.Locality
import JumpIR.Proofs.Grammar.Decl

/-!
# How far readers look

A statement is told from its tokens alone, and so is a declaration, up to an arrow that may follow
its type. Types, expressions and places heed what follows them.
-/

set_option autoImplicit false

open JumpIR.Parser

namespace JumpIR.Tree

variable {c c' : Cursor} {heeded : TokenKind → Prop}

/-! ### Types -/

/-- An arrow matters behind a type. -/
def arrowOnly : TokenKind → Prop := fun k => k = .mark .arrow

namespace TypeExpr

theorem local_afterPercent (start : Span) : (afterPercent start).Local heeded := by
  apply local_of_current (moves_afterPercent start)
  intro c c' current
  have kind : c'.kind = c.kind := congrArg Token.kind current
  apply localAt_here
  rw [kind, current]
  change LocalAt heeded _ c c'
  split
  case h_1 kind =>
      apply (localAt_advance kind (by simp) (by simp)).bind
      intro _
      apply local_identifier.bind
      intro name
      exact (local_spanFrom _).bind fun span => local_pure _
  case h_2 kind =>
      apply (localAt_advance kind (by simp) (by simp)).bind
      intro _
      apply local_identifier.bind
      intro name
      exact (local_spanFrom _).bind fun span => local_pure _
  case h_3 name kind =>
      apply (localAt_advance kind (by simp) (by simp)).bind
      intro _
      split
      · exact (local_spanFrom _).bind fun span => local_pure _
      · exact local_fail _ _
  case h_4 => exact local_fail _ _ c c'

theorem local_parseWithin (levels : Nat) : (parseWithin levels).Local arrowOnly := by
  induction levels with
  | zero => exact fun c c' => localAt_here (follows_fail _ _)
  | succ levels ih =>
      have inner : (parseWithin levels).Local allKinds := ih.mono fun _ _ => trivial
      apply local_of_current (moves_parseWithin _)
      intro c c' current
      have kind : c'.kind = c.kind := congrArg Token.kind current
      apply localAt_here
      rw [current]
      change LocalAt arrowOnly _ c c'
      apply (localAt_eat (by simp) (by simp) (.inr kind)).bind
      intro opened
      cases opened with
      | true =>
          apply (local_commaSeparated inner (moves_parseWithin levels)).seal
            (fun _ => local_expect (by simp)) (fun _ => moves_expect (by simp) nofun)
          intro items _
          have heeds : arrowOnly (.mark .arrow) := rfl
          apply (local_eat (by simp) (by simp) heeds).bind
          intro arrow
          cases arrow with
          | true =>
              apply ih.bind
              intro result
              exact (local_spanFrom _).bind fun span => local_pure _
          | false =>
              rw [if_neg Bool.false_ne_true]
              split
              · exact (local_spanFrom _).bind fun span => local_pure _
              · exact local_pure _
              · exact (local_spanFrom _).bind fun span => local_pure _
      | false =>
          apply (local_expect (by simp)).bind
          exact fun _ => local_afterPercent _

/-- The levels are as many as the tokens of either list may need. -/
theorem local_parse : parse.Local arrowOnly := by
  intro c c'
  have enough : ∀ d : Cursor, d.Bounded → d.rest.length ≤ max c.rest.length c'.rest.length →
      parse.run d = (parseWithin (max c.rest.length c'.rest.length + 1)).run d := by
    intro d bounded shorter
    rw [parse, run_here]
    apply parseWithin_enough _ _ _ bounded
    · exact Nat.lt_succ_of_lt (Nat.lt_succ_self _)
    · exact Nat.lt_succ_of_le shorter
  exact (local_parseWithin _ c c').of_run_eq (fun bounded => enough c bounded (Nat.le_max_left _ _))
    fun bounded => enough c' bounded (Nat.le_max_right _ _)

end TypeExpr

/-! ### Expressions -/

namespace Expr

theorem local_fieldIndex : fieldIndex.Local heeded := by
  apply local_of_current moves_fieldIndex
  intro c c' current
  have kind : c'.kind = c.kind := congrArg Token.kind current
  apply localAt_here
  rw [kind, current]
  change LocalAt heeded _ c c'
  split
  case h_1 n kind =>
      split
      case isTrue => exact localAt_word kind (by simp) (by simp)
      case isFalse => exact local_fail _ _ c c'
  case h_2 spelling kind =>
      split
      case h_1 n found => exact localAt_word kind (by simp) (by simp)
      case h_2 => exact local_fail _ _ c c'
  case h_3 => exact local_fail _ _ c c'

theorem local_postfixRound (value : Expr) : (postfixRound value).Local allKinds := by
  apply local_of_kind
  intro c c' kind
  apply localAt_here
  rw [kind]
  change LocalAt allKinds _ c c'
  split
  case h_1 kind =>
      apply (localAt_advance kind (by simp) (by simp)).bind
      intro _
      apply local_fieldIndex.bind
      intro index
      exact (local_spanFrom _).bind fun span => local_pure _
  case h_2 kind =>
      apply (localAt_advance kind (by simp) (by simp)).bind
      intro _
      apply local_identifier.bind
      intro variant
      exact (local_spanFrom _).bind fun span => local_pure _
  case h_3 kind =>
      apply (localAt_advance kind (by simp) (by simp)).bind
      intro _
      apply local_identifier.bind
      intro variant
      exact (local_spanFrom _).bind fun span => local_pure _
  case h_4 => exact local_pure _ c c'

theorem local_args {item : Parser Expr} (follows : item.Local allKinds)
    (moves : item.Moves False 1) : (args item).Local heeded := by
  apply (local_expect (by simp)).bind
  intro _
  apply (local_commaSeparated follows moves).seal (fun _ => local_expect (by simp))
    (fun _ => moves_expect (by simp) nofun)
  exact fun list _ => local_pure list

theorem local_atom {inner : Parser Expr} (follows : inner.Local allKinds)
    (moves : inner.Moves False 1) : (atom inner).Local allKinds := by
  apply local_of_current (moves_atom moves)
  intro c c' current
  have kind : c'.kind = c.kind := congrArg Token.kind current
  apply localAt_here
  simp only [kind, current]
  change LocalAt allKinds _ c c'
  split
  case h_1 make literal =>
      obtain ⟨inside, plain⟩ := inside_of_literalAtom? literal
      apply (localAt_advance rfl inside plain).bind
      intro _
      exact (local_spanFrom _).bind fun span => local_pure _
  case h_2 =>
      split
      case h_1 kind =>
          apply (localAt_advance kind (by simp) (by simp)).bind
          intro _
          apply (local_eat (by simp) (by simp) trivial).bind
          intro closed
          cases closed with
          | true => exact (local_spanFrom _).bind fun span => local_pure _
          | false =>
              apply follows.bind
              intro value
              apply (local_expect (by simp)).bind
              intro _
              exact (local_spanFrom _).bind fun span => local_pure _
      case h_2 kind =>
          apply (localAt_advance kind (by simp) (by simp)).bind
          intro _
          apply local_identifier.bind
          intro op
          apply (local_args follows moves).bind
          intro list
          exact (local_spanFrom _).bind fun span => local_pure _
      case h_3 =>
          apply (local_identifier c c').bind
          intro head
          apply local_of_kind
          intro d d' kind
          apply localAt_here
          rw [kind]
          change LocalAt allKinds _ d d'
          split
          · apply (local_args follows moves d d').bind
            intro list
            exact (local_spanFrom _).bind fun span => local_pure _
          · exact (local_spanFrom _ d d').bind fun span => local_pure _
      case h_4 => exact local_fail _ _ c c'

theorem local_parseWithin (levels : Nat) : (parseWithin levels).Local allKinds := by
  induction levels with
  | zero => exact fun c c' => localAt_here (follows_fail _ _)
  | succ levels ih =>
      apply (local_atom ih (moves_parseWithin levels)).bind
      intro value c c'
      exact localAt_here (follows_of_loops local_postfixRound (moves_postfixes _ value c)
        (fun bounded => loops_postfixes bounded value) fun bounded => loops_postfixes bounded value)

theorem local_parse : parse.Local allKinds := local_parseWithin _

end Expr

/-! ### Statements -/

namespace Place

theorem local_fieldRound (path : List Nat) : (fieldRound path).Local allKinds := by
  apply (local_eat (by simp) (by simp) trivial).bind
  intro dot
  cases dot with
  | true => exact Expr.local_fieldIndex.bind fun index => local_pure _
  | false => exact local_pure _

/-- A path from the current token on. -/
def pathHere : Parser (List Nat) := do
  let c ← here
  fields c.budget

theorem local_pathHere : pathHere.Local allKinds := by
  intro c c'
  exact localAt_here (follows_of_loops local_fieldRound (moves_fields _ c)
    (fun bounded => loops_fields bounded (Nat.lt_succ_self _))
    fun bounded => loops_fields bounded (Nat.lt_succ_self _))

/-- The budget of a path may come from the name in front of it. -/
theorem run_named (bounded : c.Bounded) :
    (identifier >>= fun name => fields c.budget >>= fun path => pure (.named name path)).run c =
      (identifier >>= fun name => pathHere >>= fun path => pure (Place.named name path)).run c := by
  apply run_bind_congr rfl
  intro name d run
  have moves : identifier.Moves False 1 := moves_identifier
  obtain ⟨bounded', shorter⟩ := (moves c).shrinks bounded run
  refine run_bind_congr ?_ fun _ _ _ => rfl
  exact (loops_fields bounded' (Nat.lt_succ_of_le shorter)).unique
    (loops_fields bounded' (Nat.lt_succ_self _))

theorem local_parse : parse.Local allKinds := by
  apply local_of_current moves_parse
  intro c c' current
  have kind : c'.kind = c.kind := congrArg Token.kind current
  apply localAt_here
  rw [kind, current]
  split
  case h_1 kind => exact localAt_word kind (by simp) (by simp)
  case h_2 kind => exact localAt_word kind (by simp) (by simp)
  case h_3 kind => exact localAt_word kind (by simp) (by simp)
  case h_4 kind => exact localAt_word kind (by simp) (by simp)
  case h_5 kind =>
      refine Follows.of_run_eq run_named run_named ?_
      apply (local_identifier c c').bind
      intro name
      exact local_pathHere.bind fun path => local_pure _
  case h_6 => exact follows_fail _ _

end Place

namespace Stmt

/-- What a declaration of a local has behind its colon. -/
def typeAndInit (name : Ident) : Parser StmtKind := do
  let type ← TypeExpr.parse
  if ← eat (.mark .equals) then
    let value ← Expr.parse
    return .declare name type (some value)
  else return .declare name type none

/-- A declaration of a local that asks for its colon. -/
def declareWhole : Parser StmtKind := do
  let name ← identifier
  expect (.mark .colon)
  typeAndInit name

theorem run_declare (colon : c.nextKind = .mark .colon) : declare.run c = declareWhole.run c := by
  apply run_bind_congr rfl
  intro name d run
  have behind : d = c.advance := by
    simp only [Parser.run, identifier] at run
    split at run
    case h_1 => cases run; rfl
    case h_2 => cases run
  have kind : d.kind = .mark .colon := behind ▸ c.kind_advance colon
  have first : advance.run d = (some (), d.advance) := rfl
  have first' : (expect (.mark .colon)).run d = (some (), d.advance) := if_pos kind
  rw [bind_of_some first, bind_of_some first']
  rfl

theorem local_typeAndInit (name : Ident) : (typeAndInit name).Local allKinds := by
  apply (TypeExpr.local_parse.mono fun _ _ => trivial).bind
  intro type
  apply (local_eat (by simp) (by simp) trivial).bind
  intro equals
  cases equals with
  | true => exact Expr.local_parse.bind fun value => local_pure _
  | false => exact local_pure _

theorem local_declareWhole : declareWhole.Local allKinds := by
  apply local_identifier.bind
  intro name
  exact (local_expect (by simp)).bind fun _ => local_typeAndInit name

theorem moves_declareWhole : declareWhole.Moves False 2 := by
  intro c
  refine (moves_identifier c).and_then (n := 1) ?_ (Nat.le_refl 2)
  intro name
  exact (moves_expect (by simp) nofun).bind fun _ d => (local_typeAndInit name d d).moves

theorem local_jump : jump.Local allKinds := by
  apply Expr.local_parse.bind
  intro cond
  apply (local_expect (by simp)).bind
  intro _
  apply (local_index _).bind
  intro target
  apply (local_eat (by simp) (by simp) trivial).bind
  intro tick
  cases tick with
  | true => exact local_string.bind fun location => local_pure _
  | false => exact local_pure _

theorem local_assign : assign.Local allKinds := by
  apply Place.local_parse.bind
  intro target
  apply (local_expect (by simp)).bind
  intro _
  exact Expr.local_parse.bind fun value => local_pure _

theorem moves_assign_two : assign.Moves False 2 := by
  intro c
  refine (Place.moves_parse c).and_then (n := 1) ?_ (Nat.le_refl 2)
  intro target
  apply (moves_expect (by simp) nofun).bind
  intro _
  exact Expr.moves_parse.bind fun value => moves_pure _

/-- A name begins a declaration or an assignment, as the second token tells. -/
theorem follows_named :
    Follows allKinds (if c.nextKind = .mark .colon then declare else assign) c
      (if c'.nextKind = .mark .colon then declare else assign) c' := by
  by_cases colon : c.nextKind = .mark .colon
  · rw [if_pos colon]
    have takes : declare.MovesAt False 2 c := by
      intro bounded
      rw [run_declare colon]
      exact moves_declareWhole c bounded
    apply follows_of_next takes
    intro next
    have colon' : c'.nextKind = .mark .colon := next.trans colon
    rw [if_pos colon']
    exact (local_declareWhole c c').of_run_eq (fun _ => run_declare colon)
      fun _ => run_declare colon'
  · rw [if_neg colon]
    apply follows_of_next (moves_assign_two c)
    intro next
    rw [next, if_neg colon]
    exact local_assign c c'

theorem local_body : body.Local allKinds := by
  apply local_of_current moves_body
  intro c c' current
  have kind : c'.kind = c.kind := congrArg Token.kind current
  apply localAt_here
  rw [kind]
  split
  case h_1 kind => exact (localAt_advance kind (by simp) (by simp)).bind fun _ => local_jump
  case h_2 kind =>
      apply (localAt_advance kind (by simp) (by simp)).bind
      intro _
      exact (local_index _).bind fun target => local_pure _
  case h_3 kind => exact localAt_word kind (by simp) (by simp)
  case h_4 kind => exact localAt_word kind (by simp) (by simp)
  case h_5 kind => exact localAt_word kind (by simp) (by simp)
  case h_6 => exact follows_named
  case h_7 => exact local_assign c c'

/-- Nothing matters behind the semicolon of a statement. -/
theorem local_parse : parse.Local heeded := by
  apply local_of_current moves_parse
  intro c c' current
  apply localAt_here
  rw [current]
  change LocalAt heeded _ c c'
  apply (local_body c c').seal (fun _ => local_expect (by simp))
    (fun _ => moves_expect (by simp) nofun)
  intro kind _
  exact (local_spanFrom _).bind fun span => local_pure _

end Stmt

/-! ### Declarations -/

theorem local_closeBody (owner : Ident) : (closeBody owner).Local heeded := by
  intro c c'
  apply follows_of_advance (moves_closeBody owner c)
  intro a d run
  by_cases kind : c.kind = .mark .closeBrace
  · have here : (closeBody owner).run c = (some (), c.advance) := if_pos kind
    cases here.symm.trans run
    refine ⟨rfl, by simp [kind], ?_⟩
    intro current
    have kind' : c'.kind = .mark .closeBrace := (congrArg Token.kind current).trans kind
    exact if_pos kind'
  · have here : (closeBody owner).run c = (none, _) := if_neg kind
    cases here.symm.trans run

namespace Decl

theorem local_parseVariant : parseVariant.Local allKinds := by
  apply local_identifier.bind
  intro name
  apply (local_expect (by simp)).bind
  intro _
  exact (TypeExpr.local_parse.mono fun _ _ => trivial).bind fun payload => local_pure _

theorem local_unlessEmpty {α : Type} (variants : List α) (fault : ParseFault) (span start : Span)
    (make : Span → Decl) :
    (do if variants.isEmpty then warn fault span
        return make (← spanFrom start) : Parser Decl).Local heeded := by
  dsimp only
  split
  · exact (local_warn _ _).bind fun _ => (local_spanFrom _).bind fun region => local_pure _
  · exact (local_spanFrom _).bind fun region => local_pure _

theorem localAt_parseEnum (kind : c.kind = .keyword .enumDecl) (current : c'.current = c.current) :
    parseEnum.LocalAt heeded c c' := by
  apply localAt_here
  rw [current]
  change LocalAt heeded _ c c'
  apply (localAt_advance kind (by simp) (by simp)).bind
  intro _
  apply local_identifier.bind
  intro name
  apply (local_expect (by simp)).bind
  intro _
  apply (local_commaSeparated local_identifier moves_identifier).seal
    (fun _ => local_closeBody name) (fun _ => moves_closeBody name)
  exact fun variants _ =>
    local_unlessEmpty variants _ _ _ fun region => .enum ⟨name, variants, region⟩

theorem localAt_parseUnion (kind : c.kind = .keyword .unionDecl)
    (current : c'.current = c.current) : parseUnion.LocalAt heeded c c' := by
  apply localAt_here
  rw [current]
  change LocalAt heeded _ c c'
  apply (localAt_advance kind (by simp) (by simp)).bind
  intro _
  apply local_identifier.bind
  intro name
  apply (local_expect (by simp)).bind
  intro _
  apply (local_commaSeparated local_parseVariant moves_parseVariant).seal
    (fun _ => local_closeBody name) (fun _ => moves_closeBody name)
  exact fun variants _ =>
    local_unlessEmpty variants _ _ _ fun region => .union ⟨name, variants, region⟩

theorem local_parseBinding : parseBinding.Local allKinds := by
  apply (local_eat (by simp) (by simp) trivial).bind
  intro equals
  cases equals with
  | true => exact local_string.bind fun s => local_pure _
  | false => exact local_pure _

theorem localAt_parseValue (kind : c.kind = .keyword .valDecl)
    (current : c'.current = c.current) : parseValue.LocalAt arrowOnly c c' := by
  apply localAt_here
  rw [current]
  change LocalAt arrowOnly _ c c'
  apply (localAt_advance kind (by simp) (by simp)).bind
  intro _
  apply local_identifier.bind
  intro name
  apply local_parseBinding.seal (fun _ => local_expect (by simp))
    (fun _ => moves_expect (by simp) nofun)
  intro binding _
  apply TypeExpr.local_parse.bind
  intro type
  exact (local_spanFrom _).bind fun span => local_pure _

theorem localAt_parseRegister (kind : c.kind = .keyword .registerDecl)
    (current : c'.current = c.current) : parseRegister.LocalAt arrowOnly c c' := by
  apply localAt_here
  rw [current]
  change LocalAt arrowOnly _ c c'
  apply (localAt_advance kind (by simp) (by simp)).bind
  intro _
  apply local_identifier.bind
  intro name
  apply (local_expect (by simp)).bind
  intro _
  apply TypeExpr.local_parse.bind
  intro type
  exact (local_spanFrom _).bind fun span => local_pure _

/-- A round that reports nothing reads a statement, or ends the body. -/
theorem local_statementRound (body : List Stmt) : (statementRound body).Local allKinds := by
  refine fun c c' => ⟨moves_statementRound body c, ?_⟩
  intro a d d' taken run alike agrees
  rw [Parser.run, statementRound] at run ⊢
  split at run
  case isTrue stops =>
      cases run
      cases alike.left.passes.unique (.refl c)
      have kind : c'.kind = c.kind := alike.right.passes.kind_eq.symm.trans agrees.eq
      have stops' : c'.kind = .mark .closeBrace ∨ c'.atEnd = true ∨ c'.isSaturated = true := by
        rw [Cursor.atEnd, kind, alike.right.goes]
        rwa [Cursor.atEnd, alike.left.goes] at stops
      rw [if_pos stops',
        alike.right.eq_of_nil]
  case isFalse goes =>
      cases parsed : Stmt.parse c with
      | mk result e =>
          rw [parsed] at run
          cases result with
          | none =>
              -- A fault was reported, and nothing takes it back.
              have motion := Stmt.motion_of_fault alike.left.bounded parsed
              obtain ⟨new, reported, -, once⟩ := motion.reports
              cases run
              have quiet := alike.left.quiet
              rw [Cursor.skipStatement_reports] at quiet
              have grown : e.reports = c.reports ++ new := reported
              have one : new.length = 1 := once trivial
              have lengths := congrArg List.length (grown.symm.trans quiet)
              rw [List.length_append] at lengths
              omega
          | some stmt =>
              cases run
              have here : (Stmt.parse.run c') = (some stmt, d') :=
                (Stmt.local_parse c c').same _ _ _ _ parsed alike agrees
              rw [Parser.run] at here
              have some : taken ≠ [] := by
                obtain ⟨passed, passes, -, long⟩ := (Stmt.moves_parse c alike.left.bounded).passes
                rw [Parser.run, parsed] at passes long
                cases alike.left.passes.unique passes
                exact List.ne_nil_of_length_pos (long rfl)
              have kind : c'.kind = c.kind := congrArg Token.kind (alike.current_eq some)
              have goes' : ¬ (c'.kind = .mark .closeBrace ∨ c'.atEnd = true ∨
                  c'.isSaturated = true) := by
                rw [Cursor.atEnd, kind, alike.right.goes]
                rwa [Cursor.atEnd, alike.left.goes] at goes
              rw [if_neg goes', here]
              simp only [agrees.eq]

theorem local_parseStatements : parseStatements.Local allKinds := by
  intro c c'
  exact follows_of_loops local_statementRound (moves_parseStatements c) loops_parseStatements
    loops_parseStatements

/-- What stands before the statements of a function. -/
def functionHead : Parser (Ident × List Ident) := do
  advance
  let name ← identifier
  expect (.mark .openParen)
  let params ← commaSeparated (.mark .closeParen) identifier
  expect (.mark .closeParen)
  expect (.mark .openBrace)
  return (name, params)

theorem parseFunction_eq : parseFunction = (do
    let start := (← here).current.span
    let (name, params) ← functionHead
    let body ← parseStatements
    closeBody name
    return .function ⟨name, params, body, ← spanFrom start⟩) := by
  simp only [parseFunction, functionHead, bind_assoc, pure_bind]

theorem localAt_functionHead (kind : c.kind = .keyword .fnDecl) :
    functionHead.LocalAt heeded c c' := by
  apply (localAt_advance kind (by simp) (by simp)).bind
  intro _
  apply local_identifier.bind
  intro name
  apply (local_expect (by simp)).bind
  intro _
  apply (local_commaSeparated local_identifier moves_identifier).seal
    (fun _ => local_expect (by simp)) (fun _ => moves_expect (by simp) nofun)
  intro params _
  exact (local_expect (by simp)).bind fun _ => local_pure _

theorem localAt_parseFunction (kind : c.kind = .keyword .fnDecl)
    (current : c'.current = c.current) : parseFunction.LocalAt heeded c c' := by
  rw [parseFunction_eq]
  apply localAt_here
  rw [current]
  change LocalAt heeded _ c c'
  apply (localAt_functionHead kind).bind
  intro (name, params)
  apply local_parseStatements.seal (fun _ => local_closeBody name) (fun _ => moves_closeBody name)
  intro body _
  exact (local_spanFrom _).bind fun span => local_pure _

/-- A declaration heeds no more than an arrow behind it. -/
theorem localAt_parser? {k : TokenKind} {p : Parser Decl} (known : parser? k = some p)
    (kind : c.kind = k) : p.LocalAt arrowOnly c c' := by
  have inside : c.kind ≠ .endOfFile := kind ▸ inside_of_parser? known
  have takes : p.MovesAt False 1 c :=
    fun bounded => ((departs_parser? known c).motion bounded inside).1
  apply follows_of_current takes
  intro current
  unfold parser? at known
  split at known
  case h_1 => cases known; exact localAt_parseEnum kind current
  case h_2 => cases known; exact localAt_parseUnion kind current
  case h_3 => cases known; exact localAt_parseValue kind current
  case h_4 => cases known; exact localAt_parseFunction kind current
  case h_5 => cases known; exact localAt_parseRegister kind current
  case h_6 => cases known

end Decl

end JumpIR.Tree
