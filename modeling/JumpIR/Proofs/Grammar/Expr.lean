import JumpIR.Proofs.Grammar.Type

/-!
# Expressions by the grammar

Atoms and their postfix forms are read as the grammar derives them. The level at which parsing
gives up is the bound on nesting in the grammar.
-/

set_option autoImplicit false

open JumpIR.Grammar JumpIR.Tree JumpIR.Parser

namespace JumpIR.Tree.Expr

variable {c : Cursor} {rest : List TokenKind}

/-! ### Fields -/

theorem fieldOfName?_eq_some {name : String} {n : Nat} : fieldOfName? name = some n ↔
    ∃ digits, name = String.ofList ("ztup".toList ++ digits) ∧ Decimal digits n ∧ n < 2 ^ 32 := by
  constructor
  · intro found
    unfold fieldOfName? at found
    split at found
    case h_1 chars digits spelling =>
        obtain ⟨m, read, checked⟩ := Option.bind_eq_some_iff.mp found
        split at checked
        case isTrue most =>
            cases checked
            refine ⟨digits, ?_, decimalText?_eq_some.mp read, most⟩
            rw [← @String.ofList_toList name, spelling]
            rfl
        case isFalse => cases checked
    case h_2 => cases found
  · rintro ⟨digits, rfl, decimal, most⟩
    unfold fieldOfName?
    rw [String.toList_ofList]
    show ((decimalText? digits).bind fun n => if n < UInt32.size then some n else none) = some n
    rw [decimalText?_eq_some.mpr decimal]
    exact if_pos most

theorem reads_fieldIndex :
    fieldIndex.Reads fun used index => ∃ k, used = [k] ∧ IsField k index := by
  intro c
  apply readsAt_here
  split
  case h_1 n kind =>
      split
      case isTrue bounds =>
          apply (readsAt_advance kind (by simp)).bind
          intro _
          apply reads_pure
          rintro _ rfl
          exact ⟨_, rfl, .number bounds.1 bounds.2⟩
      case isFalse => exact reads_fail _ _ c
  case h_2 spelling kind =>
      split
      case h_1 n found =>
          obtain ⟨digits, rfl, decimal, most⟩ := fieldOfName?_eq_some.mp found
          apply (readsAt_advance kind (by simp)).bind
          intro _
          apply reads_pure
          rintro _ rfl
          exact ⟨_, rfl, .name decimal most⟩
      case h_2 => exact reads_fail _ _ c
  case h_3 => exact reads_fail _ _ c

theorem accepts_fieldIndex {k : TokenKind} {index : Nat} (field : IsField k index)
    (ready : c.Ready (k :: rest)) : fieldIndex.Accepts (· = index) c rest := by
  have kind : c.kind = k := ready.kind_eq
  apply accepts_here
  rw [kind]
  cases field with
  | number least most =>
      show Accepts (if _ then _ else _) _ _ _
      rw [if_pos ⟨least, most⟩]
      apply (accepts_advance ready).bind
      intro _ d _ ready
      exact accepts_pure ready rfl
  | name decimal most =>
      simp only [fieldOfName?_eq_some.mpr ⟨_, rfl, decimal, most⟩]
      apply (accepts_advance ready).bind
      intro _ d _ ready
      exact accepts_pure ready rfl

/-! ### Postfix forms -/

theorem reads_postfixes (budget : Nat) (value : Expr) :
    (postfixes budget value).Reads fun ks e => IsPostfix value.bare ks e.bare := by
  induction budget generalizing value with
  | zero => exact reads_pure .nil
  | succ budget ih =>
      intro c
      apply readsAt_here
      split
      case h_1 kind =>
          apply (readsAt_advance kind (by simp)).bind
          intro _
          apply reads_fieldIndex.bind
          intro index
          apply (reads_spanFrom _).bind
          intro span
          apply (ih _).imp
          rintro ks e derives _ rfl _ ⟨k, rfl, field⟩ _ rfl
          exact .field field derives
      case h_2 kind =>
          apply (readsAt_advance kind (by simp)).bind
          intro _
          apply reads_identifier.bind
          intro variant
          apply (reads_spanFrom _).bind
          intro span
          apply (ih _).imp
          rintro ks e derives _ rfl _ rfl _ rfl
          exact .isNot derives
      case h_3 kind =>
          apply (readsAt_advance kind (by simp)).bind
          intro _
          apply reads_identifier.bind
          intro variant
          apply (reads_spanFrom _).bind
          intro span
          apply (ih _).imp
          rintro ks e derives _ rfl _ rfl _ rfl
          exact .project derives
      case h_4 => exact reads_pure .nil c

/-- What may follow an expression: nothing that would make more of it. -/
structure Ends (k : TokenKind) : Prop where
  args : k ≠ .mark .openParen
  field : k ≠ .mark .dot
  isNot : k ≠ .keyword .isNot
  project : k ≠ .keyword .project

theorem accepts_postfixes {before e : Expr} {ks : List TokenKind}
    (derives : IsPostfix before ks e) : ∀ value : Expr, value.bare = before →
      ∀ budget, ks.length ≤ budget → ∀ c rest, c.Ready (ks ++ rest) →
        Ends (rest.headD .endOfFile) →
          (postfixes budget value).Accepts (fun e' => e'.bare = e) c rest := by
  induction derives with
  | nil =>
      rintro value rfl budget _ c rest ready ends
      cases budget with
      | zero => exact accepts_pure ready rfl
      | succ budget =>
          have kind := ready.kind_eq
          apply accepts_here
          split
          case h_1 dot => exact absurd (kind.symm.trans dot) ends.field
          case h_2 isNot => exact absurd (kind.symm.trans isNot) ends.isNot
          case h_3 project => exact absurd (kind.symm.trans project) ends.project
          case h_4 => exact accepts_pure ready rfl
  | @field before k index ks e field _ ih =>
      rintro value rfl budget enough c rest ready ends
      cases budget with
      | zero => cases enough
      | succ budget =>
          have kind : c.kind = .mark .dot := ready.kind_eq
          apply accepts_here
          rw [kind]
          apply (accepts_advance ready).bind
          intro _ d _ ready
          apply (accepts_fieldIndex field ready).bind
          rintro _ d rfl ready
          apply accepts_spanFrom
          intro span
          exact ih _ rfl budget (by simp at enough; omega) d rest ready ends
  | @isNot before variant ks e _ ih =>
      rintro value rfl budget enough c rest ready ends
      cases budget with
      | zero => cases enough
      | succ budget =>
          have kind : c.kind = .keyword .isNot := ready.kind_eq
          apply accepts_here
          rw [kind]
          apply (accepts_advance ready).bind
          intro _ d _ ready
          apply (accepts_identifier ready).bind
          rintro i d rfl ready
          apply accepts_spanFrom
          intro span
          exact ih _ rfl budget (by simp at enough; omega) d rest ready ends
  | @project before variant ks e _ ih =>
      rintro value rfl budget enough c rest ready ends
      cases budget with
      | zero => cases enough
      | succ budget =>
          have kind : c.kind = .keyword .project := ready.kind_eq
          apply accepts_here
          rw [kind]
          apply (accepts_advance ready).bind
          intro _ d _ ready
          apply (accepts_identifier ready).bind
          rintro i d rfl ready
          apply accepts_spanFrom
          intro span
          exact ih _ rfl budget (by simp at enough; omega) d rest ready ends

/-! ### Atoms -/

section Atoms

variable {inner : Parser Expr} {R : List TokenKind → Expr → Prop}

theorem reads_args (reads : inner.Reads fun ks e => R ks e.bare) :
    (args inner).Reads fun ks es => IsArgs R ks (es.map bare) := by
  apply (reads_expect (by simp)).bind
  intro _
  apply (reads_commaSeparated reads).bind
  intro list
  apply (reads_expect (by simp)).bind
  intro _
  apply reads_pure
  rintro _ rfl ks items _ rfl
  simpa using IsArgs.intro items

theorem literalAtom?_cases {k : TokenKind} {make : Span → Expr}
    (known : literalAtom? k = some make) :
    k ≠ .endOfFile ∧ ∃ e, IsAtom R [k] e ∧ ∀ span, (make span).bare = e := by
  cases k with
  | int n => cases known; exact ⟨by simp, _, .int, fun span => rfl⟩
  | bits width value => cases known; exact ⟨by simp, _, .bits, fun span => rfl⟩
  | text s => cases known; exact ⟨by simp, _, .text, fun span => rfl⟩
  | ident name => cases known
  | keyword word =>
      cases word <;> cases known
      · exact ⟨by simp, _, .true, fun span => rfl⟩
      · exact ⟨by simp, _, .false, fun span => rfl⟩
      · exact ⟨by simp, _, .haveException, fun span => rfl⟩
      · exact ⟨by simp, _, .currentException, fun span => rfl⟩
      · exact ⟨by simp, _, .throwLocation, fun span => rfl⟩
  | mark m => cases m <;> cases known
  | endOfFile => cases known

theorem reads_atom (reads : inner.Reads fun ks e => R ks e.bare) :
    (atom inner).Reads fun ks e => IsAtom R ks e.bare := by
  intro c
  apply readsAt_here
  split
  case h_1 make known =>
      obtain ⟨inside, e, derives, same⟩ := @literalAtom?_cases R _ _ known
      apply (readsAt_advance rfl inside).bind
      intro _
      apply (reads_spanFrom _).bind
      intro span
      apply reads_pure
      rintro _ rfl _ rfl
      exact (same span).symm ▸ derives
  case h_2 =>
      split
      case h_1 kind =>
          apply (readsAt_advance kind (by simp)).bind
          intro _
          apply (reads_eat (by simp)).bind
          intro closed
          cases closed with
          | true =>
              apply (reads_spanFrom _).bind
              intro span
              apply reads_pure
              rintro _ rfl _ rfl _ rfl
              exact .unit
          | false =>
              rw [if_neg Bool.false_ne_true]
              apply reads.bind
              intro value
              apply (reads_expect (by simp)).bind
              intro _
              apply (reads_spanFrom _).bind
              intro span
              apply reads_pure
              rintro _ rfl _ rfl ks derives _ rfl _ rfl
              rw [bare_withSpan]
              simpa using IsAtom.paren derives
      case h_2 kind =>
          apply (readsAt_advance kind (by simp)).bind
          intro _
          apply reads_identifier.bind
          intro op
          apply (reads_args reads).bind
          intro es
          apply (reads_spanFrom _).bind
          intro span
          apply reads_pure
          rintro _ rfl ks args _ rfl _ rfl
          rw [bare, allBare_eq]
          simpa [Ident.bare] using IsAtom.prim args
      case h_3 =>
          apply reads_identifier.bind
          intro head d
          apply readsAt_here
          split
          · apply (reads_args reads d).bind
            intro es
            apply (reads_spanFrom _).bind
            intro span
            apply reads_pure
            rintro _ rfl ks args _ rfl
            rw [bare, allBare_eq]
            simpa [Ident.bare] using IsAtom.call args
          · apply (reads_spanFrom _ d).bind
            intro span
            apply reads_pure
            rintro _ rfl _ rfl
            exact .name
      case h_4 => exact reads_fail _ _ c

theorem starts_atom {ks : List TokenKind} {e : Expr} (derives : IsAtom R ks e) :
    ∃ first others, ks = first :: others ∧ first ≠ .mark .closeParen := by
  cases derives <;> exact ⟨_, _, rfl, by simp⟩

theorem accepts_args {ks : List TokenKind} {es : List Expr} (derives : IsArgs R ks es)
    (starts : ∀ used e, R used e →
      ∃ first others, used = first :: others ∧ first ≠ .mark .closeParen)
    (serves : ∀ longest, inner.Serves bare R (.mark .closeParen) longest)
    (ready : c.Ready (ks ++ rest)) :
    (args inner).Accepts (fun es' => es'.map bare = es) c rest := by
  obtain ⟨items⟩ := derives
  simp only [List.cons_append, List.append_assoc, List.nil_append] at ready
  apply (accepts_expect ready).bind
  intro _ d _ ready
  apply (accepts_commaSeparated (serves _) (by simp) starts items ready).bind
  intro read d same ready
  apply (accepts_expect ready).bind
  intro _ d _ ready
  exact accepts_pure ready same

theorem accepts_literal {k : TokenKind} {make : Span → Expr} (known : literalAtom? k = some make)
    (ready : c.Ready (k :: rest)) :
    (atom inner).Accepts (fun e => e.bare = (make nowhere).bare) c rest := by
  have kind : c.kind = k := ready.kind_eq
  obtain ⟨-, e, -, same⟩ := @literalAtom?_cases (fun _ _ => True) _ _ known
  apply accepts_here
  simp only [kind, known]
  apply (accepts_advance ready).bind
  intro _ d _ ready
  apply accepts_spanFrom
  intro span
  exact accepts_pure ready ((same span).trans (same nowhere).symm)

theorem accepts_atom {ks : List TokenKind} {e : Expr} (derives : IsAtom R ks e)
    (starts : ∀ used e, R used e →
      ∃ first others, used = first :: others ∧ first ≠ .mark .closeParen)
    (serves : ∀ longest, inner.Serves bare R (.mark .closeParen) longest)
    (ready : c.Ready (ks ++ rest)) (ends : rest.headD .endOfFile ≠ .mark .openParen) :
    (atom inner).Accepts (fun e' => e'.bare = e) c rest := by
  cases derives with
  | @paren ks e value =>
      obtain ⟨first, others, rfl, apart⟩ := starts ks e value
      simp only [List.cons_append, List.append_assoc, List.nil_append] at ready
      have kind : c.kind = .mark .openParen := ready.kind_eq
      apply accepts_here
      rw [kind]
      apply (accepts_advance ready).bind
      intro _ d _ ready
      apply (passes_eat ready apart).bind
      rintro _ d rfl ready
      rw [if_neg Bool.false_ne_true]
      apply (serves _ _ e value (Nat.le_refl _) _ (.inl rfl) d rest ready).bind
      intro e' d same ready
      apply (accepts_expect ready).bind
      intro _ d _ ready
      apply accepts_spanFrom
      intro span
      exact accepts_pure ready (by rw [bare_withSpan, same])
  | unit =>
      have kind : c.kind = .mark .openParen := ready.kind_eq
      apply accepts_here
      rw [kind]
      apply (accepts_advance ready).bind
      intro _ d _ ready
      apply (accepts_eat ready).bind
      rintro _ d rfl ready
      exact accepts_spanFrom fun span => accepts_pure ready rfl
  | @prim op ks es arguments =>
      have kind : c.kind = .mark .atSign := ready.kind_eq
      apply accepts_here
      rw [kind]
      apply (accepts_advance ready).bind
      intro _ d _ ready
      apply (accepts_identifier ready).bind
      rintro i d rfl ready
      apply (accepts_args arguments starts serves ready).bind
      rintro es' d rfl ready
      apply accepts_spanFrom
      intro span
      exact accepts_pure ready (by rw [bare, allBare_eq]; rfl)
  | @call callee ks es arguments =>
      have kind : c.kind = .ident callee := ready.kind_eq
      apply accepts_here
      rw [kind]
      apply (accepts_identifier ready).bind
      rintro i d rfl ready
      have opens : d.kind = .mark .openParen := by
        obtain ⟨items⟩ := arguments
        exact ready.kind_eq
      apply accepts_here
      rw [if_pos opens]
      apply (accepts_args arguments starts serves ready).bind
      rintro es' d rfl ready
      apply accepts_spanFrom
      intro span
      exact accepts_pure ready (by rw [bare, allBare_eq]; rfl)
  | @name name =>
      have kind : c.kind = .ident name := ready.kind_eq
      apply accepts_here
      rw [kind]
      apply (accepts_identifier ready).bind
      rintro i d rfl ready
      apply accepts_here
      rw [if_neg (ready.kind_eq ▸ ends)]
      exact accepts_spanFrom fun span => accepts_pure ready rfl
  | _ => exact accepts_literal rfl ready

end Atoms

/-! ### Expressions -/

theorem reads_parseWithin (levels : Nat) :
    (parseWithin levels).Reads fun ks e => IsExprWithin levels ks e.bare := by
  induction levels with
  | zero => exact fun c => readsAt_here (reads_fail _ _ c)
  | succ levels ih =>
      apply (reads_atom ih).bind
      intro value c
      apply readsAt_here
      apply (reads_postfixes _ value c).imp
      intro ks e derives used atom
      exact .intro atom derives

theorem starts_expr {levels : Nat} {ks : List TokenKind} {e : Expr}
    (derives : IsExprWithin levels ks e) :
    ∃ first others, ks = first :: others ∧ first ≠ .mark .closeParen := by
  cases levels with
  | zero => cases derives
  | succ levels =>
      obtain ⟨atom, postfixes⟩ := derives
      obtain ⟨first, others, rfl, apart⟩ := starts_atom atom
      exact ⟨first, _, rfl, apart⟩

theorem ends_postfixes {value e : Expr} {ks : List TokenKind} (derives : IsPostfix value ks e)
    (ends : rest.headD .endOfFile ≠ .mark .openParen) :
    (ks ++ rest).headD .endOfFile ≠ .mark .openParen := by
  cases derives with
  | nil => exact ends
  | field => simp
  | isNot => simp
  | project => simp

theorem accepts_parseWithin (levels : Nat) : ∀ ks e, IsExprWithin levels ks e →
    ∀ c rest, c.Ready (ks ++ rest) → Ends (rest.headD .endOfFile) →
      (parseWithin levels).Accepts (fun e' => e'.bare = e) c rest := by
  induction levels with
  | zero =>
      intro ks e derives
      cases derives
  | succ levels ih =>
      -- No bound on the length is needed here: each level of nesting has one level of the reader.
      have serves : ∀ longest,
          (parseWithin levels).Serves bare (IsExprWithin levels) (.mark .closeParen) longest := by
        intro longest used e derives _ behind either c rest ready
        apply ih used e derives c _ ready
        rcases either with rfl | rfl <;> constructor <;> simp
      rintro _ e ⟨atom, postfixes⟩ c rest ready ends
      rw [List.append_assoc] at ready
      apply (accepts_atom atom (fun _ _ => starts_expr) serves ready
        (ends_postfixes postfixes ends.args)).bind
      rintro value d rfl ready
      apply accepts_here
      apply accepts_postfixes postfixes value rfl _ _ d rest ready ends
      rw [ready.stands.budget, List.length_append]
      omega

theorem reads_parse : parse.Reads fun ks e => IsExpr ks e.bare :=
  reads_parseWithin _

theorem accepts_parse {ks : List TokenKind} {e : Expr} (derives : IsExpr ks e)
    (ready : c.Ready (ks ++ rest)) (ends : Ends (rest.headD .endOfFile)) :
    parse.Accepts (fun e' => e'.bare = e) c rest :=
  accepts_parseWithin _ ks e derives c rest ready ends

end JumpIR.Tree.Expr
