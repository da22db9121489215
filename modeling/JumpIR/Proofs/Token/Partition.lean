import JumpIR.Proofs.Token.Spelling

/-!
# Tokens part their text

A text that is scanned without a fault is an alternation of gaps, which are blanks and line
comments, and of spellings of tokens, which hold no newline. `Laid` says so of a text from some
place on; what follows from it about places and bytes is `Parts`.
-/

set_option autoImplicit false

namespace JumpIR.Scan

/-! ### Gaps -/

/-- Blanks and line comments. A comment that is not `ended` runs to the end of the text. -/
inductive Trivia : (ended : Bool) → List Char → Prop where
  | nil : Trivia true []
  | blank {ended : Bool} {c : Char} {gap : List Char} (blank : isBlank c = true)
      (rest : Trivia ended gap) : Trivia ended (c :: gap)
  | comment {ended : Bool} {body gap : List Char} (line : '\n' ∉ body) (rest : Trivia ended gap) :
      Trivia ended ('/' :: '/' :: (body ++ '\n' :: gap))
  | last {body : List Char} (line : '\n' ∉ body) : Trivia false ('/' :: '/' :: body)

/-- What may follow the start of a comment. -/
inductive Commented : (ended : Bool) → List Char → Prop where
  | comment {ended : Bool} {body gap : List Char} (line : '\n' ∉ body) (rest : Trivia ended gap) :
      Commented ended (body ++ '\n' :: gap)
  | last {body : List Char} (line : '\n' ∉ body) : Commented false body

theorem Commented.cons {ended : Bool} {c : Char} {gap : List Char} (apart : c ≠ '\n')
    (commented : Commented ended gap) : Commented ended (c :: gap) := by
  have longer : ∀ {body : List Char}, '\n' ∉ body → '\n' ∉ c :: body := by
    intro body line member
    rcases List.mem_cons.mp member with same | later
    · exact apart same.symm
    · exact line later
  cases commented with
  | @comment ended body gap line rest => exact @Commented.comment _ (c :: body) _ (longer line) rest
  | last line => exact .last (longer line)

theorem Commented.opened {ended : Bool} {gap : List Char}
    (commented : Commented ended ('/' :: gap)) : Trivia ended ('/' :: '/' :: gap) := by
  generalize front : '/' :: gap = text at commented
  cases commented with
  | @comment ended body inner line rest =>
      cases body with
      | nil => cases front
      | cons c body =>
          cases front
          exact .comment (fun member => line (List.mem_cons_of_mem _ member)) rest
  | @last body line =>
      subst front
      exact .last fun member => line (List.mem_cons_of_mem _ member)

/-- The scanner skips a gap, and stops at the end of the text if its last comment is not ended. -/
theorem gap_of_skipTrivia (inComment : Bool) (p : Position) (input : List Char) :
    ∃ gap ended, input = gap ++ (skipTrivia inComment p input).2 ∧
      (skipTrivia inComment p input).1 = p.advance gap ∧
      (ended = false → (skipTrivia inComment p input).2 = []) ∧
      if inComment then Commented ended gap else Trivia ended gap := by
  fun_induction skipTrivia inComment p input with
  | case1 inComment p =>
      cases inComment with
      | true => exact ⟨[], false, rfl, rfl, fun _ => rfl, .last List.not_mem_nil⟩
      | false => exact ⟨[], true, rfl, rfl, nofun, .nil⟩
  | case2 p rest ih =>
      rcases ih with ⟨gap, ended, split, moved, finished, trivia⟩
      exact ⟨'\n' :: gap, ended, congrArg ('\n' :: ·) split, moved, finished,
        @Commented.comment _ [] _ List.not_mem_nil trivia⟩
  | case3 p c rest apart ih =>
      rcases ih with ⟨gap, ended, split, moved, finished, commented⟩
      exact ⟨c :: gap, ended, congrArg (c :: ·) split, moved, finished, commented.cons apart⟩
  | case4 p c rest blank ih =>
      rcases ih with ⟨gap, ended, split, moved, finished, trivia⟩
      exact ⟨c :: gap, ended, congrArg (c :: ·) split, moved, finished, .blank blank trivia⟩
  | case5 p c rest notBlank slashes ih =>
      rcases ih with ⟨gap, ended, split, moved, finished, commented⟩
      cases slashes.1
      cases gap with
      | nil =>
          -- The second slash belongs to the comment, so the gap is not empty.
          generalize front : [] = text at commented
          cases commented with
          | @comment ended body inner line rest => cases body <;> cases front
          | last line =>
              rw [finished rfl] at split
              rw [split] at slashes
              cases slashes.2
      | cons d gap =>
          rw [split] at slashes
          cases slashes.2
          exact ⟨'/' :: '/' :: gap, ended, congrArg ('/' :: ·) split, moved, finished,
            Commented.opened commented⟩
  | case6 p c rest notBlank notSlashes => exact ⟨[], true, rfl, rfl, nofun, .nil⟩

/-! ### The layout of a text -/

/-- From `p` on the text is gaps and spellings of those tokens, in turn. -/
inductive Laid : Position → List Char → List Token → Prop where
  | ended {p : Position} {gap : List Char} {ended : Bool} (trivia : Trivia ended gap) :
      Laid p gap []
  | token {p : Position} {gap lexeme rest : List Char} {kind : TokenKind} {tokens : List Token}
      (trivia : Trivia true gap) (spells : Spells lexeme kind)
      (later : Laid ((p.advance gap).advance lexeme) rest tokens) :
      Laid p (gap ++ (lexeme ++ rest))
        (⟨kind, .read (p.advance gap) ((p.advance gap).advance lexeme)⟩ :: tokens)

/-- What was reported stays reported. -/
theorem reports_tokens (budget : Nat) : ∀ (reports : LexReports) (p : Position)
    (input : List Char), (tokens budget reports p input).2 = [] → reports = [] := by
  induction budget with
  | zero =>
      intro reports p input quiet
      exact quiet
  | succ budget ih =>
      intro reports p input quiet
      unfold tokens at quiet
      split at quiet
      · exact quiet
      · split at quiet
        · exact quiet
        · rename_i p c rest skipped
          exact (List.append_eq_nil_iff.mp (ih _ _ _ quiet)).1

/-- A quiet scanner lays its text out, from wherever it stands. -/
theorem laid_of_tokens (budget : Nat) : ∀ (p : Position) (input : List Char),
    input.length < budget → (tokens budget [] p input).2 = [] →
    ∃ list, (tokens budget [] p input).1 = list ++ [⟨.endOfFile, .point (p.advance input)⟩] ∧
      Laid p input list := by
  induction budget with
  | zero =>
      intro p input enough
      cases enough
  | succ budget ih =>
      intro p input enough quiet
      have gapped := gap_of_skipTrivia false p input
      have room : ¬ LexReports.isFull [] = true := by decide
      unfold tokens at quiet ⊢
      rw [if_neg room] at quiet ⊢
      rcases gapped with ⟨gap, ended, split, moved, finished, trivia⟩
      generalize skipTrivia false p input = skipped at *
      rcases skipped with ⟨q, behind⟩
      dsimp only at split moved finished
      subst moved
      cases behind with
      | nil =>
          rw [List.append_nil] at split
          exact ⟨[], by rw [split]; rfl, split ▸ .ended trivia⟩
      | cons c rest =>
          cases ended with
          | false => cases finished rfl
          | true =>
              dsimp only at quiet ⊢
              have calm := reports_tokens budget _ _ _ quiet
              rcases takes_step (by decide) c (p.advance gap) calm
                with ⟨lexeme, kind, others, front, spells, taken⟩
              rw [taken] at quiet ⊢
              dsimp only [Step.plain, List.nil_append] at quiet ⊢
              -- A spelling takes at least one character, so the budget lasts.
              have shorter : others.length < budget := by
                rcases starts_spelling spells with ⟨d, tail, same, _⟩
                have size := congrArg List.length split
                rw [front, same, List.length_append, List.length_append, List.length_cons] at size
                omega
              rcases ih _ others shorter quiet with ⟨list, listed, laid⟩
              refine ⟨⟨kind, .read (p.advance gap) ((p.advance gap).advance lexeme)⟩ :: list, ?_, ?_⟩
              · rw [listed, split, front, Position.advance_append, Position.advance_append]
                rfl
              · rw [split, front]
                exact .token trivia spells laid

/-! ### Places -/

/-- The token stands in the text: behind some characters comes a spelling of it, and its region is
that of the spelling. -/
def Stands (text : List Char) (t : Token) : Prop :=
  ∃ before lexeme after, text = before ++ (lexeme ++ after) ∧ Spells lexeme t.kind ∧
    t.span = .read (Position.origin.advance before)
      ((Position.origin.advance before).advance lexeme)

variable {p q : Position} {byte : UInt8} {lexeme : List Char} {kind : TokenKind}

theorem stands_of_laid {text : List Char} {tokens : List Token} (laid : Laid p text tokens) :
    ∀ before, p = Position.origin.advance before → ∀ t ∈ tokens, Stands (before ++ text) t := by
  induction laid with
  | ended trivia => exact fun before _ t member => nomatch member
  | @token p gap lexeme rest kind tokens trivia spells later ih =>
      intro before moved t member
      subst moved
      rw [← Position.advance_append] at ih member
      rcases List.mem_cons.mp member with same | behind
      · subst same
        exact ⟨before ++ gap, lexeme, rest, by rw [List.append_assoc], spells, rfl⟩
      · rw [← Position.advance_append] at ih
        have stands := ih _ rfl t behind
        rw [List.append_assoc, List.append_assoc] at stands
        exact stands

end JumpIR.Scan
