import JumpIR.Proofs.Grammar.Syntax

/-!
# Tokens taken by a parser

A parser is judged by the tokens it takes. `Reads` is about every outcome: either a fault was
reported, or the tokens taken stand in a relation to the result. `Accepts` is about one outcome: on
given tokens there is a result, and nothing is reported.
-/

set_option autoImplicit false

namespace JumpIR

namespace Cursor

/-- Tokens of the kinds `ks` stand from the cursor on, then the only end of the file. -/
structure At (c : Cursor) (ks : List TokenKind) : Prop where
  kinds : (c.current :: c.rest).map Token.kind = ks ++ [.endOfFile]
  inside : .endOfFile ∉ ks

def Closed (c : Cursor) : Prop := ∃ ks, c.At ks

/-- From `c` to `d` tokens of the kinds `used` were taken, and nothing was reported. -/
def Took (c d : Cursor) (used : List TokenKind) : Prop :=
  ∃ rest, c.At (used ++ rest) ∧ d.At rest ∧ d.reports = c.reports

variable {c d : Cursor} {k : TokenKind} {ks js : List TokenKind}

theorem At.unique (left : c.At ks) (right : c.At js) : ks = js :=
  List.append_cancel_right (left.kinds.symm.trans right.kinds)

theorem At.budget (stands : c.At ks) : c.budget = ks.length + 1 := by
  have lengths := congrArg List.length stands.kinds
  simpa [Cursor.budget] using lengths

theorem At.kind_eq (stands : c.At ks) : c.kind = ks.headD .endOfFile := by
  have kinds := stands.kinds
  cases ks with
  | nil => exact (List.cons.inj kinds).1
  | cons first rest => exact (List.cons.inj kinds).1

theorem At.advance (stands : c.At (k :: ks)) : c.advance.At ks := by
  obtain ⟨current, tail, previous, reports⟩ := c
  obtain ⟨-, kinds⟩ := List.cons.inj stands.kinds
  refine ⟨?_, fun member => stands.inside (List.mem_cons_of_mem k member)⟩
  cases tail with
  | nil => simp at kinds
  | cons next rest => exact kinds

theorem At.nextKind_eq (stands : c.At (k :: ks)) : c.nextKind = ks.headD .endOfFile := by
  rw [← stands.advance.kind_eq]
  obtain ⟨current, tail, previous, reports⟩ := c
  cases tail with
  | nil => simpa using stands.kinds
  | cons next rest => rfl

theorem At.cons_of_kind (stands : c.At ks) (kind : c.kind = k) (inside : k ≠ .endOfFile) :
    ∃ rest, ks = k :: rest := by
  rw [stands.kind_eq] at kind
  cases ks with
  | nil => exact absurd kind.symm inside
  | cons first rest => exact ⟨rest, by rw [← kind]; rfl⟩

theorem At.nil_of_kind (stands : c.At ks) (kind : c.kind = .endOfFile) : ks = [] := by
  rw [stands.kind_eq] at kind
  cases ks with
  | nil => rfl
  | cons first rest => exact absurd (kind ▸ List.mem_cons_self) stands.inside

@[simp] theorem advance_reports (c : Cursor) : c.advance.reports = c.reports := by
  unfold Cursor.advance
  split <;> rfl

theorem Took.refl (closed : c.Closed) : c.Took c [] := by
  obtain ⟨ks, stands⟩ := closed
  exact ⟨ks, stands, stands, rfl⟩

theorem Took.closed {used : List TokenKind} (took : c.Took d used) : d.Closed := by
  obtain ⟨rest, -, stands, -⟩ := took
  exact ⟨rest, stands⟩

theorem Took.trans {e : Cursor} {used others : List TokenKind} (left : c.Took d used)
    (right : d.Took e others) : c.Took e (used ++ others) := by
  obtain ⟨middle, before, between, quiet⟩ := left
  obtain ⟨rest, between', after, quiet'⟩ := right
  have same := between.unique between'
  subst same
  exact ⟨rest, by rwa [List.append_assoc], after, quiet'.trans quiet⟩

theorem Took.advance (closed : c.Closed) (kind : c.kind = k) (inside : k ≠ .endOfFile) :
    c.Took c.advance [k] := by
  obtain ⟨ks, stands⟩ := closed
  obtain ⟨rest, rfl⟩ := stands.cons_of_kind kind inside
  exact ⟨rest, stands, stands.advance, advance_reports c⟩

theorem Closed.advance (closed : c.Closed) : c.advance.Closed := by
  obtain ⟨ks, stands⟩ := closed
  cases ks with
  | cons k rest => exact ⟨rest, stands.advance⟩
  | nil =>
      have last : c.rest = [] := by simpa using (List.cons.inj stands.kinds).2
      have same : c.advance = c := by simp only [Cursor.advance, last]
      exact ⟨[], same.symm ▸ stands⟩

theorem Closed.report (closed : c.Closed) (cause : ParseFault) (span : Span) :
    (c.report cause span).Closed := by
  obtain ⟨ks, stands⟩ := closed
  exact ⟨ks, stands.kinds, stands.inside⟩

theorem report_ne_nil (c : Cursor) (cause : ParseFault) (span : Span) :
    (c.report cause span).reports ≠ [] := by
  simp [Cursor.report]

end Cursor

/-! ### Every outcome -/

/-- An outcome from `c`: something was reported, or the tokens taken stand in `R` to the result. -/
inductive Reading {α : Type} (R : List TokenKind → α → Prop) (c : Cursor) :
    Option α × Cursor → Prop where
  | fault {result d} (closed : d.Closed) (reported : d.reports ≠ []) : Reading R c (result, d)
  | took {a d used} (took : c.Took d used) (derives : R used a) : Reading R c (some a, d)

namespace Reading

variable {α β : Type} {R : List TokenKind → α → Prop} {S : List TokenKind → β → Prop} {c d : Cursor}

theorem closed {result : Option α} (outcome : Reading R c (result, d)) : d.Closed := by
  cases outcome with
  | fault closed reported => exact closed
  | took took derives => exact took.closed

/-- What was reported stays reported. -/
theorem reported {result : Option α} (outcome : Reading R c (result, d)) (before : c.reports ≠ []) :
    d.reports ≠ [] := by
  cases outcome with
  | fault closed reported => exact reported
  | took took derives =>
      obtain ⟨rest, -, -, quiet⟩ := took
      exact quiet ▸ before

/-- One part and then the next one, whose outcome is told from the tokens of both. -/
theorem trans {a : α} {result : Option β × Cursor} (first : Reading R c (some a, d))
    (later : Reading (fun others b => ∀ used, R used a → S (used ++ others) b) d result) :
    Reading S c result := by
  obtain ⟨result, e⟩ := result
  cases first with
  | fault closed reported => exact .fault later.closed (later.reported reported)
  | took took derives =>
      cases later with
      | fault closed reported => exact .fault closed reported
      | took took' derives' => exact .took (took.trans took') (derives' _ derives)

theorem map {a : α} {b : β} (outcome : Reading R c (some a, d))
    (weaken : ∀ used, R used a → S used b) : Reading S c (some b, d) := by
  cases outcome with
  | fault closed reported => exact .fault closed reported
  | took took derives => exact .took took (weaken _ derives)

end Reading

namespace Parser

variable {α β : Type} {p : Parser α} {f : α → Parser β} {c : Cursor}
  {R : List TokenKind → α → Prop} {S : List TokenKind → β → Prop}

theorem bind_of_some {a : α} {d : Cursor} (run : p.run c = (some a, d)) :
    (p >>= f).run c = (f a).run d := by
  rw [Parser.run] at run
  simp only [Parser.run, Bind.bind, run]

theorem bind_of_none {d : Cursor} (run : p.run c = (none, d)) : (p >>= f).run c = (none, d) := by
  rw [Parser.run] at run
  simp only [Parser.run, Bind.bind, run]

/-- Every outcome from `c` is a reading by `R`. -/
def ReadsAt (p : Parser α) (R : List TokenKind → α → Prop) (c : Cursor) : Prop :=
  c.Closed → Reading R c (p.run c)

def Reads (p : Parser α) (R : List TokenKind → α → Prop) : Prop := ∀ c, p.ReadsAt R c

/-- The tokens of the first part come in at the very end: with a fault they are not known, and still
the second part may go on. -/
theorem ReadsAt.bind (first : p.ReadsAt R c)
    (next : ∀ a, (f a).Reads fun others b => ∀ used, R used a → S (used ++ others) b) :
    (p >>= f).ReadsAt S c := by
  intro closed
  have outcome := first closed
  cases run : p.run c with
  | mk result d =>
      rw [run] at outcome
      cases result with
      | none =>
          rw [bind_of_none run]
          cases outcome with
          | fault closed' reported => exact .fault closed' reported
      | some a =>
          rw [bind_of_some run]
          exact outcome.trans (next a d outcome.closed)

theorem Reads.bind (first : p.Reads R)
    (next : ∀ a, (f a).Reads fun others b => ∀ used, R used a → S (used ++ others) b) :
    (p >>= f).Reads S :=
  fun c => (first c).bind next

theorem ReadsAt.imp {Q : List TokenKind → α → Prop} (reads : p.ReadsAt R c)
    (weaken : ∀ used a, R used a → Q used a) : p.ReadsAt Q c := by
  intro closed
  have outcome := reads closed
  generalize p.run c = result at outcome ⊢
  cases outcome with
  | fault closed' reported => exact .fault closed' reported
  | took took derives => exact .took took (weaken _ _ derives)

theorem Reads.imp {Q : List TokenKind → α → Prop} (reads : p.Reads R)
    (weaken : ∀ used a, R used a → Q used a) : p.Reads Q :=
  fun c => (reads c).imp weaken

/-- As `bind`, with the outcome of the first part known. -/
theorem readsAt_after {a : α} {d : Cursor} {used : List TokenKind} (run : p.run c = (some a, d))
    (took : c.Closed → c.Took d used)
    (next : (f a).ReadsAt (fun others b => S (used ++ others) b) d) : (p >>= f).ReadsAt S c := by
  intro closed
  have first : Reading (fun ks _ => ks = used) c (some a, d) := .took (took closed) rfl
  have later : (f a).ReadsAt (fun others b => ∀ ks, ks = used → S (ks ++ others) b) d := by
    apply next.imp
    rintro others b derives _ rfl
    exact derives
  rw [bind_of_some run]
  exact first.trans (later first.closed)

theorem reads_pure {a : α} (derives : R [] a) : (pure a : Parser α).Reads R :=
  fun _c closed => .took (.refl closed) derives

theorem readsAt_here {g : Cursor → Parser β} (next : (g c).ReadsAt S c) :
    (here >>= g).ReadsAt S c := next

theorem reads_fail (cause : ParseFault) (span : Span) : (fail cause span : Parser α).Reads R :=
  fun c closed => .fault (closed.report cause span) (c.report_ne_nil cause span)

theorem reads_spanFrom (start : Span) : (spanFrom start).Reads fun used _ => used = [] :=
  fun _c closed => .took (.refl closed) rfl

/-- Taking one token. -/
theorem reading_advance {k : TokenKind} {a : α} (closed : c.Closed) (kind : c.kind = k)
    (inside : k ≠ .endOfFile) (derives : R [k] a) : Reading R c (some a, c.advance) :=
  .took (.advance closed kind inside) derives

theorem reading_report {result : Option α} {cause : ParseFault} {span : Span} (closed : c.Closed) :
    Reading R c (result, c.report cause span) :=
  .fault (closed.report cause span) (c.report_ne_nil cause span)

theorem reads_warn (cause : ParseFault) (span : Span) : (warn cause span).Reads fun _ _ => False :=
  fun _c closed => reading_report closed

theorem readsAt_advance {k : TokenKind} (kind : c.kind = k) (inside : k ≠ .endOfFile) :
    advance.ReadsAt (fun used _ => used = [k]) c :=
  fun closed => reading_advance closed kind inside rfl

/-- A result that one token is enough for. -/
theorem readsAt_word {k : TokenKind} {a : α} (kind : c.kind = k) (inside : k ≠ .endOfFile)
    (derives : R [k] a) : (advance >>= fun _ => pure a : Parser α).ReadsAt R c := by
  apply (readsAt_advance kind inside).bind
  intro _
  apply reads_pure
  rintro _ rfl
  exact derives

theorem reads_eat {k : TokenKind} (inside : k ≠ .endOfFile) :
    (eat k).Reads fun used taken => used = if taken then [k] else [] := by
  intro c closed
  simp only [Parser.run, eat]
  split
  case isTrue kind => exact reading_advance closed kind inside rfl
  case isFalse => exact .took (.refl closed) rfl

theorem reads_expect {k : TokenKind} (inside : k ≠ .endOfFile) :
    (expect k).Reads fun used _ => used = [k] := by
  intro c closed
  simp only [Parser.run, expect]
  split
  case isTrue kind => exact reading_advance closed kind inside rfl
  case isFalse => exact reading_report closed

theorem reads_identifier : identifier.Reads fun used i => used = [.ident i.name] := by
  intro c closed
  simp only [Parser.run, identifier]
  split
  case h_1 name kind => exact reading_advance closed kind (by simp) rfl
  case h_2 => exact reading_report closed

theorem reads_string : string.Reads fun used s => used = [.text s] := by
  intro c closed
  simp only [Parser.run, string]
  split
  case h_1 s kind => exact reading_advance closed kind (by simp) rfl
  case h_2 => exact reading_report closed

theorem reads_index (what : String) : (index what).Reads fun used i =>
    ∃ n : Int64, used = [.int n] ∧ 0 ≤ n.toInt ∧ i = n.toInt.toNat := by
  intro c closed
  simp only [Parser.run, index]
  split
  case h_1 n kind =>
      split
      case isTrue least =>
          exact reading_advance closed kind (by simp) ⟨n, rfl, least, rfl⟩
      case isFalse => exact reading_report closed
  case h_2 => exact reading_report closed

/-- A list with commas. What an item reads is told of `view` of its result. -/
theorem reads_commaList {view : α → β} {closing : TokenKind}
    (item : p.Reads fun ks a => S ks (view a)) (budget : Nat) :
    (commaList closing p budget).Reads fun ks as => Grammar.CommaList S ks (as.map view) := by
  induction budget with
  | zero => exact reads_pure .nil
  | succ budget ih =>
      intro c
      apply readsAt_here
      split
      · exact reads_pure .nil c
      · apply (item c).bind
        intro first
        apply (reads_eat (by simp)).bind
        intro more
        cases more with
        | false =>
            apply reads_pure
            rintro _ rfl used derives
            simpa using Grammar.CommaList.last derives
        | true =>
            apply ih.bind
            intro others
            apply reads_pure
            rintro ks list _ rfl used derives
            simpa using Grammar.CommaList.cons derives list

theorem reads_commaSeparated {view : α → β} {closing : TokenKind}
    (item : p.Reads fun ks a => S ks (view a)) :
    (commaSeparated closing p).Reads fun ks as => Grammar.CommaList S ks (as.map view) :=
  fun c => readsAt_here (reads_commaList item c.budget c)

end Parser

/-! ### A result without faults -/

/-- Tokens of the kinds `ks` stand from the cursor on, and nothing was reported so far. -/
structure Cursor.Ready (c : Cursor) (ks : List TokenKind) : Prop where
  stands : c.At ks
  quiet : c.reports = []

theorem Cursor.Ready.advance {c : Cursor} {k : TokenKind} {ks : List TokenKind}
    (ready : c.Ready (k :: ks)) : c.advance.Ready ks :=
  ⟨ready.stands.advance, (advance_reports c).trans ready.quiet⟩

theorem Cursor.Ready.kind_eq {c : Cursor} {ks : List TokenKind} (ready : c.Ready ks) :
    c.kind = ks.headD .endOfFile :=
  ready.stands.kind_eq

theorem Cursor.Ready.continues {c : Cursor} {k closing : TokenKind} {ks : List TokenKind}
    (ready : c.Ready (k :: ks)) (apart : k ≠ closing) : ¬ (c.kind = closing ∨ c.atEnd = true) := by
  have inside : k ≠ .endOfFile := by
    rintro rfl
    exact ready.stands.inside List.mem_cons_self
  have kind : c.kind = k := ready.kind_eq
  simp [Cursor.atEnd, kind, apart, inside]

namespace Parser

variable {α β : Type} {p : Parser α} {f : α → Parser β} {c : Cursor} {k : TokenKind}
  {middle rest : List TokenKind} {P : α → Prop} {Q : β → Prop}

/-- From `c` the parser gives a result in `P`, reports nothing and stops before `rest`. -/
def Accepts (p : Parser α) (P : α → Prop) (c : Cursor) (rest : List TokenKind) : Prop :=
  ∃ a d, p.run c = (some a, d) ∧ d.Ready rest ∧ P a

theorem Accepts.bind (first : p.Accepts P c middle)
    (next : ∀ a d, P a → d.Ready middle → (f a).Accepts Q d rest) :
    (p >>= f).Accepts Q c rest := by
  obtain ⟨a, d, run, ready, holds⟩ := first
  obtain ⟨b, e, run', ready', holds'⟩ := next a d holds ready
  exact ⟨b, e, (bind_of_some run).trans run', ready', holds'⟩

theorem Accepts.imp {P' : α → Prop} (accepts : p.Accepts P c rest) (weaken : ∀ a, P a → P' a) :
    p.Accepts P' c rest := by
  obtain ⟨a, d, run, ready, holds⟩ := accepts
  exact ⟨a, d, run, ready, weaken a holds⟩

theorem accepts_pure {a : α} (ready : c.Ready rest) (holds : P a) :
    (pure a : Parser α).Accepts P c rest :=
  ⟨a, c, rfl, ready, holds⟩

theorem accepts_here {g : Cursor → Parser β} (next : (g c).Accepts Q c rest) :
    (here >>= g).Accepts Q c rest := next

theorem accepts_spanFrom {g : Span → Parser β} {start : Span}
    (next : ∀ span, (g span).Accepts Q c rest) : (spanFrom start >>= g).Accepts Q c rest :=
  next _

theorem accepts_advance (ready : c.Ready (k :: rest)) :
    advance.Accepts (fun _ => True) c rest :=
  ⟨(), c.advance, rfl, ready.advance, trivial⟩

theorem accepts_word {a : α} (ready : c.Ready (k :: rest)) (holds : P a) :
    (advance >>= fun _ => pure a : Parser α).Accepts P c rest :=
  (accepts_advance ready).bind fun _ _ _ ready => accepts_pure ready holds

theorem accepts_eat (ready : c.Ready (k :: rest)) : (eat k).Accepts (· = true) c rest :=
  ⟨true, c.advance, if_pos ready.kind_eq, ready.advance, rfl⟩

theorem passes_eat (ready : c.Ready rest) (other : rest.headD .endOfFile ≠ k) :
    (eat k).Accepts (· = false) c rest :=
  ⟨false, c, if_neg (ready.kind_eq ▸ other), ready, rfl⟩

theorem accepts_expect (ready : c.Ready (k :: rest)) :
    (expect k).Accepts (fun _ => True) c rest :=
  ⟨(), c.advance, if_pos ready.kind_eq, ready.advance, trivial⟩

theorem accepts_identifier {name : String} (ready : c.Ready (.ident name :: rest)) :
    identifier.Accepts (fun i => i.name = name) c rest := by
  have kind : c.kind = .ident name := ready.kind_eq
  exact ⟨⟨name, c.current.span⟩, c.advance, by simp only [Parser.run, identifier, kind],
    ready.advance, rfl⟩

theorem accepts_string {s : String} (ready : c.Ready (.text s :: rest)) :
    string.Accepts (· = s) c rest := by
  have kind : c.kind = .text s := ready.kind_eq
  exact ⟨s, c.advance, by simp only [Parser.run, string, kind], ready.advance, rfl⟩

theorem accepts_index (what : String) {n : Int64} (ready : c.Ready (.int n :: rest))
    (least : 0 ≤ n.toInt) : (index what).Accepts (· = n.toInt.toNat) c rest := by
  have kind : c.kind = .int n := ready.kind_eq
  exact ⟨n.toInt.toNat, c.advance, by simp only [Parser.run, index, kind, if_pos least],
    ready.advance, rfl⟩

/-- Every list of at most `longest` tokens that `S` relates to a tree, with `closing` or a comma
behind it, is accepted by `p`. -/
def Serves (p : Parser α) (view : α → β) (S : List TokenKind → β → Prop) (closing : TokenKind)
    (longest : Nat) : Prop :=
  ∀ used b, S used b → used.length ≤ longest → ∀ behind, behind = closing ∨ behind = .mark .comma →
    ∀ c rest, c.Ready (used ++ behind :: rest) → p.Accepts (view · = b) c (behind :: rest)

theorem accepts_commaList {view : α → β} {S : List TokenKind → β → Prop} {closing : TokenKind}
    {longest : Nat} (serves : p.Serves view S closing longest) (separates : closing ≠ .mark .comma)
    (starts : ∀ used b, S used b → ∃ first others, used = first :: others ∧ first ≠ closing)
    {ks : List TokenKind} {bs : List β} (list : Grammar.CommaList S ks bs) :
    ks.length ≤ longest → ∀ budget, ks.length ≤ budget → ∀ c rest, c.Ready (ks ++ closing :: rest) →
      (commaList closing p budget).Accepts (fun as => as.map view = bs) c (closing :: rest) := by
  induction list with
  | nil =>
      intro _ budget _ c rest ready
      cases budget with
      | zero => exact accepts_pure ready rfl
      | succ budget =>
          apply accepts_here
          rw [if_pos (.inl ready.kind_eq)]
          exact accepts_pure ready rfl
  | @last ks b derives =>
      -- An item takes a token, so the budget has a round for it.
      intro short budget enough c rest ready
      obtain ⟨first, others, rfl, apart⟩ := starts ks b derives
      cases budget with
      | zero => cases enough
      | succ budget =>
          apply accepts_here
          rw [if_neg (ready.continues apart)]
          apply (serves _ b derives short closing (.inl rfl) c rest ready).bind
          intro a d holds ready
          apply (passes_eat ready (by simpa using separates)).bind
          rintro _ d' rfl ready
          exact accepts_pure ready (by simpa using holds)
  | @cons ks b others bs derives list ih =>
      intro short budget enough c rest ready
      obtain ⟨first, tail, rfl, apart⟩ := starts ks b derives
      simp only [List.length_append, List.length_cons] at short enough
      cases budget with
      | zero => cases enough
      | succ budget =>
          apply accepts_here
          rw [if_neg (ready.continues apart)]
          rw [List.append_assoc] at ready
          apply (serves _ b derives (by simp; omega) _ (.inr rfl) c _ ready).bind
          intro a d holds ready
          apply (accepts_eat ready).bind
          rintro _ d' rfl ready
          apply (ih (by omega) budget (by omega) d' rest ready).bind
          intro as e others ready
          exact accepts_pure ready (by simp [holds, others])

theorem accepts_commaSeparated {view : α → β} {S : List TokenKind → β → Prop} {closing : TokenKind}
    {ks : List TokenKind} (serves : p.Serves view S closing ks.length)
    (separates : closing ≠ .mark .comma)
    (starts : ∀ used b, S used b → ∃ first others, used = first :: others ∧ first ≠ closing)
    {bs : List β} (list : Grammar.CommaList S ks bs) (ready : c.Ready (ks ++ closing :: rest)) :
    (commaSeparated closing p).Accepts (fun as => as.map view = bs) c (closing :: rest) := by
  apply accepts_here
  apply accepts_commaList serves separates starts list (Nat.le_refl _) _ _ c rest ready
  rw [ready.stands.budget, List.length_append]
  omega

end Parser

end JumpIR
