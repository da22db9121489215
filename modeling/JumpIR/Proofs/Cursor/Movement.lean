import JumpIR.Proofs.Grammar.Reading

/-!
# How readers move

On a token list of any shape, as long as its last token ends the file, a reader goes on by some
tokens or stays. It never goes back, it never passes the end of the file, and what it has reported
stays reported. Readers are put together from parts, and so is the way that they move.
-/

set_option autoImplicit false

open JumpIR.Parser

namespace JumpIR

namespace Cursor

/-- The tokens from the cursor on. -/
def tokens (c : Cursor) : List Token := c.current :: c.rest

/-- The last token ends the file. Others may do so, too. -/
def Bounded (c : Cursor) : Prop := c.tokens.getLast?.map Token.kind = some .endOfFile

/-- From `c` on there are the tokens `taken` and then those that `d` has before it. -/
structure Passes (taken : List Token) (c d : Cursor) : Prop where
  tokens : c.tokens = taken ++ d.tokens
  previous : d.previous = (taken.getLast?.map Token.span).getD c.previous

variable {c d e : Cursor} {taken others : List Token}

theorem Passes.refl (c : Cursor) : Passes [] c c := ⟨rfl, rfl⟩

theorem Passes.trans (first : Passes taken c d) (second : Passes others d e) :
    Passes (taken ++ others) c e := by
  refine ⟨by rw [first.tokens, second.tokens, List.append_assoc], ?_⟩
  rw [second.previous, first.previous]
  cases others with
  | nil => simp
  | cons t rest => simp [List.getLast?_cons]

theorem Passes.unique (first : Passes taken c d) (second : Passes others c d) : taken = others :=
  List.append_cancel_right (first.tokens.symm.trans second.tokens)

theorem Passes.length (passes : Passes taken c d) :
    c.rest.length = taken.length + d.rest.length := by
  have lengths := congrArg List.length passes.tokens
  simp only [Cursor.tokens, List.length_append, List.length_cons] at lengths
  omega

theorem Passes.kind_eq (passes : Passes [] c d) : d.kind = c.kind :=
  congrArg Token.kind (List.cons.inj passes.tokens).1.symm

theorem Passes.report (passes : Passes taken c d) (cause : ParseFault) (span : Span) :
    Passes taken c (d.report cause span) :=
  ⟨passes.tokens, passes.previous⟩

theorem advance_report (c : Cursor) (cause : ParseFault) (span : Span) :
    (c.report cause span).advance = c.advance.report cause span := by
  obtain ⟨current, tail, previous, reports⟩ := c
  cases tail <;> rfl

theorem Bounded.of_passes (bounded : c.Bounded) (passes : Passes taken c d) : d.Bounded := by
  rw [Bounded, passes.tokens, List.getLast?_append] at bounded
  simpa [Bounded, Cursor.tokens, List.getLast?_cons] using bounded

theorem Bounded.rest_ne_nil (bounded : c.Bounded) (inside : c.kind ≠ .endOfFile) : c.rest ≠ [] := by
  intro last
  apply inside
  simpa [Bounded, Cursor.tokens, Cursor.kind, last] using bounded

theorem Bounded.advance (bounded : c.Bounded) (inside : c.kind ≠ .endOfFile) :
    Passes [c.current] c c.advance := by
  have more := bounded.rest_ne_nil inside
  obtain ⟨current, rest, previous, reports⟩ := c
  cases rest with
  | nil => exact absurd rfl more
  | cons next rest => exact ⟨rfl, rfl⟩

theorem kind_advance {k : Mark} (c : Cursor) (next : c.nextKind = .mark k) :
    c.advance.kind = .mark k := by
  obtain ⟨current, tail, previous, reports⟩ := c
  cases tail with
  | nil => cases next
  | cons t rest => exact next

end Cursor

/-- How an outcome came from `c`. Its tokens do not end the file; with a result there are `least` of
them at least. A failure has reported. If it is `strict`, no semicolon is passed, and just a failure
reports, once. -/
structure Motion {α : Type} (strict : Prop) (least : Nat) (c : Cursor)
    (outcome : Option α × Cursor) : Prop where
  passes : ∃ taken, Cursor.Passes taken c outcome.2 ∧
    (∀ t ∈ taken, t.kind ≠ .endOfFile ∧ (strict → t.kind ≠ .mark .semicolon)) ∧
    (outcome.1.isSome = true → least ≤ taken.length)
  reports : ∃ new, outcome.2.reports = c.reports ++ new ∧ (outcome.1.isSome = false → new ≠ []) ∧
    (strict → new.length = if outcome.1.isSome = true then 0 else 1)

namespace Motion

variable {α β : Type} {strict : Prop} {least : Nat} {c d : Cursor}

theorem bounded {outcome : Option α × Cursor} (motion : Motion strict least c outcome)
    (bounded : c.Bounded) : outcome.2.Bounded := by
  obtain ⟨taken, passes, -⟩ := motion.passes
  exact bounded.of_passes passes

theorem stay (result : Option α) (none : least = 0) (done : result.isSome = true) :
    Motion strict least c (result, c) := by
  refine ⟨⟨[], .refl c, ?_, fun _ => none ▸ Nat.le_refl _⟩, [], by simp, by simp [done], ?_⟩
  · intro t member
    cases member
  · intro _
    rw [done]
    rfl

theorem report (cause : ParseFault) (span : Span) :
    Motion strict least c ((none : Option α), c.report cause span) := by
  refine ⟨⟨[], (Cursor.Passes.refl c).report cause span, ?_, nofun⟩, [⟨cause, span⟩], rfl,
    fun _ => List.cons_ne_nil _ _, fun _ => rfl⟩
  intro t member
  cases member

theorem advance {a : α} (bounded : c.Bounded) (inside : c.kind ≠ .endOfFile)
    (plain : strict → c.kind ≠ .mark .semicolon) (short : least ≤ 1) :
    Motion strict least c (some a, c.advance) := by
  refine ⟨⟨[c.current], bounded.advance inside, ?_, fun _ => short⟩, [], by simp, nofun,
    fun _ => rfl⟩
  intro t member
  cases List.mem_singleton.mp member
  exact ⟨inside, plain⟩

/-- One part with a result, and then the next one. -/
theorem trans {a : α} {m n : Nat} {outcome : Option β × Cursor}
    (first : Motion strict m c (some a, d)) (second : Motion strict n d outcome)
    (short : least ≤ m + n) : Motion strict least c outcome := by
  obtain ⟨⟨taken, passes, plain, long⟩, new, grown, -, quiet⟩ := first
  obtain ⟨⟨others, passes', plain', long'⟩, new', grown', failed', quiet'⟩ := second
  refine ⟨⟨taken ++ others, passes.trans passes', ?_, ?_⟩, new ++ new', ?_, ?_, ?_⟩
  · intro t member
    rcases List.mem_append.mp member with left | right
    · exact plain t left
    · exact plain' t right
  · intro done
    have first := long rfl
    have second := long' done
    rw [List.length_append]
    omega
  · rw [grown', grown, List.append_assoc]
  · exact fun none => List.append_ne_nil_of_right_ne_nil _ (failed' none)
  · intro holds
    have first : new.length = 0 := quiet holds
    rw [List.length_append, first, Nat.zero_add]
    exact quiet' holds

theorem fault (first : Motion strict least c ((none : Option α), d)) {more : Nat} :
    Motion strict more c ((none : Option β), d) :=
  ⟨by obtain ⟨taken, passes, plain, -⟩ := first.passes
      exact ⟨taken, passes, plain, nofun⟩, first.reports⟩

end Motion

/-- Going on behind a fault. -/
theorem Motion.resume {α β : Type} {least : Nat} {c d : Cursor} {outcome : Option β × Cursor}
    (first : Motion False least c ((none : Option α), d)) (second : Motion False 0 d outcome) :
    Motion False 0 c outcome := by
  obtain ⟨⟨taken, passes, plain, -⟩, new, grown, -⟩ := first
  obtain ⟨⟨others, passes', plain', -⟩, new', grown', failed', -⟩ := second
  refine ⟨⟨taken ++ others, passes.trans passes', ?_, fun _ => Nat.zero_le _⟩, new ++ new', ?_,
    fun none => List.append_ne_nil_of_right_ne_nil _ (failed' none), nofun⟩
  · intro t member
    rcases List.mem_append.mp member with left | right
    · exact plain t left
    · exact plain' t right
  · rw [grown', grown, List.append_assoc]

namespace Parser

variable {α β : Type} {p : Parser α} {f : α → Parser β} {c : Cursor} {strict : Prop}
  {least : Nat}

def MovesAt (p : Parser α) (strict : Prop) (least : Nat) (c : Cursor) : Prop :=
  c.Bounded → Motion strict least c (p.run c)

def Moves (p : Parser α) (strict : Prop) (least : Nat) : Prop := ∀ c, p.MovesAt strict least c

theorem MovesAt.and_then {m n : Nat} (first : p.MovesAt strict m c)
    (next : ∀ a, (f a).Moves strict n) (short : least ≤ m + n) :
    (p >>= f).MovesAt strict least c := by
  intro bounded
  have motion := first bounded
  cases run : p.run c with
  | mk result d =>
      rw [run] at motion
      cases result with
      | none =>
          rw [bind_of_none run]
          exact motion.fault
      | some a =>
          rw [bind_of_some run]
          exact motion.trans (next a d (motion.bounded bounded)) short

/-- The first part takes what is needed. -/
theorem MovesAt.bind {more : Nat} (first : p.MovesAt strict least c)
    (next : ∀ a, (f a).Moves strict more) : (p >>= f).MovesAt strict least c :=
  first.and_then next (Nat.le_add_right _ _)

/-- As `bind`, with the outcome of the first part known. -/
theorem movesAt_after {a : α} {d : Cursor} {more : Nat} (run : p.run c = (some a, d))
    (first : p.MovesAt strict least c) (next : (f a).MovesAt strict more d) :
    (p >>= f).MovesAt strict least c := by
  intro bounded
  have motion := first bounded
  rw [run] at motion
  rw [bind_of_some run]
  exact motion.trans (next (motion.bounded bounded)) (Nat.le_add_right _ _)

theorem Moves.bind {more : Nat} (first : p.Moves strict least)
    (next : ∀ a, (f a).Moves strict more) : (p >>= f).Moves strict least :=
  fun c => (first c).bind next

theorem MovesAt.weaken {strict' : Prop} {least' : Nat} (moves : p.MovesAt strict least c)
    (looser : strict' → strict) (shorter : least' ≤ least) : p.MovesAt strict' least' c := by
  intro bounded
  obtain ⟨⟨taken, passes, plain, long⟩, new, grown, failed, quiet⟩ := moves bounded
  refine ⟨⟨taken, passes, ?_, fun done => Nat.le_trans shorter (long done)⟩, new, grown, failed,
    fun holds => quiet (looser holds)⟩
  intro t member
  exact ⟨(plain t member).1, fun holds => (plain t member).2 (looser holds)⟩

theorem Moves.weaken {strict' : Prop} {least' : Nat} (moves : p.Moves strict least)
    (looser : strict' → strict) (shorter : least' ≤ least) : p.Moves strict' least' :=
  fun c => (moves c).weaken looser shorter

theorem MovesAt.zero (moves : p.MovesAt strict least c) : p.MovesAt strict 0 c :=
  moves.weaken id (Nat.zero_le _)

theorem Moves.zero (moves : p.Moves strict least) : p.Moves strict 0 := fun c => (moves c).zero

theorem MovesAt.shrinks {result : Option α} {d : Cursor} (moves : p.MovesAt strict least c)
    (bounded : c.Bounded) (run : p.run c = (result, d)) :
    d.Bounded ∧ d.rest.length ≤ c.rest.length := by
  obtain ⟨taken, passes, -⟩ := (moves bounded).passes
  rw [run] at passes
  have length : c.rest.length = taken.length + d.rest.length := passes.length
  exact ⟨bounded.of_passes passes, by omega⟩

theorem moves_pure (a : α) : (pure a : Parser α).Moves strict 0 :=
  fun _c _bounded => .stay (some a) rfl rfl

theorem run_here {g : Cursor → Parser β} : (here >>= g).run c = (g c).run c := rfl

theorem movesAt_here {g : Cursor → Parser β} (next : (g c).MovesAt strict least c) :
    (here >>= g).MovesAt strict least c := next

theorem moves_spanFrom (start : Span) : (spanFrom start).Moves strict 0 :=
  fun _c _bounded => .stay (some _) rfl rfl

theorem moves_fail (cause : ParseFault) (span : Span) :
    (fail cause span : Parser α).Moves strict least :=
  fun _c _bounded => .report cause span

theorem movesAt_advance {k : TokenKind} (kind : c.kind = k) (inside : k ≠ .endOfFile)
    (plain : k ≠ .mark .semicolon) : advance.MovesAt strict 1 c := by
  subst kind
  exact fun bounded => .advance bounded inside (fun _ => plain) (Nat.le_refl 1)

/-- A result that one token is enough for. -/
theorem movesAt_word {k : TokenKind} {a : α} (kind : c.kind = k) (inside : k ≠ .endOfFile)
    (plain : k ≠ .mark .semicolon) :
    (advance >>= fun _ => pure a : Parser α).MovesAt strict 1 c :=
  (movesAt_advance kind inside plain).bind fun _ => moves_pure a

theorem moves_eat {k : TokenKind} (inside : k ≠ .endOfFile) (plain : k ≠ .mark .semicolon) :
    (eat k).Moves strict 0 := by
  intro c bounded
  simp only [Parser.run, eat]
  split
  case isTrue kind =>
      exact .advance bounded (kind ▸ inside) (fun _ => kind ▸ plain) (Nat.zero_le 1)
  case isFalse => exact .stay (some false) rfl rfl

theorem movesAt_eaten {k : TokenKind} (kind : c.kind = k) (inside : k ≠ .endOfFile)
    (plain : k ≠ .mark .semicolon) : (eat k).MovesAt strict 1 c := by
  intro bounded
  have run : (eat k).run c = (some true, c.advance) := if_pos kind
  rw [run]
  exact .advance bounded (kind ▸ inside) (fun _ => kind ▸ plain) (Nat.le_refl 1)

theorem moves_ifEaten {k : TokenKind} {g : Bool → Parser β} (inside : k ≠ .endOfFile)
    (plain : k ≠ .mark .semicolon) (eaten : (g true).Moves strict 0)
    (other : (g false).Moves strict 1) : (eat k >>= g).Moves strict 1 := by
  intro c
  by_cases kind : c.kind = k
  · have run : (eat k).run c = (some true, c.advance) := if_pos kind
    exact movesAt_after run (movesAt_eaten kind inside plain) (eaten _)
  · have run : (eat k).run c = (some false, c) := if_neg kind
    intro bounded
    rw [bind_of_some run]
    exact other c bounded

theorem moves_expect {k : TokenKind} (inside : k ≠ .endOfFile)
    (plain : strict → k ≠ .mark .semicolon) : (expect k).Moves strict 1 := by
  intro c bounded
  simp only [Parser.run, expect]
  split
  case isTrue kind =>
      exact .advance bounded (kind ▸ inside) (fun holds => kind ▸ plain holds) (Nat.le_refl 1)
  case isFalse => exact .report _ _

theorem moves_identifier : identifier.Moves strict 1 := by
  intro c bounded
  simp only [Parser.run, identifier]
  split
  case h_1 name kind =>
      exact .advance bounded (by simp [kind]) (fun _ => by simp [kind]) (Nat.le_refl 1)
  case h_2 => exact .report _ _

theorem moves_string : string.Moves strict 1 := by
  intro c bounded
  simp only [Parser.run, string]
  split
  case h_1 s kind =>
      exact .advance bounded (by simp [kind]) (fun _ => by simp [kind]) (Nat.le_refl 1)
  case h_2 => exact .report _ _

theorem moves_index (what : String) : (index what).Moves strict 1 := by
  intro c bounded
  simp only [Parser.run, index]
  split
  case h_1 n kind =>
      split
      case isTrue =>
          exact .advance bounded (by simp [kind]) (fun _ => by simp [kind]) (Nat.le_refl 1)
      case isFalse => exact .report _ _
  case h_2 => exact .report _ _

theorem moves_commaList {closing : TokenKind} (item : p.Moves strict 0) (budget : Nat) :
    (commaList closing p budget).Moves strict 0 := by
  induction budget with
  | zero => exact moves_pure []
  | succ budget ih =>
      intro c
      apply movesAt_here
      split
      · exact moves_pure [] c
      · apply (item c).bind
        intro first
        apply (moves_eat (by simp) (by simp)).bind
        intro more
        cases more with
        | true => exact ih.bind fun others => moves_pure _
        | false => exact moves_pure _

theorem moves_commaSeparated {closing : TokenKind} (item : p.Moves strict 0) :
    (commaSeparated closing p).Moves strict 0 :=
  fun c => movesAt_here (moves_commaList item c.budget c)

/-- The reader takes the current token in any case, and then goes on with `rest`. -/
def Departs (p : Parser α) (c : Cursor) : Prop :=
  ∃ rest : Parser α, rest.Moves False 0 ∧ p.run c = rest.run c.advance

theorem departs_here {g : Cursor → Parser β} (next : (g c).Departs c) : (here >>= g).Departs c :=
  next

theorem departs_advance {g : Unit → Parser β} {least : Nat} (next : (g ()).Moves False least) :
    (advance >>= g).Departs c :=
  ⟨g (), next.zero, rfl⟩

theorem Departs.motion (departs : p.Departs c) (bounded : c.Bounded)
    (inside : c.kind ≠ .endOfFile) : Motion False 1 c (p.run c) ∧
      ∃ taken, Cursor.Passes taken c (p.run c).2 ∧ taken ≠ [] := by
  obtain ⟨rest, moves, run⟩ := departs
  have first : Motion False 1 c (some (), c.advance) :=
    .advance bounded inside nofun (Nat.le_refl 1)
  have later := moves c.advance (first.bounded bounded)
  rw [run]
  refine ⟨first.trans later (Nat.le_refl 1), ?_⟩
  obtain ⟨taken, passes, -⟩ := later.passes
  exact ⟨_, (bounded.advance inside).trans passes, List.cons_ne_nil _ _⟩

end Parser

end JumpIR
