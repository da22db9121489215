import JumpIR.Proofs.Cursor.Rounds

/-!
# Readers see no further than they read

A result depends on the tokens that its reader passes, and on the kind of the one behind them at
most. So the same tokens give the same result in another list, with all its regions.
-/

set_option autoImplicit false

open JumpIR.Parser

namespace JumpIR

/-- The kinds agree, as far as those that matter are concerned. -/
def TokenKind.Agrees (heeded : TokenKind → Prop) (k l : TokenKind) : Prop :=
  ∀ m, heeded m → (k = m ↔ l = m)

def allKinds : TokenKind → Prop := fun _ => True

theorem TokenKind.Agrees.eq {k l : TokenKind} (agrees : TokenKind.Agrees allKinds k l) : l = k :=
  (agrees k trivial).mp rfl

theorem TokenKind.Agrees.refl (heeded : TokenKind → Prop) (k : TokenKind) :
    TokenKind.Agrees heeded k k :=
  fun _ _ => Iff.rfl

namespace Cursor

/-- From `c` to `d` the tokens are passed, and nothing is reported. -/
structure Takes (taken : List Token) (c d : Cursor) : Prop where
  passes : Passes taken c d
  quiet : d.reports = c.reports
  bounded : c.Bounded
  goes : c.isSaturated = false

/-- The same tokens are taken from `c` to `d` and from `c'` to `d'`. -/
structure Alike (taken : List Token) (c d c' d' : Cursor) : Prop where
  left : Takes taken c d
  right : Takes taken c' d'
  previous : c'.previous = c.previous

variable {c d c' d' m : Cursor} {taken others : List Token}

/-- Where the passed tokens end, there is one cursor that has not reported. -/
theorem Passes.eq_of_reports {e : Cursor} (passes : Passes taken c d) (passes' : Passes taken c e)
    (same : d.reports = e.reports) : d = e := by
  have tokens : d.tokens = e.tokens :=
    List.append_cancel_left (passes.tokens.symm.trans passes'.tokens)
  obtain ⟨current, rest⟩ := List.cons.inj tokens
  have previous := passes.previous.trans passes'.previous.symm
  obtain ⟨_, _, _, _⟩ := d
  obtain ⟨_, _, _, _⟩ := e
  simp_all

/-- Wherever tokens end, there is a cursor behind them. -/
theorem exists_passes (tokens : c.tokens = taken ++ others) (some : others ≠ []) :
    ∃ d, Passes taken c d ∧ d.tokens = others ∧ d.reports = c.reports := by
  cases others with
  | nil => exact absurd rfl some
  | cons t rest =>
      exact ⟨⟨t, rest, (taken.getLast?.map Token.span).getD c.previous, c.reports⟩, ⟨tokens, rfl⟩,
        rfl, rfl⟩

theorem tokens_ne_nil (c : Cursor) : c.tokens ≠ [] := List.cons_ne_nil _ _

/-- The first tokens of some that are passed lead to a cursor between. -/
theorem Passes.split (passes : Passes (taken ++ others) c d) :
    ∃ m, Passes taken c m ∧ Passes others m d ∧ m.reports = c.reports := by
  have tokens := passes.tokens
  rw [List.append_assoc] at tokens
  obtain ⟨m, first, behind, quiet⟩ := exists_passes tokens (by simp [tokens_ne_nil])
  refine ⟨m, first, ⟨behind, ?_⟩, quiet⟩
  rw [passes.previous, first.previous]
  cases others with
  | nil => simp
  | cons u more => simp [List.getLast?_cons]

theorem Takes.bounded' (takes : Takes taken c d) : d.Bounded := takes.bounded.of_passes takes.passes

theorem Takes.goes' (takes : Takes taken c d) : d.isSaturated = false := by
  rw [isSaturated, takes.quiet]
  exact takes.goes

theorem Takes.split (takes : Takes (taken ++ others) c d) :
    ∃ m, Takes taken c m ∧ Takes others m d := by
  obtain ⟨m, first, second, quiet⟩ := takes.passes.split
  have left : Takes taken c m := ⟨first, quiet, takes.bounded, takes.goes⟩
  exact ⟨m, left, second, takes.quiet.trans quiet.symm, left.bounded', left.goes'⟩

theorem Takes.eq_of_nil (takes : Takes [] c d) : c = d :=
  (Passes.refl c).eq_of_reports takes.passes takes.quiet.symm

/-- Where the first part ends, the second part starts alike. -/
theorem Alike.split (alike : Alike (taken ++ others) c d c' d') (first : Passes taken c m)
    (second : Passes others m d) (grown : c.reports <+: m.reports)
    (grown' : m.reports <+: d.reports) :
    ∃ m', Alike taken c m c' m' ∧ Alike others m d m' d' ∧
      ∀ heeded, TokenKind.Agrees heeded d.kind d'.kind →
        TokenKind.Agrees heeded m.kind m'.kind := by
  have quiet : m.reports = c.reports := by
    have shorter := grown'.length_le
    rw [alike.left.quiet] at shorter
    exact (grown.eq_of_length_le shorter).symm
  have left : Takes taken c m := ⟨first, quiet, alike.left.bounded, alike.left.goes⟩
  obtain ⟨m', left', right'⟩ := alike.right.split
  refine ⟨m', ⟨left, left', alike.previous⟩, ⟨⟨second, alike.left.quiet.trans quiet.symm,
    left.bounded', left.goes'⟩, right', ?_⟩, ?_⟩
  · rw [first.previous, left'.passes.previous, alike.previous]
  · intro heeded agrees
    cases others with
    | nil => rwa [← second.kind_eq, ← right'.passes.kind_eq]
    | cons t rest =>
        have here := (List.cons.inj second.tokens).1
        have here' := (List.cons.inj right'.passes.tokens).1
        rw [kind, kind, here, here']
        exact .refl heeded _

theorem Alike.current_eq (alike : Alike taken c d c' d') (some : taken ≠ []) :
    c'.current = c.current := by
  cases taken with
  | nil => exact absurd rfl some
  | cons t rest =>
      have here := (List.cons.inj alike.left.passes.tokens).1
      have here' := (List.cons.inj alike.right.passes.tokens).1
      exact here'.trans here.symm

end Cursor

namespace Parser

variable {α β σ : Type} {heeded : TokenKind → Prop} {p p' : Parser α} {c c' : Cursor}

/-- A result of `p` at `c` is one of `p'` at `c'`, too, if the tokens passed are the same and those
behind them agree on what is heeded. -/
structure Follows (heeded : TokenKind → Prop) (p : Parser α) (c : Cursor) (p' : Parser α)
    (c' : Cursor) : Prop where
  moves : p.MovesAt False 0 c
  same : ∀ a d d' taken, p.run c = (some a, d) → Cursor.Alike taken c d c' d' →
    TokenKind.Agrees heeded d.kind d'.kind → p'.run c' = (some a, d')

/-- The reader follows itself from one place to the other. -/
def LocalAt (heeded : TokenKind → Prop) (p : Parser α) (c c' : Cursor) : Prop :=
  p.Follows heeded c p c'

def Local (heeded : TokenKind → Prop) (p : Parser α) : Prop := ∀ c c', p.LocalAt heeded c c'

theorem grown_of_moves {least : Nat} {result : Option α} {d : Cursor}
    (moves : p.MovesAt False least c) (bounded : c.Bounded) (run : p.run c = (result, d)) :
    ∃ taken, Cursor.Passes taken c d ∧ c.reports <+: d.reports := by
  have motion := moves bounded
  rw [run] at motion
  obtain ⟨taken, passes, -⟩ := motion.passes
  obtain ⟨new, grown, -⟩ := motion.reports
  exact ⟨taken, passes, new, grown.symm⟩

theorem Follows.mono {less : TokenKind → Prop} (follows : p.Follows less c p' c')
    (heeds : ∀ k, less k → heeded k) : p.Follows heeded c p' c' :=
  ⟨follows.moves, fun a d d' taken run alike agrees =>
    follows.same a d d' taken run alike fun k heed => agrees k (heeds k heed)⟩

theorem Local.mono {less : TokenKind → Prop} (follows : p.Local less)
    (heeds : ∀ k, less k → heeded k) : p.Local heeded :=
  fun c c' => (follows c c').mono heeds

section Bind

variable {f : α → Parser β}

theorem Follows.bind (first : p.Follows heeded c p' c') (next : ∀ a, (f a).Local heeded) :
    (p >>= f).Follows heeded c (p' >>= f) c' := by
  refine ⟨first.moves.bind fun a d => (next a d d).moves, ?_⟩
  intro b e e' taken run alike agrees
  cases ran : p.run c with
  | mk result m =>
      cases result with
      | none =>
          rw [bind_of_none ran] at run
          cases run
      | some a =>
          rw [bind_of_some ran] at run
          obtain ⟨front, passes, grown⟩ := grown_of_moves first.moves alike.left.bounded ran
          obtain ⟨behind, passes', grown'⟩ :=
            grown_of_moves (next a m m).moves (alike.left.bounded.of_passes passes) run
          cases alike.left.passes.unique (passes.trans passes')
          obtain ⟨m', left, right, between⟩ := alike.split passes passes' grown grown'
          rw [bind_of_some (first.same a m m' front ran left (between heeded agrees))]
          exact (next a m m').same b e e' behind run right agrees

/-- What comes next takes a token, and so the first part needs no other one behind. -/
theorem Follows.seal (first : p.Follows allKinds c p' c') (next : ∀ a, (f a).Local heeded)
    (takes : ∀ a, (f a).Moves False 1) : (p >>= f).Follows heeded c (p' >>= f) c' := by
  refine ⟨first.moves.bind fun a d => (next a d d).moves, ?_⟩
  intro b e e' taken run alike agrees
  cases ran : p.run c with
  | mk result m =>
      cases result with
      | none =>
          rw [bind_of_none ran] at run
          cases run
      | some a =>
          rw [bind_of_some ran] at run
          obtain ⟨front, passes, grown⟩ := grown_of_moves first.moves alike.left.bounded ran
          obtain ⟨⟨behind, passes', -, long⟩, new, grown', -⟩ :=
            takes a m (alike.left.bounded.of_passes passes)
          rw [run] at passes' long grown'
          cases alike.left.passes.unique (passes.trans passes')
          obtain ⟨m', left, right, -⟩ := alike.split passes passes' grown ⟨new, grown'.symm⟩
          have current := right.current_eq (List.ne_nil_of_length_pos (long rfl))
          have kind : m'.kind = m.kind := congrArg Token.kind current
          rw [bind_of_some (first.same a m m' front ran left (kind ▸ .refl _ _))]
          exact (next a m m').same b e e' behind run right agrees

theorem LocalAt.bind (first : p.LocalAt heeded c c') (next : ∀ a, (f a).Local heeded) :
    (p >>= f).LocalAt heeded c c' :=
  Follows.bind first next

theorem Local.bind (first : p.Local heeded) (next : ∀ a, (f a).Local heeded) :
    (p >>= f).Local heeded :=
  fun c c' => (first c c').bind next

/-- The second part takes a token, and so the first part needs no other one behind. -/
theorem LocalAt.seal {γ : Type} {q : α → Parser γ} {g : α → γ → Parser β}
    (first : p.LocalAt allKinds c c') (second : ∀ a, (q a).Local heeded)
    (takes : ∀ a, (q a).Moves False 1) (next : ∀ a b, (g a b).Local heeded) :
    (p >>= fun a => q a >>= g a).LocalAt heeded c c' :=
  Follows.seal first (fun a => (second a).bind (next a))
    fun a => (takes a).bind fun b d => (next a b d d).moves

theorem Local.seal {γ : Type} {q : α → Parser γ} {g : α → γ → Parser β}
    (first : p.Local allKinds) (second : ∀ a, (q a).Local heeded)
    (takes : ∀ a, (q a).Moves False 1) (next : ∀ a b, (g a b).Local heeded) :
    (p >>= fun a => q a >>= g a).Local heeded :=
  fun c c' => (first c c').seal second takes next

end Bind

/-! ### Single steps -/

theorem localAt_here {g : Cursor → Parser β} (next : (g c).Follows heeded c (g c') c') :
    (here >>= g).LocalAt heeded c c' := ⟨next.moves, next.same⟩

/-- A reader that takes a token may ask for the current one. -/
theorem follows_of_current (takes : p.MovesAt False 1 c)
    (same : c'.current = c.current → p.Follows heeded c p' c') : p.Follows heeded c p' c' := by
  refine ⟨takes.zero, ?_⟩
  intro a d d' taken run alike agrees
  obtain ⟨⟨passed, passes, -, long⟩, -⟩ := takes alike.left.bounded
  rw [run] at passes long
  cases alike.left.passes.unique passes
  have some : taken ≠ [] := List.ne_nil_of_length_pos (long rfl)
  exact (same (alike.current_eq some)).same a d d' taken run alike agrees

theorem local_of_current (takes : p.Moves False 1)
    (same : ∀ c c', c'.current = c.current → p.LocalAt heeded c c') : p.Local heeded :=
  fun c c' => follows_of_current (takes c) (same c c')

/-- If every kind is heeded, a reader may ask for the current one. -/
theorem local_of_kind (same : ∀ c c', c'.kind = c.kind → p.LocalAt allKinds c c') :
    p.Local allKinds := by
  refine fun c c' => ⟨(same c c rfl).moves, ?_⟩
  intro a d d' taken run alike agrees
  have kind : c'.kind = c.kind := by
    cases taken with
    | nil => exact alike.right.passes.kind_eq.symm.trans (agrees.eq.trans alike.left.passes.kind_eq)
    | cons t rest => exact congrArg Token.kind (alike.current_eq (List.cons_ne_nil t rest))
  exact (same c c' kind).same a d d' taken run alike agrees

/-- A reader that takes two tokens may ask for the second one. -/
theorem follows_of_next (takes : p.MovesAt False 2 c)
    (same : c'.nextKind = c.nextKind → p.Follows heeded c p' c') : p.Follows heeded c p' c' := by
  refine ⟨takes.zero, ?_⟩
  intro a d d' taken run alike agrees
  obtain ⟨⟨passed, passes, -, long⟩, -⟩ := takes alike.left.bounded
  rw [run] at passes long
  cases alike.left.passes.unique passes
  have next : c'.nextKind = c.nextKind := by
    have two : 2 ≤ taken.length := long rfl
    match taken, two with
    | t :: u :: others, _ =>
        have rest : c.rest = u :: (others ++ d.tokens) := (List.cons.inj alike.left.passes.tokens).2
        have rest' : c'.rest = u :: (others ++ d'.tokens) :=
          (List.cons.inj alike.right.passes.tokens).2
        rw [Cursor.nextKind, Cursor.nextKind, rest, rest']
  exact (same next).same a d d' taken run alike agrees

/-- It does not matter how a reader is written. -/
theorem Follows.of_run_eq {q q' : Parser α} (left : c.Bounded → p.run c = q.run c)
    (right : c'.Bounded → p'.run c' = q'.run c') (follows : q.Follows heeded c q' c') :
    p.Follows heeded c p' c' := by
  refine ⟨?_, ?_⟩
  · intro bounded
    rw [left bounded]
    exact follows.moves bounded
  · intro a d d' taken run alike agrees
    rw [left alike.left.bounded] at run
    rw [right alike.right.bounded]
    exact follows.same a d d' taken run alike agrees

/-- Without a token there is one cursor to stop at. -/
theorem follows_of_stay {a : α} (run : p.run c = (some a, c)) (moves : p.MovesAt False 0 c)
    (same : c'.previous = c.previous → p'.run c' = (some a, c')) : p.Follows heeded c p' c' := by
  refine ⟨moves, ?_⟩
  intro b d d' taken run' alike _agrees
  cases run.symm.trans run'
  cases alike.left.passes.unique (.refl c)
  rw [same alike.previous, alike.right.eq_of_nil]

theorem local_pure (a : α) : (pure a : Parser α).Local heeded :=
  fun c _ => follows_of_stay rfl (moves_pure a c) fun _ => rfl

theorem local_spanFrom (start : Span) : (spanFrom start).Local heeded := by
  intro c c'
  have run : (spanFrom start).run c = (some (start.cover c.previous), c) := rfl
  apply follows_of_stay run (moves_spanFrom start c)
  intro previous
  rw [Parser.run, spanFrom, previous]

theorem follows_fail (cause : ParseFault) (span : Span) :
    (fail cause span : Parser α).Follows heeded c p' c' := by
  refine ⟨moves_fail cause span c, ?_⟩
  intro a d d' taken run
  cases run

theorem local_fail (cause : ParseFault) (span : Span) :
    (fail cause span : Parser α).Local heeded := fun _ _ => follows_fail cause span

theorem local_warn (cause : ParseFault) (span : Span) : (warn cause span).Local heeded := by
  refine fun c c' => ⟨Tree.moves_warn cause span c, ?_⟩
  intro a d d' taken run alike
  cases run
  exact absurd alike.left.quiet (by simp [Cursor.report])

/-- A reader that takes one token tells its result from it. -/
theorem follows_of_advance (moves : p.MovesAt False 1 c)
    (result : ∀ a d, p.run c = (some a, d) → d = c.advance ∧ c.kind ≠ .endOfFile ∧
      (c'.current = c.current → p'.run c' = (some a, c'.advance))) : p.Follows heeded c p' c' := by
  apply follows_of_current moves
  intro current
  refine ⟨moves.zero, ?_⟩
  intro a d d' taken run alike _agrees
  obtain ⟨rfl, inside, same⟩ := result a d run
  cases alike.left.passes.unique (alike.left.bounded.advance inside)
  have inside' : c'.kind ≠ .endOfFile := by
    rwa [Cursor.kind, current]
  have passes' := alike.right.bounded.advance inside'
  rw [current] at passes'
  have quiet : c'.advance.reports = d'.reports :=
    (Cursor.advance_reports c').trans alike.right.quiet.symm
  rw [same current, passes'.eq_of_reports alike.right.passes quiet]

theorem localAt_advance {k : TokenKind} (kind : c.kind = k) (inside : k ≠ .endOfFile)
    (plain : k ≠ .mark .semicolon) : advance.LocalAt heeded c c' := by
  apply follows_of_advance (movesAt_advance kind inside plain)
  intro a d run
  cases run
  exact ⟨rfl, kind ▸ inside, fun _ => rfl⟩

/-- A result that one token is enough for. -/
theorem localAt_word {k : TokenKind} {a : α} (kind : c.kind = k) (inside : k ≠ .endOfFile)
    (plain : k ≠ .mark .semicolon) :
    (advance >>= fun _ => pure a : Parser α).LocalAt heeded c c' :=
  (localAt_advance kind inside plain).bind fun _ => local_pure a

theorem local_expect {k : TokenKind} (inside : k ≠ .endOfFile) : (expect k).Local heeded := by
  intro c c'
  apply follows_of_advance (moves_expect inside nofun c)
  intro a d run
  by_cases kind : c.kind = k
  · have here : (expect k).run c = (some (), c.advance) := if_pos kind
    cases here.symm.trans run
    refine ⟨rfl, kind ▸ inside, ?_⟩
    intro current
    have kind' : c'.kind = k := (congrArg Token.kind current).trans kind
    exact if_pos kind'
  · have here : (expect k).run c = (none, _) := if_neg kind
    cases here.symm.trans run

theorem local_identifier : identifier.Local heeded := by
  intro c c'
  apply follows_of_advance (moves_identifier c)
  intro a d run
  simp only [Parser.run, identifier] at run
  split at run
  case h_1 name kind =>
      cases run
      refine ⟨rfl, by simp [kind], ?_⟩
      intro current
      have kind' : c'.kind = .ident name := (congrArg Token.kind current).trans kind
      simp only [Parser.run, identifier, kind', current]
  case h_2 => cases run

theorem local_string : string.Local heeded := by
  intro c c'
  apply follows_of_advance (moves_string c)
  intro a d run
  simp only [Parser.run, string] at run
  split at run
  case h_1 s kind =>
      cases run
      refine ⟨rfl, by simp [kind], ?_⟩
      intro current
      have kind' : c'.kind = .text a := (congrArg Token.kind current).trans kind
      simp only [Parser.run, string, kind']
  case h_2 => cases run

theorem local_index (what : String) : (index what).Local heeded := by
  intro c c'
  apply follows_of_advance (moves_index what c)
  intro a d run
  simp only [Parser.run, index] at run
  split at run
  case h_1 n kind =>
      split at run
      case isTrue least =>
          cases run
          refine ⟨rfl, by simp [kind], ?_⟩
          intro current
          have kind' : c'.kind = .int n := (congrArg Token.kind current).trans kind
          simp only [Parser.run, index, kind', if_pos least]
      case isFalse => cases run
  case h_2 => cases run

theorem localAt_eat {k : TokenKind} (inside : k ≠ .endOfFile) (plain : k ≠ .mark .semicolon)
    (heeds : heeded k ∨ c'.kind = c.kind) : (eat k).LocalAt heeded c c' := by
  by_cases kind : c.kind = k
  · have run : (eat k).run c = (some true, c.advance) := if_pos kind
    apply follows_of_advance (movesAt_eaten kind inside plain)
    intro a d run'
    cases run.symm.trans run'
    refine ⟨rfl, kind ▸ inside, ?_⟩
    intro current
    have kind' : c'.kind = k := (congrArg Token.kind current).trans kind
    exact if_pos kind'
  · have run : (eat k).run c = (some false, c) := if_neg kind
    refine ⟨moves_eat inside plain c, ?_⟩
    intro a d d' taken run' alike agrees
    cases run.symm.trans run'
    cases alike.left.passes.unique (.refl c)
    rw [← alike.right.eq_of_nil] at agrees ⊢
    apply if_neg
    intro kind'
    rcases heeds with heeds | same
    · exact kind ((agrees k heeds).mpr kind')
    · exact kind (same.symm.trans kind')

theorem local_eat {k : TokenKind} (inside : k ≠ .endOfFile) (plain : k ≠ .mark .semicolon)
    (heeds : heeded k) : (eat k).Local heeded :=
  fun _ _ => localAt_eat inside plain (.inl heeds)

/-! ### Loops -/

variable {round : σ → Parser (Ending σ α)}

theorem Loops.grown (each : ∀ s, (round s).Moves False 0) {s : σ} {outcome : Option α × Cursor}
    (loops : Loops round s c outcome) : c.Bounded →
    ∃ taken, Cursor.Passes taken c outcome.2 ∧ c.reports <+: outcome.2.reports := by
  induction loops with
  | fault run passes => exact fun bounded => grown_of_moves (each _ _) bounded run
  | leave run passes => exact fun bounded => grown_of_moves (each _ _) bounded run
  | again run passes advances later ih =>
      intro bounded
      obtain ⟨front, passes', grown⟩ := grown_of_moves (each _ _) bounded run
      obtain ⟨behind, passes'', grown'⟩ := ih (bounded.of_passes passes')
      exact ⟨_, passes'.trans passes'', grown.trans grown'⟩

theorem Loops.follows (each : ∀ s, (round s).Local allKinds) {s : σ}
    {outcome : Option α × Cursor} (loops : Loops round s c outcome) :
    ∀ {c' d'} {a : α} {taken}, outcome.1 = some a → Cursor.Alike taken c outcome.2 c' d' →
      TokenKind.Agrees allKinds outcome.2.kind d'.kind → Loops round s c' (some a, d') := by
  have moves : ∀ s, (round s).Moves False 0 := fun s c => (each s c c).moves
  induction loops with
  | fault run passes =>
      intro c' d' a taken some
      cases some
  | leave run passes =>
      intro c' d' a taken some alike agrees
      cases some
      exact .leave ((each _ _ _).same _ _ _ _ run alike agrees) alike.right.passes
  | @again s t c m front outcome run passes advances later ih =>
      intro c' d' a taken some alike agrees
      obtain ⟨_, passes', grown⟩ := grown_of_moves (moves s c) alike.left.bounded run
      obtain ⟨behind, passes'', grown'⟩ := later.grown moves (alike.left.bounded.of_passes passes)
      cases alike.left.passes.unique (passes.trans passes'')
      obtain ⟨m', left, right, between⟩ := alike.split passes passes'' grown grown'
      exact .again ((each s c c').same _ _ _ _ run left (between _ agrees)) left.right.passes
        advances (ih some right agrees)

/-- A reader that is a loop, whatever its budget is. -/
theorem follows_of_loops {s : σ} (each : ∀ s, (round s).Local allKinds)
    (moves : p.MovesAt False 0 c) (loops : c.Bounded → Loops round s c (p.run c))
    (loops' : c'.Bounded → Loops round s c' (p'.run c')) : p.Follows allKinds c p' c' := by
  refine ⟨moves, ?_⟩
  intro a d d' taken run alike agrees
  have outcome := loops alike.left.bounded
  rw [run] at outcome
  exact (loops' alike.right.bounded).unique (outcome.follows each rfl alike agrees)

theorem local_commaRound {closing : TokenKind} {item : Parser α} (follows : item.Local allKinds)
    (found : List α) : (commaRound closing item found).Local allKinds := by
  apply local_of_kind
  intro c c' kind
  apply localAt_here
  rw [Cursor.atEnd, Cursor.atEnd, kind]
  change LocalAt allKinds _ c c'
  split
  · exact local_pure _ c c'
  · apply (follows c c').bind
    intro next
    apply (local_eat (by simp) (by simp) trivial).bind
    intro more
    cases more with
    | true => exact local_pure _
    | false => exact local_pure _

theorem local_commaSeparated {closing : TokenKind} {item : Parser α}
    (follows : item.Local allKinds) (moves : item.Moves False 1) :
    (commaSeparated closing item).Local allKinds := by
  intro c c'
  exact follows_of_loops (local_commaRound follows) (moves_commaSeparated moves.zero c)
    (loops_commaSeparated moves) (loops_commaSeparated moves)

end Parser

end JumpIR
