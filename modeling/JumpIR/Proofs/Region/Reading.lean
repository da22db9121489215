import JumpIR.Proofs.Cursor.Readers
import JumpIR.Proofs.Region.Grammar

/-!
# Readers and the tokens of their results

`Locates` tells of a reader that every result of it stands in a relation to the tokens that it took
for it. A region is made from the start of the first of these tokens and the region of the token
that was taken last, so each step is judged together with all that was taken before it.
-/

set_option autoImplicit false

open JumpIR.Parser

namespace JumpIR

namespace Cursor

/-- The tokens `used` were taken last. They and those that follow, up to the last token of the list,
are in reading order. -/
structure After (used : List Token) (c : Cursor) : Prop where
  bounded : c.Bounded
  ordered : InOrder (used ++ c.tokens.dropLast)
  previous : ∀ t, used.getLast? = some t → c.previous = t.span

variable {used more : List Token} {c d : Cursor}

theorem Passes.dropLast (passes : Passes more c d) :
    c.tokens.dropLast = more ++ d.tokens.dropLast := by
  have some : d.tokens ≠ [] := List.cons_ne_nil _ _
  rw [passes.tokens, List.dropLast_append_of_ne_nil some]

theorem Passes.current_eq (passes : Passes [] c d) : d.current = c.current :=
  (List.cons.inj passes.tokens).1.symm

theorem Passes.kind_eq_next {t : Token} (passes : Passes [t] c d) : d.kind = c.nextKind := by
  have rest : c.rest = d.current :: d.rest := (List.cons.inj passes.tokens).2
  rw [nextKind, rest]
  rfl

/-- The tokens passed begin with the one that the cursor is on. -/
theorem Passes.front (passes : Passes more c d) (some : more ≠ []) : [c.current] <+: more := by
  obtain ⟨t, rest, rfl⟩ := List.exists_cons_of_ne_nil some
  exact ⟨rest, congrArg (· :: rest) (List.cons.inj passes.tokens).1⟩

theorem After.passes (after : c.After used) (passes : Passes more c d) :
    d.After (used ++ more) := by
  refine ⟨after.bounded.of_passes passes, ?_, fun t isLast => ?_⟩
  · rw [List.append_assoc, ← passes.dropLast]
    exact after.ordered
  · rw [passes.previous]
    cases last : more.getLast? with
    | none =>
        rw [List.getLast?_eq_none_iff.mp last, List.append_nil] at isLast
        exact after.previous t isLast
    | some u =>
        rw [List.getLast?_append, last] at isLast
        cases isLast
        rfl

theorem After.fresh (after : c.After used) : c.After [] :=
  ⟨after.bounded, after.ordered.right, nofun⟩

end Cursor

namespace Parser

variable {α β : Type} {p : Parser α} {f : α → Parser β} {used : List Token} {c : Cursor}
  {R S : List Token → α → Prop} {T : List Token → β → Prop}

/-- Where `used` was taken last, every result stands in the relation to the tokens taken for it. -/
def LocatesAt (p : Parser α) (used : List Token) (S : List Token → α → Prop) (c : Cursor) : Prop :=
  c.After used → ∀ a d, p.run c = (some a, d) → ∃ more, Cursor.Passes more c d ∧ S more a

def Locates (p : Parser α) (S : List Token → α → Prop) : Prop := ∀ c, p.LocatesAt [] S c

/-- What was taken before matters only for regions that begin there. -/
theorem Locates.at (locates : p.Locates S) : p.LocatesAt used S c :=
  fun after => locates c after.fresh

theorem LocatesAt.imp (locates : p.LocatesAt used R c) (weaken : ∀ more a, R more a → S more a) :
    p.LocatesAt used S c := by
  intro after a d run
  obtain ⟨more, passes, holds⟩ := locates after a d run
  exact ⟨more, passes, weaken more a holds⟩

theorem LocatesAt.bind (first : p.LocatesAt used R c)
    (next : ∀ a more d, Cursor.Passes more c d → R more a →
      (f a).LocatesAt (used ++ more) (fun others b => T (more ++ others) b) d) :
    (p >>= f).LocatesAt used T c := by
  intro after b e run
  cases ran : p.run c with
  | mk result d =>
      cases result with
      | none =>
          rw [bind_of_none ran] at run
          cases run
      | some a =>
          rw [bind_of_some ran] at run
          obtain ⟨more, passes, holds⟩ := first after a d ran
          obtain ⟨others, passes', holds'⟩ :=
            next a more d passes holds (after.passes passes) b e run
          exact ⟨more ++ others, passes.trans passes', holds'⟩

theorem locatesAt_pure {a : α} (holds : S [] a) : (pure a : Parser α).LocatesAt used S c := by
  intro _after b d run
  cases run
  exact ⟨[], .refl c, holds⟩

theorem locatesAt_here {g : Cursor → Parser β} (next : (g c).LocatesAt used T c) :
    (here >>= g).LocatesAt used T c := next

theorem locatesAt_fail (cause : ParseFault) (span : Span) :
    (fail cause span : Parser α).LocatesAt used S c := by
  intro _after a d run
  cases run

/-- The region from the start of a front of what was taken is the region of all that was taken. -/
theorem locatesAt_spanFrom {front : List Token} {start : Span} {g : Span → Parser β}
    (some : front ≠ []) (starts : start = region front) (isFront : front <+: used)
    (next : (g (region used)).LocatesAt used T c) : (spanFrom start >>= g).LocatesAt used T c := by
  intro after
  cases last : used.getLast? with
  | none =>
      rw [List.getLast?_eq_none_iff.mp last] at isFront
      exact absurd (List.prefix_nil.mp isFront) some
  | some t =>
      have whole : start.cover c.previous = region used := by
        rw [starts, after.previous t last]
        exact after.ordered.left.cover isFront some last
      have run : (spanFrom start).run c = (.some (region used), c) :=
        congrArg (fun span => (Option.some span, c)) whole
      rw [bind_of_some run]
      exact next after

/-! ### Single tokens -/

/-- Taking the token that the cursor is on. -/
theorem passes_of_step {a b : α} {d : Cursor} (after : c.After used) (inside : c.kind ≠ .endOfFile)
    (ran : ((some a, c.advance) : Option α × Cursor) = (some b, d)) :
    b = a ∧ Cursor.Passes [c.current] c d := by
  cases ran
  exact ⟨rfl, after.bounded.advance inside⟩

theorem locatesAt_advance {k : TokenKind} (kind : c.kind = k) (inside : k ≠ .endOfFile) :
    advance.LocatesAt used (fun more _ => more = [c.current]) c := by
  intro after a d run
  obtain ⟨-, passes⟩ := passes_of_step after (kind ▸ inside) run
  exact ⟨_, passes, rfl⟩

theorem locatesAt_word {k : TokenKind} {a : α} (kind : c.kind = k) (inside : k ≠ .endOfFile)
    (holds : S [c.current] a) :
    (advance >>= fun _ => pure a : Parser α).LocatesAt used S c := by
  apply (locatesAt_advance kind inside).bind
  rintro _ _ d _passes rfl
  exact locatesAt_pure holds

theorem locatesAt_expect {k : TokenKind} (inside : k ≠ .endOfFile) :
    (expect k).LocatesAt used (fun more _ => more = [c.current] ∧ c.current.kind = k) c := by
  intro after a d run
  simp only [Parser.run, expect] at run
  split at run
  case isTrue kind =>
      obtain ⟨-, passes⟩ := passes_of_step after (kind ▸ inside) run
      exact ⟨_, passes, rfl, kind⟩
  case isFalse => cases run

theorem locatesAt_eat {k : TokenKind} (inside : k ≠ .endOfFile) :
    (eat k).LocatesAt used
      (fun more eaten => (eaten = true ∧ more = [c.current] ∧ c.current.kind = k) ∨
        (eaten = false ∧ more = [])) c := by
  intro after a d run
  simp only [Parser.run, eat] at run
  split at run
  case isTrue kind =>
      obtain ⟨rfl, passes⟩ := passes_of_step after (kind ▸ inside) run
      exact ⟨_, passes, .inl ⟨rfl, rfl, kind⟩⟩
  case isFalse =>
      cases run
      exact ⟨[], .refl c, .inr ⟨rfl, rfl⟩⟩

theorem locatesAt_identifier :
    identifier.LocatesAt used (fun more i => more = [c.current] ∧ Grammar.IdentOn more i) c := by
  intro after i d run
  simp only [Parser.run, identifier] at run
  split at run
  case h_1 name kind =>
      obtain ⟨rfl, passes⟩ := passes_of_step after (by simp [kind]) run
      exact ⟨_, passes, rfl, .intro kind⟩
  case h_2 => cases run

theorem locates_identifier : identifier.Locates Grammar.IdentOn :=
  fun _c => locatesAt_identifier.imp fun _ _ located => located.2

theorem locatesAt_string :
    string.LocatesAt used (fun more s => more = [c.current] ∧ c.current.kind = .text s) c := by
  intro after s d run
  simp only [Parser.run, string] at run
  split at run
  case h_1 found kind =>
      obtain ⟨rfl, passes⟩ := passes_of_step after (by simp [kind]) run
      exact ⟨_, passes, rfl, kind⟩
  case h_2 => cases run

theorem locatesAt_index (what : String) :
    (index what).LocatesAt used (fun more i => more = [c.current] ∧
      ∃ n : Int64, c.current.kind = .int n ∧ 0 ≤ n.toInt ∧ i = n.toInt.toNat) c := by
  intro after i d run
  simp only [Parser.run, index] at run
  split at run
  case h_1 n kind =>
      split at run
      case isTrue least =>
          obtain ⟨rfl, passes⟩ := passes_of_step after (by simp [kind]) run
          exact ⟨_, passes, rfl, n, kind, least, rfl⟩
      case isFalse => cases run
  case h_2 => cases run

/-! ### Lists -/

theorem locates_commaList {closing : TokenKind} (item : p.Locates S) (budget : Nat) :
    (commaList closing p budget).Locates (Grammar.Separated S) := by
  induction budget with
  | zero => exact fun c => locatesAt_pure .nil
  | succ budget ih =>
      intro c
      apply locatesAt_here
      split
      · exact locatesAt_pure .nil
      · apply item.at.bind
        intro first ts d _passes only
        apply (locatesAt_eat (by simp)).bind
        rintro _ _ e _passes (⟨rfl, rfl, comma⟩ | ⟨rfl, rfl⟩)
        · apply ih.at.bind
          intro others us f _passes rest
          apply locatesAt_pure
          rw [List.append_nil]
          exact .cons only comma rest
        · apply locatesAt_pure
          rw [List.append_nil, List.append_nil]
          exact .last only

theorem locates_commaSeparated {closing : TokenKind} (item : p.Locates S) :
    (commaSeparated closing p).Locates (Grammar.Separated S) :=
  fun c => locatesAt_here (locates_commaList item c.budget c)

end Parser

end JumpIR
