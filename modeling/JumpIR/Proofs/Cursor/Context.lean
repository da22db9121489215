import JumpIR.Proofs.Cursor.Extent
import JumpIR.Proofs.Cursor.Progress
import JumpIR.Proofs.Grammar.Module

/-!
# The same tokens in another place

What a statement or a declaration is read as does not depend on where its tokens stand. So tokens
that stand alone in a list tell how they are read in any other one.
-/

set_option autoImplicit false

open JumpIR.Grammar JumpIR.Parser JumpIR.Tree

namespace JumpIR

/-! ### Places -/

namespace Cursor

variable {c d : Cursor} {taken others : List Token} {t : Token}

/-- The same place behind another token. -/
def behind (c : Cursor) (previous : Span) : Cursor := { c with previous := previous }

theorem Takes.behind (takes : Takes taken c d) (some : taken ≠ []) (previous : Span) :
    Takes taken (c.behind previous) d := by
  refine ⟨⟨takes.passes.tokens, ?_⟩, takes.quiet, takes.bounded, takes.goes⟩
  rw [takes.passes.previous]
  cases taken with
  | nil => exact absurd rfl some
  | cons t rest => simp [List.getLast?_cons]

theorem Passes.rest_ne_nil (passes : Passes taken c d) (some : taken ≠ []) : c.rest ≠ [] := by
  have length := passes.length
  have positive := List.length_pos_iff.mpr some
  exact List.ne_nil_of_length_pos (by omega)

/-- Passing one token is a step. -/
theorem Passes.tail (passes : Passes (t :: others) c d) (bounded : c.Bounded)
    (inside : t.kind ≠ .endOfFile) : c.current = t ∧ Passes others c.advance d := by
  have here : c.current = t := (List.cons.inj passes.tokens).1
  have parts : Passes ([t] ++ others) c d := passes
  obtain ⟨m, first, second, quiet⟩ := parts.split
  have going : c.kind ≠ .endOfFile := by rwa [Cursor.kind, here]
  have step := bounded.advance going
  rw [here] at step
  have same : c.advance = m := step.eq_of_reports first ((advance_reports c).trans quiet.symm)
  exact ⟨here, same ▸ second⟩

theorem Passes.kind_cons (passes : Passes (t :: others) c d) : c.kind = t.kind :=
  congrArg Token.kind (List.cons.inj passes.tokens).1

end Cursor

/-! ### Readers -/

namespace Parser

variable {α β : Type} {p : Parser α} {f : α → Parser β} {c c' d d' : Cursor}
  {heeded : TokenKind → Prop} {taken : List Token} {a : α}

/-- A result of the reader does not depend on the token before its place. -/
def Forgets (p : Parser α) (c : Cursor) : Prop :=
  ∀ previous a d, p.run c = (some a, d) → p.run (c.behind previous) = (some a, d)

theorem Forgets.bind (first : p.Forgets c) : (p >>= f).Forgets c := by
  intro previous b e run
  cases ran : p.run c with
  | mk result d =>
      cases result with
      | none =>
          rw [bind_of_none ran] at run
          cases run
      | some a =>
          rw [bind_of_some ran] at run
          rw [bind_of_some (first previous a d ran), run]

theorem forgets_here {g : Cursor → Parser β} (same : ∀ previous, g (c.behind previous) = g c)
    (next : (g c).Forgets c) : (here >>= g).Forgets c := by
  intro previous b d run
  rw [run_here, same]
  exact next previous b d run

theorem advance_behind (more : c.rest ≠ []) (previous : Span) :
    (c.behind previous).advance = c.advance := by
  obtain ⟨current, rest, previous, reports⟩ := c
  cases rest with
  | nil => exact absurd rfl more
  | cons t rest => rfl

theorem forgets_advance (more : c.rest ≠ []) : advance.Forgets c := by
  intro previous a d run
  cases run
  rw [Parser.run, advance, advance_behind more]

/-- A result in one place is the result in every place where the same tokens stand. -/
theorem run_elsewhere (follows : ∀ c', p.LocalAt heeded c c')
    (forgets : ∀ c : Cursor, c.rest ≠ [] → p.Forgets c) (run : p.run c = (some a, d))
    (takes : Cursor.Takes taken c d) (some : taken ≠ []) (takes' : Cursor.Takes taken c' d')
    (agrees : TokenKind.Agrees heeded d.kind d'.kind) : p.run c' = (Option.some a, d') := by
  have again := takes'.behind some c.previous
  have there := (follows _).same a d d' taken run ⟨takes, again, rfl⟩ agrees
  exact forgets _ (again.passes.rest_ne_nil some) c'.previous a d' there

/-- Wherever these tokens stand, the reader takes them and no others for its result. -/
def Yields (p : Parser α) (taken : List Token) (a : α) : Prop :=
  ∀ c d, Cursor.Takes taken c d → p.run c = (some a, d)

end Parser

namespace Tree

variable {c d : Cursor} {taken : List Token}

/-! ### Statements -/

namespace Stmt

end Stmt

/-! ### Declarations -/

namespace Decl

theorem forgets_parser? {k : TokenKind} {p : Parser Decl} (known : parser? k = some p)
    (c : Cursor) (more : c.rest ≠ []) : p.Forgets c := by
  unfold parser? at known
  split at known
  case h_6 => cases known
  all_goals
    cases known
    exact forgets_here (fun _ => rfl) (forgets_advance more).bind

/-- The tokens of a function up to the opening brace of its body. -/
inductive IsHead : List TokenKind → String → List Ident → Prop where
  | intro {name ks params} (items : CommaList IsIdent ks params) :
      IsHead (.keyword .fnDecl :: .ident name :: .mark .openParen :: ks ++
        [.mark .closeParen, .mark .openBrace]) name params

theorem IsHead.inside {ks : List TokenKind} {name : String} {params : List Ident}
    (derives : IsHead ks name params) : .endOfFile ∉ ks := by
  obtain ⟨items⟩ := derives
  simp [items.inside fun _ _ => IsIdent.inside]

theorem IsHead.starts {ks : List TokenKind} {name : String} {params : List Ident}
    (derives : IsHead ks name params) : ∃ others, ks = .keyword .fnDecl :: others := by
  cases derives
  exact ⟨_, rfl⟩

end Decl

end Tree

end JumpIR
