import Mathlib.Data.List.TakeWhile
import JumpIR.Proofs.Cursor.Resuming

/-!
# Faults stay where they are

Declarations that are read without a fault are read in any place. So what stands around a fault in a
list is read as it is without the fault. Main statement: `recovery_isolates`.
-/

set_option autoImplicit false

open JumpIR.Grammar JumpIR.Parser

namespace JumpIR.Tree

variable {c d : Cursor} {taken : List Token}

/-! ### Rounds of a module -/

namespace Module

theorem declarationRound_of_run {p : Parser Decl} {decl : Decl}
    (known : Decl.parser? c.kind = some p) (run : p.run c = (some decl, d))
    (goes : c.isSaturated = false) (found : List Decl) :
    (declarationRound found).run c = (some (.again (found ++ [decl])), d) := by
  have stops : ¬ (c.atEnd = true ∨ c.isSaturated = true) := by
    simp [Cursor.atEnd, Decl.inside_of_parser? known, goes]
  rw [Parser.run] at run
  simp only [Parser.run, declarationRound, if_neg stops, known, run]

/-- The tokens are read as these declarations wherever they stand, if no arrow is behind them. -/
structure Declares (taken : List Token) (decls : List Decl) : Prop where
  inside : ∀ t ∈ taken, t.kind ≠ .endOfFile
  starts : ∀ t ∈ taken.head?, t.kind.startsDecl = true
  rounds : ∀ found c d, Cursor.Takes taken c d → d.kind ≠ .mark .arrow →
    Rounds declarationRound found c (found ++ decls) d

theorem Declares.nil : Declares [] [] := by
  refine ⟨nofun, nofun, ?_⟩
  intro found c d takes _other
  rw [takes.eq_of_nil, List.append_nil]
  exact .refl

/-- The search for a declaration stops where declarations, or none, stand at the end of a file. -/
theorem Declares.stops {decls : List Decl} {ending : Token} {rest : List Token}
    (declares : Declares taken decls) (tokens : c.tokens = taken ++ ending :: rest)
    (ended : ending.kind = .endOfFile) : c.atEnd = true ∨ c.kind.startsDecl = true := by
  cases taken with
  | nil =>
      have kind : c.kind = ending.kind := congrArg Token.kind (List.cons.inj tokens).1
      exact .inl (by simp [Cursor.atEnd, kind, ended])
  | cons t taken =>
      have kind : c.kind = t.kind := congrArg Token.kind (List.cons.inj tokens).1
      exact .inr (kind ▸ declares.starts t rfl)

/-- What stands behind a declaration that is read is an arrow in no place, if it is none in one. -/
theorem agrees_between {m m' e e' : Cursor} (passes : Cursor.Passes taken m e)
    (passes' : Cursor.Passes taken m' e') (ended : e.kind = .endOfFile)
    (other : e'.kind ≠ .mark .arrow) : TokenKind.Agrees arrowOnly m.kind m'.kind := by
  cases taken with
  | nil =>
      rw [← passes.kind_eq, ← passes'.kind_eq, ended]
      rintro _ rfl
      simp [other]
  | cons t taken =>
      rw [passes.kind_cons, passes'.kind_cons]
      exact .refl _ _

theorem Declares.cons {p : Parser Decl} {decl : Decl} {front : List Token} {decls : List Decl}
    {m e : Cursor} (known : Decl.parser? c.kind = some p) (run : p.run c = (some decl, m))
    (here : Cursor.Takes front c m) (some : front ≠ []) (behind : Cursor.Passes taken m e)
    (ended : e.kind = .endOfFile) (others : Declares taken decls) :
    Declares (front ++ taken) (decl :: decls) := by
  have going := Decl.inside_of_parser? known
  have word : c.kind.startsDecl = true := by
    rw [← Decl.parser?_isSome, known]
    rfl
  have inside : ∀ t ∈ front, t.kind ≠ .endOfFile := by
    obtain ⟨passed, passes, plain, -⟩ :=
      ((Decl.departs_parser? known c).motion here.bounded going).1.passes
    rw [run] at passes
    cases here.passes.unique passes
    exact fun t member => (plain t member).1
  cases front with
  | nil => exact absurd rfl some
  | cons t front =>
      have kind : c.kind = t.kind := here.passes.kind_cons
      refine ⟨List.forall_mem_append.mpr ⟨inside, others.inside⟩, ?_, ?_⟩
      · rintro _ ⟨⟩
        exact kind ▸ word
      · intro found c' d' takes other
        obtain ⟨m', left, right⟩ := takes.split
        have kind' : c'.kind = c.kind := left.passes.kind_cons.trans kind.symm
        have there : p.run c' = (Option.some decl, m') :=
          run_elsewhere (fun c' => Decl.localAt_parser? known rfl) (Decl.forgets_parser? known)
            run here some left (agrees_between behind right.passes ended other)
        have once := declarationRound_of_run (kind' ▸ known) there left.goes found
        have later := others.rounds (found ++ [decl]) m' d' right other
        rw [List.append_assoc] at later
        exact (Rounds.once once left.passes some).trans later

end Module

end JumpIR.Tree
