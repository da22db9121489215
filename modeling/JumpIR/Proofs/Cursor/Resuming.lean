import JumpIR.Proofs.Cursor.Context

/-!
# Reading on behind a fault

Behind a fault reading goes on at a place that the tokens alone determine: behind the next semicolon
in a body, and at the next word that starts a declaration elsewhere. So a function with a fault in
its body has the statements around the fault.
-/

set_option autoImplicit false

open JumpIR.Grammar JumpIR.Parser

namespace JumpIR

/-! ### Some rounds of a loop -/

namespace Parser

variable {σ α : Type} {round : σ → Parser (Ending σ α)} {s t u : σ} {c d e : Cursor}
  {taken : List Token}

/-- Rounds of a loop, none of them the last one, that lead from one state and place to another. -/
inductive Rounds (round : σ → Parser (Ending σ α)) : σ → Cursor → σ → Cursor → Prop where
  | refl {s : σ} {c : Cursor} : Rounds round s c s c
  | again {s t u : σ} {c d e : Cursor} {taken : List Token}
      (run : (round s).run c = (some (.again t), d)) (passes : Cursor.Passes taken c d)
      (advances : taken ≠ []) (later : Rounds round t d u e) : Rounds round s c u e

theorem Rounds.once (run : (round s).run c = (some (.again t), d))
    (passes : Cursor.Passes taken c d) (advances : taken ≠ []) : Rounds round s c t d :=
  .again run passes advances .refl

theorem Rounds.trans (first : Rounds round s c t d) (second : Rounds round t d u e) :
    Rounds round s c u e := by
  induction first with
  | refl => exact second
  | again run passes advances _later ih => exact .again run passes advances (ih second)

theorem Rounds.finish {outcome : Option α × Cursor} (first : Rounds round s c t d)
    (last : Loops round t d outcome) : Loops round s c outcome := by
  induction first with
  | refl => exact last
  | again run passes advances _later ih => exact .again run passes advances (ih last)

end Parser

/-! ### Where reading goes on -/

namespace Cursor

variable {c d : Cursor}

/-- No token of a gap stops the search for the end of the statement. -/
def InStatement (t : Token) : Prop :=
  t.kind ≠ .mark .semicolon ∧ t.kind ≠ .mark .closeBrace ∧ t.kind ≠ .endOfFile ∧
    t.kind.startsDecl = false

end Cursor

namespace Tree

variable {c d : Cursor} {taken : List Token}

/-! ### Bodies -/

namespace Decl

end Decl

/-! ### A function with a fault in its body -/

/-- The tokens of a function. Its body has statements, then tokens up to a semicolon that are no
statement, and statements again. -/
structure BrokenFunction where
  name : String
  params : List Ident
  before : List Stmt
  after : List Stmt
  head : List Token
  front : List Token
  gap : List Token
  semicolon : Token
  back : List Token
  brace : Token
  opens : Decl.IsHead (head.map Token.kind) name params
  derivesFront : Many IsStmt (front.map Token.kind) before
  derivesBack : Many IsStmt (back.map Token.kind) after
  inside : ∀ t ∈ gap, Cursor.InStatement t
  ends : semicolon.kind = .mark .semicolon
  underived : ∀ stmt, ¬ IsStmt ((gap ++ [semicolon]).map Token.kind) stmt
  closes : brace.kind = .mark .closeBrace

namespace BrokenFunction

def tokens (f : BrokenFunction) : List Token :=
  f.head ++ (f.front ++ (f.gap ++ [f.semicolon] ++ (f.back ++ [f.brace])))

/-- The function of the statements around the fault. -/
def bare (f : BrokenFunction) : Decl :=
  .function ⟨⟨f.name, nowhere⟩, f.params, f.before ++ f.after, nowhere⟩

end BrokenFunction

end Tree

end JumpIR
