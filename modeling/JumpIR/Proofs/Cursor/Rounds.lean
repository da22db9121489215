import JumpIR.Proofs.Cursor.Readers

/-!
# Loops without a budget

Every loop of a reader is written with a budget of rounds. `Loops` tells what the rounds of a loop
do, as often as they come: each of them passes a token, up to the last one. So the budgets suffice,
on every token list, and each loop ends by itself.
-/

set_option autoImplicit false

open JumpIR.Parser

namespace JumpIR

/-- How a round of a loop ends: with the state of the next round, or with the loop's result. -/
inductive Ending (σ α : Type) where
  | again (state : σ)
  | leave (result : α)

namespace Parser

variable {σ α β : Type} {round : σ → Parser (Ending σ α)} {c d : Cursor}

/-- The rounds from a state and a place on lead to an outcome. Only the last one, which leaves the
loop or fails, may pass no token. -/
inductive Loops (round : σ → Parser (Ending σ α)) : σ → Cursor → Option α × Cursor → Prop where
  | fault {s c d taken} (run : (round s).run c = (none, d)) (passes : Cursor.Passes taken c d) :
      Loops round s c (none, d)
  | leave {s c d taken r} (run : (round s).run c = (some (.leave r), d))
      (passes : Cursor.Passes taken c d) : Loops round s c (some r, d)
  | again {s t c d taken outcome} (run : (round s).run c = (some (.again t), d))
      (passes : Cursor.Passes taken c d) (advances : taken ≠ []) (later : Loops round t d outcome) :
      Loops round s c outcome

theorem Loops.passes {s : σ} {outcome : Option α × Cursor} (loops : Loops round s c outcome) :
    ∃ taken, Cursor.Passes taken c outcome.2 := by
  induction loops with
  | fault run passes => exact ⟨_, passes⟩
  | leave run passes => exact ⟨_, passes⟩
  | again run passes advances later ih =>
      obtain ⟨others, passes'⟩ := ih
      exact ⟨_, passes.trans passes'⟩

/-- The rounds of a loop matter only from its first place on. -/
theorem Loops.congr {other : σ → Parser (Ending σ α)} {s : σ} {outcome : Option α × Cursor}
    (loops : Loops round s c outcome) (bounded : c.Bounded)
    (same : ∀ s d, d.Bounded → d.rest.length ≤ c.rest.length → (round s).run d = (other s).run d) :
    Loops other s c outcome := by
  induction loops with
  | fault run passes => exact .fault ((same _ _ bounded (Nat.le_refl _)).symm.trans run) passes
  | leave run passes => exact .leave ((same _ _ bounded (Nat.le_refl _)).symm.trans run) passes
  | again run passes advances later ih =>
      refine .again ((same _ _ bounded (Nat.le_refl _)).symm.trans run) passes advances
        (ih (bounded.of_passes passes) ?_)
      intro s d bounded' shorter
      have length := passes.length
      exact same s d bounded' (by omega)

/-- A loop has one outcome. -/
theorem Loops.unique {s : σ} {first second : Option α × Cursor} (left : Loops round s c first)
    (right : Loops round s c second) : first = second := by
  induction left with
  | fault run passes =>
      cases right with
      | fault run' => cases run.symm.trans run'; rfl
      | leave run' => cases run.symm.trans run'
      | again run' => cases run.symm.trans run'
  | leave run passes =>
      cases right with
      | fault run' => cases run.symm.trans run'
      | leave run' => cases run.symm.trans run'; rfl
      | again run' => cases run.symm.trans run'
  | again run passes advances later ih =>
      cases right with
      | fault run' => cases run.symm.trans run'
      | leave run' => cases run.symm.trans run'
      | again run' passes' advances' later' =>
          cases run.symm.trans run'
          exact ih later'

instance : LawfulMonad Parser :=
  LawfulMonad.mk' Parser
    (by
      intro α p
      funext c
      show (p >>= fun a => pure a).run c = p.run c
      cases run : p.run c with
      | mk result d =>
          cases result with
          | none => exact bind_of_none run
          | some a => exact bind_of_some run)
    (fun a f => rfl)
    (by
      intro α β γ p f g
      funext c
      show (p >>= f >>= g).run c = (p >>= fun a => f a >>= g).run c
      cases run : p.run c with
      | mk result d =>
          cases result with
          | none =>
              have first : (p >>= f).run c = (none, d) := bind_of_none run
              rw [bind_of_none run, bind_of_none first]
          | some a =>
              rw [bind_of_some run]
              have same : (p >>= f).run c = (f a).run d := bind_of_some run
              cases later : (f a).run d with
              | mk result e =>
                  cases result with
                  | none => rw [bind_of_none later, bind_of_none (same.trans later)]
                  | some b => rw [bind_of_some later, bind_of_some (same.trans later)])

theorem run_bind_congr {p q : Parser α} {f g : α → Parser β} (first : p.run c = q.run c)
    (next : ∀ a d, p.run c = (some a, d) → (f a).run d = (g a).run d) :
    (p >>= f).run c = (q >>= g).run c := by
  cases run : p.run c with
  | mk result d =>
      cases result with
      | none => rw [bind_of_none run, bind_of_none (first.symm.trans run)]
      | some a => rw [bind_of_some run, bind_of_some (first.symm.trans run), next a d run]

/-- One round, and then `rest` for the next state. -/
def unroll (round : σ → Parser (Ending σ α)) (rest : σ → Parser α) (s : σ) : Parser α := do
  match ← round s with
  | .again t => rest t
  | .leave r => return r

def AdvancesAt (round : σ → Parser (Ending σ α)) (s : σ) (c : Cursor) : Prop :=
  c.Bounded → ∃ taken, Cursor.Passes taken c ((round s).run c).2 ∧
    ∀ t, ((round s).run c).1 = some (.again t) → taken ≠ []

theorem advancesAt_of_moves {s : σ} (moves : (round s).MovesAt False 1 c) :
    AdvancesAt round s c := by
  intro bounded
  obtain ⟨taken, passes, -, long⟩ := (moves bounded).passes
  refine ⟨taken, passes, ?_⟩
  intro t again
  exact List.ne_nil_of_length_pos (long (by rw [again]; rfl))

theorem advancesAt_of_leave {s : σ} {r : α} (run : (round s).run c = (some (.leave r), c)) :
    AdvancesAt round s c := by
  intro _bounded
  rw [run]
  exact ⟨[], .refl c, nofun⟩

/-- With a budget of more than the tokens behind the current one, no loop runs out of it. -/
theorem loops_of_unroll (rest : Nat → σ → Parser α)
    (unrolls : ∀ budget s c, (rest (budget + 1) s).run c = (unroll round (rest budget) s).run c)
    (advances : ∀ s c, AdvancesAt round s c) (budget : Nat) :
    ∀ s c, c.Bounded → c.rest.length < budget → Loops round s c ((rest budget s).run c) := by
  induction budget with
  | zero =>
      intro s c bounded enough
      cases enough
  | succ budget ih =>
      intro s c bounded enough
      obtain ⟨taken, passes, advances⟩ := advances s c bounded
      rw [unrolls]
      cases run : (round s).run c with
      | mk result d =>
          rw [run] at passes advances
          cases result with
          | none =>
              rw [unroll, bind_of_none run]
              exact .fault run passes
          | some ends =>
              rw [unroll, bind_of_some run]
              cases ends with
              | leave r => exact .leave run passes
              | again t =>
                  have some := advances t rfl
                  have positive := List.length_pos_iff.mpr some
                  have length : c.rest.length = taken.length + d.rest.length := passes.length
                  exact .again run passes some (ih t d (bounded.of_passes passes) (by omega))

/-! ### Lists with commas -/

/-- One round of a list: an item, and a comma if there is one. -/
def commaRound (closing : TokenKind) (item : Parser α) (found : List α) :
    Parser (Ending (List α) (List α)) := do
  let c ← here
  if c.kind = closing ∨ c.atEnd then return .leave found
  let next ← item
  if ← eat (.mark .comma) then return .again (found ++ [next])
  else return .leave (found ++ [next])

section Lists

variable {closing : TokenKind} {item : Parser α}

theorem advancesAt_commaRound (moves : item.Moves False 1) (found : List α) (c : Cursor) :
    AdvancesAt (commaRound closing item) found c := by
  by_cases stops : c.kind = closing ∨ c.atEnd
  · apply advancesAt_of_leave
    rw [commaRound, run_here, if_pos stops]
    rfl
  · apply advancesAt_of_moves
    apply movesAt_here
    rw [if_neg stops]
    apply (moves c).bind
    intro next
    apply (moves_eat (by simp) (by simp)).bind
    intro more
    cases more with
    | true => exact moves_pure _
    | false => exact moves_pure _

/-- The items of a list behind those found before. -/
def moreItems (closing : TokenKind) (item : Parser α) (budget : Nat) (found : List α) :
    Parser (List α) := do
  let others ← commaList closing item budget
  return found ++ others

theorem moreItems_succ (budget : Nat) (found : List α) :
    moreItems closing item (budget + 1) found =
      unroll (commaRound closing item) (moreItems closing item budget) found := by
  simp only [moreItems, unroll, commaList, commaRound, bind_assoc]
  congr
  funext c
  split
  · simp
  · simp only [bind_assoc]
    congr
    funext next
    congr
    funext more
    cases more with
    | true =>
        simp only [↓reduceIte, bind_assoc, pure_bind, List.append_assoc, List.singleton_append]
    | false => rfl

theorem loops_commaSeparated (moves : item.Moves False 1) (bounded : c.Bounded) :
    Loops (commaRound closing item) [] c ((commaSeparated closing item).run c) := by
  have loops := loops_of_unroll (moreItems closing item)
    (fun budget found c => congrArg (fun p => p.run c) (moreItems_succ budget found))
    (advancesAt_commaRound moves) c.budget [] c bounded (Nat.lt_succ_self _)
  have whole : moreItems closing item c.budget [] = commaList closing item c.budget := by
    simp [moreItems]
  rwa [whole] at loops

end Lists

end Parser

namespace Tree

/-! ### Chains behind expressions and names -/

/-- One round of a chain: one more postfix form around the value. -/
def Expr.postfixRound (value : Expr) : Parser (Ending Expr Expr) := do
  let c ← here
  match c.kind with
  | .mark .dot =>
      advance
      let index ← fieldIndex
      return .again (.field value index (← spanFrom value.span))
  | .keyword .isNot =>
      advance
      let variant ← identifier
      return .again (.isNot value variant (← spanFrom value.span))
  | .keyword .project =>
      advance
      let variant ← identifier
      return .again (.project value variant (← spanFrom value.span))
  | _ => return .leave value

theorem Expr.postfixes_succ (budget : Nat) (value : Expr) :
    postfixes (budget + 1) value = unroll postfixRound (postfixes budget) value := by
  simp only [postfixes, unroll, postfixRound, bind_assoc]
  congr
  funext c
  generalize c.kind = k
  cases k with
  | mark m => cases m <;> simp only [bind_assoc, pure_bind]
  | keyword word => cases word <;> simp only [bind_assoc, pure_bind]
  | _ => simp only [pure_bind]

theorem Expr.advancesAt_postfixRound (value : Expr) (c : Cursor) :
    AdvancesAt postfixRound value c := by
  have run : (postfixRound value).run c = _ := run_here
  split at run
  case h_1 kind =>
      apply advancesAt_of_moves
      apply movesAt_here
      rw [kind]
      apply (movesAt_advance kind (by simp) (by simp)).bind
      intro _
      apply moves_fieldIndex.bind
      intro index
      exact (moves_spanFrom _).bind fun span => moves_pure _
  case h_2 kind =>
      apply advancesAt_of_moves
      apply movesAt_here
      rw [kind]
      apply (movesAt_advance kind (by simp) (by simp)).bind
      intro _
      apply moves_identifier.bind
      intro variant
      exact (moves_spanFrom _).bind fun span => moves_pure _
  case h_3 kind =>
      apply advancesAt_of_moves
      apply movesAt_here
      rw [kind]
      apply (movesAt_advance kind (by simp) (by simp)).bind
      intro _
      apply moves_identifier.bind
      intro variant
      exact (moves_spanFrom _).bind fun span => moves_pure _
  case h_4 => exact advancesAt_of_leave run

theorem Expr.loops_postfixes {c : Cursor} (bounded : c.Bounded) (value : Expr) :
    Loops postfixRound value c ((postfixes c.budget value).run c) :=
  loops_of_unroll postfixes
    (fun budget value c => congrArg (fun p => p.run c) (postfixes_succ budget value))
    advancesAt_postfixRound c.budget value c bounded (Nat.lt_succ_self _)

/-- One round of a path: one more tuple field. -/
def Place.fieldRound (path : List Nat) : Parser (Ending (List Nat) (List Nat)) := do
  if ← eat (.mark .dot) then
    let index ← Expr.fieldIndex
    return .again (path ++ [index])
  else return .leave path

/-- The fields of a path behind those found before. -/
def Place.moreFields (budget : Nat) (path : List Nat) : Parser (List Nat) := do
  let others ← fields budget
  return path ++ others

theorem Place.moreFields_succ (budget : Nat) (path : List Nat) :
    moreFields (budget + 1) path = unroll fieldRound (moreFields budget) path := by
  simp only [moreFields, unroll, fields, fieldRound, bind_assoc]
  congr
  funext dot
  cases dot with
  | true =>
      simp only [↓reduceIte, bind_assoc, pure_bind, List.append_assoc, List.singleton_append]
  | false =>
      show (pure (path ++ []) : Parser (List Nat)) = pure path
      rw [List.append_nil]

theorem Place.advancesAt_fieldRound (path : List Nat) (c : Cursor) :
    AdvancesAt fieldRound path c := by
  by_cases kind : c.kind = .mark .dot
  · apply advancesAt_of_moves
    have run : (eat (.mark .dot)).run c = (some true, c.advance) := if_pos kind
    apply movesAt_after run (movesAt_eaten kind (by simp) (by simp))
    exact (Expr.moves_fieldIndex.bind fun index => moves_pure _) _
  · apply advancesAt_of_leave
    have run : (eat (.mark .dot)).run c = (some false, c) := if_neg kind
    rw [fieldRound, bind_of_some run]
    rfl

theorem Place.loops_fields {c : Cursor} (bounded : c.Bounded) {budget : Nat}
    (enough : c.rest.length < budget) : Loops fieldRound [] c ((fields budget).run c) := by
  have loops := loops_of_unroll moreFields
    (fun budget path c => congrArg (fun p => p.run c) (moreFields_succ budget path))
    advancesAt_fieldRound budget [] c bounded enough
  have whole : moreFields budget [] = fields budget := by
    simp [moreFields]
  rwa [whole] at loops

/-! ### Statements -/

/-- One round of a body: a statement, or the way behind a fault in one. -/
def Decl.statementRound (body : List Stmt) : Parser (Ending (List Stmt) (List Stmt)) := fun c =>
  if c.kind = .mark .closeBrace ∨ c.atEnd ∨ c.isSaturated then (some (.leave body), c)
  else
    let (body, next) := match Stmt.parse c with
      | (some stmt, next) => (body ++ [stmt], next)
      | (none, failed) => (body, failed.skipStatement failed.budget)
    (some (if next.kind.startsDecl then .leave body else .again body), next)

/-- The statements of a body behind those found before. -/
def Decl.moreStatements (budget : Nat) (body : List Stmt) : Parser (List Stmt) := fun c =>
  (some (body ++ (statements budget c).1), (statements budget c).2)

theorem Decl.run_moreStatements (budget : Nat) (body : List Stmt) (c : Cursor) :
    (moreStatements (budget + 1) body).run c =
      (unroll statementRound (moreStatements budget) body).run c := by
  by_cases stops : c.kind = .mark .closeBrace ∨ c.atEnd ∨ c.isSaturated
  · have left : statements (budget + 1) c = ([], c) := if_pos stops
    have right : (statementRound body).run c = (some (.leave body), c) := if_pos stops
    rw [unroll, bind_of_some right, Parser.run, moreStatements, left, List.append_nil]
    rfl
  · cases parsed : Stmt.parse c with
    | mk result d =>
        cases result with
        | some stmt =>
            by_cases word : d.kind.startsDecl = true
            · simp [Parser.run, moreStatements, unroll, Bind.bind, statementRound, statements,
                stops, parsed, word]
              rfl
            · simp [Parser.run, moreStatements, unroll, Bind.bind, statementRound, statements,
                stops, parsed, word]
        | none =>
            by_cases word : (d.skipStatement d.budget).kind.startsDecl = true
            · simp [Parser.run, moreStatements, unroll, Bind.bind, statementRound, statements,
                stops, parsed, word]
              rfl
            · simp [Parser.run, moreStatements, unroll, Bind.bind, statementRound, statements,
                stops, parsed, word]

/-- Behind a fault in a statement a token is skipped, unless the body ends there. -/
theorem skipStatement_advances {c : Cursor} (bounded : c.Bounded) (inside : c.kind ≠ .endOfFile)
    (inBody : c.kind ≠ .mark .closeBrace) (other : c.kind.startsDecl = false) :
    ∃ taken, Cursor.Passes taken c (c.skipStatement c.budget) ∧ taken ≠ [] := by
  have first := bounded.advance inside
  rw [Cursor.budget, Cursor.skipStatement, if_neg (by simpa [Cursor.atEnd] using inside)]
  split_ifs with semicolon stops
  · exact ⟨_, first, List.cons_ne_nil _ _⟩
  · exact absurd stops (by simp [inBody, other])
  · obtain ⟨taken, passes, -⟩ :=
      (Cursor.motion_skipStatement c.rest.length c.advance (bounded.of_passes first)).passes
    exact ⟨_, first.trans passes, List.cons_ne_nil _ _⟩

theorem skipStatement_of_startsDecl {c : Cursor} (word : c.kind.startsDecl = true) :
    c.skipStatement c.budget = c := by
  have inside : c.atEnd = false := by
    cases kind : c.kind <;> simp_all [Cursor.atEnd, TokenKind.startsDecl]
  have other : c.kind ≠ .mark .semicolon := by
    intro semicolon
    rw [semicolon] at word
    cases word
  rw [Cursor.budget, Cursor.skipStatement, inside, if_neg (by simp), if_neg other,
    if_pos (.inr word)]

theorem Decl.advancesAt_statementRound (body : List Stmt) (c : Cursor) :
    AdvancesAt statementRound body c := by
  by_cases stops : c.kind = .mark .closeBrace ∨ c.atEnd ∨ c.isSaturated
  · exact advancesAt_of_leave (if_pos stops)
  · intro bounded
    have motion := Stmt.moves_parse c bounded
    rw [Parser.run] at motion ⊢
    rw [statementRound, if_neg stops]
    cases parsed : Stmt.parse c with
    | mk result d =>
        rw [parsed] at motion
        obtain ⟨taken, passes, -, long⟩ := motion.passes
        cases result with
        | some stmt => exact ⟨taken, passes, fun _ _ => List.ne_nil_of_length_pos (long rfl)⟩
        | none =>
            by_cases stays : taken = []
            · -- The statement took nothing: either something is skipped, or a declaration starts.
              subst stays
              have kind := passes.kind_eq
              dsimp only
              cases word : d.kind.startsDecl with
              | true =>
                  rw [skipStatement_of_startsDecl word]
                  exact ⟨[], passes, by simp [word]⟩
              | false =>
                  obtain ⟨inBody, goes⟩ := not_or.mp stops
                  have inside : c.kind ≠ .endOfFile := by
                    intro ended
                    exact goes (.inl (by simp [Cursor.atEnd, ended]))
                  obtain ⟨taken, passes', some⟩ := skipStatement_advances
                    (motion.bounded bounded) (kind ▸ inside) (kind ▸ inBody) word
                  exact ⟨taken, passes.trans passes', fun _ _ => some⟩
            · obtain ⟨skipped, passes', -⟩ :=
                (Cursor.motion_skipStatement d.budget d (motion.bounded bounded)).passes
              exact ⟨taken ++ skipped, passes.trans passes', fun _ _ => by simp [stays]⟩

theorem Decl.moves_statementRound (body : List Stmt) : (statementRound body).Moves False 0 := by
  intro c bounded
  rw [Parser.run, statementRound]
  split
  case isTrue => exact .stay _ rfl rfl
  case isFalse =>
      have motion := Stmt.moves_parse c bounded
      rw [Parser.run] at motion
      cases parsed : Stmt.parse c with
      | mk result d =>
          rw [parsed] at motion
          cases result with
          | some stmt => exact motion.trans (.stay _ rfl rfl) (Nat.zero_le _)
          | none =>
              have resumed := motion.resume
                (Cursor.motion_skipStatement d.budget d (motion.bounded bounded))
              exact resumed.trans (.stay _ rfl rfl) (Nat.zero_le _)

theorem Decl.loops_parseStatements {c : Cursor} (bounded : c.Bounded) :
    Loops statementRound [] c (parseStatements.run c) :=
  loops_of_unroll moreStatements run_moreStatements advancesAt_statementRound c.budget [] c bounded
    (Nat.lt_succ_self _)

/-! ### Declarations -/

/-- One round of a module: a declaration, or the way behind a fault in one. -/
def Module.declarationRound (found : List Decl) :
    Parser (Ending (List Decl) (List Decl)) := fun c =>
  if c.atEnd ∨ c.isSaturated then (some (.leave found), c)
  else
    match Decl.parser? c.kind with
    | none =>
        let reported := (c.report (.expectedDeclaration c.kind) c.current.span).advance
        (some (.again found), reported.skipToDecl reported.budget)
    | some parser =>
        match parser c with
        | (some decl, next) => (some (.again (found ++ [decl])), next)
        | (none, failed) => (some (.again found), failed.skipToDecl failed.budget)

/-- The declarations behind those found before. -/
def Module.moreDeclarations (budget : Nat) (found : List Decl) : Parser (List Decl) := fun c =>
  (some (found ++ (declarations budget c).1), (declarations budget c).2)

theorem Module.run_moreDeclarations (budget : Nat) (found : List Decl) (c : Cursor) :
    (moreDeclarations (budget + 1) found).run c =
      (unroll declarationRound (moreDeclarations budget) found).run c := by
  by_cases stops : c.atEnd ∨ c.isSaturated
  · have left : declarations (budget + 1) c = ([], c) := if_pos stops
    have right : (declarationRound found).run c = (some (.leave found), c) := if_pos stops
    rw [unroll, bind_of_some right, Parser.run, moreDeclarations, left, List.append_nil]
    rfl
  · cases known : Decl.parser? c.kind with
    | none =>
        simp [Parser.run, moreDeclarations, unroll, Bind.bind, declarationRound, declarations,
          stops, known]
    | some parser =>
        cases parsed : parser c with
        | mk result d =>
            cases result with
            | some decl =>
                simp [Parser.run, moreDeclarations, unroll, Bind.bind, declarationRound,
                  declarations, stops, known, parsed]
            | none =>
                simp [Parser.run, moreDeclarations, unroll, Bind.bind, declarationRound,
                  declarations, stops, known, parsed]

theorem Module.advancesAt_declarationRound (found : List Decl) (c : Cursor) :
    AdvancesAt declarationRound found c := by
  by_cases stops : c.atEnd ∨ c.isSaturated
  · exact advancesAt_of_leave (if_pos stops)
  · intro bounded
    have inside : c.kind ≠ .endOfFile := by
      intro ended
      exact stops (.inl (by simp [Cursor.atEnd, ended]))
    rw [Parser.run, declarationRound, if_neg stops]
    cases known : Decl.parser? c.kind with
    | none =>
        dsimp only
        rw [Cursor.advance_report]
        have first := (bounded.advance inside).report (.expectedDeclaration c.kind) c.current.span
        generalize c.advance.report (.expectedDeclaration c.kind) c.current.span = next at first
        obtain ⟨skipped, passes, -⟩ :=
          (Cursor.motion_skipToDecl next.budget next (bounded.of_passes first)).passes
        exact ⟨_, first.trans passes, fun _ _ => List.cons_ne_nil _ _⟩
    | some parser =>
        obtain ⟨motion, taken, passes, some⟩ :=
          (Decl.departs_parser? known c).motion bounded inside
        rw [Parser.run] at motion passes
        cases parsed : parser c with
        | mk result d =>
            rw [parsed] at motion passes
            cases result with
            | some decl =>
                simp only [parsed]
                exact ⟨taken, passes, fun _ _ => some⟩
            | none =>
                simp only [parsed]
                obtain ⟨skipped, passes', -⟩ :=
                  (Cursor.motion_skipToDecl d.budget d (motion.bounded bounded)).passes
                exact ⟨taken ++ skipped, passes.trans passes', fun _ _ => by simp [some]⟩

theorem Module.loops_declarations {c : Cursor} (bounded : c.Bounded) :
    Loops declarationRound [] c
      (some (declarations c.budget c).1, (declarations c.budget c).2) :=
  loops_of_unroll moreDeclarations run_moreDeclarations advancesAt_declarationRound c.budget [] c
    bounded (Nat.lt_succ_self _)

/-! ### Types -/

namespace TypeExpr

/-- A type whose parts are read by `inner`. -/
def parseBy (inner : Parser TypeExpr) : Parser TypeExpr := do
  let start := (← here).current.span
  if ← eat (.mark .openParen) then
    let items ← commaSeparated (.mark .closeParen) inner
    expect (.mark .closeParen)
    if ← eat (.mark .arrow) then
      let result ← inner
      return .function items result (← spanFrom start)
    match items with
    | [] => return .base .unit (← spanFrom start)
    | [item] => return item
    | _ => return .tuple items (← spanFrom start)
  else
    expect (.mark .percent)
    afterPercent start

theorem parseWithin_succ (levels : Nat) :
    parseWithin (levels + 1) = parseBy (parseWithin levels) := rfl

/-- The items of a list are read from its first place on. -/
theorem commaSeparated_congr {closing : TokenKind} {inner other : Parser TypeExpr} {c : Cursor}
    (bounded : c.Bounded) (moves : inner.Moves False 1) (moves' : other.Moves False 1)
    (same : ∀ d : Cursor, d.Bounded → d.rest.length ≤ c.rest.length → inner.run d = other.run d) :
    (commaSeparated closing inner).run c = (commaSeparated closing other).run c := by
  have loops : Loops (commaRound closing inner) [] c _ := loops_commaSeparated moves bounded
  have loops' : Loops (commaRound closing other) [] c _ := loops_commaSeparated moves' bounded
  refine (loops.congr bounded ?_).unique loops'
  intro found d bounded' shorter
  rw [commaRound, commaRound, run_here, run_here]
  split
  · rfl
  · exact run_bind_congr (same d bounded' shorter) fun _ _ _ => rfl

/-- The parts of a type stand behind its first token. -/
theorem parseBy_congr {inner other : Parser TypeExpr} {c : Cursor} (bounded : c.Bounded)
    (moves : inner.Moves False 1) (moves' : other.Moves False 1)
    (same : ∀ d : Cursor, d.Bounded → d.rest.length < c.rest.length → inner.run d = other.run d) :
    (parseBy inner).run c = (parseBy other).run c := by
  unfold parseBy
  rw [run_here, run_here]
  by_cases opened : c.kind = .mark .openParen
  · have eaten : (eat (.mark .openParen)).run c = (some true, c.advance) := if_pos opened
    have passes := bounded.advance (c := c) (by simp [opened])
    have bounded₁ := bounded.of_passes passes
    have length : c.rest.length = 1 + c.advance.rest.length := passes.length
    rw [bind_of_some eaten, bind_of_some eaten]
    apply run_bind_congr
    · apply commaSeparated_congr bounded₁ moves moves'
      intro d bounded' shorter
      exact same d bounded' (by omega)
    · intro items d run
      obtain ⟨bounded₂, shorter₂⟩ := (moves_commaSeparated moves.zero _).shrinks bounded₁ run
      apply run_bind_congr rfl
      intro _ e run
      have closes : (expect (.mark .closeParen)).Moves False 1 := moves_expect (by simp) nofun
      obtain ⟨bounded₃, shorter₃⟩ := (closes d).shrinks bounded₂ run
      apply run_bind_congr rfl
      intro arrow f run
      have points : (eat (.mark .arrow)).Moves False 0 := moves_eat (by simp) (by simp)
      obtain ⟨bounded₄, shorter₄⟩ := (points e).shrinks bounded₃ run
      cases arrow with
      | true => exact run_bind_congr (same f bounded₄ (by omega)) fun _ _ _ => rfl
      | false => rfl
  · have missed : (eat (.mark .openParen)).run c = (some false, c) := if_neg opened
    rw [bind_of_some missed, bind_of_some missed]
    rfl

/-- More levels than tokens change nothing. -/
theorem parseWithin_enough (levels : Nat) : ∀ (others : Nat) (c : Cursor), c.Bounded →
    c.rest.length < levels → c.rest.length < others →
    (parseWithin levels).run c = (parseWithin others).run c := by
  induction levels with
  | zero =>
      intro others c bounded enough
      cases enough
  | succ levels ih =>
      intro others c bounded enough enough'
      cases others with
      | zero => cases enough'
      | succ others =>
          rw [parseWithin_succ, parseWithin_succ]
          apply parseBy_congr bounded (moves_parseWithin levels) (moves_parseWithin others)
          intro d bounded' shorter
          exact ih others d bounded' (by omega) (by omega)

/-- Types nest without a bound. -/
theorem run_parse {c : Cursor} (bounded : c.Bounded) : parse.run c = (parseBy parse).run c := by
  rw [parse, run_here, parseWithin_succ]
  apply parseBy_congr bounded (moves_parseWithin _) moves_parse
  intro d bounded' shorter
  rw [parse, run_here]
  apply parseWithin_enough _ _ _ bounded'
  · exact Nat.lt_succ_of_lt shorter
  · exact Nat.lt_succ_of_lt (Nat.lt_succ_self _)

end TypeExpr

end Tree

/-! ### Resuming behind a fault -/

namespace Cursor

/-- One round on the way behind a statement with a fault. -/
def skipStatementRound (_ : Unit) : Parser (Ending Unit Unit) := fun c =>
  if c.atEnd then (some (.leave ()), c)
  else if c.kind = .mark .semicolon then (some (.leave ()), c.advance)
  else if c.kind = .mark .closeBrace ∨ c.kind.startsDecl then (some (.leave ()), c)
  else (some (.again ()), c.advance)

/-- One round on the way to the next declaration. -/
def skipToDeclRound (_ : Unit) : Parser (Ending Unit Unit) := fun c =>
  if c.atEnd ∨ c.kind.startsDecl then (some (.leave ()), c) else (some (.again ()), c.advance)

theorem loops_skipStatement {c : Cursor} (bounded : c.Bounded) :
    Loops skipStatementRound () c (some (), c.skipStatement c.budget) := by
  refine loops_of_unroll (fun budget _ c => (some (), c.skipStatement budget)) ?_ ?_
    c.budget () c bounded (Nat.lt_succ_self _)
  · intro budget _ c
    simp only [Parser.run, unroll, Bind.bind, skipStatementRound, skipStatement]
    split_ifs <;> rfl
  · intro _ c bounded
    simp only [Parser.run, skipStatementRound]
    split_ifs with ended semicolon stops
    · exact ⟨[], .refl c, by simp⟩
    · exact ⟨_, bounded.advance (by simp [semicolon]), by simp⟩
    · exact ⟨[], .refl c, by simp⟩
    · exact ⟨_, bounded.advance (by simpa [atEnd] using ended), fun _ _ => List.cons_ne_nil _ _⟩

theorem loops_skipToDecl {c : Cursor} (bounded : c.Bounded) :
    Loops skipToDeclRound () c (some (), c.skipToDecl c.budget) := by
  refine loops_of_unroll (fun budget _ c => (some (), c.skipToDecl budget)) ?_ ?_
    c.budget () c bounded (Nat.lt_succ_self _)
  · intro budget _ c
    simp only [Parser.run, unroll, Bind.bind, skipToDeclRound, skipToDecl]
    split_ifs <;> rfl
  · intro _ c bounded
    simp only [Parser.run, skipToDeclRound]
    split_ifs with stops
    · exact ⟨[], .refl c, by simp⟩
    · have inside : c.kind ≠ .endOfFile := by
        intro ended
        exact stops (.inl (by simp [atEnd, ended]))
      exact ⟨_, bounded.advance inside, fun _ _ => List.cons_ne_nil _ _⟩

end Cursor

end JumpIR
