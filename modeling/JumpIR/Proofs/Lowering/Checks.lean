import JumpIR.Proofs.Exception.CheckedCall
import JumpIR.Proofs.Lowering.Acceptance
import JumpIR.Proofs.Lowering.Arity

/-!
# Lowering with and without checks of calls

The option to check calls changes nothing but the calls that get a check. Two runs of lowering over
one module, of which only the first one checks, fail with the same fault, or give programs that are
equal up to the first check and of different sizes behind it. Main statement: `generate_eq_iff`.
-/

set_option autoImplicit false

namespace JumpIR

/-- Two passes fail with the same fault, or give related results. -/
inductive Alike {ε α β : Type} (related : α → β → Prop) : Except ε α → Except ε β → Prop where
  | error (fault : ε) : Alike related (.error fault) (.error fault)
  | ok {a : α} {b : β} : related a b → Alike related (.ok a) (.ok b)

namespace Alike

variable {ε α β γ δ : Type} {related : α → β → Prop} {after : γ → δ → Prop}

theorem refl {related : α → α → Prop} (pass : Except ε α) (same : ∀ a, related a a) :
    Alike related pass pass := by
  cases pass with
  | error fault => exact .error fault
  | ok a => exact .ok (same a)

theorem mono {weaker : α → β → Prop} {first : Except ε α} {second : Except ε β}
    (alike : Alike related first second) (weaken : ∀ a b, related a b → weaker a b) :
    Alike weaker first second := by
  cases alike with
  | error fault => exact .error fault
  | ok both => exact .ok (weaken _ _ both)

theorem bind {first : Except ε α} {second : Except ε β} {rest : α → Except ε γ}
    {others : β → Except ε δ} (alike : Alike related first second)
    (later : ∀ a b, first = .ok a → related a b → Alike after (rest a) (others b)) :
    Alike after (first >>= rest) (second >>= others) := by
  cases alike with
  | error fault => exact .error fault
  | ok both => exact later _ _ rfl both

theorem bind_same {pass : Except ε α} {rest : α → Except ε γ} {others : α → Except ε δ}
    (later : ∀ a, pass = .ok a → Alike after (rest a) (others a)) :
    Alike after (pass >>= rest) (pass >>= others) := by
  cases pass with
  | error fault => exact .error fault
  | ok a => exact later a rfl

theorem cases_ok {first : Except ε α} {second : Except ε β}
    (alike : Alike related first second) :
    (∃ fault, first = .error fault ∧ second = .error fault) ∨
      ∃ a b, first = .ok a ∧ second = .ok b ∧ related a b := by
  cases alike with
  | error fault => exact Or.inl ⟨fault, rfl, rfl⟩
  | ok both => exact Or.inr ⟨_, _, rfl, rfl, both⟩

end Alike

namespace Lowering

/-! ### What the option leaves alone -/

def Globals.unchecked (g : Globals) : Globals := { g with options := ⟨false⟩ }

def Scope.unchecked (s : Scope) : Scope := { s with globals := s.globals.unchecked }

def Body.unchecked (b : Body) : Body := { b with scope := b.scope.unchecked }

namespace Scope

mutual

theorem operand_unchecked (s : Scope) : ∀ e : Tree.Expr, s.unchecked.operand e = s.operand e
  | .name _ _ | .literal _ _ | .exception _ _ => rfl
  | .field value _ _ => by
      rw [operand, operand, operand_unchecked s value]
  | .isNot value _ _ => by
      rw [operand, operand, operand_unchecked s value]
      rfl
  | .project value _ _ => by
      rw [operand, operand, operand_unchecked s value]
      rfl
  | .prim _ args _ => by
      rw [operand, operand, operands_unchecked s args]
  | .call _ args _ => by
      rw [operand, operand, operands_unchecked s args]
      rfl

theorem operands_unchecked (s : Scope) :
    ∀ es : List Tree.Expr, s.unchecked.operands es = s.operands es
  | [] => rfl
  | e :: rest => by
      rw [operands, operands, operand_unchecked s e, operands_unchecked s rest]

end

end Scope

theorem declareLocals_unchecked (g : Globals) (function : String) (stmts : List Tree.Stmt) :
    ∀ locals, declareLocals g.unchecked function stmts locals =
      declareLocals g function stmts locals := by
  induction stmts with
  | nil => exact fun _ => rfl
  | cons stmt rest ih =>
      intro locals
      obtain ⟨kind, region⟩ := stmt
      cases kind with
      | declare name type init =>
          rw [declareLocals, declareLocals]
          simp only [ih]
          rfl
      | _ => exact ih locals

/-! ### Graphs of the two runs -/

/-- The graphs of the checking run and of the other one: they are equal if the calls so far are
guarded by jumps of their own, and otherwise the first has more blocks. -/
inductive Graph.Near (guarded : Prop) : Graph → Graph → Prop where
  | same {g : Graph} (held : guarded) : Near guarded g g
  | more {g h : Graph} (broken : ¬ guarded) (fewer : h.blocks.size < g.blocks.size)
      (current : g.current.isSome = h.current.isSome)
      (fallOff : g.fallOff.isSome = h.fallOff.isSome)
      (supports : g.supports = h.supports) : Near guarded g h

theorem Graph.Near.congr {g h : Graph} {guarded other : Prop} (near : Near guarded g h)
    (iff : guarded ↔ other) : Near other g h := iff.eq ▸ near

namespace Body

open Lowering.Graph (Near)

variable {b : Body} {g h : Graph} {guarded : Prop}

/-- Both graphs have an open block, or neither has. -/
theorem current_cases (current : g.current.isSome = h.current.isSome) :
    (g.current = none ∧ h.current = none) ∨
      ∃ id other, g.current = some id ∧ h.current = some other := by
  cases first : g.current with
  | none =>
      rw [first] at current
      exact Or.inl ⟨rfl, Option.isSome_eq_false_iff.mp current.symm |> Option.isNone_iff_eq_none.mp⟩
  | some id =>
      rw [first] at current
      obtain ⟨other, second⟩ := Option.isSome_iff_exists.mp current.symm
      exact Or.inr ⟨id, other, rfl, second⟩

theorem near_pushOp (near : Near guarded g h) (op : Op) :
    Alike (Near guarded) (b.pushOp op g) (b.unchecked.pushOp op h) := by
  cases near with
  | same held => exact .refl _ fun _ => .same held
  | more broken fewer current fallOff supports =>
      unfold pushOp
      rcases current_cases current with ⟨first, second⟩ | ⟨id, other, first, second⟩
      · rw [first, second]
        exact .error _
      · rw [first, second]
        refine .ok (.more broken ?_ current fallOff supports)
        unfold Graph.addOp
        simpa only [Array.size_modify] using fewer

theorem near_terminate (near : Near guarded g h) {terminator other : Terminator}
    (same : guarded → terminator = other) :
    Alike (Near guarded) (b.terminate terminator g) (b.unchecked.terminate other h) := by
  cases near with
  | same held =>
      rw [same held]
      exact .refl _ fun _ => .same held
  | more broken fewer current fallOff supports =>
      unfold terminate
      rcases current_cases current with ⟨first, second⟩ | ⟨id, last, first, second⟩
      · rw [first, second]
        exact .error _
      · rw [first, second]
        refine .ok (.more broken ?_ rfl fallOff supports)
        unfold Graph.setTerminator
        simpa only [Array.size_modify] using fewer

theorem near_openBlock (near : Near guarded g h) (index : Nat) :
    Near guarded (b.openBlock index g) (b.unchecked.openBlock index h) := by
  cases near with
  | same held => exact .same held
  | more broken fewer current fallOff supports =>
      have leaders : b.unchecked.leaderBlock? index = b.leaderBlock? index := rfl
      unfold openBlock
      rw [leaders]
      cases b.leaderBlock? index with
      | none => exact .more broken fewer current fallOff supports
      | some leader =>
          dsimp only
          rcases current_cases current with ⟨first, second⟩ | ⟨id, other, first, second⟩
          · rw [first, second]
            exact .more broken fewer rfl fallOff supports
          · rw [first, second]
            refine .more broken ?_ rfl fallOff supports
            unfold Graph.setTerminator
            simpa only [Array.size_modify] using fewer

theorem near_close (near : Near guarded g h) :
    Near guarded (b.close g) (b.unchecked.close h) := by
  cases near with
  | same held => exact .same held
  | more broken fewer current fallOff supports =>
      unfold close
      rcases current_cases current with ⟨first, second⟩ | ⟨id, other, first, second⟩
      · rw [first, second]
        exact .more broken fewer current fallOff supports
      · rw [first, second]
        refine .more broken ?_ rfl fallOff supports
        unfold Graph.setTerminator
        simpa only [Array.size_modify] using fewer

theorem near_fallOffBlock (near : Near guarded g h) :
    Near guarded (b.fallOffBlock g).2 (b.unchecked.fallOffBlock h).2 ∧
      (guarded → (b.fallOffBlock g).1 = (b.unchecked.fallOffBlock h).1) := by
  cases near with
  | same held => exact ⟨.same held, fun _ => rfl⟩
  | more broken fewer current fallOff supports =>
      refine ⟨?_, fun held => absurd held broken⟩
      unfold fallOffBlock
      cases first : g.fallOff with
      | none =>
          rw [first] at fallOff
          rw [Option.isNone_iff_eq_none.mp (Option.isSome_eq_false_iff.mp fallOff.symm)]
          refine .more broken ?_ current rfl supports
          unfold Graph.addBlock
          simpa only [Array.size_push] using Nat.succ_lt_succ fewer
      | some id =>
          rw [first] at fallOff
          obtain ⟨other, second⟩ := Option.isSome_iff_exists.mp fallOff.symm
          rw [second]
          refine .more broken fewer current ?_ supports
          rw [first, second]
          rfl

theorem near_intern (near : Near guarded g h) (op : SupportDef) :
    Near guarded (g.intern op).2 (h.intern op).2 ∧ (g.intern op).1 = (h.intern op).1 := by
  cases near with
  | same held => exact ⟨.same held, rfl⟩
  | more broken fewer current fallOff supports =>
      unfold Graph.intern
      rw [supports]
      split
      · exact ⟨.more broken fewer current fallOff supports, rfl⟩
      · exact ⟨.more broken fewer current fallOff rfl, rfl⟩

theorem size_propagateBlock (g : Graph) : g.blocks.size ≤ g.propagateBlock.2.blocks.size := by
  unfold Graph.propagateBlock
  split
  · exact Nat.le_refl _
  · unfold Graph.addBlock
    simpa only [Array.size_push] using Nat.le_succ _

theorem supports_propagateBlock (g : Graph) :
    g.propagateBlock.2.fallOff = g.fallOff ∧ g.propagateBlock.2.supports = g.supports := by
  unfold Graph.propagateBlock
  split
  · exact ⟨rfl, rfl⟩
  · exact ⟨rfl, rfl⟩

/-- A check adds blocks, and nothing else that the other run could tell. -/
theorem near_passOn (near : Near guarded g h) (isOpen : g.current.isSome = true) {other : Prop}
    (broken : ¬ other) : Alike (Near other) (b.passOn g) (.ok h) := by
  obtain ⟨fewer, current, fallOff, supports⟩ : h.blocks.size ≤ g.blocks.size ∧
      g.current.isSome = h.current.isSome ∧ g.fallOff.isSome = h.fallOff.isSome ∧
      g.supports = h.supports := by
    cases near with
    | same held => exact ⟨Nat.le_refl _, rfl, rfl, rfl⟩
    | more _ fewer current fallOff supports =>
        exact ⟨Nat.le_of_lt fewer, current, fallOff, supports⟩
  have stays := current_propagateBlock g
  have grows := size_propagateBlock g
  have keeps := supports_propagateBlock g
  obtain ⟨id, here⟩ := Option.isSome_iff_exists.mp isOpen
  unfold passOn
  generalize g.propagateBlock = exit at stays grows keeps
  obtain ⟨exit, g'⟩ := exit
  dsimp only at stays grows keeps
  have same : (g'.addBlock none (.unreachable "")).2.current = some id := stays.trans here
  dsimp only
  rw [terminate, same]
  refine .ok (.more broken ?_ ?_ ?_ (keeps.2.trans supports))
  · unfold Graph.setTerminator Graph.addBlock
    simp only [Array.size_modify, Array.size_push]
    omega
  · exact isOpen.symm.trans current
  · exact (congrArg Option.isSome keeps.1).trans fallOff

/-! ### Calls -/

/-- If the value is a call of a function that may raise, the statement behind it jumps on the pending
flag. -/
def Guarded (b : Body) (index : Nat) (value : Tree.Expr) : Prop :=
  ∀ callee args span id, value = .call callee args span →
    b.scope.globals.target? callee.name callee.span = .ok (some (.function id true)) →
    b.testsFlag (index + 1) = true

theorem near_call (near : Near guarded g h) (dest : Place) (callee : Callee)
    (args : List Tree.Expr) :
    Alike (Near guarded) (b.call dest callee args g) (b.unchecked.call dest callee args h) := by
  unfold call
  change Alike _ _ (b.scope.unchecked.operands args >>= _)
  rw [b.scope.operands_unchecked args]
  exact .bind_same fun _items _lowered => near_pushOp near _

/-- A value that calls no function is guarded. -/
theorem guarded_of_target {index : Nat} {callee : Tree.Ident} {args : List Tree.Expr} {span : Span}
    {target : Option Globals.Target}
    (found : b.scope.globals.target? callee.name callee.span = .ok target)
    (other : ∀ id, target ≠ some (.function id true)) :
    b.Guarded index (.call callee args span) := by
  intro callee' args' span' id same known
  cases same
  cases found.symm.trans known
  exact absurd rfl (other id)

theorem near_assign (checks : b.scope.globals.options.checkCalls = true) (near : Near guarded g h)
    (index : Nat) (dest : Place) (value : Tree.Expr) :
    Alike (Near (guarded ∧ b.Guarded index value)) (b.assign index dest value g)
      (b.unchecked.assign index dest value h) := by
  have plain : (∀ callee args span, value ≠ .call callee args span) →
      Alike (Near (guarded ∧ b.Guarded index value))
        (b.scope.operand value >>= fun o => b.pushOp (.assign dest o) g)
        (b.unchecked.scope.operand value >>= fun o => b.unchecked.pushOp (.assign dest o) h) := by
    intro noCall
    change Alike _ _ (b.scope.unchecked.operand value >>= _)
    rw [b.scope.operand_unchecked value]
    refine .bind_same fun _operand _lowered => ?_
    have always : b.Guarded index value :=
      fun callee args span _ same => absurd same (noCall callee args span)
    exact near_pushOp (near.congr (iff_self_and.mpr fun _ => always)) _
  cases value with
  | name | literal | prim | isNot | project | field | exception =>
      exact plain fun _ _ _ => Tree.Expr.noConfusion
  | call callee args span =>
      unfold assign
      change Alike _ _ (b.scope.globals.target? callee.name callee.span >>= _)
      refine .bind_same fun target found => ?_
      have kept : (∀ id, target ≠ some (.function id true)) →
          (guarded ↔ guarded ∧ b.Guarded index (.call callee args span)) :=
        fun other => iff_self_and.mpr fun _ => guarded_of_target found other
      cases target with
      | none => exact .error _
      | some target =>
          cases target with
          | constructor union tag =>
              change Alike _ _ (b.scope.unchecked.operands args >>= _)
              rw [b.scope.operands_unchecked args]
              exact .bind_same fun _items _lowered =>
                near_pushOp (near.congr (kept fun _ => nofun)) _
          | support op =>
              obtain ⟨nearToo, same⟩ := near_intern near op
              dsimp only
              rw [same]
              split
              · exact near_call (nearToo.congr (kept fun _ => nofun)) _ _ _
              · exact .error _
          | function id mayRaise =>
              -- Here alone the runs part: the first adds a check behind a call without a guard.
              refine (near_call near dest (.function id) args).bind ?_
              intro g' h' called near'
              change Alike _ _ (if (mayRaise && false && !b.testsFlag (index + 1)) = true then _
                else .ok h')
              rw [Bool.and_false, Bool.false_and, if_neg Bool.false_ne_true, checks, Bool.and_true]
              split
              · rename_i unguarded
                obtain ⟨raises, untested⟩ := Bool.and_eq_true_iff.mp unguarded
                refine near_passOn near' (isSome_of_call called) ?_
                rintro ⟨_, calls⟩
                rw [raises] at found
                rw [calls callee args span id rfl found] at untested
                cases untested
              · rename_i fine
                refine .ok (near'.congr (iff_self_and.mpr fun _ => ?_))
                intro callee' args' span' id' same known
                cases same
                cases found.symm.trans known
                simpa using fine

/-! ### Statements -/

/-- If the statement calls a function that may raise, the one behind it jumps on the pending flag. -/
def StmtGuarded (b : Body) (index : Nat) (stmt : Tree.Stmt) : Prop :=
  ∀ value, stmt.kind.value? = some value → b.Guarded index value

/-- So it is with all of the statements, of which the first has that number. -/
def AllGuarded (b : Body) (index : Nat) (stmts : List Tree.Stmt) : Prop :=
  ∀ k stmt, stmts[k]? = some stmt → b.StmtGuarded (index + k) stmt

theorem stmtGuarded_of_none {index : Nat} {stmt : Tree.Stmt} (none : stmt.kind.value? = none) :
    b.StmtGuarded index stmt := by
  intro value found
  cases none.symm.trans found

theorem stmtGuarded_iff {index : Nat} {stmt : Tree.Stmt} {value : Tree.Expr}
    (some : stmt.kind.value? = some value) :
    b.StmtGuarded index stmt ↔ b.Guarded index value := by
  constructor
  · exact fun all => all value some
  · intro here other also
    cases some.symm.trans also
    exact here

theorem allGuarded_cons {index : Nat} {stmt : Tree.Stmt} {rest : List Tree.Stmt} :
    b.AllGuarded index (stmt :: rest) ↔
      b.StmtGuarded index stmt ∧ b.AllGuarded (index + 1) rest := by
  constructor
  · intro all
    refine ⟨all 0 stmt rfl, fun k other found => ?_⟩
    rw [Nat.add_assoc, Nat.add_comm 1 k]
    exact all (k + 1) other found
  · rintro ⟨first, later⟩ k other found
    cases k with
    | zero =>
        cases found
        exact first
    | succ k =>
        rw [Nat.add_comm k 1, ← Nat.add_assoc]
        exact later k other found

theorem near_statement (checks : b.scope.globals.options.checkCalls = true)
    (near : Near guarded g h) (index : Nat) (stmt : Tree.Stmt) :
    Alike (Near (guarded ∧ b.StmtGuarded index stmt)) (b.statement index stmt g)
      (b.unchecked.statement index stmt h) := by
  obtain ⟨kind, region⟩ := stmt
  have plain : kind.value? = none → (guarded ↔ guarded ∧ b.StmtGuarded index ⟨kind, region⟩) :=
    fun none => iff_self_and.mpr fun _ => stmtGuarded_of_none none
  have stores : ∀ {value}, kind.value? = some value →
      (guarded ∧ b.Guarded index value ↔ guarded ∧ b.StmtGuarded index ⟨kind, region⟩) :=
    fun some => and_congr_right fun _ => (stmtGuarded_iff some).symm
  unfold statement
  cases kind with
  | declare name type init =>
      have locals : b.unchecked.scope.local? name.name = b.scope.local? name.name := rfl
      dsimp only
      rw [locals]
      cases b.scope.local? name.name with
      | none => exact .error _
      | some id =>
          refine (near_pushOp near (.declare id)).bind ?_
          intro g' h' _pushed near'
          cases init with
          | none => exact .ok (near'.congr (plain rfl))
          | some value =>
              exact (near_assign checks near' index _ value).mono fun _ _ near =>
                near.congr (stores rfl)
  | assign target value =>
      change Alike _ _ (b.scope.place target >>= _)
      refine .bind_same fun dest _placed => ?_
      exact (near_assign checks near index dest value).mono fun _ _ near => near.congr (stores rfl)
  | jump cond target location =>
      have near := near.congr (plain rfl)
      change Alike _ _ (b.scope.unchecked.operand cond >>= _)
      rw [b.scope.operand_unchecked cond]
      refine .bind_same fun cond _lowered => ?_
      change Alike _ _ (b.blockOf target >>= _)
      refine .bind_same fun thenBlock _found => ?_
      change Alike _ _ (if index + 1 < b.size then _ else _)
      split
      · change Alike _ _ (b.blockOf (index + 1) >>= _)
        exact .bind_same fun elseBlock _found => near_terminate near fun _ => rfl
      · obtain ⟨nearToo, same⟩ := near_fallOffBlock (b := b) near
        exact near_terminate nearToo fun held =>
          congrArg (Terminator.branch cond thenBlock) (same held)
  | goto target =>
      change Alike _ _ (b.blockOf target >>= _)
      exact .bind_same fun id _found => near_terminate (near.congr (plain rfl)) fun _ => rfl
  | finish => exact near_terminate (near.congr (plain rfl)) fun _ => rfl
  | arbitrary => exact near_terminate (near.congr (plain rfl)) fun _ => rfl
  | unreachable => exact near_terminate (near.congr (plain rfl)) fun _ => rfl

theorem near_statements (checks : b.scope.globals.options.checkCalls = true)
    (stmts : List Tree.Stmt) : ∀ {guarded : Prop} {g h : Graph} (index : Nat), Near guarded g h →
    Alike (Near (guarded ∧ b.AllGuarded index stmts)) (b.statements index stmts g)
      (b.unchecked.statements index stmts h) := by
  induction stmts with
  | nil =>
      intro guarded g h index near
      have none : b.AllGuarded index [] := fun _ _ impossible => nomatch impossible
      exact .ok (near.congr (iff_self_and.mpr fun _ => none))
  | cons stmt rest ih =>
      intro guarded g h index near
      rw [statements, statements]
      refine (near_statement checks (near_openBlock near index) index stmt).bind ?_
      intro g' h' _done near'
      refine (ih (index + 1) near').mono fun _ _ near => near.congr ?_
      rw [allGuarded_cons, and_assoc]

theorem near_graph (checks : b.scope.globals.options.checkCalls = true)
    (supports : List SupportDef) :
    Alike (Near (b.AllGuarded 0 b.scope.decl.body)) (b.graph supports)
      (b.unchecked.graph supports) := by
  unfold graph
  change Alike _ _ (checkTargets b.scope.name b.size b.scope.decl.body >>= _)
  refine .bind_same fun _ _checked => ?_
  refine (near_statements checks b.scope.decl.body 0 (.same True.intro)).bind ?_
  intro g h _done near
  exact .ok (near_close (near.congr (iff_of_eq (true_and _))))

end Body

/-! ### Bodies and functions -/

/-- What both runs make of a part of the module, equal under that condition, and the support
operations behind it. -/
def Twins {α : Type} (guarded : Prop) (made other : α × List SupportDef) : Prop :=
  (made.1 = other.1 ↔ guarded) ∧ made.2 = other.2

theorem twins_lowerBody {s : Scope} (checks : s.globals.options.checkCalls = true)
    (supports : List SupportDef) :
    Alike (Twins (s.cut.AllGuarded 0 s.decl.body)) (lowerBody s supports)
      (lowerBody s.unchecked supports) := by
  unfold lowerBody
  change Alike _ _ (if s.decl.body.isEmpty then _ else _)
  split
  · rename_i empty
    refine .ok ⟨iff_of_true rfl ?_, rfl⟩
    rw [List.isEmpty_iff.mp empty]
    exact fun _ _ impossible => nomatch impossible
  · refine (Body.near_graph (b := s.cut) checks supports).bind ?_
    intro g h _done near
    cases near with
    | same held => exact .ok ⟨iff_of_true rfl held, rfl⟩
    | more broken fewer current fallOff supports =>
        refine .ok ⟨iff_of_false ?_ broken, supports⟩
        intro equal
        have sizes := congrArg List.length equal
        simp only [Array.length_toList] at sizes
        omega

/-- Every statement of the function that calls one that may raise is guarded. -/
def Globals.Guards (g : Globals) (f : Tree.FunctionDecl) : Prop :=
  (Scope.cut ⟨g, f, []⟩).AllGuarded 0 f.body

variable {g : Globals}

theorem twins_lowerFunction (checks : g.options.checkCalls = true) (f : Tree.FunctionDecl)
    (supports : List SupportDef) :
    Alike (Twins (g.Guards f)) (lowerFunction g f supports)
      (lowerFunction g.unchecked f supports) := by
  unfold lowerFunction
  change Alike _ _ (g.signature f >>= _)
  refine .bind_same fun signature _signed => ?_
  refine .bind_same fun params _declared => ?_
  rw [declareLocals_unchecked]
  refine .bind_same fun locals _declared => ?_
  refine (twins_lowerBody (s := ⟨g, f, locals⟩) checks supports).bind ?_
  rintro ⟨blocks, after⟩ ⟨blocks', after'⟩ _lowered ⟨equal, same⟩
  refine .ok ⟨?_, same⟩
  rw [FunctionDef.mk.injEq]
  constructor
  · rintro ⟨_, _, _, _, blocksEqual, _, _⟩
    exact equal.mp blocksEqual
  · intro held
    exact ⟨rfl, rfl, rfl, rfl, equal.mpr held, rfl, rfl⟩

theorem twins_lowerFunctions (checks : g.options.checkCalls = true)
    (fs : List Tree.FunctionDecl) : ∀ supports : List SupportDef,
    Alike (Twins (∀ f ∈ fs, g.Guards f)) (lowerFunctions g fs supports)
      (lowerFunctions g.unchecked fs supports) := by
  induction fs with
  | nil =>
      intro supports
      exact .ok ⟨iff_of_true rfl (List.forall_mem_nil _), rfl⟩
  | cons f rest ih =>
      intro supports
      rw [lowerFunctions, lowerFunctions]
      refine (twins_lowerFunction checks f supports).bind ?_
      rintro ⟨first, after⟩ ⟨first', after'⟩ _lowered ⟨equal, same⟩
      cases same
      refine (ih after).bind ?_
      rintro ⟨others, last⟩ ⟨others', last'⟩ _done ⟨equalToo, same⟩
      refine .ok ⟨?_, same⟩
      rw [List.forall_mem_cons, List.cons.injEq, equal, equalToo]

theorem alike_declareGlobals (m : Tree.Module) (symbols : SymbolTable) :
    Alike (fun made other => other = (made.1.unchecked, made.2) ∧ made.1.options = ⟨true⟩)
      (declareGlobals m symbols ⟨true⟩) (declareGlobals m symbols ⟨false⟩) := by
  unfold declareGlobals
  refine .bind_same fun numbered _first => ?_
  exact .bind_same fun defined _second => .ok ⟨rfl, rfl⟩

/-! ### Names -/

/-- A function with a signature is what its name stands for in a call. -/
theorem Globals.target?_of_signature {f : Tree.FunctionDecl} (signed : Succeeds (g.signature f))
    (span : Span) : g.target? f.name.name span =
      .ok ((g.numbers.functions.lookup f.name.name).map fun id =>
        .function id (g.mayRaise f.name.name)) := by
  obtain ⟨types, signed⟩ := signed
  unfold signature at signed
  dsimp only at signed
  split at signed
  · cases signed
  · rename_i info known
    split at signed
    · cases signed
    · rename_i params result typeSpan kind _type unbound
      have noVariant : g.variant? f.name.name = none := by
        simp [variant?, known, kind]
      unfold target?
      rw [noVariant, known]
      dsimp only
      split
      · rename_i symbol _kind value
        exact absurd value (unbound symbol)
      · rfl
      · rename_i other _
        exact absurd kind other
    · cases signed

end Lowering

/-! ### Modules -/

namespace Tree

variable {m : Module}

theorem Module.exists_function_of_raising {name : String} (raises : name ∈ m.raising) :
    ∃ f ∈ m.functions, f.name.name = name := by
  have within : ∀ (rounds : Nat) (known : List String),
      known ⊆ m.functions.map (·.name.name) →
      m.raisingWithin rounds known ⊆ m.functions.map (·.name.name) := by
    intro rounds
    induction rounds with
    | zero => exact fun _ inModule => inModule
    | succ rounds ih =>
        intro known inModule
        unfold raisingWithin
        split
        · exact inModule
        · rename_i fresh _some
          exact ih _ (List.append_subset.mpr ⟨inModule, List.filter_subset_self _⟩)
  have start : (m.functions.filter FunctionDecl.raises).map (·.name.name) ⊆
      m.functions.map (·.name.name) :=
    List.map_subset _ (List.filter_subset_self _)
  exact List.mem_map.mp (within _ _ start raises)

/-- Wherever the right-hand side of a statement calls a function that may raise, the next statement
jumps on a condition of that kind. -/
def Module.FollowsCalls (tests : Expr → Prop) (m : Module) : Prop :=
  ∀ f ∈ m.functions, ∀ (index : Nat) (stmt : Stmt) (callee : Ident) (args : List Expr)
    (span : Span), f.body[index]? = some stmt →
    stmt.kind.value? = some (.call callee args span) → callee.name ∈ m.raising →
    ∃ cond target location region,
      f.body[index + 1]? = some ⟨.jump cond target location, region⟩ ∧ tests cond

/-- The condition is the pending flag itself. -/
def Expr.IsFlag (cond : Expr) : Prop := ∃ span, cond = .exception .pending span

/-- The condition is the pending flag, or its negation. -/
def Expr.AsksFlag (cond : Expr) : Prop :=
  cond.IsFlag ∨ ∃ op span region, op.name = "not" ∧ cond = .prim op [.exception .pending region] span

end Tree

namespace Lowering

theorem Body.testsFlag_iff {b : Body} {index : Nat} : b.testsFlag index = true ↔
    ∃ cond target location region,
      b.stmt? index = some ⟨.jump cond target location, region⟩ ∧ cond.IsFlag := by
  constructor
  · intro tests
    obtain ⟨target, span, location, region, found⟩ := exists_jumpsOnFlag tests
    exact ⟨_, target, location, region, found, span, rfl⟩
  · rintro ⟨cond, target, location, region, found, span, rfl⟩
    rw [testsFlag, found]

theorem succeeds_of_lowerFunctions {g : Globals} {fs : List Tree.FunctionDecl} :
    ∀ {supports : List SupportDef}, Succeeds (lowerFunctions g fs supports) →
      ∀ f ∈ fs, Succeeds (g.signature f) := by
  induction fs with
  | nil => exact fun _ => List.forall_mem_nil _
  | cons f rest ih =>
      intro supports lowered
      obtain ⟨⟨first, after⟩, here, lowered⟩ := succeeds_bind.mp lowered
      obtain ⟨others, later, _done⟩ := succeeds_bind.mp lowered
      rw [List.forall_mem_cons]
      refine ⟨?_, ih ⟨others, later⟩⟩
      obtain ⟨signature, signed, _lowered⟩ := bind_ok here
      exact ⟨signature, signed⟩

/-- Where all functions of a module are lowered, the names of those that may raise are exactly the
ones whose calls get a check. -/
theorem exists_target?_iff {m : Tree.Module} {symbols : SymbolTable} {options : Options}
    {globals : Globals} {types : Program}
    (declared : declareGlobals m symbols options = .ok (globals, types))
    (signed : ∀ f ∈ m.functions, Succeeds (globals.signature f)) (name : String) (span : Span) :
    (∃ id, globals.target? name span = .ok (some (.function id true))) ↔ name ∈ m.raising := by
  obtain ⟨numbered, first, declared⟩ := bind_ok declared
  obtain ⟨⟨defined, registers⟩, second, done⟩ := bind_ok declared
  cases done
  constructor
  · rintro ⟨id, found⟩
    exact List.contains_iff_mem.mp (Globals.target?_function found).2.symm
  · intro raises
    obtain ⟨f, member, rfl⟩ := Tree.Module.exists_function_of_raising raises
    have hasNumber : (defined.numbers.functions.lookup f.name.name).isSome = true := by
      rw [defineAll_numbers second, isSome_numberAll first]
      exact Or.inr ⟨f, Tree.Module.mem_functions.mp member, rfl⟩
    obtain ⟨id, number⟩ := Option.isSome_iff_exists.mp hasNumber
    refine ⟨id, ?_⟩
    rw [Globals.target?_of_signature (signed f member)]
    dsimp only
    rw [number, Globals.mayRaise, List.contains_iff_mem.mpr raises]
    rfl

theorem guards_iff {m : Tree.Module} {symbols : SymbolTable} {options : Options}
    {globals : Globals} {types : Program}
    (declared : declareGlobals m symbols options = .ok (globals, types))
    (signed : ∀ f ∈ m.functions, Succeeds (globals.signature f)) :
    (∀ f ∈ m.functions, globals.Guards f) ↔ m.FollowsCalls Tree.Expr.IsFlag := by
  have raises := exists_target?_iff declared signed
  constructor
  · intro guards f member index stmt callee args span found value mayRaise
    obtain ⟨id, known⟩ := (raises callee.name callee.span).mpr mayRaise
    have tests := guards f member index stmt found _ value callee args span id rfl known
    rw [Nat.zero_add] at tests
    exact Body.testsFlag_iff.mp tests
  · intro follows f member index stmt found value isValue callee args span id same known
    cases same
    rw [Nat.zero_add]
    apply Body.testsFlag_iff.mpr
    exact follows f member index stmt callee args span found isValue
      ((raises callee.name callee.span).mp ⟨id, known⟩)

/-- The checks of calls never decide whether a module is accepted, nor for which fault it is not.
They leave its program as it is exactly if every statement that calls a function that may raise is
followed by a jump on the pending flag itself. -/
theorem generate_eq_iff (m : Tree.Module) (symbols : SymbolTable) :
    (∃ fault, generate m symbols ⟨true⟩ = .error fault ∧
      generate m symbols ⟨false⟩ = .error fault) ∨
    ∃ checked unchecked, generate m symbols ⟨true⟩ = .ok checked ∧
      generate m symbols ⟨false⟩ = .ok unchecked ∧
      (checked = unchecked ↔ m.FollowsCalls Tree.Expr.IsFlag) := by
  apply Alike.cases_ok
  unfold generate
  refine (alike_declareGlobals m symbols).bind ?_
  rintro ⟨globals, types⟩ _ declared ⟨rfl, options⟩
  have checks : globals.options.checkCalls = true := congrArg Options.checkCalls options
  refine (twins_lowerFunctions checks m.functions []).bind ?_
  rintro ⟨functions, supports⟩ ⟨functions', supports'⟩ lowered ⟨equal, same⟩
  cases same
  have signed := succeeds_of_lowerFunctions ⟨_, lowered⟩
  refine .ok ?_
  rw [← guards_iff declared signed, ← equal, Program.mk.injEq]
  constructor
  · rintro ⟨_, _, _, _, functionsEqual⟩
    exact functionsEqual
  · intro functionsEqual
    exact ⟨rfl, rfl, rfl, rfl, functionsEqual⟩

/-! ### A jump on the negated flag -/

/-- The text of a call whose exception the next statement handles, by a jump on the negated flag. -/
def handlerText : SourceText := .ofString "handler" (String.join [
  "val zf : (%unit) -> %unit\n",
  "fn zf(zx) \x7b have_exception = true; end; \x7d\n",
  "val zg : (%unit) -> %unit\n",
  "fn zg(zx) \x7b return = zf(()); jump @not(have_exception) goto 3; ",
  "have_exception = false; end; \x7d\n"])

def asksFlag : Tree.Expr → Bool
  | .exception .pending _ => true
  | .prim op [.exception .pending _] _ => op.name == "not"
  | _ => false

theorem asksFlag_sound {cond : Tree.Expr} (asks : asksFlag cond = true) : cond.AsksFlag := by
  unfold asksFlag at asks
  split at asks
  · rename_i span
    exact Or.inl ⟨span, rfl⟩
  · rename_i op region span
    exact Or.inr ⟨op, span, region, beq_iff_eq.mp asks, rfl⟩
  · cases asks

def jumpAsksFlag : Option Tree.Stmt → Bool
  | some ⟨.jump cond _ _, _⟩ => asksFlag cond
  | _ => false

theorem jumpAsksFlag_sound {stmt : Option Tree.Stmt} (asks : jumpAsksFlag stmt = true) :
    ∃ cond target location region,
      stmt = some ⟨.jump cond target location, region⟩ ∧ cond.AsksFlag := by
  unfold jumpAsksFlag at asks
  split at asks
  · exact ⟨_, _, _, _, rfl, asksFlag_sound asks⟩
  · cases asks

/-- Whether a statement of the body that calls one of the functions is followed by a jump on the
pending flag or its negation. -/
def followsCall (raising : List String) (body : List Tree.Stmt) (index : Nat) : Bool :=
  match body[index]?.bind (·.kind.value?) with
  | some (.call callee _ _) => !raising.contains callee.name || jumpAsksFlag body[index + 1]?
  | _ => true

theorem followsCalls_of_all {m : Tree.Module}
    (all : (m.functions.all fun f =>
      (List.range f.body.length).all (followsCall m.raising f.body)) = true) :
    m.FollowsCalls Tree.Expr.AsksFlag := by
  intro f member index stmt callee args span found value raises
  have bound := (List.getElem?_eq_some_iff.mp found).1
  have here := List.all_eq_true.mp (List.all_eq_true.mp all f member) index
    (List.mem_range.mpr bound)
  unfold followsCall at here
  rw [found, Option.bind_some, value] at here
  dsimp only at here
  rw [List.contains_iff_mem.mpr raises] at here
  exact jumpAsksFlag_sound here

/-- Whether the text handles the exceptions of its calls, and yet some of them get a check. -/
def bypassesHandler (source : SourceText) : Bool :=
  match source.linked with
  | .error _ => false
  | .ok l =>
      (l.tree.functions.all fun f =>
        (List.range f.body.length).all (followsCall l.tree.raising f.body)) &&
      match generate l.tree l.symbols ⟨true⟩, generate l.tree l.symbols ⟨false⟩ with
      | .ok checked, .ok unchecked =>
          checked.functions.map (·.blocks.length) != unchecked.functions.map (·.blocks.length)
      | _, _ => false

theorem exists_of_bypassesHandler {source : SourceText} (bypasses : bypassesHandler source = true) :
    ∃ l checked unchecked, source.linked = .ok l ∧ l.tree.FollowsCalls Tree.Expr.AsksFlag ∧
      generate l.tree l.symbols ⟨true⟩ = .ok checked ∧
      generate l.tree l.symbols ⟨false⟩ = .ok unchecked ∧ checked ≠ unchecked := by
  unfold bypassesHandler at bypasses
  split at bypasses
  · cases bypasses
  · rename_i l isLinked
    obtain ⟨follows, differ⟩ := Bool.and_eq_true_iff.mp bypasses
    split at differ
    · rename_i checked unchecked first second
      refine ⟨l, checked, unchecked, isLinked, followsCalls_of_all follows, first, second, ?_⟩
      rintro rfl
      exact bne_iff_ne.mp differ rfl
    · cases differ

theorem bypassesHandler_handlerText : bypassesHandler handlerText = true := by
  decide +kernel

/-- A check can come between a call and the jump that handles its exceptions. -/
theorem exists_bypassed_handler : ¬ ∀ (source : SourceText) (l : LinkedModule),
    source.linked = .ok l → l.tree.FollowsCalls Tree.Expr.AsksFlag →
    generate l.tree l.symbols ⟨true⟩ = generate l.tree l.symbols ⟨false⟩ := by
  intro same
  obtain ⟨l, checked, unchecked, isLinked, follows, first, second, differ⟩ :=
    exists_of_bypassesHandler bypassesHandler_handlerText
  have equal := same handlerText l isLinked follows
  rw [first, second] at equal
  cases equal
  exact differ rfl

end Lowering

end JumpIR
