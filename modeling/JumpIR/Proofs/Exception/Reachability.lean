import Mathlib.Logic.Relation
import Mathlib.Order.WellFounded
import JumpIR.Proofs.Lowering.Raising
import JumpIR.Tree.Module

/-!
# Raising as reachability

A function may raise exactly if a chain of calls leads from it to a function that sets the pending
flag. The rounds that find these functions end, whatever order the functions are asked in, and every
order finds the same names. Main statement: `mem_raising_iff_reaches`.
-/

set_option autoImplicit false

namespace JumpIR.Tree

/-! ### Calls in a body -/

/-- The first expression is the second one, or stands inside it at some depth. -/
inductive Expr.Inside (e : Expr) : Expr → Prop where
  | self : Inside e e
  | callArg {callee args span arg} (member : arg ∈ args) (inside : Inside e arg) :
      Inside e (.call callee args span)
  | primArg {op args span arg} (member : arg ∈ args) (inside : Inside e arg) :
      Inside e (.prim op args span)
  | tested {value variant span} (inside : Inside e value) : Inside e (.isNot value variant span)
  | projected {value variant span} (inside : Inside e value) :
      Inside e (.project value variant span)
  | selected {value index span} (inside : Inside e value) : Inside e (.field value index span)

/-- The expression calls a function of that name at some depth. -/
def Expr.Mentions (e : Expr) (name : String) : Prop :=
  ∃ callee args span, callee.name = name ∧ (Expr.call callee args span).Inside e

theorem Expr.mem_allCalls {es : List Expr} {name : String} :
    name ∈ Expr.allCalls es ↔ ∃ e ∈ es, name ∈ e.calls := by
  induction es with
  | nil => simp [Expr.allCalls]
  | cons e rest ih => simp [Expr.allCalls, ih]

private theorem Expr.mem_calls_of_inside {call e : Expr} (inside : call.Inside e) {name : String}
    (member : name ∈ call.calls) : name ∈ e.calls := by
  induction inside with
  | self => exact member
  | callArg inArgs _inside ih =>
      rw [Expr.calls]
      exact List.mem_cons_of_mem _ (Expr.mem_allCalls.mpr ⟨_, inArgs, ih⟩)
  | primArg inArgs _inside ih =>
      rw [Expr.calls]
      exact Expr.mem_allCalls.mpr ⟨_, inArgs, ih⟩
  | tested _inside ih => rwa [Expr.calls]
  | projected _inside ih => rwa [Expr.calls]
  | selected _inside ih => rwa [Expr.calls]

mutual

private theorem Expr.mentions_of_mem {name : String} :
    ∀ e : Expr, name ∈ e.calls → e.Mentions name
  | .name n span, member => by simp [Expr.calls] at member
  | .literal value span, member => by simp [Expr.calls] at member
  | .exception part span, member => by simp [Expr.calls] at member
  | .call callee args span, member => by
      rw [Expr.calls, List.mem_cons] at member
      rcases member with rfl | member
      · exact ⟨callee, args, span, rfl, .self⟩
      · obtain ⟨arg, inArgs, callee', args', span', named, inside⟩ :=
          Expr.mentions_of_mem_all args member
        exact ⟨callee', args', span', named, .callArg inArgs inside⟩
  | .prim op args span, member => by
      rw [Expr.calls] at member
      obtain ⟨arg, inArgs, callee', args', span', named, inside⟩ :=
        Expr.mentions_of_mem_all args member
      exact ⟨callee', args', span', named, .primArg inArgs inside⟩
  | .isNot value variant span, member => by
      rw [Expr.calls] at member
      obtain ⟨callee, args, span', named, inside⟩ := Expr.mentions_of_mem value member
      exact ⟨callee, args, span', named, .tested inside⟩
  | .project value variant span, member => by
      rw [Expr.calls] at member
      obtain ⟨callee, args, span', named, inside⟩ := Expr.mentions_of_mem value member
      exact ⟨callee, args, span', named, .projected inside⟩
  | .field value index span, member => by
      rw [Expr.calls] at member
      obtain ⟨callee, args, span', named, inside⟩ := Expr.mentions_of_mem value member
      exact ⟨callee, args, span', named, .selected inside⟩

private theorem Expr.mentions_of_mem_all {name : String} :
    ∀ es : List Expr, name ∈ Expr.allCalls es → ∃ e ∈ es, e.Mentions name
  | [], member => by simp [Expr.allCalls] at member
  | e :: rest, member => by
      rw [Expr.allCalls, List.mem_append] at member
      rcases member with member | member
      · exact ⟨e, List.mem_cons_self, Expr.mentions_of_mem e member⟩
      · obtain ⟨other, inRest, mentions⟩ := Expr.mentions_of_mem_all rest member
        exact ⟨other, List.mem_cons_of_mem e inRest, mentions⟩

end

theorem Expr.mem_calls {e : Expr} {name : String} : name ∈ e.calls ↔ e.Mentions name := by
  constructor
  · exact Expr.mentions_of_mem e
  · rintro ⟨callee, args, span, rfl, inside⟩
    apply Expr.mem_calls_of_inside inside
    rw [Expr.calls]
    exact List.mem_cons_self

/-- The statement evaluates the expression: as an initial value, an assigned value or a
condition. -/
inductive StmtKind.Evaluates : StmtKind → Expr → Prop where
  | init {name type e} : Evaluates (.declare name type (some e)) e
  | assign {target e} : Evaluates (.assign target e) e
  | jump {e target location} : Evaluates (.jump e target location) e

theorem Stmt.mem_calls {s : Stmt} {name : String} :
    name ∈ s.calls ↔ ∃ e, s.kind.Evaluates e ∧ e.Mentions name := by
  obtain ⟨kind, span⟩ := s
  unfold Stmt.calls
  constructor
  · intro member
    split at member
    · rename_i init kind
      exact ⟨init, kind ▸ .init, Expr.mem_calls.mp member⟩
    · rename_i value kind
      exact ⟨value, kind ▸ .assign, Expr.mem_calls.mp member⟩
    · rename_i cond _target _location kind
      exact ⟨cond, kind ▸ .jump, Expr.mem_calls.mp member⟩
    · cases member
  · rintro ⟨e, evaluates, mentions⟩
    have member := Expr.mem_calls.mpr mentions
    cases evaluates <;> exact member

/-! ### Chains of calls -/

/-- The body of the function calls the name, in some expression and at some depth. -/
def FunctionDecl.Mentions (f : FunctionDecl) (name : String) : Prop :=
  ∃ stmt ∈ f.body, ∃ e, stmt.kind.Evaluates e ∧ e.Mentions name

/-- The body of the function has a statement that sets the pending flag to true. -/
def FunctionDecl.SetsFlag (f : FunctionDecl) : Prop :=
  ∃ stmt ∈ f.body, ∃ span, stmt.kind = .assign (.exception .pending) (.literal (.bool true) span)

theorem FunctionDecl.mem_calls {f : FunctionDecl} {name : String} :
    name ∈ f.calls ↔ f.Mentions name := by
  simp only [FunctionDecl.calls, List.mem_flatMap, Stmt.mem_calls, FunctionDecl.Mentions]

theorem FunctionDecl.raises_iff {f : FunctionDecl} : f.raises = true ↔ f.SetsFlag := by
  rw [FunctionDecl.raises, List.any_eq_true]
  apply exists_congr
  intro stmt
  refine and_congr_right fun _inBody => ?_
  unfold Stmt.raises
  constructor
  · intro raises
    split at raises
    · rename_i span kind
      exact ⟨span, kind⟩
    · cases raises
  · rintro ⟨span, kind⟩
    rw [kind]

namespace Module

/-- The second function has a body in the module, and the first one's body calls it. -/
def Invokes (m : Module) (f g : FunctionDecl) : Prop :=
  g ∈ m.functions ∧ f.Mentions g.name.name

/-- A chain of calls leads from a function of that name to one that sets the pending flag. -/
def Reaches (m : Module) (name : String) : Prop :=
  ∃ f ∈ m.functions, f.name.name = name ∧
    ∃ g, Relation.ReflTransGen m.Invokes f g ∧ g.SetsFlag

/-! ### Rounds -/

/-- The callers that a round adds when it asks the functions in that order. -/
def newlyRaisingIn (m : Module) (order known : List String) : List String :=
  order.filter fun name => !known.contains name && (m.callsOf name).any known.contains

/-- The names that the rounds start from. -/
def raisingDirectly (m : Module) : List String :=
  (m.functions.filter FunctionDecl.raises).map (·.name.name)

/-- A round that asks the functions in some order, and finds callers to add. -/
inductive Round (m : Module) (known : List String) : List String → Prop where
  | adds {order} (every : order.Perm (m.functions.map (·.name.name)))
      (found : m.newlyRaisingIn order known ≠ []) :
      Round m known (known ++ m.newlyRaisingIn order known)

variable {m : Module} {known next : List String}

private theorem newlyRaisingIn_perm {order : List String}
    (every : order.Perm (m.functions.map (·.name.name))) :
    (m.newlyRaisingIn order known).Perm (m.newlyRaising known) :=
  every.filter _

private theorem Round.missing_lt (round : m.Round known next) :
    (m.missing next).length < (m.missing known).length := by
  obtain ⟨every, found⟩ := round
  apply Module.missing_lt _ found
  intro name member
  exact newlyRaising_sublist.subset ((newlyRaisingIn_perm every).subset member)

/-- No sequence of rounds goes on for ever. -/
theorem wellFounded_round (m : Module) : WellFounded fun next known => m.Round known next := by
  refine Subrelation.wf ?_ (measure fun known => (m.missing known).length).wf
  intro next known round
  exact round.missing_lt

private theorem newlyRaising_eq_nil_of_last (last : ∀ next, ¬ m.Round known next) :
    m.newlyRaising known = [] := by
  by_contra found
  exact last _ (.adds (List.Perm.refl _) found)

private theorem not_round_of_closed (closed : m.newlyRaising known = []) :
    ¬ m.Round known next := by
  rintro ⟨every, found⟩
  apply found
  have perm : (m.newlyRaisingIn _ known).Perm (m.newlyRaising known) := newlyRaisingIn_perm every
  rw [closed] at perm
  exact perm.eq_nil

theorem rounds_raisingWithin (rounds : Nat) (known : List String) :
    Relation.ReflTransGen m.Round known (m.raisingWithin rounds known) := by
  induction rounds generalizing known with
  | zero => exact .refl
  | succ rounds ih =>
      unfold raisingWithin
      cases added : m.newlyRaising known with
      | nil => exact .refl
      | cons first rest =>
          have round : m.Round known (known ++ m.newlyRaising known) :=
            .adds (List.Perm.refl _) (by
              intro none
              exact List.cons_ne_nil first rest (added.symm.trans none))
          rw [added] at round
          exact .head round (ih _)

/-! ### What the rounds find -/

private theorem Reaches.call {f : FunctionDecl} (member : f ∈ m.functions) {callee : String}
    (mentions : f.Mentions callee) (reaches : m.Reaches callee) : m.Reaches f.name.name := by
  obtain ⟨g, inModule, rfl, last, chain, sets⟩ := reaches
  exact ⟨f, member, rfl, last, .head ⟨inModule, mentions⟩ chain, sets⟩

private theorem reaches_of_newly (distinct : (m.functions.map (·.name.name)).Nodup)
    {order : List String} (every : order.Perm (m.functions.map (·.name.name)))
    (sound : ∀ name ∈ known, m.Reaches name) {name : String}
    (member : name ∈ m.newlyRaisingIn order known) : m.Reaches name := by
  obtain ⟨inOrder, holds⟩ := List.mem_filter.mp member
  obtain ⟨f, inModule, rfl⟩ := List.mem_map.mp (every.subset inOrder)
  obtain ⟨callee, calls, isKnown⟩ := List.any_eq_true.mp (Bool.and_eq_true_iff.mp holds).2
  rw [callsOf_eq distinct inModule] at calls
  exact .call inModule (FunctionDecl.mem_calls.mp calls)
    (sound callee (List.contains_iff_mem.mp isKnown))

private theorem reaches_of_rounds (distinct : (m.functions.map (·.name.name)).Nodup)
    (rounds : Relation.ReflTransGen m.Round m.raisingDirectly known) :
    ∀ name ∈ known, m.Reaches name := by
  -- Every round keeps that the known names reach a function that sets the flag.
  induction rounds with
  | refl =>
      intro name member
      obtain ⟨f, raises, rfl⟩ := List.mem_map.mp member
      obtain ⟨inModule, raises⟩ := List.mem_filter.mp raises
      exact ⟨f, inModule, rfl, f, .refl, FunctionDecl.raises_iff.mp raises⟩
  | tail _before round ih =>
      obtain ⟨every, found⟩ := round
      intro name member
      rcases List.mem_append.mp member with old | new
      · exact ih name old
      · exact reaches_of_newly distinct every ih new

private theorem subset_of_rounds {start : List String}
    (rounds : Relation.ReflTransGen m.Round start known) : start ⊆ known := by
  induction rounds with
  | refl => exact List.Subset.refl start
  | tail _before round ih =>
      obtain ⟨every, found⟩ := round
      exact List.subset_append_of_subset_left _ ih

/-- Where no caller is left to add, every function with a chain to a known one is known. -/
private theorem mem_of_chain (distinct : (m.functions.map (·.name.name)).Nodup)
    (closed : m.newlyRaising known = []) {f g : FunctionDecl} (member : f ∈ m.functions)
    (chain : Relation.ReflTransGen m.Invokes f g) (isKnown : g.name.name ∈ known) :
    f.name.name ∈ known := by
  -- From the end of the chain to its front, since a caller is added after its callee.
  induction chain using Relation.ReflTransGen.head_induction_on with
  | refl => exact isKnown
  | @head f next invokes _rest ih =>
      have nextKnown := ih invokes.1
      by_contra absent
      have fresh : f.name.name ∈ m.newlyRaising known := by
        refine List.mem_filter.mpr ⟨List.mem_map_of_mem member, ?_⟩
        rw [callsOf_eq distinct member, Bool.and_eq_true]
        exact ⟨by simpa using absent, List.any_eq_true.mpr ⟨next.name.name,
          FunctionDecl.mem_calls.mpr invokes.2, List.contains_iff_mem.mpr nextKnown⟩⟩
      rw [closed] at fresh
      cases fresh

/-- The rounds end, whatever order each of them asks the functions in. What they end with, and
`raising` in particular, holds exactly the functions from which a chain of calls leads to one that
sets the pending flag. -/
theorem mem_raising_iff_reaches {m : Module}
    (distinct : (m.functions.map (·.name.name)).Nodup) :
    (WellFounded fun next known => m.Round known next) ∧
    (∀ known, Relation.ReflTransGen m.Round m.raisingDirectly known →
      (∀ next, ¬ m.Round known next) → ∀ name, name ∈ known ↔ m.Reaches name) ∧
    Relation.ReflTransGen m.Round m.raisingDirectly m.raising ∧
    (∀ next, ¬ m.Round m.raising next) ∧
    ∀ name, name ∈ m.raising ↔ m.Reaches name := by
  have settled : ∀ known, Relation.ReflTransGen m.Round m.raisingDirectly known →
      (∀ next, ¬ m.Round known next) → ∀ name, name ∈ known ↔ m.Reaches name := by
    intro known rounds last name
    constructor
    · exact reaches_of_rounds distinct rounds name
    · rintro ⟨f, member, rfl, g, chain, sets⟩
      have inModule : g ∈ m.functions := by
        cases chain with
        | refl => exact member
        | tail _before invokes => exact invokes.1
      have direct : g.name.name ∈ m.raisingDirectly :=
        List.mem_map_of_mem (List.mem_filter.mpr ⟨inModule, FunctionDecl.raises_iff.mpr sets⟩)
      exact mem_of_chain distinct (newlyRaising_eq_nil_of_last last) member chain
        (subset_of_rounds rounds direct)
  have rounds : Relation.ReflTransGen m.Round m.raisingDirectly m.raising :=
    rounds_raisingWithin _ _
  have last : ∀ next, ¬ m.Round m.raising next :=
    fun next => not_round_of_closed m.newlyRaising_raising
  exact ⟨wellFounded_round m, settled, rounds, last, settled m.raising rounds last⟩

/-- A text with a cycle of calls that a raise can be reached from, and one that it cannot. -/
def cycleText : SourceText := .ofString "cycle" (String.join [
  "fn zd(zx) \x7b zy = ze(zx); end; \x7d\n",
  "fn za(zx) \x7b jump @not(zb(zx)) goto 1; end; \x7d\n",
  "fn zb(zx) \x7b zy : %bool = za(zx); zy = zsome(zc(zx)); end; \x7d\n",
  "fn zc(zx) \x7b have_exception = true; arbitrary; \x7d\n",
  "fn ze(zx) \x7b have_exception = false; zy = zd(zx); end; \x7d\n"])

def cycle : Module := (Module.ofSource cycleText).1

/-- All rounds of `cycle` end with the two functions of the first cycle and the one that raises. -/
theorem mem_raising_iff_reaches_cycle :
    (cycle.functions.map (·.name.name)).Nodup ∧
    (∀ known, Relation.ReflTransGen cycle.Round cycle.raisingDirectly known →
      (∀ next, ¬ cycle.Round known next) → ∀ name, name ∈ known ↔ name ∈ ["zc", "zb", "za"]) ∧
    cycle.Reaches "za" ∧ ¬ cycle.Reaches "zd" := by
  obtain ⟨distinct, raising⟩ : (cycle.functions.map (·.name.name)).Nodup ∧
      cycle.raising = ["zc", "zb", "za"] := by
    decide +kernel
  obtain ⟨_ends, settled, _rounds, _last, exact⟩ := mem_raising_iff_reaches distinct
  rw [raising] at exact
  refine ⟨distinct, ?_, (exact "za").mp (by decide), ?_⟩
  · intro known rounds last name
    exact (settled known rounds last name).trans (exact name).symm
  · intro reaches
    exact absurd ((exact "zd").mpr reaches) (by decide)

end Module

end JumpIR.Tree
