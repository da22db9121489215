import Mathlib.Data.List.Nodup
import JumpIR.Lowering.Raising

/-!
# Functions that may raise, as a closed set

The rounds of `Module.raising` end with a set that nothing adds to: it holds every function that
sets the pending flag to true by itself, and every caller of a function in it.
-/

set_option autoImplicit false

namespace JumpIR.Tree.Module

variable {m : Module} {known : List String}

/-- The functions that are still missing. -/
def missing (m : Module) (known : List String) : List String :=
  (m.functions.map (·.name.name)).filter fun name => !known.contains name

theorem newlyRaising_sublist : (m.newlyRaising known).Sublist (m.missing known) := by
  unfold newlyRaising missing
  apply List.monotone_filter_right
  intro name holds
  exact (Bool.and_eq_true_iff.mp holds).1

/-- Names that were missing are missing no longer. -/
theorem missing_lt {fresh : List String} (found : fresh ⊆ m.missing known)
    (nonempty : fresh ≠ []) :
    (m.missing (known ++ fresh)).length < (m.missing known).length := by
  obtain ⟨name, member⟩ := List.exists_mem_of_ne_nil fresh nonempty
  have was : name ∈ m.missing known := found member
  have shrinks : (m.missing (known ++ fresh)).Sublist (m.missing known) := by
    unfold missing
    apply List.monotone_filter_right
    intro other holds
    simp only [List.contains_append, Bool.not_or, Bool.and_eq_true] at holds
    exact holds.1
  rcases Nat.lt_or_ge (m.missing (known ++ fresh)).length (m.missing known).length with less | same
  · exact less
  · have equal := shrinks.eq_of_length_le same
    rw [← equal] at was
    have absent := (List.mem_filter.mp was).2
    simp [member] at absent

private theorem raisingWithin_closed : ∀ (rounds : Nat) (known : List String),
    (m.missing known).length ≤ rounds → m.newlyRaising (m.raisingWithin rounds known) = [] := by
  -- Each round but the last finds a missing function, so as many rounds suffice as are missing.
  intro rounds
  induction rounds with
  | zero =>
      intro known enough
      have none := List.length_eq_zero_iff.mp (Nat.le_zero.mp enough)
      have sub : (m.newlyRaising known).Sublist (m.missing known) := newlyRaising_sublist
      rw [none] at sub
      exact List.sublist_nil.mp sub
  | succ rounds ih =>
      intro known enough
      unfold raisingWithin
      cases added : m.newlyRaising known with
      | nil => exact added
      | cons first rest =>
          apply ih
          have fewer := missing_lt (added ▸ newlyRaising_sublist.subset)
            (List.cons_ne_nil first rest)
          omega

theorem newlyRaising_raising (m : Module) : m.newlyRaising m.raising = [] := by
  apply raisingWithin_closed
  exact Nat.le_trans (List.length_filter_le _ _) (Nat.le_of_eq (List.length_map _))

private theorem subset_raisingWithin : ∀ (rounds : Nat) (known : List String),
    known ⊆ m.raisingWithin rounds known := by
  intro rounds
  induction rounds with
  | zero =>
      intro known name member
      exact member
  | succ rounds ih =>
      intro known name member
      unfold raisingWithin
      split
      · exact member
      · exact ih _ (List.mem_append_left _ member)

/-! ### What the set holds -/

variable {f : FunctionDecl}

/-- A function that sets the flag to true by itself may raise. -/
theorem mem_raising_of_raises (member : f ∈ m.functions) (raises : f.raises = true) :
    f.name.name ∈ m.raising := by
  apply subset_raisingWithin
  exact List.mem_map_of_mem (List.mem_filter.mpr ⟨member, raises⟩)

theorem callsOf_eq (distinct : (m.functions.map (·.name.name)).Nodup) (member : f ∈ m.functions) :
    m.callsOf f.name.name = f.calls := by
  unfold callsOf
  cases found : m.functions.reverse.find? fun g => g.name.name == f.name.name with
  | none =>
      have absent := List.find?_eq_none.mp found f (List.mem_reverse.mpr member)
      simp at absent
  | some g =>
      have named : g.name.name = f.name.name := by
        have holds := List.find?_some found
        exact eq_of_beq holds
      have there := List.mem_reverse.mp (List.mem_of_find?_eq_some found)
      rw [List.inj_on_of_nodup_map distinct there member named]

theorem mem_raising_of_calls (distinct : (m.functions.map (·.name.name)).Nodup)
    (member : f ∈ m.functions) {callee : String} (calls : callee ∈ f.calls)
    (raises : callee ∈ m.raising) : f.name.name ∈ m.raising := by
  by_contra absent
  have fresh : f.name.name ∈ m.newlyRaising m.raising := by
    unfold newlyRaising
    refine List.mem_filter.mpr ⟨List.mem_map_of_mem member, ?_⟩
    rw [callsOf_eq distinct member, Bool.and_eq_true]
    refine ⟨?_, List.any_eq_true.mpr ⟨callee, calls, List.contains_iff_mem.mpr raises⟩⟩
    simp [absent]
  rw [newlyRaising_raising] at fresh
  cases fresh

end JumpIR.Tree.Module
