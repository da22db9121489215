import Mathlib.Data.List.Forall2
import JumpIR.Value.Fault

/-!
# Runs of a pass

Every pass stops at its first fault. What follows takes a successful pass apart, and the list that
a pass makes of another one, element by element.
-/

set_option autoImplicit false

namespace JumpIR

/-- A sequence that succeeds is a first part that succeeds and a second one that goes on. -/
theorem bind_ok {ε α β : Type} {first : Except ε α} {rest : α → Except ε β} {result : β}
    (done : (first >>= rest) = .ok result) :
    ∃ value, first = .ok value ∧ rest value = .ok result := by
  cases first with
  | error fault => cases done
  | ok value => exact ⟨value, rfl, done⟩

theorem bind_of_ok {ε α β : Type} {first : Except ε α} {rest : α → Except ε β} {value : α}
    (done : first = .ok value) : (first >>= rest) = rest value := by
  rw [done]
  rfl

/-- The pass ends without a fault. -/
def Succeeds {ε α : Type} (pass : Except ε α) : Prop := ∃ result, pass = .ok result

section Succeeds

variable {ε α β : Type}

@[simp] theorem succeeds_ok (result : α) : Succeeds (.ok result : Except ε α) := ⟨result, rfl⟩

@[simp] theorem not_succeeds_error (fault : ε) : ¬ Succeeds (.error fault : Except ε α) :=
  fun done => nomatch done

theorem succeeds_bind {first : Except ε α} {rest : α → Except ε β} :
    Succeeds (first >>= rest) ↔ ∃ value, first = .ok value ∧ Succeeds (rest value) := by
  cases first with
  | error fault =>
      constructor
      · intro done
        cases done with
        | intro _ impossible => cases impossible
      · rintro ⟨_, impossible, _⟩
        cases impossible
  | ok value =>
      constructor
      · exact fun done => ⟨value, rfl, done⟩
      · rintro ⟨_, same, done⟩
        cases same
        exact done

/-- A sequence succeeds if both of its parts do, provided that the success of the second one does
not depend on the value of the first. -/
theorem succeeds_bind_iff {first : Except ε α} {rest : α → Except ε β} {second : Prop}
    (same : ∀ value, first = .ok value → (Succeeds (rest value) ↔ second)) :
    Succeeds (first >>= rest) ↔ Succeeds first ∧ second := by
  rw [succeeds_bind]
  constructor
  · rintro ⟨value, done, later⟩
    exact ⟨⟨value, done⟩, (same value done).mp later⟩
  · rintro ⟨⟨value, done⟩, later⟩
    exact ⟨value, done, (same value done).mpr later⟩

theorem succeeds_bind_left {first : Except ε α} {rest : α → Except ε β}
    (always : ∀ value, Succeeds (rest value)) : Succeeds (first >>= rest) ↔ Succeeds first := by
  rw [succeeds_bind_iff fun value _done => iff_true_intro (always value), and_true]

end Succeeds

/-- What a pass makes of a list comes from elements of the list. -/
theorem exists_source {α β : Type} {made : α → β → Prop} {sources : List α} {results : List β}
    (related : List.Forall₂ made sources results) {b : β} (member : b ∈ results) :
    ∃ a ∈ sources, made a b := by
  induction related with
  | nil => cases member
  | @cons a b' sources results first _others ih =>
      rcases List.mem_cons.mp member with here | later
      · exact ⟨a, List.mem_cons_self, here ▸ first⟩
      · obtain ⟨a', inRest, made⟩ := ih later
        exact ⟨a', List.mem_cons_of_mem a inRest, made⟩

/-- What stands at a position of the results comes from the same position of the sources. -/
theorem exists_source_at {α β : Type} {made : α → β → Prop} {sources : List α} {results : List β}
    (related : List.Forall₂ made sources results) {index : Nat} {a : α}
    (here : sources[index]? = some a) : ∃ b, results[index]? = some b ∧ made a b := by
  obtain ⟨bound, same⟩ := List.getElem?_eq_some_iff.mp here
  have bound' : index < results.length := related.length_eq ▸ bound
  refine ⟨results[index], List.getElem?_eq_getElem bound', ?_⟩
  rw [← same]
  exact related.get bound bound'

/-- A list can be made of another one if each element can. -/
theorem exists_related {α β : Type} {made : α → β → Prop} {sources : List α}
    (each : ∀ a ∈ sources, ∃ b, made a b) : ∃ results, List.Forall₂ made sources results := by
  induction sources with
  | nil => exact ⟨[], .nil⟩
  | cons a sources ih =>
      obtain ⟨b, first⟩ := each a List.mem_cons_self
      obtain ⟨results, others⟩ := ih fun a' member => each a' (List.mem_cons_of_mem a member)
      exact ⟨b :: results, .cons first others⟩

theorem related_imp {α β : Type} {made madeToo : α → β → Prop} {sources : List α}
    {results : List β} (related : List.Forall₂ made sources results)
    (weaken : ∀ a ∈ sources, ∀ b, made a b → madeToo a b) :
    List.Forall₂ madeToo sources results := by
  induction related with
  | nil => exact .nil
  | @cons a b sources results first _others ih =>
      refine .cons (weaken a List.mem_cons_self b first) (ih ?_)
      intro a' member
      exact weaken a' (List.mem_cons_of_mem a member)

theorem map_eq_of_related {α β γ : Type} {f : α → γ} {g : β → γ} {sources : List α}
    {results : List β} (related : List.Forall₂ (fun a b => g b = f a) sources results) :
    results.map g = sources.map f := by
  induction related with
  | nil => rfl
  | cons first _others ih => rw [List.map_cons, List.map_cons, first, ih]

end JumpIR
