import JumpIR.Proofs.Outcome

/-!
# Paths into a value

A path of tuple fields leads from a value to one of its parts. `Value.setPath` exchanges that part
and nothing else: what it stored is found there again, and every part whose path leaves the stored
one is as it was.
-/

set_option autoImplicit false

namespace JumpIR

namespace Value

/-- The part of a value that a path of tuple fields leads to. -/
def along (path : List Nat) (value : Value) : Except RunFault Value :=
  path.foldlM (fun held index => held.field index) value

@[simp] theorem along_nil (value : Value) : value.along [] = .ok value := rfl

theorem along_cons (index : Nat) (path : List Nat) (value : Value) :
    value.along (index :: path) = value.field index >>= along path := rfl

theorem field_of_getElem? {items : List Value} {index : Nat} {item : Value}
    (here : items[index]? = some item) : (tuple items).field index = .ok item := by
  simp only [field, here]

/-- Only tuples have fields. -/
theorem field_ok {value item : Value} {index : Nat} (found : value.field index = .ok item) :
    ∃ items, value = .tuple items ∧ items[index]? = some item := by
  cases value with
  | tuple items =>
      simp only [field] at found
      split at found
      · rename_i held here
        cases found
        exact ⟨items, rfl, here⟩
      · cases found
  | _ => cases found

theorem along_cons_of_getElem? {items : List Value} {index : Nat} {item : Value}
    (here : items[index]? = some item) (path : List Nat) :
    (tuple items).along (index :: path) = item.along path := by
  rw [along_cons, field_of_getElem? here]
  rfl

/-! ### One step of a store -/

theorem setPath_of_getElem? {items : List Value} {index : Nat} {item : Value}
    (here : items[index]? = some item) (path : List Nat) (leaf : Value) :
    (tuple items).setPath (index :: path) leaf =
      item.setPath path leaf >>= fun new => .ok (.tuple (items.set index new)) := by
  simp only [setPath, here]

/-- A store below a field exchanges that field for one in which the rest of the path was stored. -/
theorem setPath_cons_ok {target leaf changed : Value} {index : Nat} {path : List Nat}
    (stored : target.setPath (index :: path) leaf = .ok changed) :
    ∃ items item new, target = .tuple items ∧ items[index]? = some item ∧
      item.setPath path leaf = .ok new ∧ changed = .tuple (items.set index new) := by
  cases target with
  | tuple items =>
      cases here : items[index]? with
      | none =>
          simp only [setPath, here] at stored
          cases stored
      | some item =>
          rw [setPath_of_getElem? here] at stored
          obtain ⟨new, below, done⟩ := bind_ok stored
          cases done
          exact ⟨items, item, new, rfl, here, below, rfl⟩
  | _ => cases stored

theorem getElem?_set_here {items : List Value} {index : Nat} {item : Value}
    (here : items[index]? = some item) (new : Value) :
    (items.set index new)[index]? = some new :=
  List.getElem?_set_self (List.getElem?_eq_some_iff.mp here).choose

/-- A field that is not the exchanged one is the same, and is missing where it was missing. -/
theorem field_set_of_ne (items : List Value) (new : Value) {index other : Nat}
    (apart : index ≠ other) :
    (tuple (items.set index new)).field other = (tuple items).field other := by
  simp only [field, List.getElem?_set_ne apart, List.length_set]

/-! ### What a store leads to -/

theorem along_setPath {target leaf changed : Value} {path : List Nat}
    (stored : target.setPath path leaf = .ok changed) : changed.along path = .ok leaf := by
  induction path generalizing target changed with
  | nil =>
      cases stored
      rfl
  | cons index path ih =>
      obtain ⟨items, item, new, rfl, here, below, rfl⟩ := setPath_cons_ok stored
      rw [along_cons_of_getElem? (getElem?_set_here here new)]
      exact ih below

/-- Where two paths part, the store goes one way and the reader the other. -/
theorem along_of_apart {target leaf changed : Value} {path other : List Nat}
    (stored : target.setPath path leaf = .ok changed) (above : ¬ other <+: path)
    (below : ¬ path <+: other) : changed.along other = target.along other := by
  induction path generalizing target changed other with
  | nil => exact absurd other.nil_prefix below
  | cons index path ih =>
      cases other with
      | nil => exact absurd (List.nil_prefix) above
      | cons index' other =>
          obtain ⟨items, item, new, rfl, here, inner, rfl⟩ := setPath_cons_ok stored
          by_cases same : index = index'
          · subst same
            rw [List.prefix_cons_inj] at above below
            rw [along_cons_of_getElem? (getElem?_set_here here new), along_cons_of_getElem? here]
            exact ih inner above below
          · rw [along_cons, along_cons, field_set_of_ne items new same]

/-- On the way to the stored part are tuples, and each is as long as it was. -/
theorem length_of_above {target leaf changed : Value} {path front : List Nat}
    (stored : target.setPath path leaf = .ok changed) (above : front <+: path)
    (proper : front ≠ path) :
    ∃ items items', target.along front = .ok (.tuple items) ∧
      changed.along front = .ok (.tuple items') ∧ items'.length = items.length := by
  induction path generalizing target changed front with
  | nil => exact absurd (List.prefix_nil.mp above) proper
  | cons index path ih =>
      obtain ⟨items, item, new, rfl, here, inner, rfl⟩ := setPath_cons_ok stored
      cases front with
      | nil => exact ⟨items, _, rfl, rfl, List.length_set⟩
      | cons index' front =>
          obtain ⟨rfl, inside⟩ := List.cons_prefix_cons.mp above
          rw [along_cons_of_getElem? (getElem?_set_here here new), along_cons_of_getElem? here]
          exact ih inner inside fun same => proper (congrArg _ same)

/-- To store what is there already changes nothing. -/
theorem setPath_along {target leaf : Value} {path : List Nat}
    (there : target.along path = .ok leaf) : target.setPath path leaf = .ok target := by
  induction path generalizing target with
  | nil =>
      cases there
      rfl
  | cons index path ih =>
      rw [along_cons] at there
      obtain ⟨item, found, there⟩ := bind_ok there
      obtain ⟨items, rfl, here⟩ := field_ok found
      obtain ⟨bound, rfl⟩ := List.getElem?_eq_some_iff.mp here
      rw [setPath_of_getElem? here, bind_of_ok (ih there), List.set_getElem_self]

/-! ### When a store succeeds -/

/-- Every step of the path finds a tuple that has the field it asks for. -/
def Leads (target : Value) (path : List Nat) : Prop :=
  ∀ front index, front ++ [index] <+: path →
    ∃ items, target.along front = .ok (.tuple items) ∧ index < items.length

theorem leads_nil (target : Value) : target.Leads [] := by
  intro front index impossible
  cases List.append_ne_nil_of_right_ne_nil front (List.cons_ne_nil index [])
    (List.prefix_nil.mp impossible)

theorem leads_cons_iff {target : Value} {index : Nat} {path : List Nat} :
    target.Leads (index :: path) ↔
      ∃ items item, target = .tuple items ∧ items[index]? = some item ∧ item.Leads path := by
  constructor
  · intro leads
    obtain ⟨items, root, bound⟩ := leads [] index ⟨path, rfl⟩
    cases root
    have here : items[index]? = some items[index] := List.getElem?_eq_getElem bound
    refine ⟨items, items[index], rfl, here, fun front next step => ?_⟩
    obtain ⟨inner, reached, inside⟩ :=
      leads (index :: front) next (List.cons_prefix_cons.mpr ⟨rfl, step⟩)
    rw [along_cons_of_getElem? here] at reached
    exact ⟨inner, reached, inside⟩
  · rintro ⟨items, item, rfl, here, leads⟩ front next step
    cases front with
    | nil =>
        obtain ⟨rfl, _rest⟩ := List.cons_prefix_cons.mp step
        exact ⟨items, rfl, (List.getElem?_eq_some_iff.mp here).choose⟩
    | cons first front =>
        obtain ⟨rfl, inside⟩ := List.cons_prefix_cons.mp step
        rw [along_cons_of_getElem? here]
        exact leads front next inside

theorem succeeds_setPath_iff {target leaf : Value} {path : List Nat} :
    Succeeds (target.setPath path leaf) ↔ target.Leads path := by
  induction path generalizing target with
  | nil => exact iff_of_true ⟨leaf, rfl⟩ target.leads_nil
  | cons index path ih =>
      rw [leads_cons_iff]
      constructor
      · rintro ⟨changed, stored⟩
        obtain ⟨items, item, new, rfl, here, below, rfl⟩ := setPath_cons_ok stored
        exact ⟨items, item, rfl, here, ih.mp ⟨new, below⟩⟩
      · rintro ⟨items, item, rfl, here, leads⟩
        obtain ⟨new, below⟩ := ih.mpr leads
        exact ⟨_, (setPath_of_getElem? here path leaf).trans (bind_of_ok below)⟩

end Value

end JumpIR
