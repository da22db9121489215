import JumpIR.Tree.Module

/-!
# Collections of diagnostics

A collection stands for the list of all diagnostics that came into it: it keeps the first ones of
the list and its length. Adding a diagnostic and adding another collection are concatenation of
these lists, even if some diagnostics were dropped before. Main statement: `collection_of_history`.
-/

set_option autoImplicit false

namespace JumpIR

namespace Diagnostics

/-- The collection that stands for a list. -/
def ofList (list : List Diagnostic) : Diagnostics := ⟨list.take limit, list.length⟩

/-- How many diagnostics were counted only. -/
def dropped (ds : Diagnostics) : Nat := ds.total - ds.kept.length

theorem length_kept_ofList (list : List Diagnostic) :
    (ofList list).kept.length = min limit list.length := List.length_take

/-! ### Adding -/

theorem push_ofList (list : List Diagnostic) (d : Diagnostic) :
    (ofList list).push d = ofList (list ++ [d]) := by
  have kept : (if (list.take limit).length < limit then list.take limit ++ [d]
      else list.take limit) = (list ++ [d]).take limit := by
    rw [List.take_append, List.length_take]
    split
    case isTrue room =>
        have short : list.length < limit := by omega
        obtain ⟨more, exact⟩ := Nat.exists_eq_succ_of_ne_zero (Nat.sub_ne_zero_of_lt short)
        rw [exact, List.take_succ_cons, List.take_nil]
    case isFalse full =>
        have long : limit - list.length = 0 := by omega
        rw [long, List.take_zero, List.append_nil]
  unfold push ofList
  dsimp only
  rw [kept, List.length_append, List.length_singleton]

theorem pushAll_ofList (others list : List Diagnostic) :
    (ofList list).pushAll others = ofList (list ++ others) := by
  induction others generalizing list with
  | nil =>
      rw [List.append_nil]
      rfl
  | cons d rest ih =>
      change ((ofList list).push d).pushAll rest = _
      rw [push_ofList, ih, List.append_assoc, List.singleton_append]

/-- What a full collection dropped has no room in another one either. -/
theorem take_append_take (list others : List Diagnostic) :
    (list ++ others.take limit).take limit = (list ++ others).take limit := by
  rw [List.take_append, List.take_append, List.take_take, Nat.min_eq_left (Nat.sub_le _ _)]

theorem extend_ofList (list others : List Diagnostic) :
    (ofList list).extend (ofList others) = ofList (list ++ others) := by
  have kept : ((ofList list).pushAll (ofList others).kept).kept = (list ++ others).take limit := by
    rw [pushAll_ofList]
    exact take_append_take list others
  unfold extend
  rw [kept, ofList, ofList, ofList, List.length_append]

/-- The kept diagnostics are pushed one by one, and then the dropped ones are counted. -/
theorem extend_eq_pushAll (list others : List Diagnostic) :
    (ofList list).extend (ofList others) =
      ⟨((ofList list).pushAll (ofList others).kept).kept,
        ((ofList list).pushAll (ofList others).kept).total + (ofList others).dropped⟩ := by
  have counted : (ofList others).kept.length ≤ (ofList others).total := List.length_take_le' _ _
  have total : ((ofList list).pushAll (ofList others).kept).total =
      (ofList list).total + (ofList others).kept.length := by
    rw [pushAll_ofList]
    exact List.length_append
  unfold extend dropped
  rw [total, Nat.add_assoc, Nat.add_sub_cancel' counted]

theorem ofReports_eq_ofList {fault : Type} [Cause fault] (source : SourceText)
    (reports : List (Report fault)) :
    ofReports source reports = ofList (reports.map (Report.diagnostic source)) :=
  pushAll_ofList _ []

/-! ### Reading -/

theorem hasErrors_ofList {list : List Diagnostic} :
    (ofList list).hasErrors = true ↔ list ≠ [] := by
  rw [hasErrors, decide_eq_true_iff]
  exact List.length_pos_iff

theorem isSaturated_ofList {list : List Diagnostic} :
    (ofList list).isSaturated = true ↔ limit ≤ list.length := decide_eq_true_iff

theorem display_ofList (list : List Diagnostic) :
    (ofList list).display = String.join ((list.take limit).map fun d => d.display ++ "\n") ++
      if limit < list.length then s!"... and {list.length - limit} more errors\n" else "" := by
  unfold display
  rw [length_kept_ofList]
  change _ ++ (if list.length > min limit list.length then
    s!"... and {list.length - min limit list.length} more errors\n" else "") = _
  by_cases long : limit < list.length
  · rw [if_pos (by omega), if_pos long, Nat.min_eq_left (Nat.le_of_lt long)]
    rfl
  · rw [if_neg (by omega), if_neg long]
    rfl

/-! ### Histories -/

/-- How a collection came about: from an empty one, by adding a diagnostic to a collection or by
adding a whole collection to another one. -/
inductive History where
  | empty
  | push (before : History) (added : Diagnostic)
  | extend (before added : History)

namespace History

def collection : History → Diagnostics
  | .empty => Diagnostics.empty
  | .push before added => before.collection.push added
  | .extend before added => before.collection.extend added.collection

/-- Everything that came in, in order. -/
def diagnostics : History → List Diagnostic
  | .empty => []
  | .push before added => before.diagnostics ++ [added]
  | .extend before added => before.diagnostics ++ added.diagnostics

theorem collection_eq (h : History) : h.collection = ofList h.diagnostics := by
  induction h with
  | empty => rfl
  | push before added ih => rw [collection, ih, push_ofList, diagnostics]
  | extend before added ihBefore ihAdded =>
      rw [collection, ihBefore, ihAdded, extend_ofList, diagnostics]

end History

/-- What can be seen of a list in a collection: its first diagnostics, and how many it has. -/
structure Shows (ds : Diagnostics) (list : List Diagnostic) : Prop where
  kept : ds.kept = list.take 20
  total : ds.total = list.length
  hasErrors : ds.hasErrors = true ↔ list ≠ []
  isSaturated : ds.isSaturated = true ↔ 20 ≤ list.length
  display : ds.display = String.join ((list.take 20).map fun d => d.display ++ "\n") ++
    if 20 < list.length then s!"... and {list.length - 20} more errors\n" else ""

theorem shows_ofList (list : List Diagnostic) : (ofList list).Shows list where
  kept := rfl
  total := rfl
  hasErrors := hasErrors_ofList
  isSaturated := isSaturated_ofList
  display := display_ofList list

theorem ofSource_diagnostics (source : SourceText) : (Tree.Module.ofSource source).2 =
    ofList ((tokensOf source.chars).2.map (Report.diagnostic source) ++
      (Tree.Module.ofTokens (tokensOf source.chars).1).2.map (Report.diagnostic source)) := by
  have whole : (Tree.Module.ofSource source).2 = (ofReports source (tokensOf source.chars).2).extend
      (ofReports source (Tree.Module.ofTokens (tokensOf source.chars).1).2) := rfl
  rw [whole, ofReports_eq_ofList, ofReports_eq_ofList, extend_ofList]

/-- Every collection stands for the diagnostics that came into it, in order. To push one is to append
it, and to add a collection is to append its list: what it keeps is pushed, and what it dropped is
counted, which is never less than nothing. So adding is associative, and the empty collection is its
unit. The collection of a text holds the faults of its tokens and then those of their order. -/
theorem collection_of_history :
    (∀ h : History, h.collection = ofList h.diagnostics) ∧
    (∀ list, (ofList list).Shows list) ∧
    (∀ list d, (ofList list).push d = ofList (list ++ [d])) ∧
    (∀ list others, (ofList list).extend (ofList others) = ofList (list ++ others) ∧
      (ofList others).kept.length ≤ (ofList others).total ∧
      (ofList list).extend (ofList others) =
        ⟨((ofList list).pushAll (ofList others).kept).kept,
          ((ofList list).pushAll (ofList others).kept).total +
            ((ofList others).total - (ofList others).kept.length)⟩) ∧
    (∀ a b c : History, (a.collection.extend b.collection).extend c.collection =
      a.collection.extend (b.collection.extend c.collection)) ∧
    (∀ a : History, empty.extend a.collection = a.collection ∧
      a.collection.extend empty = a.collection) ∧
    ∀ source : SourceText, (Tree.Module.ofSource source).2.Shows
      ((tokensOf source.chars).2.map (Report.diagnostic source) ++
        (Tree.Module.ofTokens (tokensOf source.chars).1).2.map (Report.diagnostic source)) := by
  refine ⟨History.collection_eq, shows_ofList, push_ofList, ?_, ?_, ?_, ?_⟩
  · intro list others
    exact ⟨extend_ofList list others, List.length_take_le' _ _, extend_eq_pushAll list others⟩
  · intro a b c
    rw [a.collection_eq, b.collection_eq, c.collection_eq, extend_ofList, extend_ofList,
      extend_ofList, extend_ofList, List.append_assoc]
  · intro a
    have unit : empty = ofList [] := rfl
    rw [a.collection_eq, unit, extend_ofList, extend_ofList, List.append_nil]
    exact ⟨rfl, rfl⟩
  · intro source
    rw [ofSource_diagnostics]
    exact shows_ofList _

end Diagnostics

end JumpIR
