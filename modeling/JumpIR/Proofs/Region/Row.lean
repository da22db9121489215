import Mathlib.Data.List.Basic
import JumpIR.Token
import JumpIR.Proofs.Text.Place

/-!
# Regions of rows of tokens

A row of tokens takes the region from the start of its first token to the end of its last one. Where
the tokens stand in reading order, the region of a part of a row lies within the one of the row, and
the regions of two parts of which one is behind the other are apart.
-/

set_option autoImplicit false

namespace JumpIR

namespace Span

/-- The region lies inside the other one; they may be the same. -/
def Within (inner outer : Span) : Prop :=
  outer.start.precedes inner.start = true ∧ inner.stop.precedes outer.stop = true

/-- The first region ends strictly before the second one starts. -/
def Before (left right : Span) : Prop := left.stop.Before right.start

variable {left right : Span} {p : Position}

/-- Of two regions of which one is before the other, no place is in both. -/
theorem Before.disjoint (before : left.Before right) (inLeft : left.Holds p) : ¬ right.Holds p := by
  intro inRight
  have last := Position.precedes_iff.mp inLeft.2
  have first := Position.precedes_iff.mp inRight.1
  unfold Before Position.Before at before
  omega

end Span

/-- From the start of the first token to the end of the last one. -/
def region (ts : List Token) : Span :=
  ⟨(ts.head?.map fun t => t.span.start).getD .origin,
    (ts.getLast?.map fun t => t.span.stop).getD .origin⟩

/-- No token ends before it starts, and each one stands behind all that come before it. -/
structure InOrder (ts : List Token) : Prop where
  apart : ts.Pairwise fun s t => s.span.Before t.span
  forward : ∀ t ∈ ts, t.span.start.precedes t.span.stop = true

variable {ts us vs : List Token}

theorem stop_region {last : Token} (isLast : ts.getLast? = some last) :
    (region ts).stop = last.span.stop := by
  rw [region, isLast]
  rfl

theorem start_region_append (some : us ≠ []) (vs : List Token) :
    (region (us ++ vs)).start = (region us).start := by
  obtain ⟨t, us, rfl⟩ := List.exists_cons_of_ne_nil some
  rfl

theorem stop_region_append (us : List Token) (some : vs ≠ []) :
    (region (us ++ vs)).stop = (region vs).stop := by
  obtain ⟨vs, u, rfl⟩ := List.eq_nil_or_concat' vs |>.resolve_left some
  rw [← List.append_assoc, stop_region List.getLast?_concat, stop_region List.getLast?_concat]

namespace InOrder

theorem of_sublist (ordered : InOrder ts) (part : us.Sublist ts) : InOrder us :=
  ⟨ordered.apart.sublist part, fun t member => ordered.forward t (part.subset member)⟩

theorem left (ordered : InOrder (us ++ vs)) : InOrder us :=
  ordered.of_sublist (List.sublist_append_left us vs)

theorem right (ordered : InOrder (us ++ vs)) : InOrder vs :=
  ordered.of_sublist (List.sublist_append_right us vs)

theorem tail {t : Token} (ordered : InOrder (t :: ts)) : InOrder ts :=
  ordered.of_sublist (List.sublist_cons_self t ts)

/-- The region of a row does not end before it starts. -/
theorem forward_region (ordered : InOrder ts) :
    (region ts).start.precedes (region ts).stop = true := by
  cases ts with
  | nil => exact Position.precedes_refl _
  | cons t rest =>
      obtain rfl | ⟨rest, u, rfl⟩ := List.eq_nil_or_concat' rest
      · exact ordered.forward t List.mem_cons_self
      · have before : t.span.Before u.span := List.rel_of_pairwise_cons ordered.apart (by simp)
        have first := ordered.forward t List.mem_cons_self
        have last := ordered.forward u (by simp)
        have stop : (region (t :: rest ++ [u])).stop = u.span.stop :=
          stop_region List.getLast?_concat
        rw [← List.cons_append, stop]
        show t.span.start.precedes u.span.stop = true
        rw [Position.precedes_iff] at first last ⊢
        unfold Span.Before Position.Before at before
        omega

/-- Parts of which one stands behind the other. -/
theorem before (ordered : InOrder (us ++ vs)) (left : us ≠ []) (right : vs ≠ []) :
    (region us).Before (region vs) := by
  obtain ⟨us, t, rfl⟩ := List.eq_nil_or_concat' us |>.resolve_left left
  obtain ⟨u, vs, rfl⟩ := List.exists_cons_of_ne_nil right
  have apart := (List.pairwise_append.mp ordered.apart).2.2 t (by simp) u (by simp)
  simpa [Span.Before, region] using apart

theorem precedes_front (ordered : InOrder (us ++ vs)) (some : vs ≠ []) :
    (region (us ++ vs)).start.precedes (region vs).start = true := by
  by_cases none : us = []
  · subst none
    exact Position.precedes_refl _
  · have before := ordered.before none some
    have forward := Position.precedes_iff.mp ordered.left.forward_region
    rw [start_region_append none, Position.precedes_iff]
    unfold Span.Before Position.Before at before
    omega

theorem precedes_back (ordered : InOrder (us ++ vs)) (some : us ≠ []) :
    (region us).stop.precedes (region (us ++ vs)).stop = true := by
  by_cases none : vs = []
  · subst none
    rw [List.append_nil]
    exact Position.precedes_refl _
  · have before := ordered.before some none
    have forward := Position.precedes_iff.mp ordered.right.forward_region
    rw [stop_region_append us none, Position.precedes_iff]
    unfold Span.Before Position.Before at before
    omega

/-- A part of a row lies within the row. -/
theorem within (ordered : InOrder ts) (part : us <:+: ts) (some : us ≠ []) :
    (region us).Within (region ts) := by
  obtain ⟨front, back, rfl⟩ := part
  constructor
  · rw [List.append_assoc] at ordered ⊢
    rw [← start_region_append some back]
    exact ordered.precedes_front (List.append_ne_nil_of_left_ne_nil some back)
  · rw [← stop_region_append front some]
    exact ordered.precedes_back (List.append_ne_nil_of_right_ne_nil front some)

/-- What covers the front of a row and its last token covers the row. -/
theorem cover (ordered : InOrder ts) (front : us <+: ts) (some : us ≠ []) {last : Token}
    (isLast : ts.getLast? = Option.some last) : (region us).cover last.span = region ts := by
  obtain ⟨vs, rfl⟩ := front
  obtain ⟨before, split⟩ := List.getLast?_eq_some_iff.mp isLast
  have early : last.span.Within (region (us ++ vs)) :=
    ordered.within ⟨before, [], by rw [List.append_nil, split]⟩ (List.cons_ne_nil last [])
  have start := start_region_append some vs
  have stop := stop_region isLast
  have onward := ordered.precedes_back some
  rw [stop] at onward
  rw [Span.cover, if_pos (start ▸ early.1), if_pos onward, ← start, ← stop]

end InOrder

end JumpIR
