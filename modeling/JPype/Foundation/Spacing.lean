import Mathlib.Algebra.Order.BigOperators.Group.List
import Mathlib.Data.List.Chain

/-!
# Points in time that are apart

A list of things with a time each, where from one to the next at least the span of the first one
passes. The spans before the last thing then fit between the first and the last time
(`sum_spans_le`).
-/

namespace Foundation

variable {α M : Type*}

/-- From each thing to the next at least the span of the first one passes. -/
def Apart [Add M] [LE M] (time span : α → M) (l : List α) : Prop :=
  l.IsChain fun a b ↦ time a + span a ≤ time b

variable [AddCommGroup M] [PartialOrder M] {time span : α → M}

theorem apart_nil : Apart time span [] :=
  List.IsChain.nil

/-- One thing more, after the last one. -/
theorem Apart.concat {l : List α} {b : α} (h : Apart time span l)
    (hlast : ∀ a ∈ l.getLast?, time a + span a ≤ time b) : Apart time span (l ++ [b]) := by
  refine List.isChain_append.2 ⟨h, List.isChain_singleton b, fun a ha c hc ↦ ?_⟩
  obtain rfl := Option.some.inj hc
  exact hlast a ha

/-- The spans of all but the last thing fit between the first and the last one. -/
theorem Apart.sum_spans_le [IsOrderedAddMonoid M] {l : List α} (a b : α)
    (h : Apart time span (a :: l ++ [b])) : time a + ((a :: l).map span).sum ≤ time b := by
  induction l generalizing a with
  | nil => simpa using (List.isChain_cons_cons.1 h).1
  | cons c l ih =>
    obtain ⟨hac, hrest⟩ := List.isChain_cons_cons.1 h
    calc time a + ((a :: c :: l).map span).sum
        = time a + span a + ((c :: l).map span).sum := by
          rw [List.map_cons, List.sum_cons, add_assoc]
      _ ≤ time c + ((c :: l).map span).sum := add_le_add_left hac _
      _ ≤ time b := ih c hrest

end Foundation
