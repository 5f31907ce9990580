import JPype.Foundation.Iteration
import Mathlib.Data.List.Nodup
import Mathlib.Data.Prod.Lex
import Mathlib.Logic.Relation
import Mathlib.Order.WellFoundedSet

/-!
# Queues that are turned

A queue is gone through from the front: an entry that is ready is taken, and one that is not goes
to the end. Turning brings an entry that is ready to the front (`findIdx_turn`), so that the loop
ends if there always is one (`exists_ends_of_turning`). Where an entry waits for those that a
relation without cycles puts before it, there always is one (`exists_first`).
-/

namespace Foundation

variable {α β γ : Type*}

/-- Turning brings the first entry that is ready one place forward. -/
theorem findIdx_turn {ready : α → Bool} {a : α} {l : List α} (ha : ready a = false)
    (hl : ∃ x ∈ l, ready x = true) : (l ++ [a]).findIdx ready < (a :: l).findIdx ready := by
  have hlt : l.findIdx ready < l.length := List.findIdx_lt_length.2 hl
  rw [List.findIdx_append, if_pos hlt, List.findIdx_cons, ha, cond_false]
  exact Nat.lt_succ_self _

/-- A loop over a queue ends if each round either shortens the queue or turns it, where an entry
behind the front is ready and what is ready stays so. -/
theorem exists_ends_of_turning {step : List α × β → (List α × β) ⊕ γ}
    (inv : List α × β → Prop) (ready : List α × β → α → Bool)
    (hstep : ∀ s s', inv s → step s = .inl s' → inv s' ∧
      (s'.1.length < s.1.length ∨ ∃ a l, s.1 = a :: l ∧ s'.1 = l ++ [a] ∧ ready s a = false ∧
        (∃ x ∈ l, ready s x = true) ∧ ∀ x ∈ s.1, ready s x = true → ready s' x = true))
    {s : List α × β} (hs : inv s) : ∃ c, Ends step s c := by
  refine Ends.exists_of_wellFounded (WellFounded.prod_lex Nat.lt_wfRel.wf Nat.lt_wfRel.wf)
    (fun s ↦ (s.1.length, s.1.findIdx (ready s))) (fun s s' hinv hnext ↦ ?_) hs
  obtain ⟨hinv', hlt | ⟨a, l, ha, hl, hfront, hready, hkeep⟩⟩ := hstep s s' hinv hnext
  · exact ⟨hinv', Prod.Lex.left _ _ hlt⟩
  · have hle : (l ++ [a]).findIdx (ready s') ≤ (l ++ [a]).findIdx (ready s) := by
      refine List.findIdx_le_findIdx fun x hx ↦ hkeep x ?_
      rw [ha]
      exact (List.perm_append_singleton a l).mem_iff.1 hx
    refine ⟨hinv', ?_⟩
    rw [ha, hl, List.length_append, List.length_singleton, List.length_cons]
    exact Prod.Lex.right _ (Nat.lt_of_le_of_lt hle (findIdx_turn hfront hready))

/-- Of the entries of a list one comes first in a relation that has no cycle. -/
theorem exists_first {r : α → α → Prop} (hr : ∀ a, ¬Relation.TransGen r a a) {l : List α}
    (hl : l ≠ []) : ∃ a ∈ l, ∀ b ∈ l, ¬r b a := by
  have : IsStrictOrder α (Relation.TransGen r) :=
    { irrefl := hr, trans := fun _ _ _ ↦ Relation.TransGen.trans }
  have hwf : {a | a ∈ l}.WellFoundedOn (Relation.TransGen r) := l.finite_toSet.wellFoundedOn
  obtain ⟨a, ha, hmin⟩ := hwf.has_min Set.univ ⟨⟨l.head hl, List.head_mem hl⟩, Set.mem_univ _⟩
  exact ⟨a, a.2, fun b hb hba ↦ hmin ⟨b, hb⟩ (Set.mem_univ _) (Relation.TransGen.single hba)⟩

end Foundation
