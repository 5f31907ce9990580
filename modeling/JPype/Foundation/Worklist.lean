import JPype.Foundation.Iteration
import Mathlib.Algebra.BigOperators.Group.Finset.Basic
import Mathlib.Logic.Relation

/-!
# Worklists

A worklist is gone through from the front. An entry that has not been visited yet is visited, and
its successors are put at the end. Where the successors stay within a finite set this ends, after
a number of rounds that one can tell beforehand (`exists_visited`), and what has been visited then
is all that can be reached, each once (`visited_spec`).
-/

namespace Foundation

variable {α : Type*} [DecidableEq α] (next : α → List α)

/-- One round: the worklist and what has been visited, in order. -/
def visit : List α × List α → (List α × List α) ⊕ List α
  | ([], visited) => .inr visited
  | (c :: todo, visited) =>
    if c ∈ visited then .inl (todo, visited) else .inl (todo ++ next c, visited ++ [c])

/-- What is reached from a start. -/
def Reaches (start c : α) : Prop :=
  Relation.ReflTransGen (fun a b ↦ b ∈ next a) start c

variable {next}

/-- The worklist never takes more rounds than it has entries, counted with those that are still to
be put there. -/
theorem exists_visited_of_le {bound : Finset α} (hnext : ∀ c ∈ bound, ∀ d ∈ next c, d ∈ bound)
    {fuel : ℕ} : ∀ {todo visited : List α}, (∀ c ∈ todo, c ∈ bound) →
      todo.length + ∑ c ∈ bound with c ∉ visited, (next c).length < fuel →
        ∃ result, iterate (visit next) fuel (todo, visited) = some result := by
  induction fuel with
  | zero => exact fun _ h ↦ absurd h (Nat.not_lt_zero _)
  | succ fuel ih =>
    intro todo visited htodo hfuel
    cases todo with
    | nil => exact ⟨visited, rfl⟩
    | cons c todo =>
      have hc := htodo c List.mem_cons_self
      have hrest : ∀ d ∈ todo, d ∈ bound := fun d hd ↦ htodo d (List.mem_cons_of_mem c hd)
      rw [List.length_cons] at hfuel
      rw [iterate, visit]
      by_cases hvisited : c ∈ visited
      · rw [if_pos hvisited]
        exact ih hrest (by omega)
      · rw [if_neg hvisited]
        refine ih (fun d hd ↦ ?_) ?_
        · rcases List.mem_append.1 hd with hmem | hmem
          · exact hrest d hmem
          · exact hnext c hc d hmem
        · -- The successors of `c` move from the sum into the worklist.
          have herase : (bound.filter fun d ↦ d ∉ visited ++ [c]) =
              (bound.filter fun d ↦ d ∉ visited).erase c := by
            ext d
            simp only [Finset.mem_filter, Finset.mem_erase, List.mem_append, List.mem_singleton]
            tauto
          have hsum := Finset.add_sum_erase (bound.filter fun d ↦ d ∉ visited)
            (fun d ↦ (next d).length) (Finset.mem_filter.2 ⟨hc, hvisited⟩)
          rw [List.length_append, herase]
          omega

/-- The worklist ends. -/
theorem exists_visited {bound : Finset α} (hnext : ∀ c ∈ bound, ∀ d ∈ next c, d ∈ bound)
    {start : α} (hstart : start ∈ bound) {fuel : ℕ}
    (hfuel : 1 + ∑ c ∈ bound, (next c).length < fuel) :
    ∃ result, iterate (visit next) fuel ([start], []) = some result := by
  refine exists_visited_of_le hnext (fun c hc ↦ ?_) ?_
  · rwa [List.mem_singleton.1 hc]
  · simpa using hfuel

/-- What holds in each round: what is listed or visited is reached, and what is reached by one
step from what has been visited is listed or visited. -/
structure Exploring (next : α → List α) (start : α) (s : List α × List α) : Prop where
  reached : ∀ c, c ∈ s.1 ∨ c ∈ s.2 → Reaches next start c
  start_mem : start ∈ s.1 ∨ start ∈ s.2
  closed : ∀ c ∈ s.2, ∀ d ∈ next c, d ∈ s.1 ∨ d ∈ s.2
  nodup : s.2.Nodup

theorem Exploring.visit {start : α} {s s' : List α × List α} (h : Exploring next start s)
    (hs : visit next s = .inl s') : Exploring next start s' := by
  obtain ⟨todo, visited⟩ := s
  cases todo with
  | nil => cases hs
  | cons c todo =>
    rw [Foundation.visit] at hs
    split_ifs at hs with hc
    · obtain rfl := Sum.inl.inj hs
      have hmove : ∀ d, d ∈ c :: todo ∨ d ∈ visited → d ∈ todo ∨ d ∈ visited := by
        rintro d (hd | hd)
        · rcases List.mem_cons.1 hd with rfl | hmem
          · exact .inr hc
          · exact .inl hmem
        · exact .inr hd
      refine ⟨fun d hd ↦ h.reached d (hd.imp_left (List.mem_cons_of_mem c)),
        hmove start h.start_mem, fun d hd e he ↦ hmove e (h.closed d hd e he), h.nodup⟩
    · obtain rfl := Sum.inl.inj hs
      have hmove : ∀ d, d ∈ c :: todo ∨ d ∈ visited →
          d ∈ todo ++ next c ∨ d ∈ visited ++ [c] := by
        rintro d (hd | hd)
        · rcases List.mem_cons.1 hd with rfl | hmem
          · exact .inr (List.mem_append_right visited List.mem_cons_self)
          · exact .inl (List.mem_append_left _ hmem)
        · exact .inr (List.mem_append_left _ hd)
      refine ⟨?_, hmove start h.start_mem, ?_, ?_⟩
      · have hreach := h.reached c (.inl List.mem_cons_self)
        rintro d (hd | hd)
        · rcases List.mem_append.1 hd with hmem | hmem
          · exact h.reached d (.inl (List.mem_cons_of_mem c hmem))
          · exact hreach.tail hmem
        · rcases List.mem_append.1 hd with hmem | hmem
          · exact h.reached d (.inr hmem)
          · rwa [List.mem_singleton.1 hmem]
      · intro d hd e he
        rcases List.mem_append.1 hd with hmem | hmem
        · exact hmove e (h.closed d hmem e he)
        · rw [List.mem_singleton.1 hmem] at he
          exact .inl (List.mem_append_right todo he)
      · simpa only [List.concat_eq_append] using List.Nodup.concat hc h.nodup

/-- What has been visited in the end is what is reached, without repetition. -/
theorem visited_spec {start : α} {visited : List α} (h : Ends (visit next) ([start], []) visited) :
    visited.Nodup ∧ ∀ c, c ∈ visited ↔ Reaches next start c := by
  have hinit : Exploring next start ([start], []) := by
    refine ⟨?_, .inl List.mem_cons_self, fun c hc ↦ absurd hc List.not_mem_nil, List.nodup_nil⟩
    rintro c (hc | hc)
    · rw [List.mem_singleton.1 hc]
      exact Relation.ReflTransGen.refl
    · exact absurd hc List.not_mem_nil
  have hend : ∀ s result, Exploring next start s → visit next s = .inr result →
      (result.Nodup ∧ ∀ c, c ∈ result ↔ Reaches next start c) := by
    rintro ⟨todo, result'⟩ result hs hresult
    cases todo with
    | cons c todo =>
      rw [visit] at hresult
      split_ifs at hresult
    | nil =>
      obtain rfl := Sum.inr.inj hresult
      refine ⟨hs.nodup, fun c ↦ ⟨fun hc ↦ hs.reached c (.inr hc), fun hc ↦ ?_⟩⟩
      induction hc with
      | refl => exact hs.start_mem.resolve_left List.not_mem_nil
      | tail _ hstep ih => exact (hs.closed _ ih _ hstep).resolve_left List.not_mem_nil
  have hspec := Ends.invariant (fun s s' hs hnext ↦ Exploring.visit hs hnext) hend hinit h
  exact hspec

end Foundation
