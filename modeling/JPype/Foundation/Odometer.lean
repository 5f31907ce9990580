import JPype.Foundation.RowMajor
import Mathlib.Data.List.Range

/-!
# Counting through index tuples

The index tuples of a shape in row-major order, and the counter that goes from each to the next:
the last digit is advanced, and a digit that would reach its extent is set back and carries to the
one before. `counts_tuples` says that the counter goes through the tuples in order, from zeros to
the tuple after which all digits are back at zero.
-/

namespace Foundation

/-- The index tuples of a shape, in row-major order. -/
def tuples : List ℕ → List (List ℕ)
  | [] => [[]]
  | n :: shape => (List.range n).flatMap fun i ↦ (tuples shape).map (i :: ·)

/-- The index tuple with which counting begins. -/
def origin (shape : List ℕ) : List ℕ :=
  shape.map fun _ ↦ 0

/-- The index tuple after a given one, `none` after the last. -/
def next : List ℕ → List ℕ → Option (List ℕ)
  | n :: shape, i :: index =>
    match next shape index with
    | some index' => some (i :: index')
    | none => if i + 1 < n then some ((i + 1) :: origin shape) else none
  | _, _ => none

theorem mem_tuples {shape index : List ℕ} : index ∈ tuples shape ↔ Within index shape := by
  induction shape generalizing index with
  | nil => rw [tuples, List.mem_singleton, Within, List.forall₂_nil_right_iff]
  | cons n shape ih =>
    rw [tuples, List.mem_flatMap, Within, List.forall₂_cons_right_iff]
    constructor
    · rintro ⟨i, hi, hmem⟩
      obtain ⟨index', hindex', rfl⟩ := List.mem_map.1 hmem
      exact ⟨i, index', List.mem_range.1 hi, ih.1 hindex', rfl⟩
    · rintro ⟨i, index', hi, hindex', rfl⟩
      exact ⟨i, List.mem_range.2 hi, List.mem_map.2 ⟨index', ih.2 hindex', rfl⟩⟩

theorem length_tuples (shape : List ℕ) : (tuples shape).length = shape.prod := by
  induction shape with
  | nil => rfl
  | cons n shape ih =>
    simp only [tuples, List.length_flatMap, List.length_map, ih, List.map_const',
      List.length_range, List.sum_replicate_nat, List.prod_cons]

/-- Tuples with one more dimension at the end. -/
theorem tuples_concat (lead : List ℕ) (n : ℕ) :
    tuples (lead ++ [n]) = (tuples lead).flatMap fun p ↦ (List.range n).map fun i ↦ p ++ [i] := by
  induction lead with
  | nil =>
    simp only [List.nil_append, tuples, List.flatMap_singleton, List.map_singleton]
    exact List.map_eq_flatMap.symm
  | cons m lead ih =>
    simp only [List.cons_append, tuples, ih, List.flatMap_assoc, List.map_flatMap, List.map_map,
      List.flatMap_map]
    rfl

/-- Counting from `first` goes through the tuples `rest`, after which it is at `last`. -/
def Counts (shape : List ℕ) (last : Option (List ℕ)) : List ℕ → List (List ℕ) → Prop
  | first, [] => next shape first = last
  | first, second :: rest => next shape first = some second ∧ Counts shape last second rest

theorem Counts.append {shape first second : List ℕ} {last : Option (List ℕ)}
    {l l' : List (List ℕ)} (h : Counts shape (some second) first l)
    (h' : Counts shape last second l') : Counts shape last first (l ++ second :: l') := by
  induction l generalizing first with
  | nil => exact ⟨h, h'⟩
  | cons third l ih => exact ⟨h.1, ih h.2⟩

/-- While the later digits count, the first one stays; then it is advanced. -/
theorem Counts.cons {shape first : List ℕ} {l : List (List ℕ)} (h : Counts shape none first l)
    (n i : ℕ) :
    Counts (n :: shape) (if i + 1 < n then some ((i + 1) :: origin shape) else none) (i :: first)
      (l.map (i :: ·)) := by
  induction l generalizing first with
  | nil =>
    rw [List.map_nil, Counts, next]
    rw [Counts] at h
    rw [h]
  | cons second l ih =>
    refine ⟨?_, ih h.2⟩
    rw [next, h.1]

/-- The counter goes through all index tuples in row-major order. -/
theorem counts_tuples {shape : List ℕ} (hpos : ∀ n ∈ shape, 0 < n) :
    ∃ rest, tuples shape = origin shape :: rest ∧ Counts shape none (origin shape) rest := by
  induction shape with
  | nil => exact ⟨[], rfl, rfl⟩
  | cons n shape ih =>
    obtain ⟨rest, hrest, hcounts⟩ := ih fun m hm ↦ hpos m (List.mem_cons_of_mem n hm)
    -- The blocks of the first digits from `i` on, by induction on their number.
    have hblocks : ∀ m i, i + (m + 1) = n → ∃ l,
        ((List.range' i (m + 1)).flatMap fun i ↦ (tuples shape).map (i :: ·)) =
          (i :: origin shape) :: l ∧ Counts (n :: shape) none (i :: origin shape) l := by
      intro m
      induction m with
      | zero =>
        intro i hi
        refine ⟨rest.map (i :: ·), by simp [hrest], ?_⟩
        have hblock := hcounts.cons n i
        rwa [if_neg (by omega)] at hblock
      | succ m ihm =>
        intro i hi
        obtain ⟨l, hl, hcountsl⟩ := ihm (i + 1) (by omega)
        refine ⟨rest.map (i :: ·) ++ ((i + 1) :: origin shape) :: l, ?_, ?_⟩
        · rw [List.range'_succ, List.flatMap_cons, hl, hrest, List.map_cons, List.cons_append]
        · have hblock := hcounts.cons n i
          rw [if_pos (by omega)] at hblock
          exact hblock.append hcountsl
    obtain ⟨m, rfl⟩ := Nat.exists_eq_add_of_lt (hpos n List.mem_cons_self)
    obtain ⟨l, hl, hcountsl⟩ := hblocks m 0 (by omega)
    refine ⟨l, ?_, hcountsl⟩
    rw [tuples, List.range_eq_range', Nat.zero_add m]
    exact hl

end Foundation
