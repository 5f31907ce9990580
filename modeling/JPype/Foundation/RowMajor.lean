import Mathlib.Algebra.BigOperators.Group.List.Basic
import Mathlib.Data.List.Forall2
import Mathlib.Tactic.Linarith
import Mathlib.Tactic.Ring

/-!
# Row-major layout

A rectangular array of shape `[n₀, n₁, …]` is laid out row by row: the element at the index tuple
`[i₀, i₁, …]` has the number `i₀ * (n₁ * n₂ * …) + i₁ * (n₂ * …) + …`. Strides are the distances
between neighbours along each axis, in units of the item size, and give the same place
(`dot_strides`).
-/

namespace Foundation

/-- The strides of a row-major array, for items of size `unit`. -/
def strides (unit : ℕ) : List ℕ → List ℕ
  | [] => []
  | _ :: shape => unit * shape.prod :: strides unit shape

/-- The number of the element at an index tuple. -/
def flatIndex : List ℕ → List ℕ → ℕ
  | _ :: shape, i :: index => i * shape.prod + flatIndex shape index
  | _, _ => 0

/-- The distance of the element at an index tuple from the first one. -/
def dot (index steps : List ℕ) : ℕ :=
  (List.zipWith (· * ·) index steps).sum

/-- An index tuple is within a shape. -/
abbrev Within (index shape : List ℕ) : Prop :=
  List.Forall₂ (· < ·) index shape

theorem dot_strides {unit : ℕ} {index shape : List ℕ} (h : Within index shape) :
    dot index (strides unit shape) = unit * flatIndex shape index := by
  induction h with
  | nil => rfl
  | @cons i n index shape _ _ ih =>
    rw [strides, dot, List.zipWith_cons_cons, List.sum_cons, flatIndex]
    rw [dot] at ih
    rw [ih]
    ring

theorem flatIndex_lt {index shape : List ℕ} (h : Within index shape) :
    flatIndex shape index < shape.prod := by
  induction h with
  | nil => exact Nat.one_pos
  | @cons i n index shape hi _ ih =>
    rw [flatIndex, List.prod_cons]
    calc i * shape.prod + flatIndex shape index
        < i * shape.prod + shape.prod := Nat.add_lt_add_left ih _
      _ = (i + 1) * shape.prod := by rw [Nat.add_one_mul]
      _ ≤ n * shape.prod := Nat.mul_le_mul_right _ hi

/-- The last index tuple of a shape with positive extents. -/
theorem within_last {shape : List ℕ} (h : ∀ n ∈ shape, 0 < n) :
    Within (shape.map (· - 1)) shape := by
  refine List.forall₂_map_left_iff.2 (List.forall₂_same.2 fun n hn ↦ ?_)
  have := h n hn
  omega

theorem flatIndex_last {shape : List ℕ} (h : ∀ n ∈ shape, 0 < n) :
    flatIndex shape (shape.map (· - 1)) + 1 = shape.prod := by
  induction shape with
  | nil => rfl
  | cons n shape ih =>
    have hn := h n List.mem_cons_self
    have hlast := ih fun m hm ↦ h m (List.mem_cons_of_mem n hm)
    rw [List.map_cons, flatIndex, List.prod_cons, add_assoc, hlast, ← Nat.add_one_mul,
      Nat.sub_add_cancel hn]

/-! ### Blocks of one length -/

section Blocks

variable {α : Type*}

theorem length_flatten_of_length_eq {blocks : List (List α)} {m : ℕ}
    (h : ∀ block ∈ blocks, block.length = m) : blocks.flatten.length = blocks.length * m := by
  induction blocks with
  | nil => rw [List.flatten_nil, List.length_nil, List.length_nil, zero_mul]
  | cons block blocks ih =>
    rw [List.flatten_cons, List.length_append, h block List.mem_cons_self,
      ih fun b hb ↦ h b (List.mem_cons_of_mem block hb), List.length_cons, Nat.add_one_mul,
      add_comm]

/-- In a row of blocks of length `m`, element `j` of block `i` has the number `i * m + j`. -/
theorem getElem?_flatten_of_length_eq {blocks : List (List α)} {m : ℕ}
    (h : ∀ block ∈ blocks, block.length = m) (i : ℕ) {j : ℕ} (hj : j < m) :
    blocks.flatten[i * m + j]? = blocks[i]?.bind (·[j]?) := by
  induction blocks generalizing i with
  | nil => rfl
  | cons block blocks ih =>
    have hm := h block List.mem_cons_self
    cases i with
    | zero =>
      rw [List.flatten_cons, zero_mul, zero_add, List.getElem?_append_left (by omega)]
      rfl
    | succ i =>
      have hsplit : (i + 1) * m + j = block.length + (i * m + j) := by
        rw [hm]
        ring
      rw [List.flatten_cons, hsplit, List.getElem?_append_right (Nat.le_add_right _ _),
        Nat.add_sub_cancel_left, ih fun b hb ↦ h b (List.mem_cons_of_mem block hb)]
      rfl

/-- Rows of blocks of the same lengths are equal exactly if the blocks are. -/
theorem flatMap_eq_iff_of_length_eq {β : Type*} {l : List β} {f g : β → List α}
    (h : ∀ x ∈ l, (f x).length = (g x).length) :
    l.flatMap f = l.flatMap g ↔ ∀ x ∈ l, f x = g x := by
  refine ⟨fun heq ↦ ?_, fun heq ↦ List.flatMap_congr heq⟩
  induction l with
  | nil => exact fun x hx ↦ absurd hx List.not_mem_nil
  | cons y l ih =>
    rw [List.flatMap_cons, List.flatMap_cons] at heq
    obtain ⟨hhead, htail⟩ := List.append_inj heq (h y List.mem_cons_self)
    intro x hx
    rcases List.mem_cons.1 hx with rfl | hmem
    · exact hhead
    · exact ih (fun z hz ↦ h z (List.mem_cons_of_mem y hz)) htail x hmem

/-- The first `count` blocks of length `m` of a list. -/
def blocks (m : ℕ) : ℕ → List α → List (List α)
  | 0, _ => []
  | count + 1, l => l.take m :: blocks m count (l.drop m)

theorem length_blocks (m count : ℕ) (l : List α) : (blocks m count l).length = count := by
  induction count generalizing l with
  | zero => rfl
  | succ count ih => rw [blocks, List.length_cons, ih]

theorem flatten_blocks (m count : ℕ) (l : List α) :
    (blocks m count l).flatten = l.take (count * m) := by
  induction count generalizing l with
  | zero => rw [zero_mul, List.take_zero]; rfl
  | succ count ih => rw [blocks, List.flatten_cons, ih, Nat.succ_mul, Nat.add_comm, List.take_add]

theorem length_of_mem_blocks {m count : ℕ} {l : List α} (h : count * m ≤ l.length) :
    ∀ block ∈ blocks m count l, block.length = m := by
  induction count generalizing l with
  | zero => exact fun _ hb ↦ absurd hb List.not_mem_nil
  | succ count ih =>
    rw [Nat.succ_mul] at h
    intro block hb
    rcases List.mem_cons.1 hb with rfl | hmem
    · rw [List.length_take]
      omega
    · exact ih (by rw [List.length_drop]; omega) block hmem

end Blocks

end Foundation
