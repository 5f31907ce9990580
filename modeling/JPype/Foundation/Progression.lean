import Mathlib.Algebra.Order.Group.Int
import Mathlib.Data.List.Nodup
import Mathlib.Data.List.Range
import Mathlib.Tactic.Linarith
import Mathlib.Tactic.Ring

/-!
# Arithmetic progressions of positions

A strided view of a sequence is a list of positions `a, a + t, a + 2 * t, …`. Reading a
progression at the positions of another one gives a progression again (`map_progression`), which
is all there is to slicing a slice. `rangeLength` counts the terms a half-open range has room
for, and `lt_rangeLength_iff` says which multiples of the step stay inside.
-/

namespace Foundation

/-- `n` integers from `a` on in steps of `t`. -/
def progression (a t : ℤ) (n : ℕ) : List ℤ :=
  (List.range n).map fun k : ℕ ↦ a + k * t

@[simp]
theorem length_progression (a t : ℤ) (n : ℕ) : (progression a t n).length = n := by
  rw [progression, List.length_map, List.length_range]

theorem getElem?_progression {a t : ℤ} {n k : ℕ} (hk : k < n) :
    (progression a t n)[k]? = some (a + k * t) := by
  rw [progression, List.getElem?_map, List.getElem?_range hk, Option.map_some]

theorem mem_progression {a t i : ℤ} {n : ℕ} :
    i ∈ progression a t n ↔ ∃ k < n, a + (k : ℤ) * t = i := by
  simp only [progression, List.mem_map, List.mem_range]

theorem nodup_progression {t : ℤ} (ht : t ≠ 0) (a : ℤ) (n : ℕ) : (progression a t n).Nodup := by
  refine List.Nodup.map (fun k k' h ↦ ?_) List.nodup_range
  have hmul : (k : ℤ) * t = k' * t := add_left_cancel h
  exact_mod_cast mul_right_cancel₀ ht hmul

@[simp]
theorem progression_zero (a t : ℤ) : progression a t 0 = [] :=
  rfl

theorem progression_concat (a t : ℤ) (n : ℕ) :
    progression a t (n + 1) = progression a t n ++ [a + n * t] := by
  rw [progression, progression, List.range_succ, List.map_append, List.map_singleton]

theorem progression_succ (a t : ℤ) (n : ℕ) :
    progression a t (n + 1) = a :: progression (a + t) t n := by
  rw [progression, List.range_succ_eq_map, List.map_cons, List.map_map, Nat.cast_zero, zero_mul,
    add_zero, progression]
  congr 1
  refine List.map_congr_left fun k _ ↦ ?_
  simp only [Function.comp_apply, Nat.succ_eq_add_one, Nat.cast_add, Nat.cast_one]
  ring

/-- The terms of a progression at the positions of another progression. -/
theorem map_progression (a t s u : ℤ) (n : ℕ) :
    (progression s u n).map (fun i ↦ a + i * t) = progression (a + t * s) (u * t) n := by
  rw [progression, progression, List.map_map]
  refine List.map_congr_left fun k _ ↦ ?_
  simp only [Function.comp_apply]
  ring

theorem progression_zero_one (n : ℕ) :
    progression 0 1 n = (List.range n).map ((↑) : ℕ → ℤ) := by
  rw [progression]
  refine List.map_congr_left fun k _ ↦ ?_
  rw [zero_add, mul_one]

/-- A progression of at most one term does not have a step. -/
theorem progression_congr_step {n : ℕ} (hn : n ≤ 1) (a t u : ℤ) :
    progression a t n = progression a u n := by
  refine List.map_congr_left fun k hk ↦ ?_
  have hk0 : k = 0 := by
    have := List.mem_range.1 hk
    omega
  rw [hk0, Nat.cast_zero, zero_mul, zero_mul]

/-! ### Half-open ranges -/

/-- The number of multiples `0, s, 2 * s, …` of a positive `s` that are below `d`. -/
def multiplesBelow (d s : ℤ) : ℕ :=
  ((d + s - 1) / s).toNat

theorem lt_multiplesBelow_iff {d s : ℤ} (hs : 0 < s) (k : ℕ) :
    k < multiplesBelow d s ↔ (k : ℤ) * s < d := by
  rw [multiplesBelow, Int.lt_toNat, Int.lt_iff_add_one_le, Int.le_ediv_iff_mul_le hs, add_mul,
    one_mul]
  constructor <;> intro h <;> linarith

theorem multiplesBelow_of_nonpos {d s : ℤ} (hs : 0 < s) (hd : d ≤ 0) : multiplesBelow d s = 0 := by
  have h := lt_multiplesBelow_iff (d := d) hs 0
  rw [Nat.cast_zero, zero_mul] at h
  omega

theorem multiplesBelow_le_one {d s : ℤ} (hs : 0 < s) (hd : d ≤ s) : multiplesBelow d s ≤ 1 := by
  have h := lt_multiplesBelow_iff (d := d) hs 1
  rw [Nat.cast_one, one_mul] at h
  omega

/-- Two steps that overshoot `d` leave the same multiples below it. -/
theorem multiplesBelow_congr {d s s' : ℤ} (hs : 0 < s) (hs' : 0 < s') (hd : d ≤ s)
    (hd' : d ≤ s') : multiplesBelow d s = multiplesBelow d s' := by
  have h := lt_multiplesBelow_iff (d := d) hs 0
  have h' := lt_multiplesBelow_iff (d := d) hs' 0
  have hle := multiplesBelow_le_one hs hd
  have hle' := multiplesBelow_le_one hs' hd'
  rw [Nat.cast_zero, zero_mul] at h h'
  omega

/-- The division that truncates toward zero gives the same count, once below zero is zero. -/
theorem multiplesBelow_eq_tdiv {d s : ℤ} (hs : 0 < s) :
    multiplesBelow d s = ((d + s - 1).tdiv s).toNat := by
  rw [multiplesBelow]
  obtain hneg | hpos := lt_or_ge (d + s - 1) 0
  · have hq : (d + s - 1) / s ≤ 0 := (Int.ediv_neg_of_neg_of_pos hneg hs).le
    have hq' : (d + s - 1).tdiv s ≤ 0 := by
      have h := Int.tdiv_nonneg (a := -(d + s - 1)) (by omega) hs.le
      rw [Int.neg_tdiv] at h
      omega
    rw [Int.toNat_of_nonpos hq, Int.toNat_of_nonpos hq']
  · rw [Int.tdiv_eq_ediv_of_nonneg hpos]

/-- The number of terms of the range from `start` in steps of `step` on this side of `stop`. -/
def rangeLength (start stop step : ℤ) : ℕ :=
  if 0 < step then multiplesBelow (stop - start) step else multiplesBelow (start - stop) (-step)

theorem rangeLength_of_pos {start stop step : ℤ} (h : 0 < step) :
    rangeLength start stop step = multiplesBelow (stop - start) step :=
  if_pos h

theorem rangeLength_of_neg {start stop step : ℤ} (h : step < 0) :
    rangeLength start stop step = multiplesBelow (start - stop) (-step) :=
  if_neg h.not_gt

theorem lt_rangeLength_iff {start stop step : ℤ} (hs : step ≠ 0) (k : ℕ) :
    k < rangeLength start stop step ↔
      if 0 < step then start + k * step < stop else stop < start + k * step := by
  split_ifs with hpos
  · rw [rangeLength_of_pos hpos, lt_multiplesBelow_iff hpos]
    constructor <;> intro h <;> linarith
  · have hneg : step < 0 := by omega
    rw [rangeLength_of_neg hneg, lt_multiplesBelow_iff (neg_pos.2 hneg)]
    constructor <;> intro h <;> linarith

end Foundation
