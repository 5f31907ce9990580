import Mathlib.Data.Nat.Digits.Defs
import Mathlib.Data.List.TakeWhile

/-!
# A block of memory

A block of cells at an address. A store outside the block is undefined (`none`), as is a load; what
a store writes can be read back, and a load apart from it reads what it read before. Of bytes, an
unsigned number is held with its lowest byte first, and a string up to the first zero byte.
-/

namespace Foundation

/-- The cells from the address `base` on, `size` of them. -/
structure Block (α : Type*) where
  base : ℕ
  size : ℕ
  cells : ℕ → α

namespace Block

variable {α : Type*} {b b' : Block α} {a a' n : ℕ} {l : List α}

/-- The `n` cells from `a` on are cells of the block. -/
def Within (b : Block α) (a n : ℕ) : Prop :=
  b.base ≤ a ∧ a + n ≤ b.base + b.size

instance (b : Block α) (a n : ℕ) : Decidable (b.Within a n) :=
  inferInstanceAs (Decidable (_ ∧ _))

/-- The cells from `a` on, in order. -/
def load (b : Block α) (a n : ℕ) : Option (List α) :=
  if b.Within a n then some ((List.range n).map fun i ↦ b.cells (a + i)) else none

/-- The block with the cells from `a` on replaced. -/
def store (b : Block α) (a : ℕ) (l : List α) : Option (Block α) :=
  if b.Within a l.length then
    some { b with cells := fun i ↦ if a ≤ i then l.getD (i - a) (b.cells i) else b.cells i }
  else none

/-- The blocks are at one place and hold the same where `p` does not. -/
structure SameOutside (p : ℕ → Prop) (b b' : Block α) : Prop where
  base_eq : b'.base = b.base
  size_eq : b'.size = b.size
  cells_eq : ∀ i, ¬p i → b'.cells i = b.cells i

namespace SameOutside

variable {p q : ℕ → Prop}

theorem trans {b'' : Block α} (h : SameOutside p b b') (h' : SameOutside q b' b'') :
    SameOutside (fun i ↦ p i ∨ q i) b b'' where
  base_eq := h'.base_eq.trans h.base_eq
  size_eq := h'.size_eq.trans h.size_eq
  cells_eq i hi := by
    rw [h'.cells_eq i fun hq ↦ hi (.inr hq), h.cells_eq i fun hp ↦ hi (.inl hp)]

theorem mono (h : SameOutside p b b') (hpq : ∀ i, p i → q i) : SameOutside q b b' where
  base_eq := h.base_eq
  size_eq := h.size_eq
  cells_eq i hi := h.cells_eq i fun hp ↦ hi (hpq i hp)

theorem within_iff (h : SameOutside p b b') : b'.Within a n ↔ b.Within a n := by
  rw [Within, Within, h.base_eq, h.size_eq]

/-- A load apart from the change reads what it read before. -/
theorem load_eq (h : SameOutside p b b') (hp : ∀ i, a ≤ i → i < a + n → ¬p i) :
    b'.load a n = b.load a n := by
  refine if_congr h.within_iff (congrArg some (List.map_congr_left fun i hi ↦ ?_)) rfl
  exact h.cells_eq _ (hp _ (by omega) (by have := List.mem_range.1 hi; omega))

end SameOutside

/-- What a store does: it stays in the block, and writes its cells and no others. -/
theorem exists_store (h : b.Within a l.length) :
    ∃ b', b.store a l = some b' ∧ b'.load a l.length = some l ∧
      SameOutside (fun i ↦ a ≤ i ∧ i < a + l.length) b b' := by
  refine ⟨_, if_pos h, ?_, rfl, rfl, fun i hi ↦ ?_⟩
  · refine (if_pos h).trans (congrArg some (List.ext_getElem (by simp) fun i hi hi' ↦ ?_))
    simp [hi']
  · by_cases hai : a ≤ i
    · have hlen : l.length ≤ i - a := by omega
      simp [hai, List.getElem?_eq_none hlen]
    · simp [hai]

theorem load_of_forall {x : α} (h : b.Within a n) (hx : ∀ i, a ≤ i → i < a + n → b.cells i = x) :
    b.load a n = some (List.replicate n x) := by
  refine (if_pos h).trans (congrArg some (List.ext_getElem (by simp) fun i hi hi' ↦ ?_))
  have hin : i < n := by simpa using hi
  simpa using hx (a + i) (by omega) (by omega)

theorem cells_of_load (h : b.load a n = some l) {i : ℕ} (hi : i < n) :
    l[i]? = some (b.cells (a + i)) := by
  rw [load] at h
  split at h
  · simp [← Option.some.inj h, hi]
  · cases h

/-! ### Numbers -/

/-- The `w` bytes of a number, the lowest first. -/
def littleEndian (w x : ℕ) : List UInt8 :=
  (List.range w).map fun i ↦ UInt8.ofNat (x / 256 ^ i)

/-- The number of these bytes. -/
def ofLittleEndian (bytes : List UInt8) : ℕ :=
  Nat.ofDigits 256 (bytes.map UInt8.toNat)

@[simp]
theorem length_littleEndian (w x : ℕ) : (littleEndian w x).length = w := by
  simp [littleEndian]

theorem littleEndian_succ (w x : ℕ) :
    littleEndian (w + 1) x = UInt8.ofNat x :: littleEndian w (x / 256) := by
  simp [littleEndian, List.range_succ_eq_map, Nat.pow_succ', Nat.div_div_eq_div_mul]

/-- A number is read back as far as its bytes hold it. -/
theorem ofLittleEndian_littleEndian (w x : ℕ) :
    ofLittleEndian (littleEndian w x) = x % 256 ^ w := by
  induction w generalizing x with
  | zero => simp [littleEndian, ofLittleEndian, Nat.mod_one]
  | succ w ih =>
    have hrest : Nat.ofDigits 256 ((littleEndian w (x / 256)).map UInt8.toNat) =
        x / 256 % 256 ^ w := ih (x / 256)
    rw [littleEndian_succ, ofLittleEndian, List.map_cons, Nat.ofDigits_cons, hrest, pow_succ',
      Nat.mod_mul]
    simp

/-- The number in the `w` bytes from `a` on. -/
def loadNat (b : Block UInt8) (a w : ℕ) : Option ℕ :=
  (b.load a w).map ofLittleEndian

/-! ### Strings -/

/-- The bytes from `a` on before the first zero byte, which is looked for in `fuel` bytes. -/
def loadString (b : Block UInt8) : ℕ → ℕ → Option (List UInt8)
  | 0, _ => none
  | fuel + 1, a =>
    if b.Within a 1 then
      if b.cells a = 0 then some [] else (b.loadString fuel (a + 1)).map (b.cells a :: ·)
    else none

theorem loadString_eq {b : Block UInt8} {bytes : List UInt8} {fuel : ℕ}
    (hwithin : b.Within a (bytes.length + 1)) (hfuel : bytes.length < fuel)
    (hbytes : ∀ i (h : i < bytes.length), b.cells (a + i) = bytes[i] ∧ bytes[i] ≠ 0)
    (hend : b.cells (a + bytes.length) = 0) : b.loadString fuel a = some bytes := by
  induction bytes generalizing a fuel with
  | nil =>
    obtain ⟨fuel, rfl⟩ := Nat.exists_eq_add_one_of_ne_zero (Nat.ne_of_gt hfuel)
    exact (if_pos hwithin).trans (if_pos hend)
  | cons byte bytes ih =>
    obtain ⟨fuel, rfl⟩ := Nat.exists_eq_add_one_of_ne_zero (Nat.ne_of_gt (Nat.zero_lt_of_lt hfuel))
    obtain ⟨hbyte, hne⟩ := hbytes 0 (by simp)
    have hrest : b.loadString fuel (a + 1) = some bytes := by
      refine ih ⟨by have := hwithin.1; omega, ?_⟩ (by simpa using hfuel) (fun i hi ↦ ?_) ?_
      · have := hwithin.2
        simp only [List.length_cons] at this
        omega
      · have := hbytes (i + 1) (by simpa using hi)
        rwa [List.getElem_cons_succ, ← Nat.add_assoc, Nat.add_right_comm] at this
      · rwa [List.length_cons, ← Nat.add_assoc, Nat.add_right_comm] at hend
    simp only [Nat.add_zero, List.getElem_cons_zero] at hbyte hne
    have hfirst : b.Within a 1 := by
      refine ⟨hwithin.1, ?_⟩
      have := hwithin.2
      simp only [List.length_cons] at this
      omega
    rw [loadString, if_pos hfirst, hbyte, if_neg hne, hrest]
    rfl

end Block

end Foundation
