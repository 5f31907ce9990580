import Mathlib.Algebra.Order.Ring.Int

/-!
# Signed integers of a fixed width

A program computes with signed integers of `w` bits. A conversion to that width keeps the last
`w` bits and says nothing; a sum, a product or a quotient that does not fit has no defined value.
`Exact` asks of a run that it meets its specification and that no conversion in it changed a
value: the run in which such a conversion stops the program has to end the same way. Each
operation has one rule, which says what exactness of the operation adds to exactness of the rest.
-/

namespace Foundation

variable {ε α β : Type} {w : ℕ}

/-- The integer is one of `w` bits, in two's complement. -/
def Fits (w : ℕ) (x : ℤ) : Prop :=
  -2 ^ (w - 1) ≤ x ∧ x < 2 ^ (w - 1)

instance (w : ℕ) (x : ℤ) : Decidable (Fits w x) :=
  inferInstanceAs (Decidable (_ ∧ _))

/-- How an operation leaves exact arithmetic. -/
inductive Inexact where
  | narrowed
  | overflow
  | divisionByZero
  deriving DecidableEq, Repr

/-- How a run ends without a value: by an exception, or by an operation that is not exact. -/
inductive Stop (ε : Type) where
  | raised (e : ε)
  | inexact (i : Inexact)
  deriving DecidableEq, Repr

/-- A computation whose exceptions do not come from arithmetic. -/
def raising (r : Except ε α) : Except (Stop ε) α :=
  r.mapError .raised

/-- What a conversion does with a value that does not fit: it keeps the last bits, or it stops
the run. -/
inductive Conversion where
  | wrapping
  | trapping
  deriving DecidableEq, Repr

/-- The conversion to `w` bits. -/
def Conversion.narrow (w : ℕ) (x : ℤ) : Conversion → Except (Stop ε) ℤ
  | .wrapping => .ok (x.bmod (2 ^ w))
  | .trapping => if Fits w x then .ok x else .error (.inexact .narrowed)

/-- The value of a signed operation, from the exact one. -/
def signed (w : ℕ) (x : ℤ) : Except (Stop ε) ℤ :=
  if Fits w x then .ok x else .error (.inexact .overflow)

/-- The division, which truncates. -/
def divide (w : ℕ) (x y : ℤ) : Except (Stop ε) ℤ :=
  if y = 0 then .error (.inexact .divisionByZero) else signed w (x.tdiv y)

/-! ### Operations that are exact -/

theorem Fits.mono {w' : ℕ} {x : ℤ} (h : Fits w x) (hle : w ≤ w') : Fits w' x := by
  have hpow : (2 : ℤ) ^ (w - 1) ≤ 2 ^ (w' - 1) :=
    pow_le_pow_right₀ (by decide) (Nat.sub_le_sub_right hle 1)
  exact ⟨(neg_le_neg hpow).trans h.1, h.2.trans_le hpow⟩

/-- All numbers of a width are of another one exactly if it is not smaller. -/
theorem forall_fits_iff {w' : ℕ} (hw' : 0 < w') : (∀ x, Fits w x → Fits w' x) ↔ w ≤ w' := by
  constructor
  · intro h
    have hpos : (0 : ℤ) < 2 ^ (w - 1) := pow_pos (by decide) _
    have hlow : -2 ^ (w' - 1) ≤ -2 ^ (w - 1) := (h (-2 ^ (w - 1)) ⟨le_rfl, by omega⟩).1
    have hle : w - 1 ≤ w' - 1 :=
      (pow_le_pow_iff_right₀ (by decide)).1 (neg_le_neg_iff.1 hlow)
    omega
  · exact fun hle x h ↦ h.mono hle

theorem bmod_of_fits {x : ℤ} (hw : 0 < w) (h : Fits w x) : x.bmod (2 ^ w) = x := by
  obtain ⟨k, rfl⟩ := Nat.exists_eq_succ_of_ne_zero hw.ne'
  obtain ⟨hlow, hhigh⟩ := h
  rw [Nat.succ_sub_one] at hlow hhigh
  have hpow : ((2 ^ (k + 1) : ℕ) : ℤ) = 2 * 2 ^ k := by
    rw [Nat.cast_pow, Nat.cast_ofNat, pow_succ, mul_comm]
  refine Int.bmod_eq_of_le_mul_two ?_ ?_ <;> rw [Nat.succ_eq_add_one, hpow] <;> omega

theorem fits_bmod (hw : 0 < w) (x : ℤ) : Fits w (x.bmod (2 ^ w)) := by
  obtain ⟨k, rfl⟩ := Nat.exists_eq_succ_of_ne_zero hw.ne'
  have hpow : ((2 ^ (k + 1) : ℕ) : ℤ) = 2 * 2 ^ k := by
    rw [Nat.cast_pow, Nat.cast_ofNat, pow_succ, mul_comm]
  have hlow := Int.le_bmod (x := x) (m := 2 ^ (k + 1)) (Nat.two_pow_pos _)
  have hhigh := Int.bmod_lt (x := x) (m := 2 ^ (k + 1)) (Nat.two_pow_pos _)
  rw [hpow] at hlow hhigh
  rw [Fits, Nat.succ_sub_one]
  constructor <;> simp only [Nat.succ_eq_add_one] <;> omega

theorem Conversion.narrow_of_fits (c : Conversion) {x : ℤ} (hw : 0 < w) (h : Fits w x) :
    c.narrow w x = (.ok x : Except (Stop ε) ℤ) := by
  cases c with
  | wrapping => exact congrArg Except.ok (bmod_of_fits hw h)
  | trapping => exact if_pos h

theorem signed_of_fits {x : ℤ} (h : Fits w x) : signed w x = (.ok x : Except (Stop ε) ℤ) :=
  if_pos h

theorem raising_injective : Function.Injective (raising : Except ε α → Except (Stop ε) α) := by
  intro r r' h
  cases r with
  | error e =>
    cases r' with
    | error e' => exact congrArg Except.error (Stop.raised.inj (Except.error.inj h))
    | ok a => cases h
  | ok a =>
    cases r' with
    | error e => cases h
    | ok a' => exact congrArg Except.ok (Except.ok.inj h)

theorem raising_ne_inexact (r : Except ε α) (i : Inexact) : raising r ≠ .error (.inexact i) := by
  intro h
  cases r with
  | error e => cases Except.error.inj h
  | ok a => cases h

/-! ### Exact runs -/

/-- The run ends as specified, and it ends so too if every conversion that changes a value stops
it. -/
def Exact (run : Conversion → Except (Stop ε) α) (spec : Except ε α → Prop) : Prop :=
  ∃ r, spec r ∧ ∀ c, run c = raising r

variable {spec : Except ε α → Prop} {f : Conversion → β → Except (Stop ε) α}

theorem exact_raising_iff {r : Except ε α} : Exact (fun _ ↦ raising r) spec ↔ spec r := by
  refine ⟨fun ⟨r', hr', heq⟩ ↦ ?_, fun hr ↦ ⟨r, hr, fun _ ↦ rfl⟩⟩
  rwa [raising_injective (heq .trapping)]

theorem exact_pure_iff {a : α} : Exact (fun _ ↦ pure a) spec ↔ spec (.ok a) :=
  exact_raising_iff (r := .ok a)

/-- A run that comes to an operation that is not exact is not exact. -/
theorem not_exact_of_trapping {run : Conversion → Except (Stop ε) α} {i : Inexact}
    (h : run .trapping = .error (.inexact i)) : ¬Exact run spec :=
  fun ⟨r, _, heq⟩ ↦ raising_ne_inexact r i ((heq .trapping).symm.trans h)

/-- The rule of conversions. -/
theorem exact_narrow_bind_iff {f : Conversion → ℤ → Except (Stop ε) α} (hw : 0 < w) {x : ℤ} :
    Exact (fun c ↦ c.narrow w x >>= f c) spec ↔ Fits w x ∧ Exact (fun c ↦ f c x) spec := by
  by_cases h : Fits w x
  · simp only [Conversion.narrow_of_fits _ hw h, h, true_and]
    exact Iff.rfl
  · refine iff_of_false (not_exact_of_trapping (i := .narrowed) ?_) fun h' ↦ h h'.1
    rw [Conversion.narrow, if_neg h]
    rfl

/-- The rule of sums and products. -/
theorem exact_signed_bind_iff {f : Conversion → ℤ → Except (Stop ε) α} {x : ℤ} :
    Exact (fun c ↦ signed w x >>= f c) spec ↔ Fits w x ∧ Exact (fun c ↦ f c x) spec := by
  by_cases h : Fits w x
  · simp only [signed_of_fits h, h, true_and]
    exact Iff.rfl
  · refine iff_of_false (not_exact_of_trapping (i := .overflow) ?_) fun h' ↦ h h'.1
    rw [signed, if_neg h]
    rfl

/-- The rule of quotients. -/
theorem exact_divide_bind_iff {f : Conversion → ℤ → Except (Stop ε) α} {x y : ℤ} :
    Exact (fun c ↦ divide w x y >>= f c) spec ↔
      y ≠ 0 ∧ Fits w (x.tdiv y) ∧ Exact (fun c ↦ f c (x.tdiv y)) spec := by
  by_cases hy : y = 0
  · refine iff_of_false (not_exact_of_trapping (i := .divisionByZero) ?_) fun h ↦ h.1 hy
    rw [divide, if_pos hy]
    rfl
  · have hdivide : (divide w x y : Except (Stop ε) ℤ) = signed w (x.tdiv y) := if_neg hy
    rw [hdivide, exact_signed_bind_iff]
    exact ⟨fun h ↦ ⟨hy, h⟩, fun h ↦ h.2⟩

/-- The rule of a list of conversions. -/
theorem exact_mapM_narrow_bind_iff {f : Conversion → List ℤ → Except (Stop ε) α} (hw : 0 < w)
    {l : List ℤ} :
    Exact (fun c ↦ l.mapM (c.narrow w) >>= f c) spec ↔
      (∀ x ∈ l, Fits w x) ∧ Exact (fun c ↦ f c l) spec := by
  induction l generalizing f with
  | nil =>
    refine ⟨fun h ↦ ⟨fun x hx ↦ absurd hx List.not_mem_nil, h⟩, fun h ↦ h.2⟩
  | cons x l ih =>
    simp only [List.mapM_cons, bind_assoc, pure_bind, List.forall_mem_cons]
    rw [exact_narrow_bind_iff hw, ih (f := fun c l ↦ f c (x :: l)), and_assoc]

end Foundation
