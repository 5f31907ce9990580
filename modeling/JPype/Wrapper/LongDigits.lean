import Mathlib.Data.List.Basic
import Mathlib.Data.List.GetD
import Mathlib.Data.Nat.Digits.Defs

/-!
# Python integers made from Java longs

The wrapper of a Java number is a Python int, and is filled digit by digit instead of by CPython's
own constructors. CPython stores the digits of the magnitude, the lowest first, and the sign with
their number; up to 3.11 as the size of the object, from 3.12 on as a tag. What is filled stands for
the value, and is canonical (`longFromLongLong_spec`).

What C leaves undefined, and what would lose bits, is no value here.
-/

namespace JPype

/-- `PYLONG_BITS_IN_DIGIT` -/
inductive DigitSize where
  | thirty
  | fifteen
  deriving DecidableEq

namespace DigitSize

/-- `PyLong_SHIFT` -/
def shift : DigitSize → ℕ
  | thirty => 30
  | fifteen => 15

/-- `JLONG_MAX_DIGITS` -/
def maxDigits : DigitSize → ℕ
  | thirty => 3
  | fifteen => 5

/-- The bits of the type `digit`. -/
def width : DigitSize → ℕ
  | thirty => 32
  | fifteen => 16

/-- `PyLong_BASE` -/
def base (size : DigitSize) : ℕ :=
  2 ^ size.shift

/-- `PyLong_MASK` -/
def mask (size : DigitSize) : UInt64 :=
  UInt64.ofNat (size.base - 1)

end DigitSize

/-- Where CPython keeps the sign and the number of digits. -/
inductive LongLayout where
  /-- up to 3.11 -/
  | obSize
  /-- from 3.12 on -/
  | lvTag
  deriving DecidableEq

/-- `PyLongObject` -/
inductive PyLongObject where
  | sized (obSize : ℤ) (obDigit : List ℕ)
  | tagged (lvTag : ℕ) (obDigit : List ℕ)
  deriving DecidableEq

/-! ### Filling an object -/

/-- `m >> k`, for `unsigned long long` -/
def shiftRight? (m : UInt64) (k : ℕ) : Option UInt64 :=
  if k < 64 then some (m >>> UInt64.ofNat k) else none

/-- `(uintptr_t) n << k`, where no bit is lost and pointers may have 32 bits only. -/
def shiftLeft? (n k : ℕ) : Option ℕ :=
  if k < 32 ∧ n * 2 ^ k < 2 ^ 32 then some (n <<< k) else none

/-- `-n`, for an `int` -/
def negate? (n : ℕ) : Option ℤ :=
  if n < 2 ^ 31 then some (-n) else none

/-- `mag` -/
def magnitude (value : Int64) : UInt64 :=
  if value < 0 then 0 - value.toUInt64 else value.toUInt64

/-- The loop that takes the digits from the magnitude. -/
def takeDigits (size : DigitSize) : ℕ → UInt64 → Option (List ℕ)
  | 0, _ => some []
  | i + 1, m => do
    let m' ← shiftRight? m size.shift
    let digits ← takeDigits size i m'
    some ((m &&& size.mask).toNat % 2 ^ size.width :: digits)

/-- `while (ndigits > 0 && digits[ndigits - 1] == 0) ndigits--;` -/
def countDigits (digits : List ℕ) : ℕ → ℕ
  | 0 => 0
  | ndigits + 1 => if digits.getD ndigits 0 = 0 then countDigits digits ndigits else ndigits + 1

/-- `sign_code` -/
def signCode (value : Int64) : ℕ :=
  if magnitude value = 0 then 1 else if value < 0 then 2 else 0

/-- `PyJPNumber_longFromLongLong`, where the memory can be allocated. -/
def longFromLongLong (size : DigitSize) (layout : LongLayout) (value : Int64) :
    Option PyLongObject := do
  let digits ← takeDigits size size.maxDigits (magnitude value)
  let ndigits := countDigits digits size.maxDigits
  match layout with
  | .lvTag => do
    let count ← shiftLeft? ndigits 3
    some (.tagged (count ||| signCode value) (digits.take ndigits))
  | .obSize => do
    let obSize ← if value < 0 then negate? ndigits else some (ndigits : ℤ)
    some (.sized obSize (digits.take ndigits))

/-! ### What an object stands for -/

namespace PyLongObject

/-- The number of digits. -/
def count : PyLongObject → ℕ
  | sized obSize _ => obSize.natAbs
  | tagged lvTag _ => lvTag >>> 3

/-- The sign, as an integer. -/
def sign : PyLongObject → ℤ
  | sized obSize _ => obSize.sign
  | tagged lvTag _ => (1 : ℤ) - (lvTag &&& 3 : ℕ)

def obDigit : PyLongObject → List ℕ
  | sized _ obDigit => obDigit
  | tagged _ obDigit => obDigit

/-- The integer that an object stands for. -/
def denotes (size : DigitSize) (o : PyLongObject) : ℤ :=
  o.sign * Nat.ofDigits size.base (o.obDigit.take o.count)

/-- The form that the arithmetic of CPython relies on. -/
structure IsCanonical (size : DigitSize) (o : PyLongObject) : Prop where
  count_eq : o.count = o.obDigit.length
  digit_lt : ∀ d ∈ o.obDigit, d < size.base
  /-- The most significant digit is not zero. -/
  getLast_ne : ∀ d, o.obDigit.getLast? = some d → d ≠ 0
  /-- Zero has no digits. -/
  sign_eq_zero_iff : o.sign = 0 ↔ o.count = 0

end PyLongObject

/-! ### The digits -/

/-- The unsigned negation gives the magnitude, also of the minimum. -/
theorem toNat_magnitude (value : Int64) : (magnitude value).toNat = value.toInt.natAbs := by
  have hcond : value.toInt = if 2 * value.toUInt64.toNat < 2 ^ 64 then (value.toUInt64.toNat : ℤ)
      else value.toUInt64.toNat - (2 ^ 64 : ℕ) := BitVec.toInt_eq_toNat_cond _
  have hlt : value.toUInt64.toNat < 2 ^ 64 := value.toUInt64.toNat_lt
  rw [magnitude]
  by_cases hneg : value < 0
  · have hnegative : value.toInt < 0 := Int64.lt_iff_toInt_lt.mp hneg
    rw [if_pos hneg, UInt64.toNat_sub]
    show (2 ^ 64 - value.toUInt64.toNat + 0) % 2 ^ 64 = _
    split at hcond <;> omega
  · have hpos : 0 ≤ value.toInt := Int.not_lt.mp fun h ↦ hneg (Int64.lt_iff_toInt_lt.mpr h)
    rw [if_neg hneg]
    split at hcond <;> omega

theorem DigitSize.shift_lt (size : DigitSize) : size.shift < 64 := by
  cases size <;> decide

theorem DigitSize.one_lt_base (size : DigitSize) : 1 < size.base := by
  cases size <;> decide

/-- A digit has room in its type. -/
theorem toNat_and_mask (size : DigitSize) (m : UInt64) :
    (m &&& size.mask).toNat % 2 ^ size.width = m.toNat % size.base := by
  have hmask : size.mask.toNat = 2 ^ size.shift - 1 := by
    cases size <;> rfl
  have hwidth : size.base ≤ 2 ^ size.width := by
    cases size <;> decide
  have hlt : m.toNat % size.base < size.base :=
    Nat.mod_lt _ (Nat.lt_trans Nat.one_pos size.one_lt_base)
  rw [UInt64.toNat_and, hmask, Nat.and_two_pow_sub_one_eq_mod]
  exact Nat.mod_eq_of_lt (Nat.lt_of_lt_of_le hlt hwidth)

theorem toNat_shiftRight (size : DigitSize) (m : UInt64) :
    ∃ m', shiftRight? m size.shift = some m' ∧ m'.toNat = m.toNat / size.base := by
  refine ⟨_, if_pos size.shift_lt, ?_⟩
  have hshift : (UInt64.ofNat size.shift).toNat % 64 = size.shift := by
    cases size <;> rfl
  rw [UInt64.toNat_shiftRight, hshift, Nat.shiftRight_eq_div_pow]
  rfl

/-- The loop takes the lowest digits. -/
theorem takeDigits_spec (size : DigitSize) (i : ℕ) (m : UInt64) :
    ∃ digits, takeDigits size i m = some digits ∧ digits.length = i ∧
      (∀ d ∈ digits, d < size.base) ∧ Nat.ofDigits size.base digits = m.toNat % size.base ^ i := by
  induction i generalizing m with
  | zero => exact ⟨[], rfl, rfl, fun d hd ↦ absurd hd List.not_mem_nil, (Nat.mod_one _).symm⟩
  | succ i ih =>
    obtain ⟨m', hm', hvalue⟩ := toNat_shiftRight size m
    obtain ⟨digits, hdigits, hlength, hlt, hofDigits⟩ := ih m'
    refine ⟨((m &&& size.mask).toNat % 2 ^ size.width) :: digits, ?_, congrArg (· + 1) hlength,
      ?_, ?_⟩
    · rw [takeDigits, hm', Option.bind_eq_bind, Option.bind_some, hdigits]
      rfl
    · refine List.forall_mem_cons.mpr ⟨?_, hlt⟩
      rw [toNat_and_mask]
      exact Nat.mod_lt _ (Nat.lt_trans Nat.one_pos size.one_lt_base)
    · rw [Nat.ofDigits_cons, toNat_and_mask, hofDigits, hvalue, pow_succ', Nat.mod_mul]

theorem countDigits_le (digits : List ℕ) (n : ℕ) : countDigits digits n ≤ n := by
  induction n with
  | zero => exact Nat.le_refl 0
  | succ n ih =>
    rw [countDigits]
    split
    · exact Nat.le_succ_of_le ih
    · exact Nat.le_refl _

/-- Only zeros are left out. -/
theorem ofDigits_take_countDigits (b : ℕ) (digits : List ℕ) {n : ℕ} (hn : n ≤ digits.length) :
    Nat.ofDigits b (digits.take (countDigits digits n)) = Nat.ofDigits b (digits.take n) := by
  induction n with
  | zero => rfl
  | succ n ih =>
    rw [countDigits]
    split
    · next hzero =>
      rw [ih (Nat.le_of_succ_le hn), List.take_add_one, List.getElem?_eq_getElem hn]
      rw [List.getD_eq_getElem _ _ hn] at hzero
      rw [hzero]
      exact (Nat.ofDigits_append_zero _).symm
    · rfl

/-- The last digit that is left is not zero. -/
theorem getLast_take_countDigits (digits : List ℕ) {n d : ℕ} (hn : n ≤ digits.length)
    (hd : (digits.take (countDigits digits n)).getLast? = some d) : d ≠ 0 := by
  induction n with
  | zero => cases hd
  | succ n ih =>
    rw [countDigits] at hd
    split at hd
    · exact ih (Nat.le_of_succ_le hn) hd
    · next hne =>
      rw [List.take_add_one, List.getElem?_eq_getElem hn] at hd
      rw [List.getD_eq_getElem _ _ hn] at hne
      rw [Option.toList_some, List.getLast?_concat, Option.some_inj] at hd
      exact hd ▸ hne

/-- The digits of a magnitude: the object gets those up to the last that is not zero. -/
theorem digits_spec (size : DigitSize) (value : Int64) :
    ∃ digits, takeDigits size size.maxDigits (magnitude value) = some digits ∧
      (digits.take (countDigits digits size.maxDigits)).length =
        countDigits digits size.maxDigits ∧
      (∀ d ∈ digits.take (countDigits digits size.maxDigits), d < size.base) ∧
      (∀ d, (digits.take (countDigits digits size.maxDigits)).getLast? = some d → d ≠ 0) ∧
      Nat.ofDigits size.base (digits.take (countDigits digits size.maxDigits)) =
        value.toInt.natAbs := by
  obtain ⟨digits, hdigits, hlength, hlt, hofDigits⟩ :=
    takeDigits_spec size size.maxDigits (magnitude value)
  have hcount : countDigits digits size.maxDigits ≤ digits.length :=
    hlength ▸ countDigits_le digits _
  have henough : (magnitude value).toNat < size.base ^ size.maxDigits :=
    Nat.lt_of_lt_of_le (magnitude value).toNat_lt (by cases size <;> decide)
  refine ⟨digits, hdigits, List.length_take_of_le hcount,
    fun d hd ↦ hlt d (List.mem_of_mem_take hd),
    fun d ↦ getLast_take_countDigits digits hlength.ge, ?_⟩
  rw [ofDigits_take_countDigits _ _ hlength.ge, List.take_of_length_le hlength.le, hofDigits,
    Nat.mod_eq_of_lt henough, toNat_magnitude]

/-! ### The object -/

/-- Only zero has no digits. -/
theorem length_eq_zero_iff {b : ℕ} (hb : 0 < b) {digits : List ℕ} {value : ℤ}
    (hlast : ∀ d, digits.getLast? = some d → d ≠ 0) (h : Nat.ofDigits b digits = value.natAbs) :
    digits.length = 0 ↔ value = 0 := by
  rw [List.length_eq_zero_iff]
  constructor
  · rintro rfl
    exact Int.natAbs_eq_zero.mp h.symm
  · rintro rfl
    obtain rfl | ⟨digits, d, rfl⟩ := List.eq_nil_or_concat' digits
    · rfl
    · have hd : 0 < d := Nat.pos_of_ne_zero (hlast d List.getLast?_concat)
      have hpos : 0 < b ^ digits.length * d := Nat.mul_pos (Nat.pow_pos hb) hd
      rw [Nat.ofDigits_append, Nat.ofDigits_singleton, Int.natAbs_zero] at h
      omega

theorem signCode_eq (value : Int64) : 1 - (signCode value : ℤ) = value.toInt.sign := by
  have hzero : magnitude value = 0 ↔ value.toInt = 0 := by
    rw [← UInt64.toNat_inj, toNat_magnitude]
    exact Int.natAbs_eq_zero
  have hneg : value < 0 ↔ value.toInt < 0 := Int64.lt_iff_toInt_lt
  rw [signCode]
  rcases lt_trichotomy value.toInt 0 with h | h | h
  · rw [if_neg (mt hzero.mp h.ne), if_pos (hneg.mpr h), Int.sign_eq_neg_one_of_neg h]
    rfl
  · rw [if_pos (hzero.mpr h), h]
    rfl
  · rw [if_neg (mt hzero.mp h.ne'), if_neg (mt hneg.mp h.not_gt), Int.sign_eq_one_of_pos h]
    rfl

/-- A tag has room for the sign below the number of digits. -/
theorem tag_spec : ∀ count ≤ 5, ∀ sign < 3, shiftLeft? count 3 = some (count <<< 3) ∧
    (count <<< 3 ||| sign) >>> 3 = count ∧ (count <<< 3 ||| sign) &&& 3 = sign := by
  decide

/-- An object with the digits of the magnitude and the sign of the value. -/
theorem PyLongObject.spec_of_sign {size : DigitSize} {o : PyLongObject} {value : ℤ}
    (hcount : o.count = o.obDigit.length) (hsign : o.sign = value.sign)
    (hlt : ∀ d ∈ o.obDigit, d < size.base) (hlast : ∀ d, o.obDigit.getLast? = some d → d ≠ 0)
    (h : Nat.ofDigits size.base o.obDigit = value.natAbs) :
    o.denotes size = value ∧ o.IsCanonical size := by
  refine ⟨?_, hcount, hlt, hlast, ?_⟩
  · rw [denotes, hcount, List.take_length, hsign, h, Int.sign_mul_natAbs]
  · rw [hsign, Int.sign_eq_zero_iff_zero, hcount]
    exact (length_eq_zero_iff (Nat.lt_trans Nat.one_pos size.one_lt_base) hlast h).symm

/-- The magnitude is exact. What is filled stands for the value, is canonical, and no operation of C
overflows. -/
theorem longFromLongLong_spec (size : DigitSize) (layout : LongLayout) (value : Int64) :
    (magnitude value).toNat = value.toInt.natAbs ∧
      ∃ o, longFromLongLong size layout value = some o ∧ o.denotes size = value.toInt ∧
        o.IsCanonical size := by
  refine ⟨toNat_magnitude value, ?_⟩
  obtain ⟨digits, hdigits, hlength, hlt, hlast, hofDigits⟩ := digits_spec size value
  have hmax : countDigits digits size.maxDigits ≤ 5 :=
    (countDigits_le digits _).trans (by cases size <;> decide)
  generalize hn : countDigits digits size.maxDigits = n at hlength hlt hlast hofDigits hmax
  rw [longFromLongLong, hdigits]
  simp only [Option.bind_eq_bind, Option.bind_some, hn]
  cases layout with
  -- From 3.12 on the sign stands in the tag, below the number of digits.
  | lvTag =>
    have hsign : signCode value < 3 := by
      rw [signCode]
      split
      · decide
      · split <;> decide
    obtain ⟨hshift, hcount, hand⟩ := tag_spec n hmax _ hsign
    simp only [hshift, Option.bind_some]
    refine ⟨_, rfl, PyLongObject.spec_of_sign (hcount.trans hlength.symm) ?_ hlt hlast hofDigits⟩
    show (1 : ℤ) - ((n <<< 3 ||| signCode value) &&& 3 : ℕ) = _
    rw [hand, signCode_eq]
  -- Before, the size has the sign, and zero has the size zero.
  | obSize =>
    have hzero : n = 0 ↔ value.toInt = 0 := by
      rw [← hlength]
      exact length_eq_zero_iff (Nat.lt_trans Nat.one_pos size.one_lt_base) hlast hofDigits
    by_cases hneg : value < 0
    · have hnegative : value.toInt < 0 := Int64.lt_iff_toInt_lt.mp hneg
      have hnegate : negate? n = some (-(n : ℤ)) := if_pos (hmax.trans_lt (by decide))
      have hpos : 0 < n := Nat.pos_of_ne_zero (mt hzero.mp hnegative.ne)
      simp only [if_pos hneg, hnegate, Option.bind_some]
      refine ⟨_, rfl, PyLongObject.spec_of_sign ?_ ?_ hlt hlast hofDigits⟩
      · exact (Int.natAbs_neg n).trans hlength.symm
      · show (-(n : ℤ)).sign = _
        rw [Int.sign_eq_neg_one_of_neg hnegative, Int.sign_eq_neg_one_of_neg (by omega)]
    · have hnonneg : 0 ≤ value.toInt := Int.not_lt.mp fun h ↦ hneg (Int64.lt_iff_toInt_lt.mpr h)
      simp only [if_neg hneg]
      refine ⟨_, rfl, PyLongObject.spec_of_sign ?_ ?_ hlt hlast hofDigits⟩
      · exact hlength.symm
      · show (n : ℤ).sign = _
        rcases hnonneg.eq_or_lt with h | h
        · rw [← h, hzero.mpr h.symm]
          rfl
        · have hpos : 0 < n := Nat.pos_of_ne_zero (mt hzero.mp h.ne')
          rw [Int.sign_eq_one_of_pos h, Int.sign_eq_one_of_pos (by omega)]

end JPype
