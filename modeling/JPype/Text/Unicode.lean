import Mathlib.Data.List.Basic
import Mathlib.Data.Nat.Bitwise

/-!
# Unicode encoding forms

UTF-16 and the byte encodings that a Java virtual machine and its neighbours exchange: UTF-8 of
Unicode scalar values (`String.utf8EncodeChar`, from the core library), its generalisation to all
code points, surrogates included (`utf8Code`), and the modified UTF-8 of the class file format,
which encodes the UTF-16 code units one by one and avoids the byte zero (`modifiedUnit`).

Code points are natural numbers, code units are `UInt16` and bytes are `UInt8`. The decoding of
UTF-16 (`decode16`) is total: an unpaired surrogate stands for itself.

The last section turns the masks that byte-level code is written with into the arithmetic that
these definitions use.
-/

namespace Unicode

/-! ### UTF-8 -/

/-- Generalised UTF-8: the bytes of any code point below `0x110000`. -/
def utf8Code (c : ℕ) : List UInt8 :=
  if c < 0x80 then [.ofNat c]
  else if c < 0x800 then [.ofNat (0xC0 + c / 64), .ofNat (0x80 + c % 64)]
  else if c < 0x10000 then
    [.ofNat (0xE0 + c / 4096), .ofNat (0x80 + c / 64 % 64), .ofNat (0x80 + c % 64)]
  else
    [.ofNat (0xF0 + c / 262144), .ofNat (0x80 + c / 4096 % 64), .ofNat (0x80 + c / 64 % 64),
      .ofNat (0x80 + c % 64)]

theorem toNat_lt (c : Char) : c.toNat < 0x110000 := by
  have h : c.toNat < 0xD800 ∨ 0xDFFF < c.toNat ∧ c.toNat < 0x110000 := c.valid
  omega

theorem not_surrogate (c : Char) : c.toNat < 0xD800 ∨ 0xE000 ≤ c.toNat :=
  (show c.toNat < 0xD800 ∨ 0xDFFF < c.toNat ∧ c.toNat < 0x110000 from c.valid).imp id
    fun h ↦ h.1

/-- On scalar values, generalised UTF-8 is UTF-8. -/
theorem utf8Code_toNat (c : Char) : utf8Code c.toNat = String.utf8EncodeChar c := by
  have hlt := toNat_lt c
  simp only [utf8Code, String.utf8EncodeChar, show c.val.toNat = c.toNat from rfl]
  split_ifs with h₁ h₂ h₃ h₄ h₅ h₆ <;> first | omega | skip
  · rfl
  · rw [show 0xC0 + c.toNat / 64 = c.toNat / 64 % 32 + 192 by omega, Nat.add_comm 0x80]
  · rw [show 0xE0 + c.toNat / 4096 = c.toNat / 4096 % 16 + 224 by omega, Nat.add_comm 0x80,
      Nat.add_comm 0x80]
  · rw [show 0xF0 + c.toNat / 262144 = c.toNat / 262144 % 8 + 240 by omega, Nat.add_comm 0x80,
      Nat.add_comm 0x80, Nat.add_comm 0x80]

theorem utf8Code_ne_nil (c : ℕ) : utf8Code c ≠ [] := by
  simp only [utf8Code]
  split_ifs <;> exact List.cons_ne_nil _ _

/-! ### UTF-16 -/

/-- A high surrogate. -/
def IsHigh (u : UInt16) : Prop := 0xD800 ≤ u.toNat ∧ u.toNat < 0xDC00

/-- A low surrogate. -/
def IsLow (u : UInt16) : Prop := 0xDC00 ≤ u.toNat ∧ u.toNat < 0xE000

instance (u : UInt16) : Decidable (IsHigh u) := inferInstanceAs (Decidable (_ ∧ _))

instance (u : UInt16) : Decidable (IsLow u) := inferInstanceAs (Decidable (_ ∧ _))

/-- A surrogate of either kind. -/
def IsSurrogate (u : UInt16) : Prop := 0xD800 ≤ u.toNat ∧ u.toNat < 0xE000

instance (u : UInt16) : Decidable (IsSurrogate u) := inferInstanceAs (Decidable (_ ∧ _))

/-- The code point that a high and a low surrogate stand for. -/
def pair (high low : UInt16) : ℕ :=
  0x10000 + (high.toNat - 0xD800) * 0x400 + (low.toNat - 0xDC00)

/-- UTF-16: one code unit or two. -/
def utf16Char (c : Char) : List UInt16 :=
  if c.toNat < 0x10000 then [.ofNat c.toNat]
  else
    [.ofNat (0xD800 + (c.toNat - 0x10000) / 0x400), .ofNat (0xDC00 + (c.toNat - 0x10000) % 0x400)]

/-- The UTF-16 encoding of a text. -/
def utf16 (s : List Char) : List UInt16 :=
  s.flatMap utf16Char

/-- The standard decoding of UTF-16: a high surrogate with a low one after it is one code point,
and any other code unit is one by itself. -/
def decode16 : List UInt16 → List ℕ
  | [] => []
  | [u] => [u.toNat]
  | u :: v :: rest =>
    if IsHigh u ∧ IsLow v then pair u v :: decode16 rest else u.toNat :: decode16 (v :: rest)

theorem toNat_unit {n : ℕ} (h : n < 0x10000) : (UInt16.ofNat n).toNat = n := by
  rw [UInt16.toNat_ofNat']
  exact Nat.mod_eq_of_lt h

/-! ### Modified UTF-8 -/

/-- Modified UTF-8 of one code unit. -/
def modifiedUnit (u : UInt16) : List UInt8 :=
  if u.toNat = 0 then [0xC0, 0x80] else utf8Code u.toNat

/-- Modified UTF-8 of a sequence of code units. -/
def modifiedUtf8 (units : List UInt16) : List UInt8 :=
  units.flatMap modifiedUnit

theorem modifiedUnit_ne_nil (u : UInt16) : modifiedUnit u ≠ [] := by
  rw [modifiedUnit]
  split
  · exact List.cons_ne_nil _ _
  · exact utf8Code_ne_nil _

/-! ### Masks -/

theorem and_3f (n : ℕ) : n &&& 0x3f = n % 64 := Nat.and_two_pow_sub_one_eq_mod n 6

theorem and_1f (n : ℕ) : n &&& 0x1f = n % 32 := Nat.and_two_pow_sub_one_eq_mod n 5

theorem and_0f (n : ℕ) : n &&& 0xf = n % 16 := Nat.and_two_pow_sub_one_eq_mod n 4

theorem and_07 (n : ℕ) : n &&& 0x7 = n % 8 := Nat.and_two_pow_sub_one_eq_mod n 3

theorem and_ff (n : ℕ) : n &&& 0xff = n % 256 := Nat.and_two_pow_sub_one_eq_mod n 8

theorem and_3ff (n : ℕ) : n &&& 0x3ff = n % 1024 := Nat.and_two_pow_sub_one_eq_mod n 10

/-- A mask of `w` ones above `k` zeroes clears the low `k` bits of a number that fits it. -/
theorem and_high {n k w : ℕ} (h : n < 2 ^ (k + w)) :
    n &&& (2 ^ w - 1) * 2 ^ k = n / 2 ^ k * 2 ^ k := by
  have hdiv : (n &&& (2 ^ w - 1) * 2 ^ k) / 2 ^ k = n / 2 ^ k := by
    have hsmall : n / 2 ^ k < 2 ^ w := Nat.div_lt_of_lt_mul (by rwa [← pow_add])
    rw [← Nat.shiftRight_eq_div_pow, Nat.shiftRight_and_distrib, Nat.shiftRight_eq_div_pow,
      Nat.shiftRight_eq_div_pow, Nat.mul_div_cancel _ (Nat.two_pow_pos k),
      Nat.and_two_pow_sub_one_eq_mod, Nat.mod_eq_of_lt hsmall]
  have hmod : (n &&& (2 ^ w - 1) * 2 ^ k) % 2 ^ k = 0 := by
    rw [Nat.and_mod_two_pow, Nat.mul_mod_left, Nat.and_zero]
  have := Nat.div_add_mod (n &&& (2 ^ w - 1) * 2 ^ k) (2 ^ k)
  rw [hdiv, hmod, Nat.add_zero, Nat.mul_comm] at this
  exact this.symm

/-- The top bit of a byte. -/
theorem and_80_eq_zero {n : ℕ} (h : n < 256) : n &&& 0x80 = 0 ↔ n < 0x80 := by
  rw [show n &&& 0x80 = n / 128 * 128 from and_high (show n < 2 ^ (7 + 1) from h)]
  omega

/-- The lead byte of two. -/
theorem and_e0_eq {n : ℕ} (h : n < 256) : n &&& 0xe0 = 0xc0 ↔ 0xc0 ≤ n ∧ n < 0xe0 := by
  rw [show n &&& 0xe0 = n / 32 * 32 from and_high (show n < 2 ^ (5 + 3) from h)]
  omega

/-- The lead byte of three. -/
theorem and_f0_eq {n : ℕ} (h : n < 256) : n &&& 0xf0 = 0xe0 ↔ 0xe0 ≤ n ∧ n < 0xf0 := by
  rw [show n &&& 0xf0 = n / 16 * 16 from and_high (show n < 2 ^ (4 + 4) from h)]
  omega

/-- The lead byte of four. -/
theorem and_f8_eq {n : ℕ} (h : n < 256) : n &&& 0xf8 = 0xf0 ↔ 0xf0 ≤ n ∧ n < 0xf8 := by
  rw [show n &&& 0xf8 = n / 8 * 8 from and_high (show n < 2 ^ (3 + 5) from h)]
  omega

/-- A continuation byte. -/
theorem and_c0_eq {n : ℕ} (h : n < 256) : n &&& 0xc0 = 0x80 ↔ 0x80 ≤ n ∧ n < 0xc0 := by
  rw [show n &&& 0xc0 = n / 64 * 64 from and_high (show n < 2 ^ (6 + 2) from h)]
  omega

/-- The surrogates, by their upper five bits. -/
theorem and_f800_eq {n : ℕ} (h : n < 0x10000) :
    n &&& 0xf800 = 0xd800 ↔ 0xd800 ≤ n ∧ n < 0xe000 := by
  rw [show n &&& 0xf800 = n / 2048 * 2048 from and_high (show n < 2 ^ (11 + 5) from h)]
  omega

end Unicode
