import JPype.Text.Encoding
import JPype.Text.Unicode
import Mathlib.Tactic.SplitIfs

/-!
# Transcription between UTF-8 and modified UTF-8

The two encodings against the encoding forms of `Unicode`. Bytes come first: what the decoders
make of a well-formed sequence of each length, and that the encoders write the forms. Then whole
strings: `utf8_loop` follows `transcribe`'s loop along a UTF-8 text, and `java_loop` along the
modified UTF-8 of any sequence of code units, where the decoder reads what `readUnits` says.

`transcription_faithful` is the round trip on Unicode text, with the ASCII shortcut. For arbitrary
Java strings `readUnits` differs from the standard decoding of UTF-16: the decoder takes any
three bytes after a surrogate for the second half of a pair. `surrogates_iff` says exactly when
that loses something, namely when an unpaired surrogate is directly followed by a code unit from
`0x800` on.
-/

namespace JPype

open Unicode

/-! ### Decoding one well-formed sequence -/

/-- A stream that has not been read to its end. -/
abbrev stream (bytes : List UInt8) : InStream := { bytes := bytes, eof := false }

theorem lt_256 (b : UInt8) : b.toNat < 256 := b.toNat_lt

theorem toNat_byte {n : ℕ} (h : n < 256) : (UInt8.ofNat n).toNat = n := by
  rw [UInt8.toNat_ofNat']
  exact Nat.mod_eq_of_lt h

section Sequences

variable {b₀ b₁ b₂ b₃ : UInt8} (rest : List UInt8)

theorem fetchUTF8_one (h₀ : b₀.toNat < 0x80) :
    fetchUTF8 (stream (b₀ :: rest)) = (b₀.toNat, stream rest) := by
  have t₀ : b₀.toNat &&& 0x80 = 0 := (and_80_eq_zero (lt_256 b₀)).2 h₀
  simp [fetchUTF8, InStream.get, t₀]

theorem fetchJavaUTF8_one (h₀ : b₀.toNat < 0x80) :
    fetchJavaUTF8 (stream (b₀ :: rest)) = (b₀.toNat, stream rest) := by
  have t₀ : b₀.toNat &&& 0x80 = 0 := (and_80_eq_zero (lt_256 b₀)).2 h₀
  simp [fetchJavaUTF8, InStream.get, t₀]

/-- A continuation byte. -/
def IsTail (b : UInt8) : Prop := 0x80 ≤ b.toNat ∧ b.toNat < 0xc0

theorem IsTail.and_c0 {b : UInt8} (h : IsTail b) : b.toNat &&& 0xc0 = 0x80 :=
  (and_c0_eq (lt_256 b)).2 h

/-- A byte that is not ASCII. -/
theorem and_80_ne_zero {b : UInt8} (h : 0x80 ≤ b.toNat) : ¬b.toNat &&& 0x80 = 0 :=
  mt (and_80_eq_zero (lt_256 b)).1 h.not_gt

/-- A byte that does not begin a pair of bytes. -/
theorem and_e0_ne {b : UInt8} (h : 0xe0 ≤ b.toNat) : ¬b.toNat &&& 0xe0 = 0xc0 := by
  rw [and_e0_eq (lt_256 b)]
  omega

/-- A byte that does not begin three bytes. -/
theorem and_f0_ne {b : UInt8} (h : b.toNat < 0xe0 ∨ 0xf0 ≤ b.toNat) :
    ¬b.toNat &&& 0xf0 = 0xe0 := by
  rw [and_f0_eq (lt_256 b)]
  omega

theorem fetchUTF8_two (h₀ : 0xc0 ≤ b₀.toNat ∧ b₀.toNat < 0xe0) (h₁ : IsTail b₁) :
    fetchUTF8 (stream (b₀ :: b₁ :: rest)) =
      (b₀.toNat % 32 * 64 + b₁.toNat % 64, stream rest) := by
  have t₀ : ¬b₀.toNat &&& 0x80 = 0 := and_80_ne_zero (by omega)
  have t₀' : b₀.toNat &&& 0xe0 = 0xc0 := (and_e0_eq (lt_256 b₀)).2 h₀
  have t₁ := h₁.and_c0
  simp [fetchUTF8, InStream.get, t₀, t₀', t₁, and_1f, and_3f, Nat.shiftLeft_eq]

theorem fetchJavaUTF8_two (h₀ : 0xc0 ≤ b₀.toNat ∧ b₀.toNat < 0xe0) (h₁ : IsTail b₁) :
    fetchJavaUTF8 (stream (b₀ :: b₁ :: rest)) =
      (b₀.toNat % 32 * 64 + b₁.toNat % 64, stream rest) := by
  have t₀ : ¬b₀.toNat &&& 0x80 = 0 := and_80_ne_zero (by omega)
  have t₀' : b₀.toNat &&& 0xe0 = 0xc0 := (and_e0_eq (lt_256 b₀)).2 h₀
  have t₁ := h₁.and_c0
  simp [fetchJavaUTF8, InStream.get, t₀, t₀', t₁, and_1f, and_3f, Nat.shiftLeft_eq]

/-- What three bytes encode. -/
def threeBytes (b₀ b₁ b₂ : UInt8) : ℕ :=
  b₀.toNat % 16 * 4096 + b₁.toNat % 64 * 64 + b₂.toNat % 64

theorem threeBytes_lt (b₀ b₁ b₂ : UInt8) : threeBytes b₀ b₁ b₂ < 0x10000 := by
  rw [threeBytes]
  omega

theorem fetchUTF8_three (h₀ : 0xe0 ≤ b₀.toNat ∧ b₀.toNat < 0xf0) (h₁ : IsTail b₁)
    (h₂ : IsTail b₂) :
    fetchUTF8 (stream (b₀ :: b₁ :: b₂ :: rest)) = (threeBytes b₀ b₁ b₂, stream rest) := by
  have t₀ : ¬b₀.toNat &&& 0x80 = 0 := and_80_ne_zero (by omega)
  have t₀' : ¬b₀.toNat &&& 0xe0 = 0xc0 := and_e0_ne (by omega)
  have t₀'' : b₀.toNat &&& 0xf0 = 0xe0 := (and_f0_eq (lt_256 b₀)).2 h₀
  have t₁ := h₁.and_c0
  have t₂ := h₂.and_c0
  simp [fetchUTF8, InStream.get, t₀, t₀', t₀'', t₁, t₂, and_0f, and_3f, Nat.shiftLeft_eq,
    threeBytes]

theorem fetchJavaUTF8_three (h₀ : 0xe0 ≤ b₀.toNat ∧ b₀.toNat < 0xf0) (h₁ : IsTail b₁)
    (h₂ : IsTail b₂) :
    fetchJavaUTF8 (stream (b₀ :: b₁ :: b₂ :: rest)) =
      if 0xd800 ≤ threeBytes b₀ b₁ b₂ ∧ threeBytes b₀ b₁ b₂ < 0xe000 then
        fetchSecond (threeBytes b₀ b₁ b₂) (stream rest)
      else (threeBytes b₀ b₁ b₂, stream rest) := by
  have t₀ : ¬b₀.toNat &&& 0x80 = 0 := and_80_ne_zero (by omega)
  have t₀' : ¬b₀.toNat &&& 0xe0 = 0xc0 := and_e0_ne (by omega)
  have t₀'' : b₀.toNat &&& 0xf0 = 0xe0 := (and_f0_eq (lt_256 b₀)).2 h₀
  have t₁ := h₁.and_c0
  have t₂ := h₂.and_c0
  have hout : ((b₀.toNat &&& 0xf) <<< 12) + ((b₁.toNat &&& 0x3f) <<< 6) + (b₂.toNat &&& 0x3f) =
      threeBytes b₀ b₁ b₂ := by
    rw [and_0f, and_3f, and_3f, Nat.shiftLeft_eq, Nat.shiftLeft_eq]
    rfl
  simp only [← and_f800_eq (threeBytes_lt b₀ b₁ b₂)]
  simp [fetchJavaUTF8, InStream.get, t₀, t₀', t₀'', t₁, t₂, hout]

theorem fetchUTF8_four (h₀ : 0xf0 ≤ b₀.toNat ∧ b₀.toNat < 0xf8) (h₁ : IsTail b₁)
    (h₂ : IsTail b₂) (h₃ : IsTail b₃) :
    fetchUTF8 (stream (b₀ :: b₁ :: b₂ :: b₃ :: rest)) =
      (b₀.toNat % 16 * 262144 + b₁.toNat % 64 * 4096 + b₂.toNat % 64 * 64 + b₃.toNat % 64,
        stream rest) := by
  have t₀ : ¬b₀.toNat &&& 0x80 = 0 := and_80_ne_zero (by omega)
  have t₀' : ¬b₀.toNat &&& 0xe0 = 0xc0 := and_e0_ne (by omega)
  have t₀'' : ¬b₀.toNat &&& 0xf0 = 0xe0 := and_f0_ne (.inr h₀.1)
  have t : b₀.toNat &&& 0xf8 = 0xf0 := (and_f8_eq (lt_256 b₀)).2 h₀
  have t₁ := h₁.and_c0
  have t₂ := h₂.and_c0
  have t₃ := h₃.and_c0
  simp [fetchUTF8, InStream.get, t₀, t₀', t₀'', t, t₁, t₂, t₃, and_0f, and_3f, Nat.shiftLeft_eq]

/-- After a surrogate, a byte below `0xe0`, or from `0xf0` on, leaves it alone. -/
theorem fetchSecond_alone (out : ℕ) (h₀ : b₀.toNat < 0xe0 ∨ 0xf0 ≤ b₀.toNat) :
    fetchSecond out (stream (b₀ :: rest)) = (out, stream (b₀ :: rest)) := by
  have t₀ : ¬b₀.toNat &&& 0xf0 = 0xe0 := and_f0_ne h₀
  simp [fetchSecond, InStream.peek, t₀]

/-- At the end of the stream it is alone too, and the flag is set. -/
theorem fetchSecond_nil (out : ℕ) :
    fetchSecond out (stream []) = (out, { bytes := [], eof := true }) := by
  simp [fetchSecond, InStream.peek]

/-- After a surrogate, three bytes are taken for the second half of a pair. -/
theorem fetchSecond_three (out : ℕ) (h₀ : 0xe0 ≤ b₀.toNat ∧ b₀.toNat < 0xf0) :
    fetchSecond out (stream (b₀ :: b₁ :: b₂ :: rest)) =
      (0x10000 + out % 1024 * 1024 + threeBytes b₀ b₁ b₂ % 1024, stream rest) := by
  have t₀ : b₀.toNat &&& 0xf0 = 0xe0 := (and_f0_eq (lt_256 b₀)).2 h₀
  have hne : ¬b₀.toNat = badCoding := by
    rw [badCoding]
    omega
  simp [fetchSecond, InStream.peek, InStream.get, t₀, hne, and_3ff, and_0f, and_3f,
    Nat.shiftLeft_eq, threeBytes]

end Sequences

/-! ### The encoding forms -/

/-- The UTF-8 encoder writes generalised UTF-8. -/
theorem encodeUTF8_eq {c : ℕ} (h : c < 0x110000) : encodeUTF8 c = utf8Code c := by
  simp only [encodeUTF8, utf8Code, and_ff, and_1f, and_3f, and_0f, and_07,
    Nat.shiftRight_eq_div_pow, if_pos h]
  split_ifs with h₁ h₂ h₃
  · rw [Nat.mod_eq_of_lt (by omega)]
  · rw [show c / 2 ^ 6 % 32 = c / 64 by omega, show c / 2 ^ 0 % 64 = c % 64 by omega]
  · rw [show c / 2 ^ 12 % 16 = c / 4096 by omega, show c / 2 ^ 6 % 64 = c / 64 % 64 by omega,
      show c / 2 ^ 0 % 64 = c % 64 by omega]
  · rw [show c / 2 ^ 18 % 8 = c / 262144 by omega, show c / 2 ^ 12 % 64 = c / 4096 % 64 by omega,
      show c / 2 ^ 6 % 64 = c / 64 % 64 by omega, show c / 2 ^ 0 % 64 = c % 64 by omega]

theorem utf8Code_one {c : ℕ} (h : c < 0x80) : ∃ b₀, utf8Code c = [b₀] ∧ b₀.toNat = c :=
  ⟨.ofNat c, by rw [utf8Code, if_pos h], toNat_byte (by omega)⟩

theorem utf8Code_two {c : ℕ} (h : 0x80 ≤ c) (h' : c < 0x800) :
    ∃ b₀ b₁, utf8Code c = [b₀, b₁] ∧ (0xc0 ≤ b₀.toNat ∧ b₀.toNat < 0xe0) ∧ IsTail b₁ ∧
      b₀.toNat % 32 * 64 + b₁.toNat % 64 = c := by
  refine ⟨_, _, by rw [utf8Code, if_neg (by omega), if_pos h'], ?_, ?_, ?_⟩ <;>
    simp only [IsTail, toNat_byte (show 0xC0 + c / 64 < 256 by omega),
      toNat_byte (show 0x80 + c % 64 < 256 by omega)] <;> omega

theorem utf8Code_three {c : ℕ} (h : 0x800 ≤ c) (h' : c < 0x10000) :
    ∃ b₀ b₁ b₂, utf8Code c = [b₀, b₁, b₂] ∧ (0xe0 ≤ b₀.toNat ∧ b₀.toNat < 0xf0) ∧ IsTail b₁ ∧
      IsTail b₂ ∧ threeBytes b₀ b₁ b₂ = c := by
  refine ⟨_, _, _, by rw [utf8Code, if_neg (by omega), if_neg (by omega), if_pos h'],
    ?_, ?_, ?_, ?_⟩ <;>
    simp only [IsTail, threeBytes, toNat_byte (show 0xE0 + c / 4096 < 256 by omega),
      toNat_byte (show 0x80 + c / 64 % 64 < 256 by omega),
      toNat_byte (show 0x80 + c % 64 < 256 by omega)] <;> omega

theorem utf8Code_four {c : ℕ} (h : 0x10000 ≤ c) (h' : c < 0x110000) :
    ∃ b₀ b₁ b₂ b₃, utf8Code c = [b₀, b₁, b₂, b₃] ∧ (0xf0 ≤ b₀.toNat ∧ b₀.toNat < 0xf8) ∧
      IsTail b₁ ∧ IsTail b₂ ∧ IsTail b₃ ∧
      b₀.toNat % 16 * 262144 + b₁.toNat % 64 * 4096 + b₂.toNat % 64 * 64 + b₃.toNat % 64 = c := by
  refine ⟨_, _, _, _, by rw [utf8Code, if_neg (by omega), if_neg (by omega), if_neg (by omega)],
    ?_, ?_, ?_, ?_, ?_⟩ <;>
    simp only [IsTail, toNat_byte (show 0xF0 + c / 262144 < 256 by omega),
      toNat_byte (show 0x80 + c / 4096 % 64 < 256 by omega),
      toNat_byte (show 0x80 + c / 64 % 64 < 256 by omega),
      toNat_byte (show 0x80 + c % 64 < 256 by omega)] <;> omega

/-- The UTF-8 decoder reads generalised UTF-8. -/
theorem fetchUTF8_utf8Code {c : ℕ} (h : c < 0x110000) (rest : List UInt8) :
    fetchUTF8 (stream (utf8Code c ++ rest)) = (c, stream rest) := by
  rcases lt_or_ge c 0x80 with h₁ | h₁
  · obtain ⟨b₀, hb, hc⟩ := utf8Code_one h₁
    rw [hb, List.singleton_append, fetchUTF8_one rest (hc ▸ h₁), hc]
  rcases lt_or_ge c 0x800 with h₂ | h₂
  · obtain ⟨b₀, b₁, hb, t₀, t₁, hc⟩ := utf8Code_two h₁ h₂
    rw [hb, show [b₀, b₁] ++ rest = b₀ :: b₁ :: rest from rfl, fetchUTF8_two rest t₀ t₁, hc]
  rcases lt_or_ge c 0x10000 with h₃ | h₃
  · obtain ⟨b₀, b₁, b₂, hb, t₀, t₁, t₂, hc⟩ := utf8Code_three h₂ h₃
    rw [hb, show [b₀, b₁, b₂] ++ rest = b₀ :: b₁ :: b₂ :: rest from rfl,
      fetchUTF8_three rest t₀ t₁ t₂, hc]
  · obtain ⟨b₀, b₁, b₂, b₃, hb, t₀, t₁, t₂, t₃, hc⟩ := utf8Code_four h₃ h
    rw [hb, show [b₀, b₁, b₂, b₃] ++ rest = b₀ :: b₁ :: b₂ :: b₃ :: rest from rfl,
      fetchUTF8_four rest t₀ t₁ t₂ t₃, hc]

/-- The Java encoder writes the modified UTF-8 of the UTF-16 of a scalar value. -/
theorem encodeJavaUTF8_eq (c : Char) :
    encodeJavaUTF8 c.toNat = modifiedUtf8 (utf16Char c) := by
  have hlt := toNat_lt c
  have hsur := not_surrogate c
  rw [utf16Char, modifiedUtf8]
  rcases lt_or_ge c.toNat 0x10000 with hbmp | hsup
  · rw [if_pos hbmp, List.flatMap_singleton, modifiedUnit, toNat_unit hbmp, ← encodeUTF8_eq hlt]
    simp only [encodeJavaUTF8, encodeUTF8]
    split_ifs <;> first | rfl | omega
  · rw [if_neg (not_lt.2 hsup)]
    set d := c.toNat - 0x10000 with hd
    have hhigh : (UInt16.ofNat (0xD800 + d / 0x400)).toNat = 0xD800 + d / 0x400 :=
      toNat_unit (by omega)
    have hlow : (UInt16.ofNat (0xDC00 + d % 0x400)).toNat = 0xDC00 + d % 0x400 :=
      toNat_unit (by omega)
    simp only [List.flatMap_cons, List.flatMap_nil, List.append_nil, modifiedUnit, hhigh, hlow]
    rw [if_neg (by omega), if_neg (by omega), utf8Code, utf8Code, if_neg (by omega),
      if_neg (by omega), if_pos (by omega), if_neg (by omega), if_neg (by omega),
      if_pos (by omega), encodeJavaUTF8, if_neg (by omega), if_neg (by omega),
      if_neg (by omega), if_neg (by omega), if_pos hlt]
    simp only [and_0f, and_3f, Nat.shiftRight_eq_div_pow,
      show (c.toNat + 2 ^ 32 - 0x10000) % 2 ^ 32 = d by omega]
    rw [show 0xE0 + (0xD800 + d / 0x400) / 4096 = 0xed by omega,
      show 0xE0 + (0xDC00 + d % 0x400) / 4096 = 0xed by omega,
      show 0x80 + (0xD800 + d / 0x400) / 64 % 64 = 0xa0 + d / 2 ^ 16 % 16 by omega,
      show (0xD800 + d / 0x400) % 64 = d / 2 ^ 10 % 64 by omega,
      show 0x80 + (0xDC00 + d % 0x400) / 64 % 64 = 0xb0 + d / 2 ^ 6 % 16 by omega,
      show (0xDC00 + d % 0x400) % 64 = d / 2 ^ 0 % 64 by omega]
    rfl

/-! ### Decoding code units -/

/-- The code point that the Java decoder makes of a surrogate and the three bytes after it. -/
def merged (u v : UInt16) : ℕ :=
  0x10000 + u.toNat % 1024 * 1024 + v.toNat % 1024

theorem merged_lt (u v : UInt16) : merged u v < 0x110000 := by
  rw [merged]
  omega

/-- On a proper pair the decoder is right. -/
theorem merged_eq_pair {u v : UInt16} (hu : IsHigh u) (hv : IsLow v) : merged u v = pair u v := by
  have h₁ : u.toNat % 1024 = u.toNat - 0xD800 := by
    have h : 0xD800 ≤ u.toNat ∧ u.toNat < 0xDC00 := hu
    omega
  have h₂ : v.toNat % 1024 = v.toNat - 0xDC00 := by
    have h : 0xDC00 ≤ v.toNat ∧ v.toNat < 0xE000 := hv
    omega
  unfold merged pair
  rw [h₁, h₂]

/-- What the Java decoder reads from a sequence of code units. -/
def readUnits : List UInt16 → List ℕ
  | [] => []
  | [u] => [u.toNat]
  | u :: v :: rest =>
    if IsSurrogate u ∧ 0x800 ≤ v.toNat then merged u v :: readUnits rest
    else u.toNat :: readUnits (v :: rest)

theorem unit_lt (u : UInt16) : u.toNat < 0x10000 := u.toNat_lt

/-- A code unit that is no surrogate is read as itself. -/
theorem fetchJavaUTF8_unit {u : UInt16} (hu : ¬IsSurrogate u) (rest : List UInt8) :
    fetchJavaUTF8 (stream (modifiedUnit u ++ rest)) = (u.toNat, stream rest) := by
  rw [modifiedUnit]
  split
  · next h =>
    rw [show [0xC0, 0x80] ++ rest = 0xC0 :: 0x80 :: rest from rfl,
      fetchJavaUTF8_two rest (by decide) ⟨by decide, by decide⟩, h]
    rfl
  · rcases lt_or_ge u.toNat 0x80 with h₁ | h₁
    · obtain ⟨b₀, hb, hc⟩ := utf8Code_one h₁
      rw [hb, List.singleton_append, fetchJavaUTF8_one rest (hc ▸ h₁), hc]
    rcases lt_or_ge u.toNat 0x800 with h₂ | h₂
    · obtain ⟨b₀, b₁, hb, t₀, t₁, hc⟩ := utf8Code_two h₁ h₂
      rw [hb, show [b₀, b₁] ++ rest = b₀ :: b₁ :: rest from rfl, fetchJavaUTF8_two rest t₀ t₁, hc]
    · obtain ⟨b₀, b₁, b₂, hb, t₀, t₁, t₂, hc⟩ := utf8Code_three h₂ (unit_lt u)
      rw [hb, show [b₀, b₁, b₂] ++ rest = b₀ :: b₁ :: b₂ :: rest from rfl,
        fetchJavaUTF8_three rest t₀ t₁ t₂, hc]
      exact if_neg hu

/-- At a surrogate the decoder looks ahead. -/
theorem fetchJavaUTF8_surrogate {u : UInt16} (hu : IsSurrogate u) (rest : List UInt8) :
    fetchJavaUTF8 (stream (modifiedUnit u ++ rest)) = fetchSecond u.toNat (stream rest) := by
  obtain ⟨hlo, hhi⟩ := hu
  rw [modifiedUnit, if_neg (by omega)]
  obtain ⟨b₀, b₁, b₂, hb, t₀, t₁, t₂, hc⟩ := utf8Code_three (by omega) (unit_lt u)
  rw [hb, show [b₀, b₁, b₂] ++ rest = b₀ :: b₁ :: b₂ :: rest from rfl,
    fetchJavaUTF8_three rest t₀ t₁ t₂, hc]
  exact if_pos ⟨hlo, hhi⟩

/-- A code unit below `0x800` is not taken for a second half. -/
theorem fetchSecond_short (out : ℕ) {v : UInt16} (hv : v.toNat < 0x800) (rest : List UInt8) :
    fetchSecond out (stream (modifiedUnit v ++ rest)) =
      (out, stream (modifiedUnit v ++ rest)) := by
  rw [modifiedUnit]
  split
  · exact fetchSecond_alone (0x80 :: rest) out (by decide)
  · rcases lt_or_ge v.toNat 0x80 with h₁ | h₁
    · obtain ⟨b₀, hb, hc⟩ := utf8Code_one h₁
      rw [hb, List.singleton_append, fetchSecond_alone rest out (by omega)]
    · obtain ⟨b₀, b₁, hb, t₀, t₁, hc⟩ := utf8Code_two h₁ hv
      rw [hb, show [b₀, b₁] ++ rest = b₀ :: b₁ :: rest from rfl,
        fetchSecond_alone (b₁ :: rest) out (by omega)]

/-- Every other code unit is. -/
theorem fetchSecond_long (u : UInt16) {v : UInt16} (hv : 0x800 ≤ v.toNat) (rest : List UInt8) :
    fetchSecond u.toNat (stream (modifiedUnit v ++ rest)) = (merged u v, stream rest) := by
  rw [modifiedUnit, if_neg (by omega)]
  obtain ⟨b₀, b₁, b₂, hb, t₀, t₁, t₂, hc⟩ := utf8Code_three hv (unit_lt v)
  rw [hb, show [b₀, b₁, b₂] ++ rest = b₀ :: b₁ :: b₂ :: rest from rfl,
    fetchSecond_three rest u.toNat t₀, hc]
  rfl

/-! ### Whole strings -/

section Loop

variable {source : JPEncoding} (target : JPEncoding)

/-- One round of the loop. -/
theorem loop_step {bytes : List UInt8} {c : ℕ} {s : InStream}
    (hfetch : source.fetch (stream bytes) = (c, s)) (hc : c < 0x110000) (fuel : ℕ)
    (out : List UInt8) :
    transcribeLoop source target (fuel + 1) (stream bytes) out =
      transcribeLoop source target fuel s (out ++ target.encode c) := by
  have hne : ¬c = badCoding := by
    rw [badCoding]
    omega
  simp [transcribeLoop, hfetch, hne]

/-- The loop on a string read to its end. -/
theorem loop_end (hfetch : (source.fetch (stream [])).1 = badCoding) (fuel : ℕ)
    (out : List UInt8) :
    transcribeLoop source target (fuel + 1) (stream []) out = some out := by
  simp [transcribeLoop, hfetch]

/-- The loop after a look ahead has met the end. -/
theorem loop_eof (bytes out : List UInt8) (fuel : ℕ) :
    transcribeLoop source target (fuel + 1) { bytes := bytes, eof := true } out = some out := by
  simp [transcribeLoop]

/-- Transcription of UTF-8 encodes the text's code points one by one. -/
theorem utf8_loop : ∀ (s : List Char) (fuel : ℕ) (out : List UInt8),
    (s.flatMap String.utf8EncodeChar).length < fuel →
    transcribeLoop JPEncodingUTF8 target fuel (stream (s.flatMap String.utf8EncodeChar)) out =
      some (out ++ s.flatMap fun c ↦ target.encode c.toNat) := by
  intro s
  induction s with
  | nil =>
    rintro (- | fuel) out h
    · exact absurd h (Nat.not_lt_zero _)
    · rw [List.flatMap_nil, List.flatMap_nil, List.append_nil]
      exact loop_end target rfl fuel out
  | cons c s ih =>
    rintro (- | fuel) out h
    · exact absurd h (Nat.not_lt_zero _)
    · have hpos := List.length_pos_of_ne_nil (utf8Code_ne_nil c.toNat)
      rw [List.flatMap_cons, ← utf8Code_toNat] at h ⊢
      rw [List.length_append] at h
      rw [loop_step target (fetchUTF8_utf8Code (toNat_lt c) _) (toNat_lt c),
        ih fuel _ (by omega), List.flatMap_cons, List.append_assoc]

/-- Transcription of modified UTF-8 encodes what the decoder reads from the code units. -/
theorem java_loop : ∀ (units : List UInt16) (fuel : ℕ) (out : List UInt8),
    (modifiedUtf8 units).length < fuel →
    transcribeLoop JPEncodingJavaUTF8 target fuel (stream (modifiedUtf8 units)) out =
      some (out ++ (readUnits units).flatMap target.encode) := by
  intro units
  induction units using readUnits.induct with
  | case1 =>
    rintro (- | fuel) out h
    · exact absurd h (Nat.not_lt_zero _)
    · rw [readUnits, List.flatMap_nil, List.append_nil]
      exact loop_end target rfl fuel out
  -- At the last unit a surrogate looks for another one behind it, and finds the end.
  | case2 u =>
    have hpos := List.length_pos_of_ne_nil (modifiedUnit_ne_nil u)
    rintro (- | - | fuel) out h
    · exact absurd h (Nat.not_lt_zero _)
    · simp only [modifiedUtf8, List.flatMap_singleton] at h
      omega
    · have hlt : u.toNat < 0x110000 := (unit_lt u).trans (by decide)
      have hbytes : modifiedUtf8 [u] = modifiedUnit u ++ [] := by
        rw [modifiedUtf8, List.flatMap_singleton, List.append_nil]
      rw [readUnits, List.flatMap_singleton, hbytes]
      by_cases hu : IsSurrogate u
      · have hfetch := fetchJavaUTF8_surrogate hu []
        rw [fetchSecond_nil] at hfetch
        rw [loop_step target hfetch hlt, loop_eof]
      · rw [loop_step target (fetchJavaUTF8_unit hu []) hlt]
        exact loop_end target rfl fuel _
  -- A surrogate is read together with the long unit behind it, whatever that is.
  | case3 u v rest hcond ih =>
    have hpos := List.length_pos_of_ne_nil (modifiedUnit_ne_nil u)
    rintro (- | fuel) out h
    · exact absurd h (Nat.not_lt_zero _)
    · have hfetch := fetchJavaUTF8_surrogate hcond.1 (modifiedUnit v ++ modifiedUtf8 rest)
      rw [fetchSecond_long u hcond.2] at hfetch
      simp only [modifiedUtf8, List.flatMap_cons, List.length_append] at h
      rw [readUnits, if_pos hcond, List.flatMap_cons, ← List.append_assoc,
        ← ih fuel _ (by rw [modifiedUtf8]; omega)]
      exact loop_step target hfetch (merged_lt u v) fuel out
  -- Any other unit is read alone.
  | case4 u v rest hcond ih =>
    have hpos := List.length_pos_of_ne_nil (modifiedUnit_ne_nil u)
    rintro (- | fuel) out h
    · exact absurd h (Nat.not_lt_zero _)
    · have hlt : u.toNat < 0x110000 := (unit_lt u).trans (by decide)
      have hfetch : fetchJavaUTF8 (stream (modifiedUnit u ++ modifiedUtf8 (v :: rest))) =
          (u.toNat, stream (modifiedUtf8 (v :: rest))) := by
        by_cases hu : IsSurrogate u
        · have hv : v.toNat < 0x800 := not_le.1 fun hv ↦ hcond ⟨hu, hv⟩
          rw [fetchJavaUTF8_surrogate hu, modifiedUtf8, List.flatMap_cons,
            fetchSecond_short _ hv]
        · exact fetchJavaUTF8_unit hu _
      have hlen : (modifiedUtf8 (v :: rest)).length < fuel := by
        rw [modifiedUtf8, List.flatMap_cons, List.length_append, ← modifiedUtf8] at h
        omega
      rw [readUnits, if_neg hcond, List.flatMap_cons, ← List.append_assoc, ← ih fuel _ hlen]
      exact loop_step target hfetch hlt fuel out

end Loop

/-! ### The ASCII bypass -/

/-- On a string of ASCII bytes other than zero the slow path copies too. -/
theorem ascii_loop {source target : JPEncoding}
    (hfetch : ∀ (b : UInt8) (rest : List UInt8), b.toNat < 0x80 →
      source.fetch (stream (b :: rest)) = (b.toNat, stream rest))
    (hend : (source.fetch (stream [])).1 = badCoding)
    (hencode : ∀ b : UInt8, b.toNat < 0x80 → b ≠ 0 → target.encode b.toNat = [b]) :
    ∀ (bytes : List UInt8) (fuel : ℕ) (out : List UInt8), bytes.length < fuel →
      (∀ b ∈ bytes, b.toNat < 0x80 ∧ b ≠ 0) →
      transcribeLoop source target fuel (stream bytes) out = some (out ++ bytes) := by
  intro bytes
  induction bytes with
  | nil =>
    rintro (- | fuel) out h _
    · exact absurd h (Nat.not_lt_zero _)
    · rw [List.append_nil]
      exact loop_end target hend fuel out
  | cons b bytes ih =>
    rintro (- | fuel) out h hascii
    · exact absurd h (Nat.not_lt_zero _)
    · obtain ⟨hb, hb0⟩ := hascii b List.mem_cons_self
      rw [loop_step target (hfetch b bytes hb) (by omega), hencode b hb hb0,
        ih fuel _ (by simpa using h) fun b' hb' ↦ hascii b' (List.mem_cons_of_mem b hb'),
        List.append_assoc, List.singleton_append]

/-- The bypass does what the slow path does. -/
theorem transcribe_eq_slow {source target : JPEncoding}
    (hfetch : ∀ (b : UInt8) (rest : List UInt8), b.toNat < 0x80 →
      source.fetch (stream (b :: rest)) = (b.toNat, stream rest))
    (hend : (source.fetch (stream [])).1 = badCoding)
    (hencode : ∀ b : UInt8, b.toNat < 0x80 → b ≠ 0 → target.encode b.toNat = [b])
    (bytes : List UInt8) :
    transcribe source target bytes = transcribeSlow source target bytes := by
  rw [transcribe]
  split
  · rfl
  · next h =>
    refine (ascii_loop hfetch hend hencode bytes _ [] (Nat.lt_succ_self _) fun b hb ↦ ?_).symm
    have hclear : ¬(b.toNat &&& 0x80 ≠ 0 ∨ b = 0) := fun hcond ↦
      h (List.any_eq_true.2 ⟨b, hb, decide_eq_true hcond⟩)
    rw [not_or, not_not, and_80_eq_zero (lt_256 b)] at hclear
    exact hclear

theorem encodeUTF8_ascii (b : UInt8) (hb : b.toNat < 0x80) : encodeUTF8 b.toNat = [b] := by
  rw [encodeUTF8, if_pos hb, and_ff, Nat.mod_eq_of_lt (lt_256 b), UInt8.ofNat_toNat]

theorem encodeJavaUTF8_ascii (b : UInt8) (hb : b.toNat < 0x80) (hb0 : b ≠ 0) :
    encodeJavaUTF8 b.toNat = [b] := by
  have hne : ¬b.toNat = 0 := fun h ↦ hb0 (UInt8.toNat_inj.1 (by simpa using h))
  rw [encodeJavaUTF8, if_neg hne, if_pos hb, and_ff, Nat.mod_eq_of_lt (lt_256 b),
    UInt8.ofNat_toNat]

/-- From Python to Java the bypass is sound. -/
theorem transcribe_to_java (bytes : List UInt8) :
    transcribe JPEncodingUTF8 JPEncodingJavaUTF8 bytes =
      transcribeSlow JPEncodingUTF8 JPEncodingJavaUTF8 bytes :=
  transcribe_eq_slow (fun _ rest h ↦ fetchUTF8_one rest h) rfl encodeJavaUTF8_ascii bytes

/-- From Java to Python the bypass is sound. -/
theorem transcribe_from_java (bytes : List UInt8) :
    transcribe JPEncodingJavaUTF8 JPEncodingUTF8 bytes =
      transcribeSlow JPEncodingJavaUTF8 JPEncodingUTF8 bytes :=
  transcribe_eq_slow (fun _ rest h ↦ fetchJavaUTF8_one rest h) rfl
    (fun b hb _ ↦ encodeUTF8_ascii b hb) bytes

/-! ### Unicode text -/

theorem readUnits_cons {u : UInt16} (hu : ¬IsSurrogate u) (rest : List UInt16) :
    readUnits (u :: rest) = u.toNat :: readUnits rest := by
  cases rest with
  | nil => rfl
  | cons v rest => rw [readUnits, if_neg fun h ↦ hu h.1]

/-- The decoder reads the UTF-16 of a text as the text. -/
theorem readUnits_utf16 (s : List Char) : readUnits (utf16 s) = s.map Char.toNat := by
  induction s with
  | nil => rfl
  | cons c s ih =>
    have hlt := toNat_lt c
    have hsur := not_surrogate c
    rw [utf16, List.flatMap_cons, ← utf16, utf16Char, List.map_cons, ← ih]
    rcases lt_or_ge c.toNat 0x10000 with hbmp | hsup
    · have hu : (UInt16.ofNat c.toNat).toNat = c.toNat := toNat_unit hbmp
      rw [if_pos hbmp, List.singleton_append, readUnits_cons, hu]
      rintro ⟨h₁, h₂⟩
      omega
    · have hhigh : (UInt16.ofNat (0xD800 + (c.toNat - 0x10000) / 0x400)).toNat =
          0xD800 + (c.toNat - 0x10000) / 0x400 := toNat_unit (by omega)
      have hlow : (UInt16.ofNat (0xDC00 + (c.toNat - 0x10000) % 0x400)).toNat =
          0xDC00 + (c.toNat - 0x10000) % 0x400 := toNat_unit (by omega)
      have hmerged : merged (.ofNat (0xD800 + (c.toNat - 0x10000) / 0x400))
          (.ofNat (0xDC00 + (c.toNat - 0x10000) % 0x400)) = c.toNat := by
        unfold merged
        rw [hhigh, hlow]
        omega
      rw [if_neg (not_lt.2 hsup), List.cons_append, List.singleton_append, readUnits,
        if_pos ⟨⟨by omega, by omega⟩, by omega⟩, hmerged]

/-- **Faithful transcription.** Between UTF-8 and the modified UTF-8 of UTF-16, both directions
carry every text whole, and the ASCII bypass never changes the result. -/
theorem transcription_faithful :
    (∀ s : List Char,
      transcribe JPEncodingUTF8 JPEncodingJavaUTF8 (s.flatMap String.utf8EncodeChar) =
          some (modifiedUtf8 (utf16 s)) ∧
        transcribe JPEncodingJavaUTF8 JPEncodingUTF8 (modifiedUtf8 (utf16 s)) =
          some (s.flatMap String.utf8EncodeChar)) ∧
    ∀ bytes : List UInt8,
      transcribe JPEncodingUTF8 JPEncodingJavaUTF8 bytes =
          transcribeSlow JPEncodingUTF8 JPEncodingJavaUTF8 bytes ∧
        transcribe JPEncodingJavaUTF8 JPEncodingUTF8 bytes =
          transcribeSlow JPEncodingJavaUTF8 JPEncodingUTF8 bytes := by
  refine ⟨fun s ↦ ⟨?_, ?_⟩, fun bytes ↦ ⟨transcribe_to_java bytes, transcribe_from_java bytes⟩⟩
  · rw [transcribe_to_java, transcribeSlow, utf8_loop _ s _ [] (Nat.lt_succ_self _),
      List.nil_append]
    refine congrArg some ?_
    rw [modifiedUtf8, utf16, List.flatMap_assoc]
    exact congrArg s.flatMap (funext encodeJavaUTF8_eq)
  · rw [transcribe_from_java, transcribeSlow, java_loop _ (utf16 s) _ [] (Nat.lt_succ_self _),
      List.nil_append, readUnits_utf16, List.flatMap_map]
    refine congrArg some (congrArg s.flatMap (funext fun c ↦ ?_))
    rw [← utf8Code_toNat]
    exact encodeUTF8_eq (toNat_lt c)

/-! ### Unpaired surrogates -/

/-- No unpaired surrogate is directly followed by a code unit from `0x800` on. -/
def Intact : List UInt16 → Prop
  | [] => True
  | [_] => True
  | u :: v :: rest =>
    if IsHigh u ∧ IsLow v then Intact rest
    else (IsSurrogate u → v.toNat < 0x800) ∧ Intact (v :: rest)

/-- What the transcription of a sequence of code units should be. -/
def generalisedUtf8 (units : List UInt16) : List UInt8 :=
  (decode16 units).flatMap utf8Code

theorem readUnits_lt : ∀ (units : List UInt16), ∀ c ∈ readUnits units, c < 0x110000 := by
  intro units
  induction units using readUnits.induct with
  | case1 => simp [readUnits]
  | case2 u =>
    rintro c hc
    rw [readUnits, List.mem_singleton] at hc
    exact hc ▸ (unit_lt u).trans (by decide)
  | case3 u v rest hcond ih =>
    rintro c hc
    rw [readUnits, if_pos hcond] at hc
    rcases List.mem_cons.1 hc with rfl | hc
    · exact merged_lt u v
    · exact ih c hc
  | case4 u v rest hcond ih =>
    rintro c hc
    rw [readUnits, if_neg hcond] at hc
    rcases List.mem_cons.1 hc with rfl | hc
    · exact (unit_lt u).trans (by decide)
    · exact ih c hc

/-- The encodings of a supplementary code point and of a surrogate start differently. -/
theorem utf8Code_merged_append_ne (u v w : UInt16) (hw : IsSurrogate w) (l l' : List UInt8) :
    utf8Code (merged u v) ++ l ≠ utf8Code w.toNat ++ l' := by
  have hmerged : 0x10000 ≤ merged u v := by
    unfold merged
    omega
  have hsur : 0xD800 ≤ w.toNat ∧ w.toNat < 0xE000 := hw
  obtain ⟨b₀, b₁, b₂, b₃, hb, t₀, -⟩ := utf8Code_four hmerged (merged_lt u v)
  obtain ⟨a₀, a₁, a₂, ha, s₀, -⟩ :=
    utf8Code_three (show 0x800 ≤ w.toNat by omega) (show w.toNat < 0x10000 by omega)
  rw [hb, ha]
  intro h
  obtain rfl : b₀ = a₀ := (List.cons.inj h).1
  omega

/-- The decoder reads a sequence of code units as it should, up to the bytes written for it,
exactly when the sequence is intact. -/
theorem readUnits_iff (units : List UInt16) :
    (readUnits units).flatMap utf8Code = generalisedUtf8 units ↔ Intact units := by
  rw [generalisedUtf8]
  induction units using decode16.induct with
  | case1 => exact iff_of_true rfl trivial
  | case2 u => exact iff_of_true rfl trivial
  | case3 u v rest hpair ih =>
    -- a proper pair
    have hu : IsSurrogate u := ⟨hpair.1.1, hpair.1.2.trans (by decide)⟩
    have hv : 0x800 ≤ v.toNat := le_trans (by decide) hpair.2.1
    rw [readUnits, if_pos ⟨hu, hv⟩, decode16, if_pos hpair, Intact, if_pos hpair,
      merged_eq_pair hpair.1 hpair.2, List.flatMap_cons, List.flatMap_cons,
      List.append_cancel_left_eq, ih]
  | case4 u v rest hpair ih =>
    rw [decode16, if_neg hpair, Intact, if_neg hpair, readUnits, List.flatMap_cons]
    by_cases hcond : IsSurrogate u ∧ 0x800 ≤ v.toNat
    · rw [if_pos hcond, List.flatMap_cons]
      exact iff_of_false (utf8Code_merged_append_ne u v u hcond.1 _ _)
        fun h ↦ absurd (h.1 hcond.1) (not_lt.2 hcond.2)
    · rw [if_neg hcond, List.flatMap_cons, List.append_cancel_left_eq, ih]
      exact ⟨fun h ↦ ⟨fun hu ↦ not_le.1 fun hv ↦ hcond ⟨hu, hv⟩, h⟩, fun h ↦ h.2⟩

/-- **Unpaired surrogates.** A Java string is transcribed to the generalised UTF-8 of its decoded
code units exactly when no unpaired surrogate in it is directly followed by a code unit from
`0x800` on. -/
theorem surrogates_iff (units : List UInt16) :
    transcribe JPEncodingJavaUTF8 JPEncodingUTF8 (modifiedUtf8 units) =
      some (generalisedUtf8 units) ↔ Intact units := by
  have hencode : (readUnits units).flatMap JPEncodingUTF8.encode =
      (readUnits units).flatMap utf8Code :=
    List.flatMap_congr fun c hc ↦ encodeUTF8_eq (readUnits_lt units c hc)
  rw [transcribe_from_java, transcribeSlow, java_loop _ units _ [] (Nat.lt_succ_self _),
    List.nil_append, hencode, Option.some_inj, readUnits_iff]

/-- An unpaired high surrogate followed by the letter U+4E00: the two are read as one
supplementary character. -/
theorem surrogate_takes_letter :
    transcribe JPEncodingJavaUTF8 JPEncodingUTF8 (modifiedUtf8 [0xD800, 0x4E00]) =
        some [0xF0, 0x90, 0x88, 0x80] ∧
      generalisedUtf8 [0xD800, 0x4E00] = [0xED, 0xA0, 0x80, 0xE4, 0xB8, 0x80] ∧
      transcribe JPEncodingJavaUTF8 JPEncodingUTF8 (modifiedUtf8 [0xD800, 0x4E00]) ≠
        some (generalisedUtf8 [0xD800, 0x4E00]) := by
  decide

end JPype
