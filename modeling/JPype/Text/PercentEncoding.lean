import JPype.Text.Utf8Decoding

/-!
# Percent encoding

`quote` of Python and `URLDecoder.decode` of Java, both with UTF-8. They are not made for each
other: the decoder turns `+` into a space. But `quote` leaves no `+`, so what it quotes is decoded
to itself (`decode_quote`).
-/

namespace Unicode

/-- The bytes that `quote` leaves alone. -/
def IsSafe (b : UInt8) : Prop :=
  0x30 ≤ b.toNat ∧ b.toNat ≤ 0x39 ∨ 0x41 ≤ b.toNat ∧ b.toNat ≤ 0x5A ∨
    0x61 ≤ b.toNat ∧ b.toNat ≤ 0x7A ∨ b.toNat ∈ [0x5F, 0x2E, 0x2D, 0x7E, 0x2F]

instance (b : UInt8) : Decidable (IsSafe b) := inferInstanceAs (Decidable (_ ∨ _))

/-- The hexadecimal digit of a value. -/
def hexDigit (n : ℕ) : Char := Char.ofNat (if n < 10 then 0x30 + n else 0x37 + n)

/-- The value of a hexadecimal digit. -/
def hexValue? (c : Char) : Option ℕ :=
  if '0' ≤ c ∧ c ≤ '9' then some (c.toNat - 0x30)
  else if 'A' ≤ c ∧ c ≤ 'F' then some (c.toNat - 0x37)
  else if 'a' ≤ c ∧ c ≤ 'f' then some (c.toNat - 0x57)
  else none

/-- A byte, quoted. -/
def quoteByte (b : UInt8) : List Char :=
  if IsSafe b then [Char.ofNat b.toNat]
  else ['%', hexDigit (b.toNat / 16), hexDigit (b.toNat % 16)]

/-- `urllib.parse.quote` -/
def quote (text : List Char) : List Char :=
  (utf8 text).flatMap quoteByte

/-- The loop of `URLDecoder.decode`, with the bytes of the escapes just before. They are decoded
together when something else comes. -/
def decodeLoop : List UInt8 → List Char → Option (List Char)
  | escaped, [] => some (decodeUtf8 escaped)
  | escaped, '%' :: high :: low :: rest => do
    let h ← hexValue? high
    let l ← hexValue? low
    decodeLoop (escaped ++ [.ofNat (16 * h + l)]) rest
  | escaped, c :: rest =>
    -- an escape that is not complete
    if c = '%' then none
    else (decodeLoop [] rest).map fun text ↦
      decodeUtf8 escaped ++ (if c = '+' then ' ' else c) :: text

/-- `URLDecoder.decode`, nothing for an `IllegalArgumentException`. -/
def urlDecode (text : List Char) : Option (List Char) :=
  decodeLoop [] text

theorem hexValue?_hexDigit : ∀ n < 16, hexValue? (hexDigit n) = some n := by
  decide

theorem decodeLoop_char {c : Char} (hc : c ≠ '%') (escaped : List UInt8) (rest : List Char) :
    decodeLoop escaped (c :: rest) =
      (decodeLoop [] rest).map fun text ↦
        decodeUtf8 escaped ++ (if c = '+' then ' ' else c) :: text := by
  rw [decodeLoop, if_neg hc]
  exact fun _ _ _ heq ↦ absurd heq hc

/-- Bytes that are escaped wait for the character to be complete. -/
theorem decodeLoop_quoteBytes {bytes : List UInt8} (h : ∀ b ∈ bytes, ¬IsSafe b)
    (escaped : List UInt8) (rest : List Char) :
    decodeLoop escaped (bytes.flatMap quoteByte ++ rest) = decodeLoop (escaped ++ bytes) rest := by
  induction bytes generalizing escaped with
  | nil => simp
  | cons b bytes ih =>
    obtain ⟨hb, h⟩ := List.forall_mem_cons.1 h
    have hlt := b.toNat_lt
    have hbyte : 16 * (b.toNat / 16) + b.toNat % 16 = b.toNat := by omega
    rw [List.flatMap_cons, quoteByte, if_neg hb]
    show decodeLoop escaped ('%' :: hexDigit (b.toNat / 16) :: hexDigit (b.toNat % 16) ::
      (bytes.flatMap quoteByte ++ rest)) = _
    rw [decodeLoop, hexValue?_hexDigit _ (by omega), hexValue?_hexDigit _ (by omega)]
    show decodeLoop (escaped ++ [.ofNat (16 * (b.toNat / 16) + b.toNat % 16)]) _ = _
    rw [hbyte, UInt8.ofNat_toNat, ih h, List.append_assoc, List.singleton_append]

/-- A character that is safe is quoted as itself. -/
theorem quote_safe {c : Char} (hc : c.toNat < 0x80) (hs : IsSafe (.ofNat c.toNat))
    (text : List Char) : quote (c :: text) = c :: quote text := by
  rw [quote, utf8_cons, ← utf8Code_toNat, utf8Code, if_pos hc, List.singleton_append,
    List.flatMap_cons, quoteByte, if_pos hs, toNat_ofNat_byte (by omega), Char.ofNat_toNat]
  rfl

/-- A character is safe, or none of its bytes is. -/
theorem forall_not_isSafe {c : Char} (h : ¬(c.toNat < 0x80 ∧ IsSafe (.ofNat c.toNat))) :
    ∀ b ∈ String.utf8EncodeChar c, ¬IsSafe b := by
  intro b hb hs
  rw [← utf8Code_toNat] at hb
  obtain ⟨hlt, rfl⟩ | hle := mem_utf8Code (toNat_lt c) hb
  · exact h ⟨hlt, hs⟩
  · simp only [IsSafe, List.mem_cons, List.not_mem_nil, or_false] at hs
    omega

theorem decodeLoop_quote (waiting text : List Char) :
    decodeLoop (utf8 waiting) (quote text) = some (waiting ++ text) := by
  induction text generalizing waiting with
  | nil => simp [quote, decodeLoop]
  | cons c text ih =>
    by_cases h : c.toNat < 0x80 ∧ IsSafe (.ofNat c.toNat)
    · have hs := h.2
      rw [IsSafe, toNat_ofNat_byte (by omega)] at hs
      have hpercent : c ≠ '%' := by
        rintro rfl
        revert hs
        decide
      have hplus : c ≠ '+' := by
        rintro rfl
        revert hs
        decide
      rw [quote_safe h.1 h.2, decodeLoop_char hpercent, if_neg hplus, ← utf8_nil, ih,
        decodeUtf8_encode]
      rfl
    · rw [quote, utf8_cons, List.flatMap_append, decodeLoop_quoteBytes (forall_not_isSafe h)]
      have hwaiting : utf8 waiting ++ String.utf8EncodeChar c = utf8 (waiting ++ [c]) := by
        simp
      rw [hwaiting, ← quote, ih, List.append_assoc, List.singleton_append]

/-- What Python quotes, Java decodes. -/
@[simp]
theorem decode_quote (text : List Char) : urlDecode (quote text) = some text :=
  decodeLoop_quote [] text

theorem quote_injective : Function.Injective quote := by
  intro s t h
  have hdecode := congrArg urlDecode h
  rw [decode_quote, decode_quote] at hdecode
  exact Option.some.inj hdecode

theorem mem_quoteByte {b : UInt8} {c : Char} (h : c ∈ quoteByte b) :
    c = '%' ∨ (∃ n < 16, c = hexDigit n) ∨ IsSafe b ∧ c = Char.ofNat b.toNat := by
  have hlt := b.toNat_lt
  rw [quoteByte] at h
  split_ifs at h with hs
  · exact .inr (.inr ⟨hs, List.mem_singleton.1 h⟩)
  · simp only [List.mem_cons, List.not_mem_nil, or_false] at h
    obtain h | h | h := h
    · exact .inl h
    · exact .inr (.inl ⟨_, by omega, h⟩)
    · exact .inr (.inl ⟨_, by omega, h⟩)

theorem toNat_hexDigit : ∀ n < 16, (hexDigit n).toNat < 0x3A ∨
    0x41 ≤ (hexDigit n).toNat ∧ (hexDigit n).toNat < 0x80 := by
  decide

/-- What is quoted is ASCII, and has none of the characters from `:` to `@`. -/
theorem toNat_of_mem_quote {c : Char} {text : List Char} (h : c ∈ quote text) :
    c.toNat < 0x3A ∨ 0x41 ≤ c.toNat ∧ c.toNat < 0x80 := by
  rw [quote, List.mem_flatMap] at h
  obtain ⟨b, -, hb⟩ := h
  have hlt := b.toNat_lt
  obtain rfl | ⟨n, hn, rfl⟩ | ⟨hs, rfl⟩ := mem_quoteByte hb
  · decide
  · exact toNat_hexDigit n hn
  · have hvalid : b.toNat.isValidChar := .inl (by omega)
    rw [Char.ofNat, dif_pos hvalid]
    show b.toNat < 0x3A ∨ 0x41 ≤ b.toNat ∧ b.toNat < 0x80
    simp only [IsSafe, List.mem_cons, List.not_mem_nil, or_false] at hs
    omega

end Unicode
