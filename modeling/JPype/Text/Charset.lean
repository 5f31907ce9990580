import JPype.Text.Utf8Decoding

/-!
# Charsets that extend ASCII

The default charset of a platform decodes bytes to text. What is asked of it is that it extends
ASCII: ASCII text is read as such, and a blank or a control character stands for itself wherever it
stands, and comes from nothing else. UTF-8 is such a charset (`Charset.utf8`), and so are the
charsets of one byte a character (`Charset.latin1`).
-/

namespace Unicode

/-- A charset that extends ASCII, by what it makes of bytes. -/
structure Charset where
  decode : List UInt8 → List Char
  decode_ne_nil : ∀ {bytes}, bytes ≠ [] → decode bytes ≠ []
  decode_ascii : ∀ {s : List Char}, (∀ c ∈ s, c.toNat < 0x80) → decode (Unicode.utf8 s) = s
  /-- A blank or a control character is read as itself, apart from what is around it. -/
  decode_control : ∀ (front rest : List UInt8) {b : UInt8}, b.toNat ≤ 0x20 →
    decode (front ++ b :: rest) = decode front ++ Char.ofNat b.toNat :: decode rest
  /-- It is read only where its byte is. -/
  mem_of_mem_decode : ∀ {bytes : List UInt8} {c : Char}, c ∈ decode bytes → c.toNat ≤ 0x20 →
    UInt8.ofNat c.toNat ∈ bytes

@[simp]
theorem Charset.decode_nil (charset : Charset) : charset.decode [] = [] :=
  charset.decode_ascii (s := []) (List.forall_mem_nil _)

/-! ### UTF-8 -/

theorem tailsPresent_le (lead n : ℕ) (rest : List UInt8) :
    tailsPresent lead n rest ≤ rest.length := by
  cases rest with
  | nil => exact le_rfl
  | cons b rest =>
    rw [tailsPresent]
    split_ifs with h
    · have hlen := (List.takeWhile_prefix
        (fun b ↦ decide (IsContinuation b)) (l := rest.take (n - 1))).length_le
      rw [List.length_take] at hlen
      rw [List.length_cons]
      omega
    · exact Nat.zero_le _

theorem takeWhile_take_append_cons {α : Type*} {p : α → Bool} {b : α} (hb : p b = false)
    (front rest : List α) (m : ℕ) :
    ((front ++ b :: rest).take m).takeWhile p = (front.take m).takeWhile p := by
  induction front generalizing m with
  | nil =>
    cases m with
    | zero => rfl
    | succ m => simp [hb]
  | cons x front ih =>
    cases m with
    | zero => rfl
    | succ m =>
      rw [List.cons_append, List.take_succ_cons, List.take_succ_cons, List.takeWhile_cons,
        List.takeWhile_cons, ih]

/-- A byte that continues nothing ends a character that is begun. -/
theorem tailsPresent_append_cons (lead n : ℕ) (front rest : List UInt8) {b : UInt8}
    (hb : ¬IsContinuation b) :
    tailsPresent lead n (front ++ b :: rest) = tailsPresent lead n front := by
  cases front with
  | nil => exact if_neg fun h ↦ hb h.2.1
  | cons x front =>
    rw [List.cons_append, tailsPresent, tailsPresent,
      takeWhile_take_append_cons (p := fun b ↦ decide (IsContinuation b)) (decide_eq_false hb)]

theorem decodeStep_append_cons (lead : UInt8) (front rest : List UInt8) {b : UInt8}
    (hb : ¬IsContinuation b) :
    decodeStep lead (front ++ b :: rest) = decodeStep lead front ∧
      (decodeStep lead front).2 ≤ front.length := by
  rw [decodeStep, decodeStep]
  rcases tailLength lead.toNat with - | n
  · exact ⟨rfl, Nat.zero_le _⟩
  · dsimp only
    have hle := tailsPresent_le lead.toNat n front
    rw [tailsPresent_append_cons _ _ _ _ hb]
    refine ⟨?_, hle⟩
    split_ifs with hall
    · rw [List.take_append_of_le_length (hall ▸ hle)]
    · rfl

/-- What starts with an ASCII byte is decoded to that character first. -/
theorem decodeUtf8_cons_ascii {b : UInt8} (hb : b.toNat < 0x80) (rest : List UInt8) :
    decodeUtf8 (b :: rest) = Char.ofNat b.toNat :: decodeUtf8 rest := by
  have hstep : decodeStep b rest = (some (Char.ofNat b.toNat), 0) := by
    have hpresent : tailsPresent b.toNat 0 rest = 0 := by cases rest <;> rfl
    rw [decodeStep, tailLength, if_pos hb]
    dsimp only
    rw [hpresent, if_pos rfl, List.take_zero, assemble, if_pos rfl, List.foldl_nil, scalar?,
      if_neg (by unfold Surrogate; omega)]
  rw [decodeUtf8, decodeFrom, hstep, Option.getD_some, decodeUtf8]

/-- An ASCII byte is decoded to itself wherever it stands. -/
theorem decodeFrom_append_ascii {b : UInt8} (hb : b.toNat < 0x80) (rest front : List UInt8) :
    ∀ k ≤ front.length, decodeFrom k (front ++ b :: rest) =
      decodeFrom k front ++ Char.ofNat b.toNat :: decodeUtf8 rest := by
  have hcont : ¬IsContinuation b := fun h ↦ absurd h.1 (by omega)
  induction front with
  | nil =>
    intro k hk
    obtain rfl : k = 0 := Nat.le_zero.1 hk
    exact decodeUtf8_cons_ascii hb rest
  | cons x front ih =>
    intro k hk
    cases k with
    | zero =>
      obtain ⟨hstep, hle⟩ := decodeStep_append_cons x front rest hcont
      rw [List.cons_append, decodeFrom, decodeFrom, hstep, ih _ hle, List.cons_append]
    | succ k => exact ih k (Nat.le_of_succ_le_succ hk)

/-- What a first byte and the bytes that it announces make up is a number beyond ASCII. -/
theorem le_assemble {lead n : ℕ} {rest : List UInt8} (hn : tailLength lead = some n) (hpos : n ≠ 0)
    (hall : tailsPresent lead n rest = n) :
    0x80 ≤ assemble lead n (rest.take n) ∧ assemble lead n (rest.take n) < 0x110000 := by
  have hlen : n ≤ rest.length := hall ▸ tailsPresent_le lead n rest
  obtain ⟨b, rest, rfl⟩ :=
    List.exists_cons_of_ne_nil (List.ne_nil_of_length_pos (by omega : 0 < rest.length))
  obtain ⟨⟨hlow, hhigh⟩, hshortest, hshortest', hmost⟩ : IsSecond lead b := by
    by_contra hb
    rw [tailsPresent, if_neg fun h ↦ hb h.2] at hall
    exact hpos hall.symm
  rw [List.length_cons] at hlen
  -- The first bytes of two, three and four.
  rw [tailLength] at hn
  split_ifs at hn with h₀ h₁ h₂ h₃ h₄
  · exact absurd (Option.some.inj hn).symm hpos
  · obtain rfl : 1 = n := Option.some.inj hn
    simp only [List.take_succ_cons, List.take_zero, assemble, List.foldl_cons, List.foldl_nil,
      if_neg hpos, Nat.reduceSub, Nat.reducePow]
    omega
  · obtain rfl : 2 = n := Option.some.inj hn
    obtain ⟨b₂, rest, rfl⟩ :=
      List.exists_cons_of_ne_nil (List.ne_nil_of_length_pos (by omega : 0 < rest.length))
    simp only [List.take_succ_cons, List.take_zero, assemble, List.foldl_cons, List.foldl_nil,
      if_neg hpos, Nat.reduceSub, Nat.reducePow]
    omega
  · obtain rfl : 3 = n := Option.some.inj hn
    obtain ⟨b₂, rest, rfl⟩ :=
      List.exists_cons_of_ne_nil (List.ne_nil_of_length_pos (by omega : 0 < rest.length))
    rw [List.length_cons] at hlen
    obtain ⟨b₃, rest, rfl⟩ :=
      List.exists_cons_of_ne_nil (List.ne_nil_of_length_pos (by omega : 0 < rest.length))
    simp only [List.take_succ_cons, List.take_zero, assemble, List.foldl_cons, List.foldl_nil,
      if_neg hpos, Nat.reduceSub, Nat.reducePow]
    omega

/-- An ASCII character is decoded only from its byte. -/
theorem decodeStep_ascii {b : UInt8} {rest : List UInt8} {c : Char}
    (h : (decodeStep b rest).1.getD replacement = c) (hc : c.toNat < 0x80) :
    b.toNat = c.toNat := by
  have hreplacement : replacement ≠ c := by
    rintro rfl
    exact absurd hc (by decide)
  rw [decodeStep] at h
  rcases hn : tailLength b.toNat with - | n
  · rw [hn] at h
    exact absurd h hreplacement
  rw [hn] at h
  dsimp only at h
  split_ifs at h with hall
  swap
  · exact absurd h hreplacement
  by_cases hsurrogate : Surrogate (assemble b.toNat n (rest.take n))
  · rw [scalar?, if_pos hsurrogate] at h
    exact absurd h hreplacement
  have hnumber : assemble b.toNat n (rest.take n) < 0x110000 →
      c.toNat = assemble b.toNat n (rest.take n) := by
    intro hlt
    obtain ⟨d, hd, hdn⟩ := Option.map_eq_some_iff.1 (toNat_scalar? hlt hsurrogate)
    rw [hd, Option.getD_some] at h
    rw [← h, hdn]
  rcases Nat.eq_zero_or_pos n with rfl | hpos
  · have hlead : assemble b.toNat 0 (rest.take 0) = b.toNat := rfl
    have hlt := b.toNat_lt
    rw [hnumber (by omega), hlead]
  · obtain ⟨hle, hlt⟩ := le_assemble hn (by omega) hall
    have := hnumber hlt
    omega

/-- An ASCII character is decoded only where its byte is. -/
theorem mem_of_mem_decodeFrom {c : Char} (hc : c.toNat < 0x80) {bytes : List UInt8} {k : ℕ}
    (h : c ∈ decodeFrom k bytes) : UInt8.ofNat c.toNat ∈ bytes := by
  induction bytes generalizing k with
  | nil =>
    cases k with
    | zero => exact absurd h List.not_mem_nil
    | succ k => exact absurd h List.not_mem_nil
  | cons b rest ih =>
    cases k with
    | zero =>
      rw [decodeFrom, List.mem_cons] at h
      rcases h with h | h
      · rw [← decodeStep_ascii h.symm hc, UInt8.ofNat_toNat]
        exact List.mem_cons_self
      · exact List.mem_cons_of_mem b (ih h)
    | succ k => exact List.mem_cons_of_mem b (ih h)

theorem toNat_charOfNat {n : ℕ} (h : n < 256) : (Char.ofNat n).toNat = n := by
  have hnot : ¬Surrogate n := by unfold Surrogate; omega
  simpa [scalar?, if_neg hnot] using toNat_scalar? (by omega) hnot

theorem decodeUtf8_ne_nil {bytes : List UInt8} (h : bytes ≠ []) : decodeUtf8 bytes ≠ [] := by
  obtain ⟨b, rest, rfl⟩ := List.exists_cons_of_ne_nil h
  rw [decodeUtf8, decodeFrom]
  exact List.cons_ne_nil _ _

/-- A control character is read as itself in UTF-8. -/
theorem decodeUtf8_control (front rest : List UInt8) {b : UInt8} (hb : b.toNat ≤ 0x20) :
    decodeUtf8 (front ++ b :: rest) = decodeUtf8 front ++ Char.ofNat b.toNat :: decodeUtf8 rest :=
  decodeFrom_append_ascii (by omega) rest front 0 (Nat.zero_le _)

theorem mem_of_mem_decodeUtf8 {bytes : List UInt8} {c : Char} (h : c ∈ decodeUtf8 bytes)
    (hc : c.toNat ≤ 0x20) : UInt8.ofNat c.toNat ∈ bytes :=
  mem_of_mem_decodeFrom (by omega) h

/-! ### One byte a character -/

/-- Each byte is decoded to the character of its number. -/
def decodeLatin1 (bytes : List UInt8) : List Char :=
  bytes.map fun b ↦ Char.ofNat b.toNat

theorem decodeLatin1_ne_nil {bytes : List UInt8} (h : bytes ≠ []) : decodeLatin1 bytes ≠ [] := by
  rwa [decodeLatin1, Ne, List.map_eq_nil_iff]

/-- ASCII text has one byte a character in UTF-8. -/
theorem decodeLatin1_utf8 {s : List Char} (hs : ∀ c ∈ s, c.toNat < 0x80) :
    decodeLatin1 (utf8 s) = s := by
  induction s with
  | nil => rfl
  | cons c s ih =>
    obtain ⟨hc, hs⟩ := List.forall_mem_cons.1 hs
    have hchar : String.utf8EncodeChar c = [UInt8.ofNat c.toNat] := by
      rw [← utf8Code_toNat, utf8Code, if_pos hc]
    rw [decodeLatin1] at ih ⊢
    rw [utf8_cons, List.map_append, ih hs, hchar, List.map_singleton,
      toNat_ofNat_byte (by omega), Char.ofNat_toNat, List.singleton_append]

theorem decodeLatin1_append_cons (front rest : List UInt8) (b : UInt8) :
    decodeLatin1 (front ++ b :: rest) =
      decodeLatin1 front ++ Char.ofNat b.toNat :: decodeLatin1 rest := by
  rw [decodeLatin1, List.map_append, List.map_cons]
  rfl

theorem mem_of_mem_decodeLatin1 {bytes : List UInt8} {c : Char} (h : c ∈ decodeLatin1 bytes) :
    UInt8.ofNat c.toNat ∈ bytes := by
  obtain ⟨b, hb, rfl⟩ := List.mem_map.1 h
  rw [toNat_charOfNat b.toNat_lt, UInt8.ofNat_toNat]
  exact hb

namespace Charset

/-- `StandardCharsets.UTF_8` -/
def utf8 : Charset where
  decode := decodeUtf8
  decode_ne_nil := decodeUtf8_ne_nil
  decode_ascii _ := decodeUtf8_encode _
  decode_control front rest _ := decodeUtf8_control front rest
  mem_of_mem_decode := mem_of_mem_decodeUtf8

/-- `StandardCharsets.ISO_8859_1` -/
def latin1 : Charset where
  decode := decodeLatin1
  decode_ne_nil := decodeLatin1_ne_nil
  decode_ascii := decodeLatin1_utf8
  decode_control front rest b _ := decodeLatin1_append_cons front rest b
  mem_of_mem_decode h _ := mem_of_mem_decodeLatin1 h

end Charset

end Unicode
