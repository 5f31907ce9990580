import JPype.Text.Unicode
import Mathlib.Data.List.TakeWhile

/-!
# Decoding UTF-8

The decoding of UTF-8 that never fails: what is not UTF-8 becomes replacement characters, one for
each longest run of bytes that starts a character without ending it, and one for each byte that
cannot start one. The three bytes of a surrogate become a single replacement character.

Encoded text decodes to itself (`decodeUtf8_encode`). Where an encoded character is cut in two, the
first part becomes one replacement character (`decodeUtf8_cut`) and the second one for each byte
(`decodeUtf8_tails`).
-/

namespace Unicode

/-- The replacement character, `U+FFFD`. -/
def replacement : Char := '\uFFFD'

/-- A byte that continues a character, by its value. -/
def IsContinuation (b : UInt8) : Prop := 0x80 ≤ b.toNat ∧ b.toNat < 0xC0

instance (b : UInt8) : Decidable (IsContinuation b) := inferInstanceAs (Decidable (_ ∧ _))

/-- The number of bytes that follow the first byte of a character, for a byte that can be one. -/
def tailLength (lead : ℕ) : Option ℕ :=
  if lead < 0x80 then some 0
  else if lead < 0xC2 then none
  else if lead < 0xE0 then some 1
  else if lead < 0xF0 then some 2
  else if lead < 0xF5 then some 3
  else none

/-- The second byte of a character: the shortest form, and no more than `0x10FFFF`. -/
def IsSecond (lead : ℕ) (b : UInt8) : Prop :=
  IsContinuation b ∧ (lead = 0xE0 → 0xA0 ≤ b.toNat) ∧ (lead = 0xF0 → 0x90 ≤ b.toNat) ∧
    (lead = 0xF4 → b.toNat < 0x90)

instance (lead : ℕ) (b : UInt8) : Decidable (IsSecond lead b) :=
  inferInstanceAs (Decidable (_ ∧ _))

/-- How many of the `n` bytes after `lead` continue the character. -/
def tailsPresent (lead n : ℕ) : List UInt8 → ℕ
  | [] => 0
  | b :: rest =>
    if n ≠ 0 ∧ IsSecond lead b then
      ((rest.take (n - 1)).takeWhile fun b ↦ IsContinuation b).length + 1
    else 0

/-- The number that a first byte and the `n` bytes after it make up. -/
def assemble (lead n : ℕ) (tails : List UInt8) : ℕ :=
  tails.foldl (fun v b ↦ v * 64 + b.toNat % 64) (if n = 0 then lead else lead % 2 ^ (6 - n))

/-- A surrogate, as a code point. -/
def Surrogate (c : ℕ) : Prop := 0xD800 ≤ c ∧ c < 0xE000

instance (c : ℕ) : Decidable (Surrogate c) := inferInstanceAs (Decidable (_ ∧ _))

/-- The character with a given number, none for a surrogate. -/
def scalar? (n : ℕ) : Option Char :=
  if Surrogate n then none else some (Char.ofNat n)

/-- The character at the start of the bytes, if there is one, and the number of bytes after the
first that belong to it, or to what there is of it. -/
def decodeStep (lead : UInt8) (rest : List UInt8) : Option Char × ℕ :=
  match tailLength lead.toNat with
  | none => (none, 0)
  | some n =>
    let k := tailsPresent lead.toNat n rest
    (if k = n then scalar? (assemble lead.toNat n (rest.take n)) else none, k)

/-- Decoding, with the number of bytes to skip first. -/
def decodeFrom : ℕ → List UInt8 → List Char
  | _, [] => []
  | k + 1, _ :: rest => decodeFrom k rest
  | 0, b :: rest =>
    (decodeStep b rest).1.getD replacement :: decodeFrom (decodeStep b rest).2 rest

/-- The text of the bytes, with replacement characters for what is not UTF-8. -/
def decodeUtf8 (bytes : List UInt8) : List Char :=
  decodeFrom 0 bytes

/-- Strict decoding, with the number of bytes to skip first. -/
def decodeStrictFrom : ℕ → List UInt8 → Option (List Char)
  | _, [] => some []
  | k + 1, _ :: rest => decodeStrictFrom k rest
  | 0, b :: rest =>
    match (decodeStep b rest).1 with
    | none => none
    | some c => (decodeStrictFrom (decodeStep b rest).2 rest).map (c :: ·)

/-- The text of the bytes, which have to be UTF-8. -/
def decodeStrict (bytes : List UInt8) : Option (List Char) :=
  decodeStrictFrom 0 bytes

/-- The UTF-8 encoding of a text. -/
def utf8 (s : List Char) : List UInt8 :=
  s.flatMap String.utf8EncodeChar

@[simp]
theorem utf8_nil : utf8 [] = [] :=
  rfl

@[simp]
theorem utf8_cons (c : Char) (s : List Char) : utf8 (c :: s) = String.utf8EncodeChar c ++ utf8 s :=
  rfl

@[simp]
theorem utf8_append (s t : List Char) : utf8 (s ++ t) = utf8 s ++ utf8 t :=
  List.flatMap_append

/-! ### The bytes of a character -/

theorem toNat_ofNat_byte {n : ℕ} (h : n < 256) : (UInt8.ofNat n).toNat = n := by
  rw [UInt8.toNat_ofNat']
  exact Nat.mod_eq_of_lt h

/-- The encoding of a code point, in the terms of its decoding: a first byte with as many bytes
after it as it announces, and the code point is what they make up. -/
structure IsEncoding (c : ℕ) (lead : UInt8) (tail : List UInt8) : Prop where
  length : tailLength lead.toNat = some tail.length
  continuation : ∀ b ∈ tail, IsContinuation b
  second : ∀ b ∈ tail.head?, IsSecond lead.toNat b
  number : assemble lead.toNat tail.length tail = c

theorem isContinuation_ofNat {n : ℕ} (h : n < 64) : IsContinuation (.ofNat (0x80 + n)) := by
  rw [IsContinuation, toNat_ofNat_byte (by omega)]
  omega

/-- Every code point, surrogates included, has an encoding of this form. -/
theorem exists_isEncoding {c : ℕ} (hlt : c < 0x110000) :
    ∃ lead tail, utf8Code c = lead :: tail ∧ IsEncoding c lead tail := by
  rw [utf8Code]
  -- The four forms, by the number of bytes: lead byte, tail, bounds and value of each.
  split_ifs with h₁ h₂ h₃
  · refine ⟨_, _, rfl, ?_, by simp, by simp, ?_⟩
    · rw [toNat_ofNat_byte (by omega), tailLength, if_pos h₁, List.length_nil]
    · rw [toNat_ofNat_byte (by omega)]
      rfl
  · refine ⟨_, _, rfl, ?_, ?_, ?_, ?_⟩
    · rw [toNat_ofNat_byte (by omega), tailLength, if_neg (by omega), if_neg (by omega),
        if_pos (by omega), List.length_singleton]
    · simpa using isContinuation_ofNat (n := c % 64) (by omega)
    · simp only [List.head?_cons, Option.mem_def, Option.some.injEq, forall_eq']
      refine ⟨isContinuation_ofNat (by omega), ?_, ?_, ?_⟩ <;>
        rw [toNat_ofNat_byte (by omega)] <;> omega
    · simp only [assemble, List.length_singleton, one_ne_zero, if_false, List.foldl_cons,
        List.foldl_nil]
      rw [toNat_ofNat_byte (by omega), toNat_ofNat_byte (by omega)]
      omega
  · refine ⟨_, _, rfl, ?_, ?_, ?_, ?_⟩
    · rw [toNat_ofNat_byte (by omega), tailLength, if_neg (by omega), if_neg (by omega),
        if_neg (by omega), if_pos (by omega), List.length_cons, List.length_singleton]
    · simp only [List.forall_mem_cons, List.not_mem_nil, IsEmpty.forall_iff, implies_true, and_true]
      exact ⟨isContinuation_ofNat (by omega), isContinuation_ofNat (by omega)⟩
    · simp only [List.head?_cons, Option.mem_def, Option.some.injEq, forall_eq']
      refine ⟨isContinuation_ofNat (by omega), ?_, ?_, ?_⟩ <;>
        rw [toNat_ofNat_byte (by omega), toNat_ofNat_byte (by omega)] <;> omega
    · simp only [assemble, List.length_cons, List.length_nil, List.foldl_cons, List.foldl_nil]
      rw [toNat_ofNat_byte (by omega), toNat_ofNat_byte (by omega), toNat_ofNat_byte (by omega)]
      simp only [Nat.reduceAdd, Nat.reduceSub, Nat.reducePow, OfNat.ofNat_ne_zero, if_false]
      omega
  · refine ⟨_, _, rfl, ?_, ?_, ?_, ?_⟩
    · rw [toNat_ofNat_byte (by omega), tailLength, if_neg (by omega), if_neg (by omega),
        if_neg (by omega), if_neg (by omega), if_pos (by omega)]
      rfl
    · simp only [List.forall_mem_cons, List.not_mem_nil, IsEmpty.forall_iff, implies_true, and_true]
      exact ⟨isContinuation_ofNat (by omega), isContinuation_ofNat (by omega),
        isContinuation_ofNat (by omega)⟩
    · simp only [List.head?_cons, Option.mem_def, Option.some.injEq, forall_eq']
      refine ⟨isContinuation_ofNat (by omega), ?_, ?_, ?_⟩ <;>
        rw [toNat_ofNat_byte (by omega), toNat_ofNat_byte (by omega)] <;> omega
    · simp only [assemble, List.length_cons, List.length_nil, List.foldl_cons, List.foldl_nil]
      rw [toNat_ofNat_byte (by omega), toNat_ofNat_byte (by omega), toNat_ofNat_byte (by omega),
        toNat_ofNat_byte (by omega)]
      simp only [Nat.reduceAdd, Nat.reduceSub, Nat.reducePow, OfNat.ofNat_ne_zero, if_false]
      omega

/-! ### Encoded text -/

/-- Outside ASCII, no byte of a character is an ASCII byte. -/
theorem mem_utf8Code {c : ℕ} {b : UInt8} (hc : c < 0x110000) (h : b ∈ utf8Code c) :
    c < 0x80 ∧ b = .ofNat c ∨ 0x80 ≤ b.toNat := by
  rw [utf8Code] at h
  split_ifs at h with h₁ h₂ h₃
  · exact .inl ⟨h₁, List.mem_singleton.1 h⟩
  all_goals
    right
    simp only [List.mem_cons, List.not_mem_nil, or_false] at h
  · obtain rfl | rfl := h <;> rw [toNat_ofNat_byte (by omega)] <;> omega
  · obtain rfl | rfl | rfl := h <;> rw [toNat_ofNat_byte (by omega)] <;> omega
  · obtain rfl | rfl | rfl | rfl := h <;> rw [toNat_ofNat_byte (by omega)] <;> omega

/-- An ASCII byte in a text stands for its character. -/
theorem mem_utf8_ascii {s : List Char} {c : Char} (hc : c.toNat < 0x80) :
    UInt8.ofNat c.toNat ∈ utf8 s ↔ c ∈ s := by
  rw [utf8, List.mem_flatMap]
  constructor
  · rintro ⟨d, hd, hb⟩
    rw [← utf8Code_toNat] at hb
    obtain ⟨hlt, heq⟩ | hle := mem_utf8Code (toNat_lt d) hb
    · have htoNat := congrArg UInt8.toNat heq
      rw [toNat_ofNat_byte (by omega), toNat_ofNat_byte (by omega)] at htoNat
      rwa [show c = d from Char.toNat_inj.1 htoNat]
    · rw [toNat_ofNat_byte (by omega)] at hle
      omega
  · intro hmem
    refine ⟨c, hmem, ?_⟩
    rw [← utf8Code_toNat, utf8Code, if_pos hc]
    exact List.mem_singleton_self _

theorem scalar?_toNat (c : Char) : scalar? c.toNat = some c := by
  have := not_surrogate c
  rw [scalar?, if_neg (by unfold Surrogate; omega), Char.ofNat_toNat]

theorem toNat_scalar? {n : ℕ} (hlt : n < 0x110000) (h : ¬Surrogate n) :
    (scalar? n).map Char.toNat = some n := by
  have hvalid : n.isValidChar := by
    unfold Surrogate at h
    rw [Nat.isValidChar]
    omega
  rw [scalar?, if_neg h, Option.map_some, Char.ofNat, dif_pos hvalid]
  rfl

/-- As many continuations are found as there are, up to the number asked for. -/
theorem tailsPresent_append {lead n : ℕ} {tail : List UInt8} (hn : tail.length = n)
    (hcont : ∀ b ∈ tail, IsContinuation b) (hsecond : ∀ b ∈ tail.head?, IsSecond lead b)
    (rest : List UInt8) : tailsPresent lead n (tail ++ rest) = n := by
  cases tail with
  | nil =>
    obtain rfl : n = 0 := hn.symm
    cases rest <;> rfl
  | cons b tail =>
    have hb : IsSecond lead b := hsecond b rfl
    have htail : (tail.takeWhile fun b ↦ decide (IsContinuation b)) = tail := by
      rw [List.takeWhile_eq_self_iff]
      intro b' hb'
      exact decide_eq_true (hcont b' (List.mem_cons_of_mem b hb'))
    rw [List.length_cons] at hn
    rw [List.cons_append, tailsPresent, if_pos ⟨by omega, hb⟩, ← hn, Nat.add_sub_cancel,
      List.take_left, htail]

theorem decodeStep_encoding {c : ℕ} {lead : UInt8} {tail : List UInt8}
    (h : IsEncoding c lead tail) (rest : List UInt8) :
    decodeStep lead (tail ++ rest) = (scalar? c, tail.length) := by
  rw [decodeStep, h.length]
  dsimp only
  rw [tailsPresent_append rfl h.continuation h.second, if_pos rfl, List.take_left, h.number]

theorem decodeFrom_length_append (skipped rest : List UInt8) :
    decodeFrom skipped.length (skipped ++ rest) = decodeFrom 0 rest := by
  induction skipped with
  | nil => rfl
  | cons b skipped ih => rw [List.length_cons, List.cons_append, decodeFrom, ih]

/-- An encoded code point is decoded to itself, or to a replacement character if it is a
surrogate. -/
theorem decodeUtf8_code {c : ℕ} (hlt : c < 0x110000) (rest : List UInt8) :
    decodeUtf8 (utf8Code c ++ rest) = (scalar? c).getD replacement :: decodeUtf8 rest := by
  obtain ⟨lead, tail, henc, h⟩ := exists_isEncoding hlt
  rw [henc, List.cons_append, decodeUtf8, decodeFrom, decodeStep_encoding h,
    decodeFrom_length_append, decodeUtf8]

theorem decodeUtf8_char (c : Char) (rest : List UInt8) :
    decodeUtf8 (String.utf8EncodeChar c ++ rest) = c :: decodeUtf8 rest := by
  rw [← utf8Code_toNat, decodeUtf8_code (toNat_lt c), scalar?_toNat, Option.getD_some]

/-- Text, encoded, is decoded to itself, whatever follows. -/
theorem decodeUtf8_append (s : List Char) (rest : List UInt8) :
    decodeUtf8 (utf8 s ++ rest) = s ++ decodeUtf8 rest := by
  induction s with
  | nil => rfl
  | cons c s ih => rw [utf8_cons, List.append_assoc, decodeUtf8_char, ih, List.cons_append]

@[simp]
theorem decodeUtf8_encode (s : List Char) : decodeUtf8 (utf8 s) = s := by
  simpa [decodeUtf8, decodeFrom] using decodeUtf8_append s []

theorem utf8_injective : Function.Injective utf8 :=
  Function.LeftInverse.injective decodeUtf8_encode

theorem decodeStrictFrom_length_append (skipped rest : List UInt8) :
    decodeStrictFrom skipped.length (skipped ++ rest) = decodeStrictFrom 0 rest := by
  induction skipped with
  | nil => rfl
  | cons b skipped ih => rw [List.length_cons, List.cons_append, decodeStrictFrom, ih]

@[simp]
theorem decodeStrict_encode (s : List Char) : decodeStrict (utf8 s) = some s := by
  induction s with
  | nil => rfl
  | cons c s ih =>
    obtain ⟨lead, tail, henc, h⟩ := exists_isEncoding (toNat_lt c)
    rw [utf8Code_toNat] at henc
    rw [utf8_cons, henc, List.cons_append, decodeStrict, decodeStrictFrom, decodeStep_encoding h,
      scalar?_toNat]
    dsimp only
    rw [decodeStrictFrom_length_append, ← decodeStrict, ih, Option.map_some]

/-! ### Characters that are cut -/

theorem tailLength_continuation {b : UInt8} (h : IsContinuation b) : tailLength b.toNat = none := by
  rw [tailLength, if_neg (by have := h.1; omega), if_pos (by have := h.2; omega)]

/-- Continuations without a first byte become replacement characters, each by itself. -/
theorem decodeUtf8_tails {tail : List UInt8} (h : ∀ b ∈ tail, IsContinuation b)
    (rest : List UInt8) :
    decodeUtf8 (tail ++ rest) = List.replicate tail.length replacement ++ decodeUtf8 rest := by
  induction tail with
  | nil => rfl
  | cons b tail ih =>
    rw [List.cons_append, decodeUtf8, decodeFrom, decodeStep,
      tailLength_continuation (h b List.mem_cons_self)]
    dsimp only
    rw [← decodeUtf8, ih fun b' hb' ↦ h b' (List.mem_cons_of_mem b hb'), List.length_cons,
      List.replicate_succ, List.cons_append, Option.getD_none]

/-- The start of a character that is cut before its end becomes one replacement character. -/
theorem decodeUtf8_cut {c : ℕ} {lead : UInt8} {start rest : List UInt8}
    (h : IsEncoding c lead (start ++ rest)) (hrest : rest ≠ []) :
    decodeUtf8 (lead :: start) = [replacement] := by
  have hlen : 0 < rest.length := List.length_pos_iff.2 hrest
  have htails : tailsPresent lead.toNat (start ++ rest).length start = start.length := by
    cases start with
    | nil => rfl
    | cons b start =>
      have hb : IsSecond lead.toNat b := h.second b rfl
      rw [tailsPresent, if_pos ⟨by simp, hb⟩, List.take_of_length_le (by simp),
        List.takeWhile_eq_self_iff.2, List.length_cons]
      intro b' hb'
      exact decide_eq_true (h.continuation b' (by simp [hb']))
  have hstep : decodeStep lead start = (none, start.length) := by
    rw [decodeStep, h.length]
    dsimp only
    rw [htails, if_neg (by rw [List.length_append]; omega)]
  have hend := decodeFrom_length_append start []
  rw [List.append_nil] at hend
  rw [decodeUtf8, decodeFrom, hstep, Option.getD_none, hend, decodeFrom]

end Unicode
