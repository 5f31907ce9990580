import JPype.Text.PercentEncoding
import Mathlib.Data.List.Infix

/-!
# The texts of `java.net.URI`

Which characters a URI may have, and how its parts are decoded. A plus sign stands for itself here,
so that only what is escaped changes (`decodePercent_of_notMem`).
-/

namespace Unicode

/-- `text.replace("+", "%2b")` -/
def escapePlus (text : List Char) : List Char :=
  text.flatMap fun c ↦ if c = '+' then "%2b".toList else [c]

/-- `URLDecoder.decode(text.replace("+", "%2b"), "UTF-8")`, and what the getters of a `URI` do with
a part of it. -/
def decodePercent (text : List Char) : Option (List Char) :=
  urlDecode (escapePlus text)

/-- A character above ASCII that is no space and no control. -/
def IsOther (c : Char) : Prop :=
  0xA0 < c.toNat ∧ c.toNat ≠ 0x1680 ∧ ¬(0x2000 ≤ c.toNat ∧ c.toNat ≤ 0x200A) ∧
    c.toNat ∉ [0x2028, 0x2029, 0x202F, 0x205F, 0x3000]

instance (c : Char) : Decidable (IsOther c) := inferInstanceAs (Decidable (_ ∧ _))

/-- A character that an opaque URI may have as it is. -/
def IsUric (c : Char) : Prop :=
  c.isAlphanum = true ∨ c ∈ "_-!.~'()*,;:$&+=?/[]@".toList ∨ IsOther c

instance (c : Char) : Decidable (IsUric c) := inferInstanceAs (Decidable (_ ∨ _))

/-- Every character is one that a URI may have, or is escaped. -/
def legal : List Char → Bool
  | '%' :: high :: low :: rest =>
    (hexValue? high).isSome && (hexValue? low).isSome && legal rest
  | c :: rest => decide (IsUric c) && legal rest
  | [] => true

theorem decodeLoop_plus (waiting : List Char) {text : List Char} (h : '%' ∉ text) :
    decodeLoop (utf8 waiting) (escapePlus text) = some (waiting ++ text) := by
  induction text generalizing waiting with
  | nil => simp [escapePlus, decodeLoop, decodeUtf8_encode]
  | cons c text ih =>
    have hc : c ≠ '%' := fun heq ↦ h (heq ▸ List.mem_cons_self)
    have htext : '%' ∉ text := fun hmem ↦ h (List.mem_cons_of_mem _ hmem)
    by_cases hplus : c = '+'
    · have hbyte : utf8 waiting ++ [UInt8.ofNat (16 * 2 + 11)] = utf8 (waiting ++ ['+']) := by
        rw [utf8_append]
        rfl
      rw [hplus]
      show decodeLoop (utf8 waiting) ('%' :: '2' :: 'b' :: escapePlus text) = _
      rw [decodeLoop, show hexValue? '2' = some 2 from by decide,
        show hexValue? 'b' = some 11 from by decide]
      show decodeLoop (utf8 waiting ++ [UInt8.ofNat (16 * 2 + 11)]) (escapePlus text) = _
      rw [hbyte, ih _ htext, List.append_assoc, List.singleton_append]
    · rw [escapePlus, List.flatMap_cons, if_neg hplus, ← escapePlus, List.singleton_append,
        decodeLoop_char hc, if_neg hplus, ← utf8_nil, ih [] htext, decodeUtf8_encode]
      rfl

/-- Where nothing is escaped there is nothing to decode. -/
theorem decodePercent_of_notMem {text : List Char} (h : '%' ∉ text) :
    decodePercent text = some text :=
  decodeLoop_plus [] h

/-- A quoted text has percent signs, and characters from the hyphen on. -/
theorem le_toNat_of_mem_quote {c : Char} {text : List Char} (h : c ∈ quote text) :
    c = '%' ∨ 0x2D ≤ c.toNat := by
  rw [quote, List.mem_flatMap] at h
  obtain ⟨b, -, hb⟩ := h
  have hdigit : ∀ n < 16, 0x2D ≤ (hexDigit n).toNat := by decide
  rcases mem_quoteByte hb with rfl | ⟨n, hn, rfl⟩ | ⟨hs, rfl⟩
  · exact .inl rfl
  · exact .inr (hdigit n hn)
  · have hlt := b.toNat_lt
    have hvalid : b.toNat.isValidChar := .inl (by omega)
    rw [Char.ofNat, dif_pos hvalid]
    show _ ∨ 0x2D ≤ b.toNat
    simp only [IsSafe, List.mem_cons, List.not_mem_nil, or_false] at hs
    omega

theorem notMem_quote {c : Char} (hpercent : c ≠ '%') (hlt : c.toNat < 0x2D) (text : List Char) :
    c ∉ quote text := fun hmem ↦
  (le_toNat_of_mem_quote hmem).elim hpercent fun hle ↦ Nat.not_le_of_lt hlt hle

theorem escapePlus_of_notMem {text : List Char} (h : '+' ∉ text) : escapePlus text = text := by
  have hself : ∀ c ∈ text, (if c = '+' then "%2b".toList else [c]) = [c] := fun c hc ↦
    if_neg fun heq : c = '+' ↦ h (heq ▸ hc)
  rw [escapePlus, List.flatMap_congr hself, List.flatMap_singleton']

@[simp]
theorem decodePercent_quote (text : List Char) : decodePercent (quote text) = some text := by
  rw [decodePercent, escapePlus_of_notMem (notMem_quote (by decide) (by decide) text),
    decode_quote]

theorem length_decodeFrom_le (k : ℕ) (bytes : List UInt8) :
    (decodeFrom k bytes).length ≤ bytes.length := by
  fun_induction decodeFrom k bytes with
  | case1 => exact Nat.le_refl _
  | case2 k b rest ih => exact ih.trans (Nat.le_succ _)
  | case3 b rest ih => simpa using ih

theorem length_decodeUtf8_le (bytes : List UInt8) : (decodeUtf8 bytes).length ≤ bytes.length :=
  length_decodeFrom_le 0 bytes

theorem ne_of_hexValue? {c : Char} {n : ℕ} (h : hexValue? c = some n) : c ≠ '%' := by
  rintro rfl
  rw [show hexValue? '%' = none from by decide] at h
  exact absurd h (Option.some_ne_none n).symm

/-- Decoding makes a text no longer, and shorter by two characters at least for each escape. -/
theorem length_of_decodeLoop {escaped : List UInt8} {text out : List Char}
    (h : decodeLoop escaped text = some out) :
    out.length + 2 * text.count '%' ≤ escaped.length + text.length := by
  fun_induction decodeLoop escaped text generalizing out with
  | case1 escaped =>
    have hlength := length_decodeUtf8_le escaped
    rw [← Option.some.inj h, List.count_nil, List.length_nil]
    omega
  | case2 escaped high low rest ih =>
    obtain ⟨hi, hhigh, h⟩ := Option.bind_eq_some_iff.mp h
    obtain ⟨lo, hlow, h⟩ := Option.bind_eq_some_iff.mp h
    have hlength := ih hi lo h
    rw [List.length_append, List.length_singleton] at hlength
    rw [List.count_cons_self, List.count_cons_of_ne (ne_of_hexValue? hhigh),
      List.count_cons_of_ne (ne_of_hexValue? hlow)]
    simp only [List.length_cons]
    omega
  | case3 => exact absurd h (by simp)
  | case4 escaped c rest _ hc ih =>
    obtain ⟨text, htext, rfl⟩ := Option.map_eq_some_iff.mp h
    have hlength := ih htext
    have hescaped := length_decodeUtf8_le escaped
    rw [List.count_cons_of_ne hc, List.length_append, List.length_cons, List.length_cons]
    rw [List.length_nil] at hlength
    omega

theorem length_escapePlus (text : List Char) :
    (escapePlus text).length + 2 * text.count '%' =
      text.length + 2 * (escapePlus text).count '%' := by
  induction text with
  | nil => rfl
  | cons c text ih =>
    rw [escapePlus, List.flatMap_cons, ← escapePlus, List.length_append, List.count_append,
      List.length_cons, List.count_cons]
    split_ifs with hplus hpercent hpercent
    · exact absurd (hplus.symm.trans (beq_iff_eq.mp hpercent)) (by decide)
    · rw [show "%2b".toList.length = 3 from by decide,
        show "%2b".toList.count '%' = 1 from by decide]
      omega
    · rw [beq_iff_eq.mp hpercent, List.count_singleton_self, List.length_singleton]
      omega
    · rw [List.count_cons, if_neg hpercent, List.count_nil, List.length_singleton]
      omega

theorem length_of_decodePercent {text out : List Char} (h : decodePercent text = some out) :
    out.length + 2 * text.count '%' ≤ text.length := by
  have hlength := length_of_decodeLoop h
  have hescape := length_escapePlus text
  rw [List.length_nil] at hlength
  omega

theorem legal_of_forall {text : List Char} (h : ∀ c ∈ text, IsUric c) : legal text = true := by
  induction text with
  | nil => rfl
  | cons c text ih =>
    obtain ⟨hc, htext⟩ := List.forall_mem_cons.mp h
    have hpercent : c ≠ '%' := by
      rintro rfl
      revert hc
      decide
    rw [legal, ih htext, decide_eq_true hc]
    · rfl
    · intro _ _ _ heq
      exact absurd heq hpercent

end Unicode
