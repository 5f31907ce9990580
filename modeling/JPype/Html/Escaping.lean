import JPype.Html.Decode
import Mathlib.Data.List.Chain

/-!
# Escaped text and its decoding

A way to escape a text writes each of its characters literally, by a name of the table or by its
number. `Html.decode` reads such a text piece by piece (`decodeLoop_escaped`): a reference is read
unless it directly follows one that was, and then its text stays as it is. The result is the text
exactly if no two references are adjacent, no reference stands for a supplementary character and,
where the text has a reference at all, no character is an unpaired surrogate (`decode_iff`).
-/

namespace JPype

open Unicode

namespace Html

/-- How a character is written. -/
inductive Form where
  | literal
  | named (name : String)
  | decimal (digits : List (Fin 10))
  deriving DecidableEq, Repr

/-- The number that the digits of a reference denote. -/
def numberOf (digits : List (Fin 10)) : ℕ :=
  digits.foldl (fun v d ↦ 10 * v + d.val) 0

/-- The form writes the character `c`. -/
def Form.Denotes (c : ℕ) : Form → Prop
  | literal => c ≠ 0x26
  | named name => (name, c) ∈ entities
  | decimal digits => numberOf digits = c

instance (c : ℕ) (form : Form) : Decidable (form.Denotes c) := by
  cases form <;> unfold Form.Denotes <;> infer_instance

/-- A character, not `U+0000`, with a way to write it. -/
structure Escaped where
  char : ℕ
  form : Form
  char_pos : 0 < char
  char_lt : char < 0x110000
  denotes : form.Denotes char

namespace Escaped

/-- What is written for the character. -/
def text (e : Escaped) : List ℕ :=
  match e.form with
  | .literal => [e.char]
  | .named name => 0x26 :: (name.toList.map Char.toNat ++ [0x3B])
  | .decimal digits => 0x26 :: 0x23 :: (digits.map (fun d ↦ 0x30 + d.val) ++ [0x3B])

/-- The character is written as a reference. -/
def IsReference (e : Escaped) : Prop := e.form ≠ .literal

instance (e : Escaped) : Decidable e.IsReference := inferInstanceAs (Decidable (_ ≠ _))

end Escaped

/-- The escaped text. -/
def escapedText (es : List Escaped) : List ℕ :=
  es.flatMap Escaped.text

/-! ### The table -/

/-- A number for each name, to compare names by. -/
def nameKey (name : List Char) : ℕ :=
  name.foldl (fun v c ↦ 256 * v + c.toNat) 0

/-- No number comes twice, or is one of the bits of `seen`. -/
def distinct (seen : ℕ) : List ℕ → Bool
  | [] => true
  | k :: ks => !seen.testBit k && distinct (seen ||| 2 ^ k) ks

theorem nodup_of_distinct {ks : List ℕ} : ∀ {seen : ℕ}, distinct seen ks →
    ks.Nodup ∧ ∀ k ∈ ks, seen.testBit k = false := by
  induction ks with
  | nil => exact fun _ ↦ ⟨List.nodup_nil, fun k hk ↦ nomatch hk⟩
  | cons k ks ih =>
    intro seen h
    rw [distinct, Bool.and_eq_true, Bool.not_eq_true'] at h
    obtain ⟨hnodup, hseen⟩ := ih h.2
    have hbit : ∀ k' ∈ ks, seen.testBit k' = false ∧ k ≠ k' := by
      intro k' hk'
      have hor := hseen k' hk'
      rw [Nat.testBit_or, Bool.or_eq_false_iff, Nat.testBit_two_pow] at hor
      exact ⟨hor.1, of_decide_eq_false hor.2⟩
    refine ⟨List.nodup_cons.2 ⟨fun hmem ↦ (hbit k hmem).2 rfl, hnodup⟩, fun k' hk' ↦ ?_⟩
    obtain rfl | hk' := List.mem_cons.1 hk'
    · exact h.1
    · exact (hbit k' hk').1

/-- The numbers of the names differ, even by their remainders. -/
theorem nodup_nameKey : (entities.map fun entry ↦ nameKey entry.1.toList % 4739).Nodup := by
  have hdistinct : distinct 0 (entities.map fun entry ↦ nameKey entry.1.toList % 4739) := by
    decide +kernel
  exact (nodup_of_distinct hdistinct).1

/-- Names are two letters or digits at least. -/
theorem entities_names : ∀ entry ∈ entities, 2 ≤ entry.1.toList.length ∧
    ∀ c ∈ entry.1.toList, 0x30 ≤ c.toNat ∧ c.toNat < 0x80 ∧ c.toNat ≠ 0x3B := by
  have hall : entities.all fun entry ↦ 2 ≤ entry.1.toList.length &&
      entry.1.toList.all fun c ↦ 0x30 ≤ c.toNat && c.toNat < 0x80 && c.toNat != 0x3B := by
    decide +kernel
  intro entry hentry
  have h := List.all_eq_true.1 hall entry hentry
  simpa [and_assoc] using h

/-- Each name is found with its value: the names are distinct. -/
theorem entityValue_of_mem {name : String} {c : ℕ} (h : (name, c) ∈ entities) :
    entityValue name.toList = some c := by
  cases hfind : entities.find? fun entry ↦ entry.1.toList = name.toList with
  | none =>
    have := List.find?_eq_none.1 hfind _ h
    simp at this
  | some entry =>
    have hname : entry.1.toList = name.toList := by simpa using List.find?_some hfind
    have heq : entry = (name, c) :=
      List.inj_on_of_nodup_map nodup_nameKey (List.mem_of_find?_eq_some hfind) h
        (congrArg (fun name ↦ nameKey name % 4739) hname)
    rw [entityValue, hfind, heq, Option.map_some]

/-! ### The bytes of an escaped text -/

theorem getBytes_append (s t : List ℕ) : getBytes (s ++ t) = getBytes s ++ getBytes t :=
  List.flatMap_append

theorem getBytes_ascii {s : List ℕ} (h : ∀ c ∈ s, c < 0x80) : getBytes s = s.map UInt8.ofNat := by
  induction s with
  | nil => rfl
  | cons c s ih =>
    rw [List.forall_mem_cons] at h
    rw [getBytes, List.flatMap_cons, ← getBytes, ih h.2, if_neg (by unfold Surrogate; omega),
      utf8Code, if_pos h.1, List.singleton_append, List.map_cons]

/-- A literal character has no byte that is an ampersand or zero. -/
theorem mem_getBytes_literal {c : ℕ} {b : UInt8} (hpos : 0 < c) (hlt : c < 0x110000)
    (hne : c ≠ 0x26) (h : b ∈ getBytes [c]) : b ≠ 0x26 ∧ b ≠ 0 := by
  rw [getBytes, List.flatMap_singleton] at h
  split_ifs at h
  · rw [List.mem_singleton.1 h]
    decide
  · obtain ⟨hascii, rfl⟩ | hhigh := mem_utf8Code hlt h
    · refine ⟨fun heq ↦ hne ?_, fun heq ↦ hpos.ne' ?_⟩ <;>
        simpa [toNat_ofNat_byte (show c < 256 by omega)] using congrArg UInt8.toNat heq
    · refine ⟨?_, ?_⟩ <;> rintro rfl <;> revert hhigh <;> decide

namespace Escaped

/-- The bytes of what is written for the character. -/
def bytes (e : Escaped) : List UInt8 :=
  getBytes e.text

/-- The text of a reference between the ampersand and the semicolon. -/
def body (e : Escaped) : List ℕ :=
  match e.form with
  | .literal => []
  | .named name => name.toList.map Char.toNat
  | .decimal digits => 0x23 :: digits.map fun d ↦ 0x30 + d.val

theorem text_reference {e : Escaped} (h : e.IsReference) : e.text = 0x26 :: (e.body ++ [0x3B]) := by
  unfold text body
  split
  · next heq => exact absurd heq h
  · rfl
  · rfl

/-- The text of a reference has two characters at least, in ASCII, and none of them ends it or
starts another. -/
theorem body_spec {e : Escaped} (h : e.IsReference) :
    2 ≤ e.body.length ∧ ∀ c ∈ e.body, 0x23 ≤ c ∧ c < 0x80 ∧ c ≠ 0x26 ∧ c ≠ 0x3B := by
  have hden := e.denotes
  have hpos := e.char_pos
  unfold body
  split
  · next heq => exact absurd heq h
  · next name heq =>
    rw [heq] at hden
    obtain ⟨hlen, hchars⟩ := entities_names _ hden
    refine ⟨by rwa [List.length_map], fun c hc ↦ ?_⟩
    obtain ⟨letter, hletter, rfl⟩ := List.mem_map.1 hc
    have := hchars letter hletter
    omega
  · next digits heq =>
    rw [heq] at hden
    refine ⟨?_, fun c hc ↦ ?_⟩
    · cases digits with
      | nil => exact absurd hden hpos.ne
      | cons d digits => simp
    · rw [List.mem_cons, List.mem_map] at hc
      obtain rfl | ⟨d, -, rfl⟩ := hc
      · decide
      · omega

theorem bytes_reference {e : Escaped} (h : e.IsReference) :
    e.bytes = 0x26 :: (e.body.map UInt8.ofNat ++ [0x3B]) := by
  rw [bytes, text_reference h, getBytes_ascii, List.map_cons, List.map_append]
  · rfl
  · intro c hc
    simp only [List.mem_cons, List.mem_append, List.not_mem_nil, or_false] at hc
    obtain rfl | hc | rfl := hc
    · decide
    · exact ((body_spec h).2 c hc).2.1
    · decide

end Escaped

/-! ### One round of the loop -/

/-- A scan ends at the first byte that does not pass. -/
theorem scan_append {passes : UInt8 → Bool} {passed : List UInt8} {stop : UInt8}
    (hpass : ∀ b ∈ passed, passes b = true) (hstop : passes stop = false)
    (before after : List UInt8) :
    scan passes (before ++ (passed ++ stop :: after)) before.length =
      before.length + passed.length := by
  rw [scan, List.drop_left, List.takeWhile_append_of_pos hpass, List.takeWhile_cons_of_neg,
    List.append_nil]
  rw [hstop]
  decide

/-- The bytes that the substitution writes for a character. -/
def written (c : ℕ) : List UInt8 :=
  if c < 128 then [.ofNat c]
  else if c < 0x0800 then [.ofNat (0xc0 + c / 64 % 32), .ofNat (0x80 + c % 64)]
  else [.ofNat (0xe0 + c / 4096 % 16), .ofNat (0x80 + c / 64 % 64), .ofNat (0x80 + c % 64)]

theorem length_written_le (c : ℕ) : (written c).length ≤ 3 := by
  unfold written
  split_ifs <;> simp

theorem write_append (done rest : List UInt8) (old : UInt8) (x : ℕ) :
    write (done ++ old :: rest) done.length x =
      ((done ++ [.ofNat x]) ++ rest, (done ++ [UInt8.ofNat x]).length) := by
  rw [write, if_pos (by simp), List.set_append_right _ _ le_rfl, Nat.sub_self, List.set_cons_zero,
    List.append_assoc, List.singleton_append, List.length_append, List.length_singleton]

theorem substitute_append (done rest : List UInt8) (c : ℕ) (a₀ a₁ a₂ : UInt8) :
    substitute (done ++ a₀ :: a₁ :: a₂ :: rest) done.length c =
      (done ++ written c ++ (a₀ :: a₁ :: a₂ :: rest).drop (written c).length,
        (done ++ written c).length) := by
  unfold substitute written
  simp only [Nat.shiftRight_eq_div_pow, Nat.reducePow, and_0f, and_1f, and_3f]
  split_ifs
  · rw [write_append]
    rfl
  · rw [write_append]
    dsimp only
    rw [write_append]
    simp
  · rw [write_append]
    dsimp only
    rw [write_append]
    dsimp only
    rw [write_append]
    simp

theorem zeroFill_append (kept old rest : List UInt8) :
    zeroFill (kept ++ (old ++ rest)) kept.length (kept ++ old).length =
      kept ++ (List.replicate old.length 0 ++ rest) := by
  refine List.ext_getElem? fun i ↦ ?_
  rw [zeroFill, List.getElem?_mapIdx, List.length_append]
  obtain h | h := lt_or_ge i kept.length
  · rw [List.getElem?_append_left h, List.getElem?_append_left h, List.getElem?_eq_getElem h,
      Option.map_some, if_neg (by omega)]
  rw [List.getElem?_append_right h, List.getElem?_append_right h]
  obtain h' | h' := lt_or_ge (i - kept.length) old.length
  · rw [List.getElem?_append_left h', List.getElem?_append_left (by simpa using h'),
      List.getElem?_replicate_of_lt h', List.getElem?_eq_getElem h', Option.map_some,
      if_pos (by omega)]
  · rw [List.getElem?_append_right h', List.getElem?_append_right (by simpa using h'),
      List.length_replicate]
    cases rest[i - kept.length - old.length]? with
    | none => rfl
    | some x => rw [Option.map_some, if_neg (by omega)]

theorem decodeLoop_of_le (rounds : ℕ) {b : List UInt8} {i : ℕ} (h : b.length ≤ i) (dead : ℤ) :
    decodeLoop rounds b i dead = .ok (b, dead) := by
  cases rounds with
  | zero => rfl
  | succ rounds => rw [decodeLoop, if_neg (not_lt.2 h)]

/-- The loop passes over bytes that are not ampersands. -/
theorem decodeLoop_pass {passed : List UInt8} (h : ∀ b ∈ passed, b ≠ 0x26) (rounds : ℕ)
    (done rest : List UInt8) (dead : ℤ) :
    decodeLoop (rounds + passed.length) (done ++ (passed ++ rest)) done.length dead =
      decodeLoop rounds (done ++ passed ++ rest) (done ++ passed).length dead := by
  induction passed generalizing done with
  | nil => simp
  | cons b passed ih =>
    rw [List.forall_mem_cons] at h
    have hget : (done ++ (b :: passed ++ rest))[done.length]? = some b := by simp
    rw [List.length_cons, ← Nat.add_assoc, decodeLoop, if_pos (by simp), if_pos (by
      rw [hget]; simpa using h.1)]
    have := ih h.2 (done ++ [b])
    simpa using this

theorem utf8_ascii {s : List Char} (h : ∀ c ∈ s, c.toNat < 0x80) :
    utf8 s = (s.map Char.toNat).map UInt8.ofNat := by
  induction s with
  | nil => rfl
  | cons c s ih =>
    rw [List.forall_mem_cons] at h
    rw [utf8_cons, ih h.2, ← utf8Code_toNat, utf8Code, if_pos h.1]
    rfl

theorem isDigit_ofNat (d : Fin 10) : isDigit (.ofNat (0x30 + d.val)) = true := by
  rw [isDigit, toNat_ofNat_byte (by omega)]
  exact decide_eq_true (by omega)

/-- The digits of a reference are read as the number they denote. -/
theorem digitsValue_map (digits : List (Fin 10)) :
    digitsValue ((digits.map fun d ↦ 0x30 + d.val).map UInt8.ofNat) = numberOf digits := by
  rw [digitsValue, numberOf, List.map_map, List.foldl_map]
  refine congrArg (fun f ↦ digits.foldl f 0) (funext fun v ↦ funext fun d ↦ ?_)
  rw [Function.comp_apply, toNat_ofNat_byte (by omega), Nat.add_sub_cancel_left]

theorem drop_take_append (before middle after : List UInt8) :
    ((before ++ (middle ++ after)).take (before.length + middle.length)).drop before.length =
      middle := by
  rw [← List.append_assoc, ← List.length_append, List.take_left, List.drop_left]

theorem readReference_named {name : String} {c : ℕ} (h : (name, c) ∈ entities)
    (before rest : List UInt8) :
    readReference (before ++ (utf8 name.toList ++ 0x3B :: rest)) before.length =
      .ok (before.length + (utf8 name.toList).length, c) := by
  obtain ⟨hlen, hchars⟩ := entities_names _ h
  have hascii := utf8_ascii fun c hc ↦ (hchars c hc).2.1
  have hbytes : ∀ b ∈ utf8 name.toList, b ≠ 0x23 ∧ b ≠ 0x3B := by
    intro b hb
    rw [hascii, List.map_map] at hb
    obtain ⟨c, hc, rfl⟩ := List.mem_map.1 hb
    obtain ⟨h₀, h₁, h₂⟩ := hchars c hc
    refine ⟨fun heq ↦ ?_, fun heq ↦ ?_⟩ <;>
      replace heq := congrArg UInt8.toNat heq <;>
      rw [Function.comp_apply, toNat_ofNat_byte (by omega)] at heq <;>
      simp at heq <;> omega
  have hhead : (before ++ (utf8 name.toList ++ 0x3B :: rest))[before.length]? ≠ some 0x23 := by
    rw [List.getElem?_append_right le_rfl, Nat.sub_self]
    cases hname : utf8 name.toList with
    | nil => simp
    | cons b bs =>
      rw [hname] at hbytes
      simpa using (hbytes b List.mem_cons_self).1
  have hscan : scan (· ≠ 0x3B) (before ++ (utf8 name.toList ++ 0x3B :: rest)) before.length = _ :=
    scan_append (fun b hb ↦ decide_eq_true (hbytes b hb).2) rfl before rest
  rw [readReference, if_neg hhead, hscan]
  dsimp only
  rw [drop_take_append, decodeUtf8_encode, entityValue_of_mem h]

theorem readReference_decimal {digits : List (Fin 10)} {c : ℕ} (hden : numberOf digits = c)
    (hpos : 0 < c) (hlt : c < 0x110000) (before rest : List UInt8) :
    readReference (before ++ (0x23 :: ((digits.map fun d ↦ 0x30 + d.val).map UInt8.ofNat ++
        0x3B :: rest))) before.length = .ok (before.length + 1 + digits.length, c) := by
  let bytes := (digits.map fun d ↦ 0x30 + d.val).map UInt8.ofNat
  have hassoc : before ++ (0x23 :: (bytes ++ 0x3B :: rest)) =
      (before ++ [0x23]) ++ (bytes ++ 0x3B :: rest) := by simp
  have hhead : (before ++ (0x23 :: (bytes ++ 0x3B :: rest)))[before.length]? = some 0x23 := by simp
  have hdigits : ∀ b ∈ bytes, isDigit b = true := by
    intro b hb
    simp only [bytes, List.map_map, List.mem_map] at hb
    obtain ⟨d, -, rfl⟩ := hb
    exact isDigit_ofNat d
  have hstop : isDigit 0x3B = false := by decide
  have hscan := scan_append hdigits hstop (before ++ [0x23]) rest
  rw [List.length_append, List.length_singleton] at hscan
  have hdrop := drop_take_append (before ++ [0x23]) bytes (0x3B :: rest)
  rw [List.length_append, List.length_singleton] at hdrop
  have hparse : parseInt bytes = some c := by
    rw [parseInt, digitsValue_map, hden, if_neg]
    rintro (hnil | hbig)
    · obtain rfl : digits = [] := by simpa [bytes] using hnil
      exact hpos.ne hden
    · omega
  rw [readReference, if_pos hhead, hassoc, hscan]
  dsimp only
  rw [hdrop, hparse, Option.getD_some]
  simp [bytes]

/-- A reference is read as the character that it stands for. -/
theorem readReference_reference {e : Escaped} (h : e.IsReference) (done rest : List UInt8) :
    readReference (done ++ (e.bytes ++ rest)) (done.length + 1) =
      .ok (done.length + 1 + e.body.length, e.char) := by
  have hden := e.denotes
  have hassoc : done ++ (e.bytes ++ rest) =
      (done ++ [0x26]) ++ (e.body.map UInt8.ofNat ++ 0x3B :: rest) := by
    rw [Escaped.bytes_reference h]
    simp
  have hlen : (done ++ [(0x26 : UInt8)]).length = done.length + 1 := by simp
  rw [hassoc, ← hlen]
  unfold Escaped.body
  split
  · next heq => exact absurd heq h
  · next name heq =>
    rw [heq] at hden
    have hascii := utf8_ascii fun c hc ↦ ((entities_names _ hden).2 c hc).2.1
    rw [← hascii, readReference_named hden, hascii, List.length_map]
  · next digits heq =>
    rw [heq] at hden
    rw [List.map_cons]
    refine (readReference_decimal hden e.char_pos e.char_lt _ rest).trans ?_
    rw [List.length_cons, List.length_map, Nat.add_assoc, Nat.add_comm 1]

/-- The zeros that a reference leaves behind. -/
def Escaped.zeros (e : Escaped) : List UInt8 :=
  List.replicate (e.bytes.length - (written e.char).length) 0

/-- One round reads a reference. -/
theorem decodeLoop_reference {e : Escaped} (h : e.IsReference) (rounds : ℕ)
    (done rest : List UInt8) (dead : ℤ) :
    decodeLoop (rounds + 1) (done ++ (e.bytes ++ rest)) done.length dead =
      decodeLoop rounds (done ++ (written e.char ++ e.zeros) ++ rest)
        ((done ++ (written e.char ++ e.zeros)).length + 1) (dead + e.zeros.length) := by
  have hread := readReference_reference h done rest
  have hbytes := Escaped.bytes_reference h
  have hsize : e.bytes.length = e.body.length + 2 := by simp [hbytes]
  have hlen := (e.body_spec h).1
  have hle := length_written_le e.char
  rw [Escaped.zeros, ← List.length_drop]
  generalize hold : e.bytes.drop (written e.char).length = old
  have hold' : (written e.char).length + old.length = e.bytes.length := by
    rw [← hold, List.length_drop]
    omega
  -- The character, three bytes at most, is written over the reference, which has more.
  have hsub : substitute (done ++ (e.bytes ++ rest)) done.length e.char =
      ((done ++ written e.char) ++ (old ++ rest), (done ++ written e.char).length) := by
    obtain ⟨a₁, a₂, tail, htail⟩ : ∃ a₁ a₂ tail, e.bytes = 0x26 :: a₁ :: a₂ :: tail := by
      match hb : e.body with
      | [] | [_] => rw [hb] at hlen; simp at hlen
      | x :: y :: more => exact ⟨_, _, _, by rw [hbytes, hb]; rfl⟩
    have hthree := substitute_append done (tail ++ rest) e.char 0x26 a₁ a₂
    have hcons : e.bytes ++ rest = 0x26 :: a₁ :: a₂ :: (tail ++ rest) := by rw [htail]; rfl
    rw [hcons, hthree, ← hcons, List.drop_append_of_le_length (by omega), hold]
  -- The semicolon is still where it was, so that what is left of the reference is zeroed.
  have hsemicolon : ((done ++ written e.char) ++ (old ++ rest))[done.length + 1 + e.body.length]? =
      some 0x3B := by
    rw [List.getElem?_append_right (by rw [List.length_append]; omega),
      List.getElem?_append_left (by rw [List.length_append]; omega), ← hold, List.getElem?_drop,
      List.length_append, hbytes]
    rw [show (written e.char).length +
      (done.length + 1 + e.body.length - (done.length + (written e.char).length)) =
      e.body.length + 1 by omega]
    simp
  have hamp : (done ++ (e.bytes ++ rest))[done.length]? = some 0x26 := by
    rw [hbytes]
    simp
  have hend : done.length + 1 + e.body.length + 1 = (done ++ written e.char ++ old).length := by
    rw [List.length_append, List.length_append]
    omega
  rw [decodeLoop, if_pos (by simp; omega), if_neg (by simp [hamp]), if_neg (by simp; omega), hread]
  dsimp only
  rw [hsub]
  dsimp only
  rw [if_pos hsemicolon, hend, zeroFill_append]
  have hdead : ((done ++ written e.char ++ old).length : ℤ) - (done ++ written e.char).length =
      (List.replicate old.length (0 : UInt8)).length := by
    rw [List.length_append, List.length_replicate]
    omega
  rw [hdead]
  simp only [List.append_assoc, List.length_append, List.length_replicate]

/-! ### A whole run of the loop -/

/-- What becomes of the bytes of each character. The flag says that the last thing read was a
reference; another one that follows directly is not read. -/
def chunks : Bool → List Escaped → List (List UInt8)
  | _, [] => []
  | afterReference, e :: es =>
    if e.IsReference then
      if afterReference then e.bytes :: chunks false es else written e.char :: chunks true es
    else e.bytes :: chunks false es

theorem mem_written {c : ℕ} (h : 0 < c) {b : UInt8} (hb : b ∈ written c) : b ≠ 0 := by
  have hne {n : ℕ} (h₀ : 0 < n) (h₁ : n < 256) : UInt8.ofNat n ≠ 0 := fun heq ↦ by
    have := congrArg UInt8.toNat heq
    rw [toNat_ofNat_byte h₁] at this
    exact h₀.ne' this
  unfold written at hb
  split_ifs at hb <;> simp only [List.mem_cons, List.not_mem_nil, or_false] at hb
  · exact hb ▸ hne h (by omega)
  · obtain rfl | rfl := hb <;> exact hne (by omega) (by omega)
  · obtain rfl | rfl | rfl := hb <;> exact hne (by omega) (by omega)

namespace Escaped

theorem bytes_literal {e : Escaped} (h : ¬e.IsReference) : e.bytes = getBytes [e.char] := by
  have hform : e.form = .literal := not_not.1 h
  rw [bytes, text, hform]

theorem mem_bytes_literal {e : Escaped} (h : ¬e.IsReference) {b : UInt8} (hb : b ∈ e.bytes) :
    b ≠ 0x26 ∧ b ≠ 0 := by
  have hden := e.denotes
  rw [show e.form = .literal from not_not.1 h] at hden
  rw [bytes_literal h] at hb
  exact mem_getBytes_literal e.char_pos e.char_lt hden hb

/-- The text of a reference, after its ampersand. -/
theorem mem_bytes_reference {e : Escaped} (h : e.IsReference) {b : UInt8}
    (hb : b ∈ e.body.map UInt8.ofNat ++ [0x3B]) : b ≠ 0x26 ∧ b ≠ 0 := by
  rw [List.mem_append, List.mem_map, List.mem_singleton] at hb
  obtain ⟨c, hc, rfl⟩ | rfl := hb
  · obtain ⟨h₁, h₂, h₃, -⟩ := (e.body_spec h).2 c hc
    refine ⟨fun heq ↦ h₃ ?_, fun heq ↦ ?_⟩ <;>
      replace heq := congrArg UInt8.toNat heq <;>
      rw [toNat_ofNat_byte (by omega)] at heq
    · exact heq
    · have : c = 0 := heq
      omega
  · decide

end Escaped

/-- The loop passes over the bytes after one that it does not look at. -/
theorem decodeLoop_skip {b : UInt8} {passed : List UInt8} (h : ∀ x ∈ passed, x ≠ 0x26)
    {rounds : ℕ} (hrounds : passed.length ≤ rounds) (done rest : List UInt8) (dead : ℤ) :
    decodeLoop rounds (done ++ (b :: passed ++ rest)) (done.length + 1) dead =
      decodeLoop (rounds - passed.length) (done ++ b :: passed ++ rest)
        (done ++ b :: passed).length dead := by
  have hpass := decodeLoop_pass h (rounds - passed.length) (done ++ [b]) rest dead
  rw [Nat.sub_add_cancel hrounds] at hpass
  simpa using hpass

theorem getBytes_escapedText_cons (e : Escaped) (es : List Escaped) :
    getBytes (escapedText (e :: es)) = e.bytes ++ getBytes (escapedText es) :=
  getBytes_append _ _

theorem Escaped.bytes_ne_nil (e : Escaped) : e.bytes ≠ [] := by
  obtain h | h := em e.IsReference
  · rw [bytes_reference h]
    exact List.cons_ne_nil _ _
  · rw [bytes_literal h, getBytes, List.flatMap_singleton]
    split_ifs
    · exact List.cons_ne_nil _ _
    · exact utf8Code_ne_nil _

/-- No byte after the first is an ampersand, and none is zero. -/
theorem Escaped.mem_bytes (e : Escaped) :
    (∀ b ∈ e.bytes.tail, b ≠ 0x26) ∧ ∀ b ∈ e.bytes, b ≠ 0 := by
  obtain h | h := em e.IsReference
  · rw [bytes_reference h]
    refine ⟨fun b hb ↦ (mem_bytes_reference h hb).1, fun b hb ↦ ?_⟩
    obtain rfl | hb := List.mem_cons.1 hb
    · decide
    · exact (mem_bytes_reference h hb).2
  · exact ⟨fun b hb ↦ (mem_bytes_literal h (List.mem_of_mem_tail hb)).1,
      fun b hb ↦ (mem_bytes_literal h hb).2⟩

/-- From index `i` on, with `rest` after what is done, the loop leaves the bytes `kept` with zeros
in between, and counts the zeros. -/
def Leaves (rounds : ℕ) (done rest : List UInt8) (i : ℕ) (kept : List UInt8) : Prop :=
  ∀ dead, ∃ out,
    decodeLoop rounds (done ++ rest) i dead =
      .ok (done ++ out, dead + (out.length - kept.length)) ∧ out.filter (· ≠ 0) = kept

/-- Steps that turn `passed` into `new` and zeros come before what the loop does then. -/
theorem Leaves.step {rounds rounds' i i' : ℕ} {done passed rest new zeros kept : List UInt8}
    (hnew : ∀ b ∈ new, b ≠ 0) (hzeros : ∀ b ∈ zeros, b = 0)
    (hstep : ∀ dead, decodeLoop rounds (done ++ (passed ++ rest)) i dead =
      decodeLoop rounds' (done ++ (new ++ zeros) ++ rest) i' (dead + zeros.length))
    (h : Leaves rounds' (done ++ (new ++ zeros)) rest i' kept) :
    Leaves rounds done (passed ++ rest) i (new ++ kept) := by
  intro dead
  obtain ⟨out, hout, hfilter⟩ := h (dead + zeros.length)
  refine ⟨new ++ zeros ++ out, ?_, ?_⟩
  · rw [hstep, hout, List.append_assoc done]
    refine congrArg (fun d ↦ Except.ok (_, d)) ?_
    simp only [List.length_append]
    omega
  · rw [List.append_assoc, List.filter_append, List.filter_append,
      List.filter_eq_self.2 fun b hb ↦ decide_eq_true (hnew b hb),
      List.filter_eq_nil_iff.2 fun b hb ↦ by simpa using hzeros b hb, List.nil_append, hfilter]

/-- Steps that change nothing. -/
theorem Leaves.keep {rounds rounds' i : ℕ} {done passed rest kept : List UInt8}
    (hpassed : ∀ b ∈ passed, b ≠ 0)
    (hstep : ∀ dead, decodeLoop rounds (done ++ (passed ++ rest)) i dead =
      decodeLoop rounds' (done ++ passed ++ rest) (done ++ passed).length dead)
    (h : Leaves rounds' (done ++ passed) rest (done ++ passed).length kept) :
    Leaves rounds done (passed ++ rest) i (passed ++ kept) := by
  rw [← List.append_nil passed] at h
  refine Leaves.step hpassed (List.forall_mem_nil _) (fun dead ↦ ?_) h
  simpa using hstep dead

/-- The text of a character whose first byte is not looked at stays as it is. -/
theorem leaves_skip {e : Escaped} {rounds : ℕ} {done rest kept : List UInt8}
    (hrounds : e.bytes.length ≤ rounds)
    (h : Leaves (rounds - e.bytes.tail.length) (done ++ e.bytes) rest
      (done ++ e.bytes).length kept) :
    Leaves rounds done (e.bytes ++ rest) (done.length + 1) (e.bytes ++ kept) := by
  obtain ⟨hamp, hzero⟩ := e.mem_bytes
  refine Leaves.keep hzero (fun dead ↦ ?_) h
  obtain ⟨b, passed, hb⟩ := List.exists_cons_of_ne_nil e.bytes_ne_nil
  rw [hb, List.length_cons] at hrounds
  rw [hb, List.tail_cons] at hamp ⊢
  exact decodeLoop_skip hamp (by omega) done rest dead

/-- The loop on an escaped text leaves the bytes of its chunks. -/
theorem leaves_escaped (es : List Escaped) (afterReference : Bool) (rounds : ℕ)
    (done : List UInt8) (h : (getBytes (escapedText es)).length ≤ rounds) :
    Leaves rounds done (getBytes (escapedText es)) (done.length + afterReference.toNat)
      (chunks afterReference es).flatten := by
  induction es generalizing afterReference rounds done with
  | nil =>
    refine fun dead ↦ ⟨[], ?_, rfl⟩
    rw [decodeLoop_of_le _ (by simp [escapedText, getBytes])]
    simp [escapedText, getBytes, chunks]
  | cons e es ih =>
    rw [getBytes_escapedText_cons, List.length_append] at h
    rw [getBytes_escapedText_cons, chunks]
    have hpos : 0 < e.bytes.length := List.length_pos_iff.2 e.bytes_ne_nil
    have htail : e.bytes.tail.length = e.bytes.length - 1 := List.length_tail
    split_ifs with href hafter
    · rw [hafter, List.flatten_cons]
      exact leaves_skip (by omega) (ih false _ (done ++ e.bytes) (by omega))
    · rw [eq_false_of_ne_true hafter, List.flatten_cons]
      refine Leaves.step (fun b hb ↦ mem_written e.char_pos hb)
        (fun b hb ↦ List.eq_of_mem_replicate hb) (fun dead ↦ ?_)
        (ih true (rounds - 1) (done ++ (written e.char ++ e.zeros)) (by omega))
      have hstep := decodeLoop_reference href (rounds - 1) done (getBytes (escapedText es)) dead
      rwa [Nat.sub_add_cancel (by omega)] at hstep
    · rw [List.flatten_cons]
      cases afterReference with
      | true => exact leaves_skip (by omega) (ih false _ (done ++ e.bytes) (by omega))
      | false =>
        refine Leaves.keep e.mem_bytes.2 (fun dead ↦ ?_)
          (ih false (rounds - e.bytes.length) (done ++ e.bytes) (by omega))
        have hstep := decodeLoop_pass (fun b hb ↦ (Escaped.mem_bytes_literal href hb).1)
          (rounds - e.bytes.length) done (getBytes (escapedText es)) dead
        rwa [Nat.sub_add_cancel (by omega)] at hstep

/-! ### The text of the chunks -/

/-- The text that is read from what the substitution has written. A supplementary character has
lost its upper bits. -/
def writtenText (c : ℕ) : List ℕ :=
  if 0x10000 ≤ c ∧ c % 0x10000 < 0x800 then [0xFFFD, 0xFFFD, 0xFFFD]
  else if Surrogate (c % 0x10000) then [0xFFFD]
  else [c % 0x10000]

/-- The text of each chunk. -/
def texts : Bool → List Escaped → List (List ℕ)
  | _, [] => []
  | afterReference, e :: es =>
    if e.IsReference then
      if afterReference then e.text :: texts false es else writtenText e.char :: texts true es
    else (if Surrogate e.char then [0x3F] else [e.char]) :: texts false es

/-- The three bytes that are written for a number with 16 bits. -/
def threeBytes (v : ℕ) : List UInt8 :=
  [.ofNat (0xE0 + v / 4096), .ofNat (0x80 + v / 64 % 64), .ofNat (0x80 + v % 64)]

/-- The text of the bytes, as code points. -/
def textOf (bytes : List UInt8) : List ℕ :=
  (decodeUtf8 bytes).map Char.toNat

theorem textOf_code {c : ℕ} (hlt : c < 0x110000) (rest : List UInt8) :
    textOf (utf8Code c ++ rest) = (if Surrogate c then 0xFFFD else c) :: textOf rest := by
  rw [textOf, decodeUtf8_code hlt, List.map_cons, textOf]
  congr 1
  split_ifs with h
  · rw [show scalar? c = none from if_pos h]
    rfl
  · have hnat := toNat_scalar? hlt h
    cases hc : scalar? c with
    | none => rw [hc] at hnat; cases hnat
    | some x => rw [hc] at hnat; exact Option.some.inj hnat

/-- Three bytes for a number that needs fewer are no character. -/
theorem textOf_overlong {v : ℕ} (h : v < 0x800) (rest : List UInt8) :
    textOf (threeBytes v ++ rest) = [0xFFFD, 0xFFFD, 0xFFFD] ++ textOf rest := by
  have hlead : (UInt8.ofNat (0xE0 + v / 4096)).toNat = 0xE0 := by
    rw [toNat_ofNat_byte (by omega)]
    omega
  have hstep : decodeStep (.ofNat (0xE0 + v / 4096))
      ([.ofNat (0x80 + v / 64 % 64), .ofNat (0x80 + v % 64)] ++ rest) = (none, 0) := by
    have hsecond : ¬IsSecond 0xE0 (.ofNat (0x80 + v / 64 % 64)) := fun hs ↦ by
      have := hs.2.1 rfl
      rw [toNat_ofNat_byte (by omega)] at this
      omega
    rw [decodeStep, hlead, show tailLength 0xE0 = some 2 from rfl]
    dsimp only
    have hnone : ¬(2 ≠ 0 ∧ IsSecond 0xE0 (.ofNat (0x80 + v / 64 % 64))) := fun h ↦ hsecond h.2
    rw [List.cons_append, tailsPresent, if_neg hnone]
    rfl
  have hcont : ∀ b ∈ [UInt8.ofNat (0x80 + v / 64 % 64), .ofNat (0x80 + v % 64)],
      IsContinuation b := by
    simp only [List.forall_mem_cons, List.not_mem_nil, IsEmpty.forall_iff, implies_true, and_true]
    exact ⟨isContinuation_ofNat (by omega), isContinuation_ofNat (by omega)⟩
  rw [threeBytes, List.cons_append, textOf, decodeUtf8, decodeFrom, hstep, Option.getD_none,
    ← decodeUtf8, decodeUtf8_tails hcont]
  rfl

theorem textOf_written {c : ℕ} (hlt : c < 0x110000) (rest : List UInt8) :
    textOf (written c ++ rest) = writtenText c ++ textOf rest := by
  obtain hbmp | hsup := lt_or_ge c 0x10000
  · have hwritten : written c = utf8Code c := by
      rw [written, utf8Code, if_pos hbmp]
      split_ifs
      · rfl
      · rw [Nat.mod_eq_of_lt (show c / 64 < 32 by omega)]
      · rw [Nat.mod_eq_of_lt (show c / 4096 < 16 by omega)]
    have hnot : ¬(0x10000 ≤ c ∧ c % 0x10000 < 0x800) := by omega
    rw [hwritten, textOf_code hlt, writtenText, if_neg hnot, Nat.mod_eq_of_lt hbmp]
    split_ifs <;> rfl
  · have hwritten : written c = threeBytes (c % 0x10000) := by
      rw [written, if_neg (by omega), if_neg (by omega), threeBytes,
        show c % 0x10000 / 4096 = c / 4096 % 16 by omega,
        show c % 0x10000 / 64 % 64 = c / 64 % 64 by omega, show c % 0x10000 % 64 = c % 64 by omega]
    have hmod : c % 0x10000 < 0x10000 := Nat.mod_lt _ (by decide)
    rw [hwritten, writtenText]
    obtain hshort | hlong := lt_or_ge (c % 0x10000) 0x800
    · rw [textOf_overlong hshort, if_pos ⟨hsup, hshort⟩]
    · have hthree : threeBytes (c % 0x10000) = utf8Code (c % 0x10000) := by
        rw [utf8Code, if_neg (by omega), if_neg (by omega), if_pos hmod, threeBytes]
      have hnot : ¬(0x10000 ≤ c ∧ c % 0x10000 < 0x800) := by omega
      rw [hthree, textOf_code (by omega), if_neg hnot]
      split_ifs <;> rfl

theorem textOf_ascii {s : List ℕ} (h : ∀ c ∈ s, c < 0x80) (rest : List UInt8) :
    textOf (getBytes s ++ rest) = s ++ textOf rest := by
  induction s with
  | nil => rfl
  | cons c s ih =>
    rw [List.forall_mem_cons] at h
    rw [getBytes, List.flatMap_cons, ← getBytes, if_neg (by unfold Surrogate; omega),
      List.append_assoc, textOf_code (by omega), if_neg (by unfold Surrogate; omega), ih h.2,
        List.cons_append]

theorem textOf_chunks (es : List Escaped) (afterReference : Bool) :
    textOf (chunks afterReference es).flatten = (texts afterReference es).flatten := by
  induction es generalizing afterReference with
  | nil => rfl
  | cons e es ih =>
    rw [chunks, texts]
    split_ifs with href hafter hsur
    · have hascii : ∀ c ∈ e.text, c < 0x80 := by
        intro c hc
        rw [Escaped.text_reference href] at hc
        simp only [List.mem_cons, List.mem_append, List.not_mem_nil, or_false] at hc
        obtain rfl | hc | rfl := hc
        · decide
        · exact ((e.body_spec href).2 c hc).2.1
        · decide
      rw [List.flatten_cons, List.flatten_cons, Escaped.bytes, textOf_ascii hascii, ih]
    · rw [List.flatten_cons, List.flatten_cons, textOf_written e.char_lt, ih]
    · rw [List.flatten_cons, List.flatten_cons, Escaped.bytes_literal href, getBytes,
        List.flatMap_singleton, if_pos hsur, ← ih]
      exact textOf_code (c := 0x3F) (by decide) _
    · rw [List.flatten_cons, List.flatten_cons, Escaped.bytes_literal href, getBytes,
        List.flatMap_singleton, if_neg hsur, textOf_code e.char_lt, if_neg hsur, ih]
      rfl

/-! ### `decode` on an escaped text -/

theorem compact_of_filter {out kept : List UInt8} (h : out.filter (· ≠ 0) = kept) :
    compact out (out.length - kept.length) = .ok kept := by
  have hsize : ((out.length : ℤ) - (out.length - kept.length)).toNat = kept.length := by omega
  rw [compact, hsize, h, if_pos le_rfl, Nat.sub_self, List.replicate_zero, List.append_nil]

theorem decode_of_reference {es : List Escaped} (h : ∃ e ∈ es, e.IsReference) :
    decode (escapedText es) = .ok (texts false es).flatten := by
  obtain ⟨e, he, href⟩ := h
  have hamp : 0x26 ∈ escapedText es :=
    List.mem_flatMap.2 ⟨e, he, by rw [Escaped.text_reference href]; exact List.mem_cons_self⟩
  obtain ⟨out, hout, hfilter⟩ := leaves_escaped es false _ [] le_rfl 0
  rw [List.nil_append, List.length_nil, Bool.toNat_false, Nat.add_zero] at hout
  rw [List.nil_append, zero_add] at hout
  rw [decode, if_neg (not_not.2 hamp)]
  show (decodeLoop _ (getBytes (escapedText es)) 0 0 >>= _) = _
  rw [hout]
  show (compact out _ >>= _) = _
  rw [compact_of_filter hfilter]
  exact congrArg Except.ok (textOf_chunks es false)

theorem decode_of_literal {es : List Escaped} (h : ∀ e ∈ es, ¬e.IsReference) :
    decode (escapedText es) = .ok (es.map Escaped.char) := by
  have htext : escapedText es = es.map Escaped.char := by
    rw [escapedText, ← List.flatMap_pure_eq_map]
    refine List.flatMap_congr fun e he ↦ ?_
    rw [Escaped.text, show e.form = .literal from not_not.1 (h e he)]
    rfl
  have hamp : 0x26 ∉ es.map Escaped.char := by
    rintro hmem
    obtain ⟨e, he, hchar⟩ := List.mem_map.1 hmem
    have hden := e.denotes
    rw [show e.form = .literal from not_not.1 (h e he)] at hden
    exact hden hchar
  rw [decode, htext, if_pos hamp]

/-! ### Where decoding undoes escaping -/

/-- No reference directly follows another, none stands for a supplementary character, and no
character is an unpaired surrogate. A text without references need not meet this. -/
def Recoverable (es : List Escaped) : Prop :=
  (∀ e ∈ es, ¬e.IsReference) ∨
    ((∀ e ∈ es, ¬Surrogate e.char ∧ (e.IsReference → e.char < 0x10000)) ∧
      es.IsChain fun e e' ↦ ¬(e.IsReference ∧ e'.IsReference))

/-- Texts that are not empty make up a text of as many characters only if each is one of them. -/
theorem flatten_eq_iff {α : Type*} {l : List (List α)} {s : List α} (hne : ∀ t ∈ l, t ≠ [])
    (hlen : l.length = s.length) : l.flatten = s ↔ l = s.map fun a ↦ [a] := by
  refine ⟨fun h ↦ ?_, fun h ↦ by rw [h, ← List.flatMap_def, List.flatMap_singleton']⟩
  have hle : ∀ l : List (List α), (∀ t ∈ l, t ≠ []) → l.length ≤ l.flatten.length := by
    intro l hne
    induction l with
    | nil => exact le_rfl
    | cons t l ih =>
      rw [List.forall_mem_cons] at hne
      have := List.length_pos_iff.2 hne.1
      have := ih hne.2
      rw [List.flatten_cons, List.length_append, List.length_cons]
      omega
  induction l generalizing s with
  | nil =>
    obtain rfl : s = [] := List.length_eq_zero_iff.1 hlen.symm
    rfl
  | cons t l ih =>
    rw [List.forall_mem_cons] at hne
    obtain ⟨a, s, rfl⟩ := List.exists_cons_of_length_pos (l := s) (by
      rw [← hlen]
      exact Nat.succ_pos _)
    obtain ⟨b, t, rfl⟩ := List.exists_cons_of_ne_nil hne.1
    rw [List.flatten_cons, List.cons_append, List.cons.injEq] at h
    obtain ⟨rfl, h⟩ := h
    have hl := hle l hne.2
    have hcount := congrArg List.length h
    rw [List.length_append] at hcount
    rw [List.length_cons, List.length_cons] at hlen
    obtain rfl : t = [] := List.length_eq_zero_iff.1 (by omega)
    rw [List.map_cons, ih hne.2 (by omega) h]

theorem writtenText_ne_nil (c : ℕ) : writtenText c ≠ [] := by
  unfold writtenText
  split_ifs <;> exact List.cons_ne_nil _ _

theorem writtenText_eq_iff {c : ℕ} (hlt : c < 0x110000) :
    writtenText c = [c] ↔ ¬Surrogate c ∧ c < 0x10000 := by
  unfold writtenText
  split_ifs with h₁ h₂
  · simp
    omega
  all_goals
    unfold Surrogate at *
    rw [List.singleton_inj]
    omega

theorem length_texts (es : List Escaped) (afterReference : Bool) :
    (texts afterReference es).length = es.length := by
  induction es generalizing afterReference with
  | nil => rfl
  | cons e es ih =>
    rw [texts]
    split_ifs <;> rw [List.length_cons, List.length_cons, ih]

theorem Escaped.length_text {e : Escaped} (h : e.IsReference) : 2 ≤ e.text.length := by
  rw [text_reference h, List.length_cons, List.length_append, List.length_singleton]
  omega

theorem texts_ne_nil (es : List Escaped) (afterReference : Bool) :
    ∀ t ∈ texts afterReference es, t ≠ [] := by
  induction es generalizing afterReference with
  | nil => exact List.forall_mem_nil _
  | cons e es ih =>
    rw [texts]
    split_ifs with href hafter hsur <;>
      refine List.forall_mem_cons.2 ⟨?_, ih _⟩
    · exact List.ne_nil_of_length_pos (by have := Escaped.length_text href; omega)
    · exact writtenText_ne_nil _
    · exact List.cons_ne_nil _ _
    · exact List.cons_ne_nil _ _

/-- Every chunk is the character it stands for: the condition, character by character. -/
theorem texts_eq_iff (es : List Escaped) (afterReference : Bool) :
    texts afterReference es = es.map (fun e ↦ [e.char]) ↔
      ((∀ e ∈ es, ¬Surrogate e.char ∧ (e.IsReference → e.char < 0x10000)) ∧
        es.IsChain fun e e' ↦ ¬(e.IsReference ∧ e'.IsReference)) ∧
      (afterReference = true → ∀ e ∈ es.head?, ¬e.IsReference) := by
  induction es generalizing afterReference with
  | nil => simp [texts]
  | cons e es ih =>
    rw [texts, List.map_cons, List.forall_mem_cons, List.isChain_cons]
    have hlt := e.char_lt
    have hhead : (∀ e' ∈ es.head?, ¬(e.IsReference ∧ e'.IsReference)) ↔
        (e.IsReference → ∀ e' ∈ es.head?, ¬e'.IsReference) :=
      ⟨fun h href e' he' href' ↦ h e' he' ⟨href, href'⟩, fun h e' he' hand ↦ h hand.1 e' he' hand.2⟩
    rw [hhead]
    split_ifs with href hafter hsur
    · -- the text of a reference is longer than a character
      have hne : e.text ≠ [e.char] := fun heq ↦ by
        have := Escaped.length_text href
        rw [heq] at this
        simp at this
      simp [hne, href, hafter]
    · rw [List.cons.injEq, writtenText_eq_iff hlt, ih]
      simp only [href, hafter, forall_const, Bool.false_eq_true, false_implies,
        and_true]
      tauto
    · have hne : [0x3F] ≠ [e.char] := fun heq ↦ by
        rw [← List.singleton_inj.1 heq] at hsur
        exact absurd hsur (by decide)
      simp [hne, hsur]
    · rw [List.cons.injEq, ih]
      simp only [href, hsur, not_false_eq_true, true_and, false_implies, Bool.false_eq_true,
        and_true, implies_true, List.head?_cons, Option.mem_def, Option.some.injEq, forall_eq']

/-- **Decoding undoes escaping** exactly if the way the text is escaped is `Recoverable`. -/
theorem decode_iff (es : List Escaped) :
    decode (escapedText es) = .ok (es.map Escaped.char) ↔ Recoverable es := by
  obtain hlit | hlit := em (∀ e ∈ es, ¬e.IsReference)
  · exact iff_of_true (decode_of_literal hlit) (.inl hlit)
  rw [Recoverable, or_iff_right hlit, decode_of_reference (by push Not at hlit; exact hlit),
    Except.ok.injEq, flatten_eq_iff (texts_ne_nil es false)
      ((length_texts es false).trans (List.length_map _).symm), List.map_map]
  refine (texts_eq_iff es false).trans ?_
  rw [and_iff_left]
  exact fun h ↦ absurd h Bool.false_ne_true

/-- `&&` with both characters written as `&amp;`. -/
def twoAmpersands : List Escaped :=
  List.replicate 2
    { char := 0x26, form := .named "amp", char_pos := by decide, char_lt := by decide
      denotes := by decide +kernel }

/-- `&amp;&amp;` is decoded to `&&amp;`. -/
theorem decode_twoAmpersands :
    decode (escapedText twoAmpersands) = .ok ("&&amp;".toList.map Char.toNat) ∧
      twoAmpersands.map Escaped.char = "&&".toList.map Char.toNat := by
  decide +kernel

end Html

end JPype
