import JPype.Array.Slice
import JPype.Text.Transcribe
import JPype.Text.Utf8Decoding

/-!
# `java.lang.String` as a Python sequence

The customizer `_JStringProto` takes the length and the single items of a string from Java, in
UTF-16 code units, and its slices from the Python string that `PyJPValue_str` makes of it, in code
points. A string object remembers that Python string in `_jstr`.

The two ways of counting agree on the strings without supplementary characters, and on these the
laws of sequences hold (`sequenceLaws_iff`).
-/

namespace JPype

open Foundation Unicode

/-- The Python string that is made of a Java string: `toStringUTF8`, then `fromStringUTF8`. -/
def stringText (units : List UInt16) : Except PyError (List ℕ) :=
  match transcribe JPEncodingJavaUTF8 JPEncodingUTF8 (modifiedUtf8 units) with
  | none => .error .fault
  | some bytes =>
    match decodeStrict bytes with
    | none => .error (.raised "UnicodeDecodeError")
    | some s => .ok (s.map Char.toNat)

/-- The Python object of a Java string, not null, with the entry `_jstr` of its `__dict__`. -/
structure StringObject where
  units : List UInt16
  jstr : Option (List ℕ)
  jstr_eq : ∀ t ∈ jstr, stringText units = .ok t

/-- The argument of `__getitem__`. -/
inductive StringIndex where
  | slice (s : PySlice)
  | index (i : ℤ)
  deriving DecidableEq, Repr

namespace StringObject

/-- A string object that has not been asked for its text yet. -/
def new (units : List UInt16) : StringObject where
  units := units
  jstr := none
  jstr_eq := by simp

/-- `PyJPValue_str` on a string: the text, which is made once. -/
def str (self : StringObject) : Except PyError (List ℕ) × StringObject :=
  match self.jstr with
  | some cache => (.ok cache, self)
  | none =>
    match h : stringText self.units with
    | .error e => (.error e, self)
    | .ok cache =>
      (.ok cache,
        { units := self.units
          jstr := some cache
          jstr_eq := fun t ht ↦ by rw [h, Option.mem_some.1 ht] })

/-- `_JStringProto.__len__` -/
def len (self : StringObject) : ℕ :=
  self.units.length

/-- `java.lang.String.charAt`, as the Python string of the character. -/
def charAt (self : StringObject) (i : ℤ) : Except PyError (List ℕ) :=
  if i < 0 then .error (.raised "java.lang.StringIndexOutOfBoundsException")
  else
    match self.units[i.toNat]? with
    | none => .error (.raised "java.lang.StringIndexOutOfBoundsException")
    | some u => .ok [u.toNat]

/-- `_JStringProto.__getitem__` -/
def getItem (self : StringObject) : StringIndex → Except PyError (List ℕ) × StringObject
  | .slice s =>
    match self.str with
    | (.error e, self) => (.error e, self)
    | (.ok text, self) => (s.of text, self)
  | .index i =>
    let j := if i < 0 then i + self.len else i
    if i < 0 ∧ j < 0 then (.error (.indexError "Array index is negative"), self)
    else if self.len ≤ j then (.error (.indexError "Array index exceeds length"), self)
    else (self.charAt j, self)

/-- `s[i]` -/
def item (self : StringObject) (i : ℤ) : Except PyError (List ℕ) :=
  (self.getItem (.index i)).1

/-- `s[a:b]` -/
def sliced (self : StringObject) (a b : Option ℤ) : Except PyError (List ℕ) :=
  (self.getItem (.slice ⟨a, b, none⟩)).1

/-- The laws of sequences, with positions in `len(s)`. -/
structure SequenceLaws (self : StringObject) : Prop where
  /-- `s[i]` is `s[k:k+1]` for the position `k` that `i` names. -/
  item_eq_slice : ∀ i : ℤ, -self.len ≤ i → i < self.len →
    ∃ c, self.item i = .ok c ∧
      ∀ k, k = (if i < 0 then i + self.len else i) → self.sliced (some k) (some (k + 1)) = .ok c
  /-- `s[:]` has the length of `s`. -/
  length_whole : ∃ t, self.sliced none none = .ok t ∧ t.length = self.len
  /-- `s[a:b]` joins the items at its positions. -/
  slice_eq_items : ∀ a b, ∃ items,
    (PySlice.positions ⟨a, b, none⟩ self.len).mapM self.item = .ok items ∧
      self.sliced a b = .ok items.flatten
  /-- An index outside the range is an error. -/
  item_outside : ∀ i : ℤ, i < -self.len ∨ self.len ≤ i →
    ∃ message, self.item i = .error (.indexError message)

/-! ### The text of a string -/

theorem stringText_utf16 (s : List Char) : stringText (utf16 s) = .ok (s.map Char.toNat) := by
  rw [stringText, (transcription_faithful.1 s).2]
  dsimp only
  rw [← utf8, decodeStrict_encode]

/-- Whether the text is made or remembered, it is the same. -/
theorem str_fst (self : StringObject) : self.str.1 = stringText self.units := by
  unfold str
  split
  · next cache h => exact (self.jstr_eq cache h).symm
  · split
    · next h => exact h.symm
    · next h => exact h.symm

/-- Asking for the text does not change the string. -/
theorem str_units (self : StringObject) : self.str.2.units = self.units := by
  unfold str
  split
  · rfl
  · split <;> rfl

/-- An access does not change it, either. -/
theorem getItem_units (self : StringObject) (x : StringIndex) :
    (self.getItem x).2.units = self.units := by
  cases x with
  | index i =>
    simp only [getItem]
    split_ifs <;> rfl
  | slice s =>
    have h := self.str_units
    simp only [getItem]
    split <;> next heq => rwa [heq] at h

/-- What an operation returns does not depend on what has been remembered. -/
theorem sliced_eq {self : StringObject} {text : List ℕ} (h : stringText self.units = .ok text)
    (a b : Option ℤ) : self.sliced a b = .ok (PySlice.select ⟨a, b, none⟩ text) := by
  have hstr := self.str_fst
  rw [h] at hstr
  simp only [sliced, getItem]
  split
  · next heq => rw [heq] at hstr; cases hstr
  · next heq =>
    rw [heq] at hstr
    cases hstr
    rfl

theorem item_of_lt (self : StringObject) {i : ℤ} (h : -self.len ≤ i) (h' : i < self.len) :
    self.item i = self.charAt (if i < 0 then i + self.len else i) := by
  simp only [item, getItem]
  rw [if_neg (by split_ifs <;> omega), if_neg (by split_ifs <;> omega)]

theorem charAt_eq (self : StringObject) {k : ℤ} {u : UInt16} (hk : 0 ≤ k)
    (hu : self.units[k.toNat]? = some u) : self.charAt k = .ok [u.toNat] := by
  rw [charAt, if_neg (not_lt.2 hk), hu]

theorem item_outside_range (self : StringObject) {i : ℤ} (h : i < -self.len ∨ self.len ≤ i) :
    ∃ message, self.item i = .error (.indexError message) := by
  simp only [item, getItem]
  obtain h | h := h
  · rw [if_pos (show i < 0 by omega), if_pos (by omega)]
    exact ⟨_, rfl⟩
  · rw [if_neg (show ¬i < 0 by omega), if_neg (by omega), if_pos h]
    exact ⟨_, rfl⟩

/-! ### Slices of all items, and of one -/

theorem length_select_whole {α : Type*} (l : List α) :
    (PySlice.select ⟨none, none, none⟩ l).length = l.length := by
  rw [PySlice.length_select (by simp)]
  refine eq_of_forall_lt_iff fun k ↦ ?_
  rw [PySlice.count, lt_rangeLength_iff (by decide)]
  simp only [PySlice.startOf, PySlice.stopOf, PySlice.stepOf, PySlice.lower, PySlice.upper,
    Option.getD_none, Int.reduceLT, if_true, if_false]
  omega

theorem positions_single {k length : ℤ} (hk : 0 ≤ k) (hk' : k < length) :
    PySlice.positions ⟨some k, some (k + 1), none⟩ length = [k] := by
  have hstart : PySlice.startOf ⟨some k, some (k + 1), none⟩ length = k := by
    simp only [PySlice.startOf, PySlice.clip, PySlice.stepOf, PySlice.upper, Option.getD_none]
    split_ifs <;> omega
  have hstop : PySlice.stopOf ⟨some k, some (k + 1), none⟩ length = k + 1 := by
    simp only [PySlice.stopOf, PySlice.clip, PySlice.stepOf, PySlice.upper, Option.getD_none]
    split_ifs <;> omega
  have hcount : PySlice.count ⟨some k, some (k + 1), none⟩ length = 1 := by
    refine eq_of_forall_lt_iff fun j ↦ ?_
    rw [PySlice.count, hstart, hstop, PySlice.stepOf, Option.getD_none,
      lt_rangeLength_iff one_ne_zero, if_pos one_pos]
    omega
  rw [PySlice.positions, hcount, hstart, progression_succ, progression_zero]

/-! ### Supplementary characters -/

theorem length_utf16Char (c : Char) :
    (utf16Char c).length = if c.toNat < 0x10000 then 1 else 2 := by
  rw [utf16Char]
  split_ifs <;> rfl

/-- Code units and code points are as many exactly if no character is supplementary. -/
theorem length_utf16 (s : List Char) :
    s.length ≤ (utf16 s).length ∧
      ((utf16 s).length = s.length ↔ ∀ c ∈ s, c.toNat < 0x10000) := by
  induction s with
  | nil => simp [utf16]
  | cons c s ih =>
    obtain ⟨hle, hiff⟩ := ih
    rw [utf16, List.flatMap_cons, ← utf16, List.length_append, length_utf16Char, List.length_cons,
      List.forall_mem_cons, ← hiff]
    split_ifs with hc <;> omega

theorem utf16_of_bmp {s : List Char} (h : ∀ c ∈ s, c.toNat < 0x10000) :
    (utf16 s).map UInt16.toNat = s.map Char.toNat := by
  induction s with
  | nil => rfl
  | cons c s ih =>
    rw [List.forall_mem_cons] at h
    rw [utf16, List.flatMap_cons, ← utf16, List.map_append, ih h.2, utf16Char, if_pos h.1,
      List.map_singleton, toNat_unit h.1, List.singleton_append, List.map_cons]

/-! ### The laws -/

/-- Where the text has one code point for each code unit, a slice joins its items. -/
theorem slice_eq_items_of_text {self : StringObject}
    (h : stringText self.units = .ok (self.units.map UInt16.toNat)) (a b : Option ℤ) :
    ∃ items, (PySlice.positions ⟨a, b, none⟩ self.len).mapM self.item = .ok items ∧
      self.sliced a b = .ok items.flatten := by
  have hstep : (⟨a, b, none⟩ : PySlice).step ≠ some 0 := by simp
  let text := self.units.map UInt16.toNat
  have hlen : (text.length : ℤ) = self.len := by rw [List.length_map, len]
  have hmap := PySlice.map_select hstep (l := text) (fun c ↦ [c])
    (fun k ↦ [text[k.toNat]?.getD 0]) fun k hk ↦ by
      rw [List.getElem?_eq_getElem hk, Int.toNat_natCast, List.getElem?_eq_getElem hk]
      rfl
  refine ⟨_, mapM_eq_ok (g := fun k ↦ [text[k.toNat]?.getD 0]) ?_, ?_⟩
  · intro k hk
    obtain ⟨hk0, hlt⟩ := PySlice.mem_positions_bounds hstep (Int.natCast_nonneg _) hk
    have hlt' : k.toNat < self.units.length := by
      rw [len] at hlt
      omega
    rw [self.item_of_lt (by omega) hlt, if_neg (not_lt.2 hk0),
      self.charAt_eq hk0 (List.getElem?_eq_getElem hlt'), List.getElem?_map,
      List.getElem?_eq_getElem hlt', Option.map_some, Option.getD_some]
  · rw [sliced_eq h, ← hlen, ← hmap, ← List.flatMap_def, List.flatMap_singleton']

end StringObject

/-- The Python object of a Java string without unpaired surrogates. -/
structure TextObject extends StringObject where
  chars : List Char
  units_eq : units = utf16 chars

namespace TextObject

open StringObject

theorem stringText_units (self : TextObject) :
    stringText self.units = .ok (self.chars.map Char.toNat) := by
  rw [self.units_eq, stringText_utf16]

theorem sequenceLaws_of_bmp {self : TextObject} (h : ∀ c ∈ self.chars, c.toNat < 0x10000) :
    self.SequenceLaws := by
  have htext : stringText self.units = .ok (self.units.map UInt16.toNat) := by
    rw [self.units_eq, stringText_utf16, utf16_of_bmp h]
  refine ⟨fun i hlow hhigh ↦ ?_, ⟨_, sliced_eq htext _ _, ?_⟩, slice_eq_items_of_text htext,
    fun i hi ↦ self.item_outside_range hi⟩
  · -- the items of the slice of one position are the item at it
    have hk0 : 0 ≤ (if i < 0 then i + self.len else i) := by split_ifs <;> omega
    have hk : (if i < 0 then i + self.len else i) < self.len := by split_ifs <;> omega
    generalize hj : (if i < 0 then i + self.len else i) = j at hk0 hk
    obtain ⟨items, hitems, hslice⟩ := slice_eq_items_of_text htext (some j) (some (j + 1))
    have hitem : self.item i = self.item j := by
      rw [self.item_of_lt hlow hhigh, hj, self.item_of_lt (by omega) hk, if_neg (not_lt.2 hk0)]
    rw [positions_single hk0 hk, List.mapM_cons, List.mapM_nil, ← hitem] at hitems
    cases hi : self.item i with
    | error e =>
      rw [hi] at hitems
      cases hitems
    | ok c =>
      rw [hi] at hitems
      cases hitems
      refine ⟨c, rfl, fun k hk ↦ ?_⟩
      rw [hk, hslice, List.flatten_cons, List.flatten_nil, List.append_nil]
  · rw [length_select_whole, List.length_map, len]

/-- **The sequence laws of `JString`.** They hold exactly if the string has no supplementary
character, whatever the object remembers. -/
theorem sequenceLaws_iff (self : TextObject) :
    self.SequenceLaws ↔ ∀ c ∈ self.chars, c.toNat < 0x10000 := by
  refine ⟨fun h ↦ ?_, sequenceLaws_of_bmp⟩
  obtain ⟨-, ⟨t, ht, hlen⟩, -, -⟩ := h
  rw [sliced_eq self.stringText_units] at ht
  cases ht
  rw [length_select_whole, List.length_map, len, self.units_eq] at hlen
  exact (length_utf16 self.chars).2.1 hlen.symm

/-- The string of one supplementary character, `U+10000`. -/
def linearB : TextObject where
  toStringObject := StringObject.new (utf16 [Char.ofNat 0x10000])
  chars := [Char.ofNat 0x10000]
  units_eq := rfl

/-- Its length is two, and `s[:]` has length one. -/
theorem linearB_not_sequenceLaws :
    linearB.len = 2 ∧ linearB.sliced none none = .ok [0x10000] ∧ ¬linearB.SequenceLaws := by
  have hslice : linearB.sliced none none = .ok [0x10000] := by
    rw [sliced_eq linearB.stringText_units]
    decide
  refine ⟨rfl, hslice, fun h ↦ ?_⟩
  obtain ⟨-, ⟨t, ht, hlen⟩, -, -⟩ := h
  rw [hslice] at ht
  cases ht
  cases hlen

end TextObject

end JPype
