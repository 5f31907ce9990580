import JPype.Foundation.Words
import JPype.Html.Blocks
import JPype.Html.TreeHandler
import JPype.Text.Charset
import JPype.Text.JavaString

/-!
# Paragraphs in the text of a javadoc

`JavadocRenderer.formatWidth` brings white space down to single blanks, trims the text, and, when it
is not shorter than the width, breaks it into lines in the array of its bytes, where the blank
before the word that does not fit is overwritten by a line feed. The bytes are those of UTF-8, but
the lines are read from them by the default charset of the platform.

The lines are those of `wrap`, which needs a first line to begin with. When the first word is itself
longer than the width there is none: the loop breaks the text at its first byte, which is lost
(`bytesLeft`). What also gets lost is what `String.trim` takes for white space and `\s` does not, at
the ends of the text. The words are kept and the lines fit exactly if none of this happens and the
charset reads the words back (`formatWidth_keepsWords_iff`), as UTF-8 does (`readBack_utf8_iff`).
-/

namespace JPype.Javadoc

open Foundation Html Unicode
open Html.HtmlGrammar (isSpace trim)
open StringObject (length_utf16Char)

/-! ### The code -/

/-- `s.replaceAll("\\s+", " ")`; the flag says whether the characters before are white space. -/
def collapse : Bool → List Char → List Char
  | _, [] => []
  | inSpace, c :: s =>
    if isSpace c then (if inSpace then [] else [' ']) ++ collapse true s
    else c :: collapse false s

/-- `SPACING` -/
def spacing : List Char :=
  List.replicate 40 ' '

/-- `indentation`, or `none` where `substring` throws. -/
def indentation (level : ℤ) : Option (List Char) :=
  if 40 < level then some []
  else if level < 0 then none
  else some (spacing.take level.toNat)

/-- The variables of the loop of `formatWidth`, with what has been appended to the builder. -/
structure Wrapping where
  b : List UInt8
  start : ℕ
  prev : ℕ
  next : ℕ
  flag : Bool
  sb : List Char

/-- The inner loop: the first index from `next` on that holds a blank, or the end. -/
def nextBlank (b : List UInt8) (next : ℕ) : ℕ :=
  next + ((b.drop next).takeWhile (· ≠ 0x20)).length

/-- `new String(b, start, count)`, by the default charset of the platform -/
def newString (charset : Charset) (b : List UInt8) (start count : ℕ) : List Char :=
  charset.decode ((b.drop start).take count)

/-- `if (flag) sb.append(sindent)` -/
def indentIf (flag : Bool) (sindent : List Char) : List Char :=
  if flag then sindent else []

/-- The body of the outer loop. -/
def Wrapping.turn (charset : Charset) (sindent : List Char) (width : ℕ) (w : Wrapping) :
    Wrapping :=
  let next := nextBlank w.b (w.prev + 1)
  if width < next - w.start then
    let b := w.b.set w.prev 0x0A
    { b := b
      start := w.prev + 1
      prev := next
      next := next
      flag := true
      sb := w.sb ++ indentIf w.flag sindent ++
        newString charset b w.start (w.prev - w.start + 1) }
  else { w with prev := next, next := next }

/-- `while (next < l)`, or `none` where the fuel does not suffice. -/
def Wrapping.loop (charset : Charset) (sindent : List Char) (width : ℕ) :
    ℕ → Wrapping → Option Wrapping
  | 0, _ => none
  | fuel + 1, w =>
    if w.next < w.b.length then loop charset sindent width fuel (w.turn charset sindent width)
    else some w

/-- The text between its ends, with single blanks. -/
def normalize (s : List Char) : List Char :=
  trim (collapse false s)

/-- `formatWidth`: what is appended to the builder. -/
def formatWidth (charset : Charset) (s : List Char) (width : ℕ) (indent : ℤ) (flag : Bool) :
    Option (List Char) := do
  let sindent ← indentation indent
  let s := normalize s
  if (utf16 s).length < width then
    some (indentIf flag sindent ++ s)
  else
    let b := utf8 s
    let w ← Wrapping.loop charset sindent width (b.length + 1)
      { b := b, start := 0, prev := 0, next := 0, flag := flag, sb := [] }
    some (w.sb ++ sindent ++ newString charset w.b w.start (w.b.length - w.start))

/-! ### White space -/

theorem isSpace_le {c : Char} (h : isSpace c) : c ≤ ' ' := by
  simp only [isSpace, Bool.or_eq_true, beq_iff_eq] at h
  obtain ((((rfl | rfl) | rfl) | rfl) | rfl) | rfl := h <;> decide

theorem isSpace_of_gt {c : Char} (h : ' ' < c) : isSpace c = false :=
  Bool.eq_false_iff.2 fun hc ↦ absurd (isSpace_le hc) (Char.not_le.2 h)

theorem mem_collapse {inSpace : Bool} {s : List Char} {c : Char} (h : c ∈ collapse inSpace s)
    (hc : isSpace c) : c = ' ' := by
  induction s generalizing inSpace with
  | nil => exact absurd h List.not_mem_nil
  | cons d s ih =>
    rw [collapse] at h
    by_cases hd : isSpace d
    · rw [if_pos hd, List.mem_append] at h
      cases inSpace with
      | false => exact h.elim List.mem_singleton.1 ih
      | true => exact h.elim (fun h ↦ absurd h List.not_mem_nil) ih
    · rw [if_neg hd, List.mem_cons] at h
      obtain rfl | h := h
      · exact absurd hc hd
      · exact ih h

/-- After a blank, no white space; and no two of them anywhere. -/
theorem isChain_collapse (inSpace : Bool) (s : List Char) :
    (collapse inSpace s).IsChain (fun x y ↦ isSpace x = false ∨ isSpace y = false) ∧
      (inSpace → ∀ c ∈ (collapse inSpace s).head?, isSpace c = false) := by
  induction s generalizing inSpace with
  | nil => exact ⟨List.isChain_nil, fun _ c hc ↦ absurd hc (by simp [collapse])⟩
  | cons d s ih =>
    rw [collapse]
    by_cases hd : isSpace d
    · rw [if_pos hd]
      obtain ⟨hchain, hhead⟩ := ih true
      cases inSpace with
      | false =>
        refine ⟨?_, fun h ↦ Bool.noConfusion h⟩
        rw [if_neg Bool.false_ne_true, List.singleton_append, List.isChain_cons]
        exact ⟨fun c hc ↦ .inr (hhead rfl c hc), hchain⟩
      | true => exact ⟨hchain, fun _ ↦ hhead rfl⟩
    · rw [if_neg hd]
      have hd : isSpace d = false := Bool.eq_false_iff.2 hd
      refine ⟨List.isChain_cons.2 ⟨fun c _ ↦ .inl hd, (ih false).1⟩, fun _ c hc ↦ ?_⟩
      rw [List.head?_cons, Option.mem_some] at hc
      exact hc ▸ hd

/-- White space that is brought down to blanks separates the same words. -/
theorem words_collapse (s : List Char) :
    (∀ pre, words isSpace (pre ++ collapse false s) = words isSpace (pre ++ s)) ∧
      words isSpace (collapse true s) = words isSpace s := by
  induction s with
  | nil => exact ⟨fun _ ↦ rfl, rfl⟩
  | cons c s ih =>
    obtain ⟨hfalse, htrue⟩ := ih
    rw [collapse, collapse]
    by_cases hc : isSpace c
    · rw [if_pos hc, if_pos hc]
      refine ⟨fun pre ↦ ?_, ?_⟩
      · rw [if_neg Bool.false_ne_true, List.singleton_append,
          words_append_cons (show isSpace ' ' from rfl), words_append_cons hc, htrue]
      · rw [if_pos rfl, List.nil_append, words_cons hc, htrue]
    · rw [if_neg hc, if_neg hc]
      refine ⟨fun pre ↦ ?_, ?_⟩
      · rw [List.append_cons, hfalse, ← List.append_cons]
      · exact hfalse [c]

/-! ### Trimming -/

/-- What `String.trim` removes, and what it leaves. -/
theorem exists_trim (s : List Char) : ∃ front back, s = front ++ trim s ++ back ∧
    (∀ c ∈ front, c ≤ ' ') ∧ (∀ c ∈ back, c ≤ ' ') := by
  refine ⟨s.takeWhile (· ≤ ' '), ((s.dropWhile (· ≤ ' ')).reverse.takeWhile (· ≤ ' ')).reverse,
    ?_, fun c hc ↦ ?_, fun c hc ↦ ?_⟩
  · rw [trim, List.append_assoc, ← List.reverse_append, List.takeWhile_append_dropWhile,
      List.reverse_reverse, List.takeWhile_append_dropWhile]
  · simpa using List.mem_takeWhile_imp hc
  · simpa using List.mem_takeWhile_imp (List.mem_reverse.1 hc)

theorem head_normalize (s : List Char) : ∀ c ∈ (normalize s).head?, ' ' < c := by
  intro c hc
  obtain ⟨rest, hrest⟩ : normalize s <+: (collapse false s).dropWhile (· ≤ ' ') := by
    rw [normalize, trim, ← List.reverse_suffix, List.reverse_reverse]
    exact List.dropWhile_suffix _
  have hnot := List.head?_dropWhile_not (fun c : Char ↦ decide (c ≤ ' ')) (collapse false s)
  rw [← hrest, List.head?_append, Option.mem_def.1 hc] at hnot
  exact Char.not_le.1 (by simpa using hnot)

theorem getLast_normalize (s : List Char) : ∀ c ∈ (normalize s).getLast?, ' ' < c := by
  intro c hc
  have hnot := List.head?_dropWhile_not (fun c : Char ↦ decide (c ≤ ' '))
    ((collapse false s).dropWhile (· ≤ ' ')).reverse
  rw [normalize, trim, List.getLast?_reverse] at hc
  rw [Option.mem_def.1 hc] at hnot
  exact Char.not_le.1 (by simpa using hnot)

/-- What a text prints: its characters that are no white space. -/
def printed (s : List Char) : List Char :=
  s.filter fun c ↦ !isSpace c

/-- `String.trim` removes white space only: no control character is the first or the last of what
the text prints. -/
def Untrimmed (s : List Char) : Prop :=
  ∀ c, c ∈ (printed s).head? ∨ c ∈ (printed s).getLast? → ' ' < c

@[simp]
theorem printed_append (s t : List Char) : printed (s ++ t) = printed s ++ printed t :=
  List.filter_append s t

@[simp]
theorem printed_cons_of_gt {c : Char} (h : ' ' < c) (s : List Char) :
    printed (c :: s) = c :: printed s :=
  List.filter_cons_of_pos (by rw [isSpace_of_gt h]; rfl)

theorem printed_eq_of_words {s t : List Char} (h : words isSpace s = words isSpace t) :
    printed s = printed t := by
  rw [printed, printed, ← flatten_words, ← flatten_words, h]

/-- What a text prints begins and ends as the text does, if that is no white space. -/
theorem head_printed {s : List Char} (h : ∀ c ∈ s.head?, ' ' < c) :
    (printed s).head? = s.head? := by
  cases s with
  | nil => rfl
  | cons c s => rw [printed_cons_of_gt (h c rfl), List.head?_cons, List.head?_cons]

theorem getLast_printed {s : List Char} (h : ∀ c ∈ s.getLast?, ' ' < c) :
    (printed s).getLast? = s.getLast? := by
  obtain rfl | ⟨s, c, rfl⟩ := s.eq_nil_or_concat'
  · rfl
  · have hc : ' ' < c := h c (by simp)
    rw [printed_append, printed_cons_of_gt hc, List.getLast?_append, List.getLast?_append]
    rfl

/-- What is removed from a text when it is trimmed. -/
theorem exists_normalize (s : List Char) : ∃ front back,
    collapse false s = front ++ normalize s ++ back ∧
      printed s = printed front ++ printed (normalize s) ++ printed back ∧
      (∀ c ∈ printed front, c ≤ ' ') ∧ (∀ c ∈ printed back, c ≤ ' ') ∧
      (Untrimmed s ↔ printed front = [] ∧ printed back = []) := by
  obtain ⟨front, back, heq, hfront, hback⟩ := exists_trim (collapse false s)
  have hprinted : printed s = printed front ++ printed (normalize s) ++ printed back := by
    have hwords : words isSpace (collapse false s) = words isSpace s := (words_collapse s).1 []
    rw [← printed_eq_of_words hwords, heq, printed_append, printed_append]
    rfl
  have hfront : ∀ c ∈ printed front, c ≤ ' ' := fun c hc ↦ hfront c (List.mem_of_mem_filter hc)
  have hback : ∀ c ∈ printed back, c ≤ ' ' := fun c hc ↦ hback c (List.mem_of_mem_filter hc)
  refine ⟨front, back, heq, hprinted, hfront, hback, fun h ↦ ⟨?_, ?_⟩, ?_⟩
  · by_contra hne
    obtain ⟨c, cs, hcs⟩ := List.exists_cons_of_ne_nil hne
    exact absurd (hfront c (by simp [hcs])) (Char.not_le.2 (h c (.inl (by simp [hprinted, hcs]))))
  · by_contra hne
    have hlast := List.getLast_mem hne
    refine absurd (hback _ hlast) (Char.not_le.2 (h _ (.inr ?_)))
    rw [hprinted, List.getLast?_append, List.getLast?_eq_some_getLast hne]
    rfl
  · rintro ⟨hf, hb⟩ c hc
    rw [hprinted, hf, hb, List.nil_append, List.append_nil,
      head_printed (head_normalize s), getLast_printed (getLast_normalize s)] at hc
    exact hc.elim (head_normalize s c) (getLast_normalize s c)

theorem words_normalize {s : List Char} (h : Untrimmed s) :
    words isSpace (normalize s) = words isSpace s := by
  obtain ⟨front, back, heq, -, -, -, huntrimmed⟩ := exists_normalize s
  obtain ⟨hfront, hback⟩ := huntrimmed.1 h
  have hspace : ∀ {t : List Char}, printed t = [] → ∀ c ∈ t, isSpace c := by
    intro t ht c hc
    simpa using List.filter_eq_nil_iff.1 ht c hc
  have hwords : words isSpace (collapse false s) = words isSpace s := (words_collapse s).1 []
  rw [← hwords, heq, words_append_of_forall_right (hspace hback),
    words_append_of_forall (hspace hfront)]

theorem untrimmed_of_words {s : List Char} (h : words isSpace (normalize s) = words isSpace s) :
    Untrimmed s := by
  obtain ⟨front, back, -, hprinted, -, -, huntrimmed⟩ := exists_normalize s
  have hlen := congrArg List.length (hprinted.symm.trans (printed_eq_of_words h).symm)
  rw [List.length_append, List.length_append] at hlen
  exact huntrimmed.2 ⟨List.length_eq_zero_iff.1 (by omega), List.length_eq_zero_iff.1 (by omega)⟩

/-- A text between its ends is its words, joined by blanks. -/
theorem normalize_eq_intercalate (s : List Char) :
    [' '].intercalate (words isSpace (normalize s)) = normalize s := by
  obtain ⟨front, back, hparts⟩ : normalize s <:+: collapse false s := trim_isInfix _
  have hchain := (isChain_collapse false s).1
  rw [← hparts] at hchain
  refine intercalate_words le_rfl (fun c hc hsp ↦ ?_) hchain.left_of_append.right_of_append
    (fun c hc ↦ isSpace_of_gt (head_normalize s c hc))
    fun c hc ↦ isSpace_of_gt (getLast_normalize s c hc)
  have hmem : c ∈ collapse false s := by
    rw [← hparts]
    exact List.mem_append_left _ (List.mem_append_right _ hc)
  exact mem_collapse hmem hsp

/-! ### Lines -/

/-- The lines of the words after the first ones of a line, each as its bytes: a word goes on the
line if the line stays within the width. -/
def wrap (width : ℕ) (line : List UInt8) : List (List UInt8) → List (List UInt8)
  | [] => [line]
  | w :: ws =>
    if width < line.length + 1 + w.length then line :: wrap width w ws
    else wrap width (line ++ 0x20 :: w) ws

/-- The lines as they are appended, with the indentation, the first one with it if `flag` says so; a
last line that is the only one has it as well. -/
def layout (charset : Charset) (sindent : List Char) : Bool → List (List UInt8) → List Char
  | _, [] => []
  | _, [line] => sindent ++ charset.decode line
  | flag, line :: lines =>
    indentIf flag sindent ++ charset.decode line ++ '\n' :: layout charset sindent true lines

/-- Words, each with the blank before it. -/
def blankBefore (ws : List (List UInt8)) : List UInt8 :=
  ws.flatMap fun w ↦ 0x20 :: w

/-- The variables with `front` behind, `line` begun and the words `ws` ahead. -/
def Wrapping.at (front line : List UInt8) (ws : List (List UInt8)) (flag : Bool) (sb : List Char) :
    Wrapping where
  b := front ++ line ++ blankBefore ws
  start := front.length
  prev := (front ++ line).length
  next := (front ++ line).length
  flag := flag
  sb := sb

variable {charset : Charset} {sindent : List Char} {width : ℕ} {front line w : List UInt8}
  {ws : List (List UInt8)} {flag : Bool} {sb : List Char}

theorem nextBlank_of (front : List UInt8) (ws : List (List UInt8)) (hw : ∀ b ∈ w, b ≠ 0x20) :
    nextBlank (front ++ w ++ blankBefore ws) front.length = (front ++ w).length := by
  have htake : (w ++ blankBefore ws).takeWhile (· ≠ 0x20) = w := by
    rw [List.takeWhile_append_of_pos (by simpa using hw)]
    cases ws with
    | nil => simp [blankBefore]
    | cons w' ws => simp [blankBefore]
  rw [nextBlank, List.append_assoc, List.drop_left, htake, List.length_append]

/-- What a break appends. -/
theorem newString_line (rest : List UInt8) :
    newString charset (front ++ line ++ 0x0A :: rest) front.length
        ((front ++ line).length - front.length + 1) = charset.decode line ++ ['\n'] := by
  have hcount : (front ++ line).length - front.length + 1 = (line ++ [0x0A]).length := by simp
  have hbreak : charset.decode (line ++ [0x0A]) =
      charset.decode line ++ '\n' :: charset.decode [] :=
    charset.decode_control line [] (by decide)
  rw [newString, List.append_assoc, List.drop_left, List.append_cons, hcount, List.take_left,
    hbreak, Charset.decode_nil]

theorem turn_at (hw : ∀ b ∈ w, b ≠ 0x20) :
    (Wrapping.at front line (w :: ws) flag sb).turn charset sindent width =
      if width < line.length + 1 + w.length then
        Wrapping.at (front ++ line ++ [0x0A]) w ws true
          (sb ++ indentIf flag sindent ++ (charset.decode line ++ ['\n']))
      else Wrapping.at front (line ++ 0x20 :: w) ws flag sb := by
  have hb : front ++ line ++ blankBefore (w :: ws) =
      (front ++ line ++ [0x20]) ++ w ++ blankBefore ws := by
    simp [blankBefore]
  have hnext : nextBlank (front ++ line ++ blankBefore (w :: ws)) ((front ++ line).length + 1) =
      front.length + (line.length + 1 + w.length) := by
    have hof := nextBlank_of (front ++ line ++ [0x20]) ws hw
    rw [← hb, List.length_append, List.length_singleton] at hof
    rw [hof]
    simp only [List.length_append, List.length_singleton]
    omega
  have hset : (front ++ line ++ blankBefore (w :: ws)).set (front ++ line).length 0x0A =
      front ++ line ++ 0x0A :: (w ++ blankBefore ws) := by
    simp [blankBefore]
  simp only [Wrapping.turn, Wrapping.at, hnext, Nat.add_sub_cancel_left]
  by_cases hfits : width < line.length + 1 + w.length
  · rw [if_pos hfits, if_pos hfits, hset, newString_line]
    simp only [Wrapping.mk.injEq, List.length_append, List.length_singleton]
    exact ⟨by simp, trivial, by omega, by omega, trivial, trivial⟩
  · rw [if_neg hfits, if_neg hfits]
    simp only [Wrapping.mk.injEq, List.length_append, List.length_cons]
    exact ⟨by simp [blankBefore], trivial, by omega, by omega, trivial, trivial⟩

/-- What is appended when the loop is done. -/
def Wrapping.finish (charset : Charset) (sindent : List Char) (w : Wrapping) : List Char :=
  w.sb ++ sindent ++ newString charset w.b w.start (w.b.length - w.start)

theorem wrap_ne_nil : wrap width line ws ≠ [] := by
  induction ws generalizing line with
  | nil => exact List.cons_ne_nil line []
  | cons w ws ih =>
    rw [wrap]
    split_ifs
    · exact List.cons_ne_nil _ _
    · exact ih

theorem layout_cons {lines : List (List UInt8)} (h : lines ≠ []) :
    layout charset sindent flag (line :: lines) =
      indentIf flag sindent ++ charset.decode line ++
        '\n' :: layout charset sindent true lines := by
  obtain ⟨line', lines, rfl⟩ := List.exists_cons_of_ne_nil h
  rfl

/-- From a line begun, the loop appends the lines of `wrap`. -/
theorem loop_at {fuel : ℕ} (hws : ∀ w ∈ ws, ∀ b ∈ w, b ≠ 0x20) (hfuel : ws.length < fuel) :
    ((Wrapping.at front line ws flag sb).loop charset sindent width fuel).map
        (Wrapping.finish charset sindent) =
      some (sb ++ layout charset sindent flag (wrap width line ws)) := by
  induction ws generalizing front line flag sb fuel with
  | nil =>
    obtain ⟨fuel, rfl⟩ := Nat.exists_eq_add_of_lt hfuel
    have hdone : ¬(front ++ line).length < (front ++ line ++ blankBefore []).length := by
      simp [blankBefore]
    rw [Wrapping.loop, if_neg (by exact hdone), Option.map_some]
    simp [Wrapping.at, Wrapping.finish, newString, blankBefore, wrap, layout]
  | cons w ws ih =>
    obtain ⟨fuel, rfl⟩ := Nat.exists_eq_add_of_lt (Nat.zero_lt_of_lt hfuel)
    obtain ⟨hw, hws⟩ := List.forall_mem_cons.1 hws
    have hmore : (front ++ line).length < (front ++ line ++ blankBefore (w :: ws)).length := by
      simp [blankBefore]
    rw [Wrapping.loop, if_pos (by exact hmore), turn_at hw, wrap]
    rw [List.length_cons] at hfuel
    by_cases hfits : width < line.length + 1 + w.length
    · rw [if_pos hfits, if_pos hfits, ih hws (by omega), layout_cons wrap_ne_nil]
      simp
    · rw [if_neg hfits, if_neg hfits, ih hws (by omega)]

/-- The first word is begun with its first byte already in the line, and this is where the text is
broken if the word is too long. -/
theorem turn_start (hne : w ≠ []) (hw : ∀ b ∈ w, b ≠ 0x20) :
    ({ b := w ++ blankBefore ws, start := 0, prev := 0, next := 0, flag := flag,
       sb := [] } : Wrapping).turn charset sindent width =
      if width < w.length then
        Wrapping.at [0x0A] w.tail ws true (indentIf flag sindent ++ ['\n'])
      else Wrapping.at [] w ws flag [] := by
  obtain ⟨b, w, rfl⟩ := List.exists_cons_of_ne_nil hne
  have hnext : nextBlank (b :: w ++ blankBefore ws) 1 = (b :: w).length :=
    nextBlank_of [b] ws (List.forall_mem_cons.1 hw).2
  simp only [Wrapping.turn, Wrapping.at, Nat.zero_add, hnext, Nat.sub_zero]
  split_ifs
  · simp only [Wrapping.mk.injEq]
    refine ⟨rfl, rfl, ?_, ?_, trivial, ?_⟩
    · simp
    · simp
    · have hbreak := @newString_line charset [] [] (w ++ blankBefore ws)
      rw [Charset.decode_nil, List.nil_append] at hbreak
      exact congrArg (indentIf flag sindent ++ ·) hbreak
  · rfl

/-! ### The words of the lines -/

/-- The words that are read in a line. -/
def lineWords (charset : Charset) (line : List UInt8) : List (List Char) :=
  words isSpace (charset.decode line)

theorem decode_append_word (line w : List UInt8) :
    charset.decode (line ++ 0x20 :: w) = charset.decode line ++ ' ' :: charset.decode w :=
  charset.decode_control line w (by decide)

theorem lineWords_append :
    lineWords charset (line ++ 0x20 :: w) = lineWords charset line ++ lineWords charset w := by
  rw [lineWords, decode_append_word, words_append_cons (show isSpace ' ' from rfl)]
  rfl

theorem flatMap_lineWords_wrap :
    (wrap width line ws).flatMap (lineWords charset) =
      lineWords charset line ++ ws.flatMap (lineWords charset) := by
  induction ws generalizing line with
  | nil => rfl
  | cons w ws ih =>
    rw [wrap, List.flatMap_cons]
    split_ifs
    · rw [List.flatMap_cons, ih]
    · rw [ih, lineWords_append, List.append_assoc]

/-- The indentation of a line is blank. -/
theorem eq_space_of_mem_indentIf (hindent : ∀ c ∈ sindent, c = ' ') (flag : Bool) :
    ∀ c ∈ indentIf flag sindent, c = ' ' := by
  intro c hc
  cases flag with
  | false => exact absurd hc List.not_mem_nil
  | true => exact hindent c hc

theorem words_indentIf (hindent : ∀ c ∈ sindent, c = ' ') (flag : Bool) (s : List Char) :
    words isSpace (indentIf flag sindent ++ s) = words isSpace s := by
  refine words_append_of_forall fun c hc ↦ ?_
  rw [eq_space_of_mem_indentIf hindent flag c hc]
  rfl

theorem words_layout (hindent : ∀ c ∈ sindent, c = ' ') (lines : List (List UInt8)) :
    words isSpace (layout charset sindent flag lines) = lines.flatMap (lineWords charset) := by
  induction lines generalizing flag with
  | nil => rfl
  | cons line lines ih =>
    by_cases hne : lines = []
    · subst hne
      rw [layout, List.flatMap_singleton]
      exact words_indentIf hindent true (charset.decode line)
    · rw [layout_cons hne, words_append_cons (show isSpace '\n' from rfl), ih,
        words_indentIf hindent]
      rfl

/-- A line without its indentation stays within the width, or is a single word. -/
def Fits (width : ℕ) (line : List Char) : Prop :=
  (utf16 (line.dropWhile (· = ' '))).length ≤ width ∨ (words isSpace line).length ≤ 1

theorem length_utf16_le (s : List Char) : (utf16 s).length ≤ (utf8 s).length := by
  induction s with
  | nil => exact le_rfl
  | cons c s ih =>
    have hpos := length_utf8Char_pos c
    have hchar : (utf16Char c).length ≤ (String.utf8EncodeChar c).length := by
      rw [length_utf16Char]
      split_ifs with hc
      · exact hpos
      · rw [← utf8Code_toNat, utf8Code, if_neg (by omega), if_neg (by omega), if_neg (by omega)]
        simp
    rw [utf8_cons, List.length_append, utf16, List.flatMap_cons, List.length_append, ← utf16]
    omega

/-- A text beyond ASCII is shorter than its bytes. -/
theorem length_utf16_lt {s : List Char} {c : Char} (hmem : c ∈ s) (hc : 0x80 ≤ c.toNat) :
    (utf16 s).length < (utf8 s).length := by
  obtain ⟨front, back, rfl⟩ := List.append_of_mem hmem
  have hfront := length_utf16_le front
  have hback := length_utf16_le back
  have hchar : (utf16Char c).length < (String.utf8EncodeChar c).length := by
    rw [length_utf16Char, ← utf8Code_toNat, utf8Code]
    split_ifs <;> simp only [List.length_cons, List.length_nil] <;> omega
  rw [utf16, List.flatMap_append, List.flatMap_cons, ← utf16, ← utf16, utf8_append, utf8_cons]
  simp only [List.length_append]
  omega

theorem length_utf16_of_suffix {s t : List Char} (h : s <:+ t) :
    (utf16 s).length ≤ (utf16 t).length := by
  obtain ⟨r, rfl⟩ := h
  rw [utf16, utf16, List.flatMap_append, List.length_append]
  omega

theorem fits_indented {s pre : List Char} (hpre : ∀ c ∈ pre, c = ' ')
    (h : (utf16 s).length ≤ width ∨ (words isSpace s).length ≤ 1) : Fits width (pre ++ s) := by
  refine h.imp (fun hlen ↦ ?_) fun hone ↦ ?_
  · rw [List.dropWhile_append_of_pos (by simpa using hpre)]
    exact (length_utf16_of_suffix (List.dropWhile_suffix _)).trans hlen
  · rwa [words_append_of_forall]
    intro c hc
    rw [hpre c hc]
    rfl

/-- The lines of what is appended are those of `wrap`, with the indentation. -/
theorem mem_splitOn_layout (hindent : ∀ c ∈ sindent, c = ' ') {lines : List (List UInt8)}
    (hlines : ∀ line ∈ lines, '\n' ∉ charset.decode line) (hne : lines ≠ []) {piece : List Char}
    (h : piece ∈ (layout charset sindent flag lines).splitOn '\n') :
    ∃ line ∈ lines, ∃ pre, (∀ c ∈ pre, c = ' ') ∧ piece = pre ++ charset.decode line := by
  induction lines generalizing flag with
  | nil => exact absurd rfl hne
  | cons line lines ih =>
    obtain ⟨hline, hlines⟩ := List.forall_mem_cons.1 hlines
    have hpre := eq_space_of_mem_indentIf hindent
    have hnot : ∀ flag, ∀ c ∈ indentIf flag sindent ++ charset.decode line,
        (c == '\n') = false := by
      intro flag c hc
      refine beq_false_of_ne ?_
      rintro rfl
      exact (List.mem_append.1 hc).elim (fun hc ↦ absurd (hpre flag _ hc) (by decide)) hline
    by_cases hlast : lines = []
    · subst hlast
      have hone : layout charset sindent flag [line] =
          indentIf true sindent ++ charset.decode line := rfl
      rw [hone, List.splitOn, List.splitOnP_eq_singleton (hnot true), List.mem_singleton] at h
      exact ⟨line, List.mem_cons_self, _, hpre true, h⟩
    · rw [layout_cons hlast, List.splitOn, List.splitOnP_append_cons _ _ (by rfl),
        List.splitOnP_eq_singleton (hnot flag), List.singleton_append, List.mem_cons] at h
      obtain h | h := h
      · exact ⟨line, List.mem_cons_self, _, hpre flag, h⟩
      · obtain ⟨line', hmem, hline'⟩ := ih hlines hlast h
        exact ⟨line', List.mem_cons_of_mem _ hmem, hline'⟩

/-- What is read of the bytes is no longer than they are, and has no white space but blanks. -/
structure Reads (charset : Charset) (line : List UInt8) : Prop where
  length_le : (utf16 (charset.decode line)).length ≤ line.length
  blank : ∀ c ∈ charset.decode line, isSpace c → c = ' '

/-- The bytes of a word that is read back. -/
theorem reads_utf8 {v : List Char} (hv : ∀ c ∈ v, isSpace c = false)
    (hback : charset.decode (utf8 v) = v) : Reads charset (utf8 v) := by
  refine ⟨?_, fun c hc hsp ↦ ?_⟩
  · rw [hback]
    exact length_utf16_le v
  · rw [hback] at hc
    exact absurd ((hv c hc).symm.trans hsp) Bool.noConfusion

theorem Reads.append (hline : Reads charset line) (hw : Reads charset w) :
    Reads charset (line ++ 0x20 :: w) := by
  refine ⟨?_, fun c hc hsp ↦ ?_⟩
  · have hline := hline.length_le
    have hw := hw.length_le
    have hblank : (utf16Char ' ').length = 1 := rfl
    rw [decode_append_word, utf16, List.flatMap_append, List.flatMap_cons, ← utf16, ← utf16]
    simp only [List.length_append, List.length_cons]
    omega
  · rw [decode_append_word] at hc
    obtain hc | hc := List.mem_append.1 hc
    · exact hline.blank c hc hsp
    · exact (List.mem_cons.1 hc).elim id fun hc ↦ hw.blank c hc hsp

/-- Every line of words that are read back stays within the width or is a single word, if the first
one does. -/
theorem mem_wrap {vs : List (List Char)} {line' : List UInt8} (hline : Reads charset line)
    (hfits : line.length ≤ width ∨ (lineWords charset line).length ≤ 1)
    (hvs : ∀ v ∈ vs, v ≠ [] ∧ (∀ c ∈ v, isSpace c = false) ∧ charset.decode (utf8 v) = v)
    (h : line' ∈ wrap width line (vs.map utf8)) :
    Reads charset line' ∧ (line'.length ≤ width ∨ (lineWords charset line').length ≤ 1) := by
  induction vs generalizing line with
  | nil =>
    rw [List.map_nil, wrap, List.mem_singleton] at h
    exact h ▸ ⟨hline, hfits⟩
  | cons v vs ih =>
    obtain ⟨⟨hne, hv, hback⟩, hvs⟩ := List.forall_mem_cons.1 hvs
    have hword := reads_utf8 hv hback
    rw [List.map_cons, wrap] at h
    split_ifs at h with hlong
    · obtain rfl | h := List.mem_cons.1 h
      · exact ⟨hline, hfits⟩
      · refine ih hword (.inr ?_) hvs h
        rw [lineWords, hback, words_of_forall hv hne, List.length_singleton]
    · refine ih (hline.append hword) (.inl ?_) hvs h
      rw [List.length_append, List.length_cons]
      omega

/-! ### The long path -/

theorem utf8_intercalate (v : List Char) (vs : List (List Char)) :
    utf8 ([' '].intercalate (v :: vs)) = utf8 v ++ blankBefore (vs.map utf8) := by
  induction vs generalizing v with
  | nil =>
    rw [List.intercalate_singleton, List.map_nil, blankBefore, List.flatMap_nil, List.append_nil]
  | cons v' vs ih =>
    rw [List.intercalate_cons_cons, List.append_assoc, utf8_append, List.singleton_append,
      utf8_cons, ih]
    rfl

theorem utf8_ne_nil {v : List Char} (h : v ≠ []) : utf8 v ≠ [] := by
  obtain ⟨c, v, rfl⟩ := List.exists_cons_of_ne_nil h
  have hpos := length_utf8Char_pos c
  rw [utf8_cons]
  exact List.append_ne_nil_of_left_ne_nil (List.length_pos_iff.1 hpos) _

theorem notMem_utf8 {v : List Char} (hv : ∀ c ∈ v, isSpace c = false) : ∀ b ∈ utf8 v, b ≠ 0x20 := by
  rintro b hb rfl
  have hmem : ' ' ∈ v := (mem_utf8_ascii (by decide)).1 hb
  exact Bool.noConfusion (hv ' ' hmem)

theorem length_le_blankBefore (ws : List (List UInt8)) : ws.length ≤ (blankBefore ws).length := by
  induction ws with
  | nil => exact Nat.zero_le _
  | cons w ws ih =>
    rw [blankBefore, List.flatMap_cons, ← blankBefore, List.length_append, List.length_cons,
      List.length_cons]
    omega

/-- The code on a text whose normal form has the words `v :: vs` and is not short. -/
theorem formatWidth_of_words {s v : List Char} {vs : List (List Char)} {indent : ℤ}
    (hwords : words isSpace (normalize s) = v :: vs) (hindent : indentation indent = some sindent)
    (hlong : ¬(utf16 (normalize s)).length < width) :
    formatWidth charset s width indent flag =
      some (if width < (utf8 v).length then
          indentIf flag sindent ++ '\n' ::
            layout charset sindent true (wrap width (utf8 v).tail (vs.map utf8))
        else layout charset sindent flag (wrap width (utf8 v) (vs.map utf8))) := by
  have hmem : ∀ u ∈ v :: vs, u ≠ [] ∧ ∀ c ∈ u, isSpace c = false :=
    fun u hu ↦ of_mem_words (hwords ▸ hu)
  obtain ⟨⟨hvne, hv⟩, hvs⟩ := List.forall_mem_cons.1 hmem
  have hbytes : utf8 (normalize s) = utf8 v ++ blankBefore (vs.map utf8) := by
    rw [← utf8_intercalate, ← hwords, normalize_eq_intercalate]
  have hws : ∀ w ∈ vs.map utf8, ∀ b ∈ w, b ≠ 0x20 := by
    intro w hw
    obtain ⟨u, hu, rfl⟩ := List.mem_map.1 hw
    exact notMem_utf8 (hvs u hu).2
  have hne : utf8 v ≠ [] := utf8_ne_nil hvne
  have hpos : 0 < (utf8 v).length := List.length_pos_iff.2 hne
  have hfuel : (vs.map utf8).length < (utf8 (normalize s)).length := by
    have hle := length_le_blankBefore (vs.map utf8)
    rw [hbytes, List.length_append]
    omega
  have hstart : 0 < (utf8 v ++ blankBefore (vs.map utf8)).length := by
    rw [List.length_append]
    omega
  have hloop : (Wrapping.loop charset sindent width ((utf8 (normalize s)).length + 1)
      { b := utf8 (normalize s), start := 0, prev := 0, next := 0, flag := flag,
        sb := [] }).map (Wrapping.finish charset sindent) =
      some (if width < (utf8 v).length then
          indentIf flag sindent ++ '\n' ::
            layout charset sindent true (wrap width (utf8 v).tail (vs.map utf8))
        else layout charset sindent flag (wrap width (utf8 v) (vs.map utf8))) := by
    rw [hbytes] at hfuel ⊢
    rw [Wrapping.loop, if_pos (by exact hstart), turn_start hne (notMem_utf8 hv)]
    split_ifs
    · rw [loop_at hws hfuel, List.append_assoc, List.singleton_append]
    · rw [loop_at hws hfuel, List.nil_append]
  rw [formatWidth, hindent, Option.bind_eq_bind, Option.bind_some, if_neg hlong, ← hloop,
    Option.map_eq_bind]
  rfl

/-! ### The result -/

/-- The given words are all appended, in order, and every line fits in the width or is a single
word. -/
def KeepsWords (ws : List (List Char)) (width : ℕ) (appended : Option (List Char)) : Prop :=
  ∃ text, appended = some text ∧ words isSpace text = ws ∧
    ∀ line ∈ text.splitOn '\n', Fits width line

theorem KeepsWords.eq {us vs : List (List Char)} {appended : Option (List Char)}
    (h : KeepsWords us width appended) (h' : KeepsWords vs width appended) : us = vs := by
  obtain ⟨text, rfl, rfl, -⟩ := h
  obtain ⟨text', htext, rfl, -⟩ := h'
  rw [Option.some.inj htext]

theorem indentation_eq_some {indent : ℤ} (h : 0 ≤ indent) :
    ∃ sindent, indentation indent = some sindent ∧ ∀ c ∈ sindent, c = ' ' := by
  rw [indentation]
  split_ifs with hbig hneg
  · exact ⟨[], rfl, fun c hc ↦ absurd hc List.not_mem_nil⟩
  · omega
  · exact ⟨_, rfl, fun c hc ↦ List.eq_of_mem_replicate (List.mem_of_mem_take hc)⟩

theorem formatWidth_of_neg {s : List Char} {indent : ℤ} (h : indent < 0) :
    formatWidth charset s width indent flag = none := by
  rw [formatWidth, indentation, if_neg (by omega), if_pos h]
  rfl

theorem newline_notMem_normalize (s : List Char) : '\n' ∉ normalize s := by
  intro h
  have hmem : '\n' ∈ collapse false s := (trim_isInfix (collapse false s)).subset h
  exact absurd (mem_collapse hmem rfl) (by decide)

/-- A short text is appended as it is. -/
theorem keepsWords_short {s : List Char} {indent : ℤ} (hindent : 0 ≤ indent)
    (hshort : (utf16 (normalize s)).length < width) :
    KeepsWords (words isSpace (normalize s)) width
      (formatWidth charset s width indent flag) := by
  obtain ⟨sindent, hsome, hblank⟩ := indentation_eq_some hindent
  have hpre : ∀ c ∈ indentIf flag sindent, c = ' ' := by
    intro c hc
    cases flag with
    | false => exact absurd hc List.not_mem_nil
    | true => exact hblank c hc
  refine ⟨indentIf flag sindent ++ normalize s, ?_, ?_, ?_⟩
  · rw [formatWidth, hsome, Option.bind_eq_bind, Option.bind_some, if_pos hshort]
  · exact words_indentIf hblank flag (normalize s)
  · have hnot : ∀ c ∈ indentIf flag sindent ++ normalize s, (c == '\n') = false := by
      intro c hc
      refine beq_false_of_ne ?_
      rintro rfl
      exact (List.mem_append.1 hc).elim (fun hc ↦ absurd (hpre _ hc) (by decide))
        (newline_notMem_normalize s)
    rw [List.splitOn, List.splitOnP_eq_singleton hnot]
    intro line hline
    rw [List.mem_singleton.1 hline]
    exact fits_indented hpre (.inl hshort.le)

/-- The bytes that the loop leaves of the first word. -/
def bytesLeft (width : ℕ) (v : List Char) : List UInt8 :=
  if width < (utf8 v).length then (utf8 v).tail else utf8 v

/-- The words as the charset reads them from the bytes that are left of them. -/
def readBack (charset : Charset) (width : ℕ) : List (List Char) → List (List Char)
  | [] => []
  | v :: vs => charset.decode (bytesLeft width v) :: vs.map fun u ↦ charset.decode (utf8 u)

theorem bytesLeft_suffix (width : ℕ) (v : List Char) : bytesLeft width v <:+ utf8 v := by
  rw [bytesLeft]
  split_ifs
  · exact List.tail_suffix _
  · exact List.suffix_rfl

theorem bytesLeft_ne_nil {v : List Char} (hwidth : 0 < width) (hv : v ≠ []) :
    bytesLeft width v ≠ [] := by
  rw [bytesLeft]
  split_ifs with hlong
  · refine List.ne_nil_of_length_pos ?_
    rw [List.length_tail]
    omega
  · exact utf8_ne_nil hv

/-- Bytes of a word are read as a word. -/
theorem lineWords_word {v : List Char} (hv : ∀ c ∈ v, isSpace c = false) (hw : w <:+ utf8 v)
    (hne : w ≠ []) : lineWords charset w = [charset.decode w] := by
  refine words_of_forall (fun c hc ↦ ?_) (charset.decode_ne_nil hne)
  rw [Bool.eq_false_iff]
  intro hsp
  have hle : c.toNat ≤ 0x20 := isSpace_le hsp
  have hbyte := hw.subset (charset.mem_of_mem_decode hc hle)
  have hmem : c ∈ v := (mem_utf8_ascii (by omega)).1 hbyte
  exact absurd ((hv c hmem).symm.trans hsp) Bool.noConfusion

/-- A text that is not short is appended with its words as they are read back. -/
theorem words_formatWidth {s v : List Char} {vs : List (List Char)} {indent : ℤ}
    (hwidth : 0 < width) (hwords : words isSpace (normalize s) = v :: vs)
    (hindent : indentation indent = some sindent) (hblank : ∀ c ∈ sindent, c = ' ')
    (hlong : ¬(utf16 (normalize s)).length < width) :
    ∃ text, formatWidth charset s width indent flag = some text ∧
      words isSpace text = readBack charset width (v :: vs) := by
  have hmem : ∀ u ∈ v :: vs, u ≠ [] ∧ ∀ c ∈ u, isSpace c = false :=
    fun u hu ↦ of_mem_words (hwords ▸ hu)
  obtain ⟨⟨hvne, hv⟩, hvs⟩ := List.forall_mem_cons.1 hmem
  have hrest : (vs.map utf8).flatMap (lineWords charset) =
      vs.map fun u ↦ charset.decode (utf8 u) := by
    clear hwords hmem
    induction vs with
    | nil => rfl
    | cons u vs ih =>
      obtain ⟨⟨hne, hu⟩, hvs⟩ := List.forall_mem_cons.1 hvs
      rw [List.map_cons, List.flatMap_cons, ih hvs, List.map_cons,
        lineWords_word hu List.suffix_rfl (utf8_ne_nil hne), List.singleton_append]
  have hfirst : lineWords charset (bytesLeft width v) = [charset.decode (bytesLeft width v)] :=
    lineWords_word hv (bytesLeft_suffix width v) (bytesLeft_ne_nil hwidth hvne)
  have hlines : ∀ flag, words isSpace
      (layout charset sindent flag (wrap width (bytesLeft width v) (vs.map utf8))) =
        readBack charset width (v :: vs) := by
    intro flag
    rw [words_layout hblank, flatMap_lineWords_wrap, hfirst, hrest]
    rfl
  refine ⟨_, formatWidth_of_words hwords hindent hlong, ?_⟩
  by_cases hbreak : width < (utf8 v).length
  · have hlines := hlines true
    rw [bytesLeft, if_pos hbreak] at hlines
    rw [if_pos hbreak, words_append_cons (show isSpace '\n' from rfl), hlines,
      ← List.append_nil (indentIf flag sindent), words_indentIf hblank, words_nil, List.nil_append]
  · have hlines := hlines flag
    rw [bytesLeft, if_neg hbreak] at hlines
    rw [if_neg hbreak, hlines]

/-- A first word that is read back from the bytes that are left of it. If one is missing, the word
is beyond ASCII, and its text is shorter than its bytes. -/
theorem reads_bytesLeft {v : List Char} (hv : ∀ c ∈ v, isSpace c = false)
    (hback : charset.decode (bytesLeft width v) = v) : Reads charset (bytesLeft width v) := by
  refine ⟨?_, fun c hc hsp ↦ ?_⟩
  · rw [hback]
    by_cases hlong : width < (utf8 v).length
    · rw [bytesLeft, if_pos hlong] at hback ⊢
      rw [List.length_tail]
      by_cases hascii : ∀ c ∈ v, c.toNat < 0x80
      · obtain ⟨c, v, rfl⟩ : ∃ c v', v = c :: v' :=
          List.exists_cons_of_ne_nil (by rintro rfl; exact absurd hlong (Nat.not_lt_zero _))
        obtain ⟨hc, hascii⟩ := List.forall_mem_cons.1 hascii
        have htail : (utf8 (c :: v)).tail = utf8 v := by
          rw [utf8_cons, ← utf8Code_toNat, utf8Code, if_pos hc]
          rfl
        rw [htail, charset.decode_ascii hascii] at hback
        exact absurd (congrArg List.length hback) (by simp)
      · push Not at hascii
        obtain ⟨c, hc, hge⟩ := hascii
        exact Nat.le_sub_one_of_lt (length_utf16_lt hc hge)
    · rw [bytesLeft, if_neg hlong]
      exact length_utf16_le v
  · rw [hback] at hc
    exact absurd ((hv c hc).symm.trans hsp) Bool.noConfusion

theorem Reads.newline_notMem (h : Reads charset line) : '\n' ∉ charset.decode line :=
  fun hmem ↦ absurd (h.blank _ hmem rfl) (by decide)

/-- A line of blanks may come before the others. -/
theorem fits_or_mem_splitOn {text piece : List Char} (hindent : ∀ c ∈ sindent, c = ' ')
    (h : piece ∈ (indentIf flag sindent ++ '\n' :: text).splitOn '\n') :
    Fits width piece ∨ piece ∈ text.splitOn '\n' := by
  have hpre := eq_space_of_mem_indentIf hindent flag
  have hnot : ∀ c ∈ indentIf flag sindent, (c == '\n') = false := by
    intro c hc
    rw [hpre c hc]
    rfl
  rw [List.splitOn, List.splitOnP_append_cons _ _ (by rfl), List.splitOnP_eq_singleton hnot,
    List.singleton_append, List.mem_cons] at h
  obtain rfl | h := h
  · have hblank : Fits width (indentIf flag sindent ++ []) :=
      fits_indented hpre (.inr (Nat.zero_le 1))
    rw [List.append_nil] at hblank
    exact .inl hblank
  · exact .inr h

/-- The lines of a layout fit if what is read of them does, whatever the indentation is. -/
theorem fits_of_mem_layout {lines : List (List UInt8)} (hindent : ∀ c ∈ sindent, c = ' ')
    (hlines : ∀ line ∈ lines, Reads charset line ∧
      (line.length ≤ width ∨ (lineWords charset line).length ≤ 1)) (hne : lines ≠ [])
    {piece : List Char} (h : piece ∈ (layout charset sindent flag lines).splitOn '\n') :
    Fits width piece := by
  obtain ⟨line, hline, pre, hpre, rfl⟩ := mem_splitOn_layout hindent
    (fun line hline ↦ (hlines line hline).1.newline_notMem) hne h
  obtain ⟨hreads, hfits⟩ := hlines line hline
  exact fits_indented hpre (hfits.imp_left hreads.length_le.trans)

/-- A text whose words are read back is broken between its words. -/
theorem keepsWords_long {s v : List Char} {vs : List (List Char)} {indent : ℤ}
    (hwidth : 0 < width) (hindent : 0 ≤ indent) (hwords : words isSpace (normalize s) = v :: vs)
    (hlong : ¬(utf16 (normalize s)).length < width)
    (hback : readBack charset width (v :: vs) = v :: vs) :
    KeepsWords (v :: vs) width (formatWidth charset s width indent flag) := by
  obtain ⟨sindent, hsome, hblank⟩ := indentation_eq_some hindent
  obtain ⟨text, htext, hkeeps⟩ : ∃ text, formatWidth charset s width indent flag = some text ∧
      words isSpace text = readBack charset width (v :: vs) :=
    words_formatWidth hwidth hwords hsome hblank hlong
  refine ⟨text, htext, hkeeps.trans hback, ?_⟩
  rw [formatWidth_of_words hwords hsome hlong] at htext
  have hmem : ∀ u ∈ v :: vs, u ≠ [] ∧ ∀ c ∈ u, isSpace c = false :=
    fun u hu ↦ of_mem_words (hwords ▸ hu)
  obtain ⟨⟨hvne, hv⟩, hvs⟩ := List.forall_mem_cons.1 hmem
  obtain ⟨hfirst, hrest⟩ := List.cons.inj hback
  have hvs : ∀ u ∈ vs, u ≠ [] ∧ (∀ c ∈ u, isSpace c = false) ∧ charset.decode (utf8 u) = u := by
    intro u hu
    obtain ⟨i, hi, rfl⟩ := List.mem_iff_getElem.1 hu
    have hread := congrArg (·[i]?) hrest
    rw [List.getElem?_map, List.getElem?_eq_getElem hi] at hread
    exact ⟨(hvs _ hu).1, (hvs _ hu).2, Option.some.inj hread⟩
  have hone : (lineWords charset (bytesLeft width v)).length ≤ 1 := by
    rw [lineWords_word hv (bytesLeft_suffix width v) (bytesLeft_ne_nil hwidth hvne)]
    exact le_rfl
  have hlines : ∀ line ∈ wrap width (bytesLeft width v) (vs.map utf8), Reads charset line ∧
      (line.length ≤ width ∨ (lineWords charset line).length ≤ 1) :=
    fun line hline ↦ mem_wrap (reads_bytesLeft hv hfirst) (.inr hone) hvs hline
  intro piece hpiece
  by_cases hbreak : width < (utf8 v).length
  · -- The first word leaves a line of the indentation only, and loses its first byte.
    rw [bytesLeft, if_pos hbreak] at hlines
    rw [if_pos hbreak] at htext
    rw [← Option.some.inj htext] at hpiece
    obtain hfits | hpiece := fits_or_mem_splitOn hblank hpiece
    · exact hfits
    · exact fits_of_mem_layout hblank hlines wrap_ne_nil hpiece
  · rw [bytesLeft, if_neg hbreak] at hlines
    rw [if_neg hbreak] at htext
    rw [← Option.some.inj htext] at hpiece
    exact fits_of_mem_layout hblank hlines wrap_ne_nil hpiece

/-! ### What the trimming removed -/

/-- How many control characters and blanks a text has. -/
def controls (s : List Char) : ℕ :=
  s.countP (·.toNat ≤ 0x20)

theorem controls_append (s t : List Char) : controls (s ++ t) = controls s + controls t :=
  List.countP_append

/-- Reading bytes neither makes nor loses a control character. -/
theorem controls_decode (bytes : List UInt8) :
    controls (charset.decode bytes) = bytes.countP (·.toNat ≤ 0x20) := by
  by_cases h : ∃ b ∈ bytes, b.toNat ≤ 0x20
  · obtain ⟨b, hb, hle⟩ := h
    obtain ⟨front, rest, rfl⟩ := List.append_of_mem hb
    have hfront : front.length < (front ++ b :: rest).length := by simp
    have hrest : rest.length < (front ++ b :: rest).length := by simp; omega
    have hchar : (Char.ofNat b.toNat).toNat = b.toNat := toNat_charOfNat b.toNat_lt
    rw [charset.decode_control front rest hle, controls_append, controls, controls,
      List.countP_cons_of_pos (by simpa [hchar] using hle), List.countP_append,
      List.countP_cons_of_pos (by simpa using hle), ← controls, ← controls,
      controls_decode front, controls_decode rest]
  · have hbytes : bytes.countP (·.toNat ≤ 0x20) = 0 :=
      List.countP_eq_zero.2 fun b hb hle ↦ h ⟨b, hb, by simpa using hle⟩
    rw [hbytes]
    refine List.countP_eq_zero.2 fun c hc hle ↦ h ⟨_, charset.mem_of_mem_decode hc ?_, ?_⟩
    · simpa using hle
    · have hle : c.toNat ≤ 0x20 := by simpa using hle
      rw [toNat_ofNat_byte (by omega)]
      exact hle
termination_by bytes.length

theorem controls_utf8 (s : List Char) : (utf8 s).countP (·.toNat ≤ 0x20) = controls s := by
  have h : controls (decodeUtf8 (utf8 s)) = (utf8 s).countP (·.toNat ≤ 0x20) :=
    @controls_decode Charset.utf8 (utf8 s)
  rw [← h, decodeUtf8_encode]

/-- The byte that is lost is none of a control character. -/
theorem controls_bytesLeft {v : List Char} (hv : ∀ c ∈ v.head?, ' ' < c) :
    (bytesLeft width v).countP (·.toNat ≤ 0x20) = controls v := by
  rw [← controls_utf8, bytesLeft]
  split_ifs with hlong
  · obtain ⟨c, v, rfl⟩ : ∃ c v', v = c :: v' :=
      List.exists_cons_of_ne_nil (by rintro rfl; exact absurd hlong (Nat.not_lt_zero _))
    have hc : 0x20 < c.toNat := hv c rfl
    obtain ⟨b, tail, henc⟩ :=
      List.exists_cons_of_ne_nil (List.length_pos_iff.1 (length_utf8Char_pos c))
    have hb : ¬b.toNat ≤ 0x20 := by
      rw [← utf8Code_toNat] at henc
      obtain ⟨hlt, rfl⟩ | hge := mem_utf8Code (toNat_lt c) (henc ▸ List.mem_cons_self)
      · rw [toNat_ofNat_byte (by omega)]
        omega
      · omega
    rw [utf8_cons, henc, List.cons_append, List.tail_cons,
      List.countP_cons_of_neg (by simpa using hb)]
  · rfl

/-- If the words are those of the whole text, nothing was trimmed: what is read back has as many
control characters as what was not trimmed. -/
theorem untrimmed_of_readBack {s v : List Char} {vs : List (List Char)}
    (hwords : words isSpace (normalize s) = v :: vs)
    (h : words isSpace s = readBack charset width (v :: vs)) : Untrimmed s := by
  obtain ⟨front, back, -, hprinted, hfront, hback, huntrimmed⟩ := exists_normalize s
  have hnormal : printed (normalize s) = v ++ vs.flatten := by
    rw [printed, ← flatten_words, hwords, List.flatten_cons]
  have hv : ∀ c ∈ v.head?, ' ' < c := by
    intro c hc
    refine head_normalize s c ?_
    rw [← head_printed (head_normalize s), hnormal, List.head?_append, Option.mem_def.1 hc]
    rfl
  have hrest : controls (vs.map fun u ↦ charset.decode (utf8 u)).flatten = controls vs.flatten := by
    clear hwords h hnormal
    induction vs with
    | nil => rfl
    | cons u vs ih =>
      rw [List.map_cons, List.flatten_cons, List.flatten_cons, controls_append, controls_append, ih,
        controls_decode, controls_utf8]
  have hcount : controls (printed s) = controls (printed (normalize s)) := by
    rw [printed, ← flatten_words, h, readBack, List.flatten_cons, controls_append, hrest,
      controls_decode, controls_bytesLeft hv, hnormal, controls_append]
  have hall : ∀ {t : List Char}, (∀ c ∈ t, c ≤ ' ') → controls t = t.length :=
    fun ht ↦ List.countP_eq_length.2 fun c hc ↦ decide_eq_true (ht c hc)
  rw [hprinted, controls_append, controls_append, hall hfront, hall hback] at hcount
  exact huntrimmed.2 ⟨List.length_eq_zero_iff.1 (by omega), List.length_eq_zero_iff.1 (by omega)⟩

/-- `formatWidth` keeps every word and the width exactly if the indentation is not negative, no
control character is at an end of the text, and either the text is shorter than the width or the
charset reads its words back from the bytes that are left of them. -/
theorem formatWidth_keepsWords_iff {s : List Char} {indent : ℤ} (hwidth : 0 < width) :
    KeepsWords (words isSpace s) width (formatWidth charset s width indent flag) ↔
      0 ≤ indent ∧ Untrimmed s ∧
        ((utf16 ([' '].intercalate (words isSpace s))).length < width ∨
          readBack charset width (words isSpace s) = words isSpace s) := by
  by_cases hindent : 0 ≤ indent
  swap
  · refine ⟨?_, fun h ↦ absurd h.1 hindent⟩
    rintro ⟨text, htext, -⟩
    rw [formatWidth_of_neg (not_le.1 hindent)] at htext
    exact absurd htext (Option.some_ne_none text).symm
  by_cases hshort : (utf16 (normalize s)).length < width
  · have hnormal : KeepsWords (words isSpace (normalize s)) width
        (formatWidth charset s width indent flag) := keepsWords_short hindent hshort
    constructor
    · intro h
      have hs : Untrimmed s := untrimmed_of_words (hnormal.eq h)
      rw [← words_normalize hs, normalize_eq_intercalate]
      exact ⟨hindent, hs, .inl hshort⟩
    · rintro ⟨-, hs, -⟩
      exact words_normalize hs ▸ hnormal
  · obtain ⟨v, vs, hwords⟩ : ∃ v vs, words isSpace (normalize s) = v :: vs := by
      refine List.exists_cons_of_ne_nil fun hnil ↦ hshort ?_
      rw [← normalize_eq_intercalate, hnil]
      exact hwidth
    obtain ⟨sindent, hsome, hblank⟩ := indentation_eq_some hindent
    obtain ⟨text, htext, hread⟩ : ∃ text, formatWidth charset s width indent flag = some text ∧
        words isSpace text = readBack charset width (v :: vs) :=
      words_formatWidth hwidth hwords hsome hblank hshort
    constructor
    · rintro ⟨text', htext', hkeeps, -⟩
      obtain rfl : text = text' := Option.some.inj (htext.symm.trans htext')
      have hs : Untrimmed s := untrimmed_of_readBack hwords (hkeeps.symm.trans hread)
      refine ⟨hindent, hs, .inr ?_⟩
      rw [← words_normalize hs, hwords, ← hread, hkeeps, ← words_normalize hs, hwords]
    · rintro ⟨-, hs, h⟩
      rw [← words_normalize hs, normalize_eq_intercalate] at h
      rw [← words_normalize hs]
      rw [hwords] at h ⊢
      exact keepsWords_long hwidth hindent hwords hshort (h.resolve_left hshort)

/-- The text after the first byte: what is left of the first character is replaced byte by byte. -/
theorem decode_tail (c : Char) (s : List Char) : decodeUtf8 (utf8 (c :: s)).tail =
    List.replicate ((String.utf8EncodeChar c).length - 1) replacement ++ s := by
  obtain ⟨b, tail, henc⟩ :=
    List.exists_cons_of_ne_nil (List.length_pos_iff.1 (length_utf8Char_pos c))
  rw [utf8_cons, henc, List.cons_append, List.tail_cons, List.length_cons, Nat.add_sub_cancel]
  by_cases htail : tail = []
  · rw [htail]
    exact decodeUtf8_encode s
  · obtain ⟨-, hclosed, hdecode⟩ :=
      decode_cut (show _ = [b] ++ tail from henc) (List.cons_ne_nil b []) htail
    rw [hclosed, hdecode, decodeUtf8_encode]

/-- UTF-8 reads the words back exactly if the first one is not longer than the width. -/
theorem readBack_utf8_iff (width : ℕ) (ws : List (List Char)) :
    readBack .utf8 width ws = ws ↔ ∀ v ∈ ws.head?, (utf8 v).length ≤ width := by
  rcases ws with - | ⟨v, vs⟩
  · exact iff_of_true rfl fun v hv ↦ absurd hv (by simp)
  have hrest : (vs.map fun u ↦ Charset.utf8.decode (utf8 u)) = vs := by
    refine List.map_id'' (fun u ↦ decodeUtf8_encode u) vs
  have hhead : (∀ u ∈ (v :: vs).head?, (utf8 u).length ≤ width) ↔ (utf8 v).length ≤ width := by
    simp
  rw [readBack, hrest, List.cons.injEq, and_iff_left rfl, hhead, bytesLeft]
  show decodeUtf8 _ = v ↔ _
  split_ifs with hlong
  · refine iff_of_false (fun hback ↦ ?_) (not_le.2 hlong)
    obtain ⟨c, v, rfl⟩ : ∃ c v', v = c :: v' :=
      List.exists_cons_of_ne_nil (by rintro rfl; exact absurd hlong (Nat.not_lt_zero _))
    -- The first character is a replacement character of two bytes, but that one has three.
    rw [decode_tail] at hback
    have hlen := congrArg List.length hback
    rw [List.length_append, List.length_replicate, List.length_cons] at hlen
    have hone : (String.utf8EncodeChar c).length - 1 = 1 := by omega
    rw [hone, List.replicate_one, List.singleton_append, List.cons.injEq] at hback
    rw [← hback.1] at hone
    exact absurd hone (by decide)
  · exact iff_of_true (decodeUtf8_encode v) (not_lt.1 hlong)

/-- A blank between words of the width is where the line is broken. -/
theorem formatWidth_keepsWords_two :
    KeepsWords (words isSpace "aaa bbb".toList) 3
      (formatWidth .utf8 "aaa bbb".toList 3 0 false) := by
  refine (formatWidth_keepsWords_iff (by decide)).2 ⟨by decide, ?_, .inr (by decide)⟩
  rintro c (hc | hc)
  · obtain rfl : 'a' = c := Option.some.inj (Eq.trans (by decide) (Option.mem_def.1 hc))
    decide
  · obtain rfl : 'b' = c := Option.some.inj (Eq.trans (by decide) (Option.mem_def.1 hc))
    decide

/-- A first word that is longer than the width loses its first byte, and a charset other than that
of the bytes reads other words. -/
theorem formatWidth_drops_first :
    ¬KeepsWords (words isSpace "aaaa b".toList) 3 (formatWidth .utf8 "aaaa b".toList 3 0 true) ∧
    ¬KeepsWords (words isSpace "éé éé éé".toList) 5
      (formatWidth .latin1 "éé éé éé".toList 5 0 true) := by
  have hlost : ∀ {ws : List (List Char)} {width : ℕ} {appended : Option (List Char)},
      appended.map (words isSpace) ≠ some ws → ¬KeepsWords ws width appended := by
    rintro ws width appended hne ⟨text, rfl, hwords, -⟩
    exact hne (congrArg some hwords)
  exact ⟨hlost (by decide), hlost (by decide +kernel)⟩

end JPype.Javadoc
