import Mathlib.Data.List.Basic
import Mathlib.Data.List.Chain
import Mathlib.Data.List.TakeWhile

/-!
# The words of a list

The words of a list are its parts between separators that are not empty. Separators at the ends, and
repeated ones, make no difference (`words_append_cons`, `words_append_of_forall`); and a list
without gaps is its words, joined (`intercalate_words`).
-/

namespace Foundation

variable {α : Type*} {p : α → Bool} {sep : α} {l l' : List α}

/-- The parts of a list between separators that are not empty. -/
def words (p : α → Bool) (l : List α) : List (List α) :=
  (l.splitOnP p).filter fun part ↦ !part.isEmpty

@[simp]
theorem words_nil : words p ([] : List α) = [] :=
  rfl

theorem words_append_cons (hsep : p sep) : words p (l ++ sep :: l') = words p l ++ words p l' := by
  rw [words, List.splitOnP_append_cons _ _ hsep, List.filter_append]
  rfl

theorem words_cons (hsep : p sep) : words p (sep :: l) = words p l :=
  words_append_cons (l := []) hsep

theorem words_concat (hsep : p sep) : words p (l ++ [sep]) = words p l := by
  rw [words_append_cons hsep, words_nil, List.append_nil]

theorem words_of_forall (h : ∀ x ∈ l, p x = false) (hne : l ≠ []) : words p l = [l] := by
  rw [words, List.splitOnP_eq_singleton h]
  simp [hne]

/-- A word is not empty and holds no separator. -/
theorem of_mem_words {w : List α} (h : w ∈ words p l) : w ≠ [] ∧ ∀ x ∈ w, p x = false := by
  have hparts : ∀ {l : List α}, ∀ w ∈ l.splitOnP p, ∀ x ∈ w, p x = false := by
    intro l
    induction l with
    | nil => simp [List.splitOnP_nil]
    | cons y l ih =>
      rw [List.splitOnP_cons_eq_if_modifyHead]
      by_cases hy : p y
      · rw [if_pos hy]
        exact List.forall_mem_cons.2 ⟨fun x hx ↦ absurd hx List.not_mem_nil, ih⟩
      · rw [if_neg hy]
        obtain ⟨part, parts, hsplit⟩ := List.exists_cons_of_ne_nil (List.splitOnP_ne_nil p l)
        rw [hsplit] at ih ⊢
        obtain ⟨hpart, hrest⟩ := List.forall_mem_cons.1 ih
        refine List.forall_mem_cons.2 ⟨List.forall_mem_cons.2 ⟨?_, hpart⟩, hrest⟩
        exact Bool.eq_false_iff.2 hy
  obtain ⟨hw, hne⟩ := List.mem_filter.1 h
  exact ⟨by simpa using hne, hparts w hw⟩

/-- Separators at the front make no difference. -/
theorem words_append_of_forall (h : ∀ x ∈ l, p x) : words p (l ++ l') = words p l' := by
  induction l with
  | nil => rfl
  | cons x l ih =>
    obtain ⟨hx, h⟩ := List.forall_mem_cons.1 h
    rw [List.cons_append, words_cons hx, ih h]

/-- Separators at the end make no difference. -/
theorem words_append_of_forall_right (h : ∀ x ∈ l', p x) : words p (l ++ l') = words p l := by
  induction l' using List.reverseRecOn with
  | nil => rw [List.append_nil]
  | append_singleton l' x ih =>
    obtain ⟨h, hx⟩ := List.forall_mem_append.1 h
    rw [← List.append_assoc, words_concat (hx x List.mem_cons_self), ih h]

/-- What is left of the words is what is no separator. -/
theorem flatten_words (l : List α) : (words p l).flatten = l.filter fun x ↦ !p x := by
  have hfilter : ∀ parts : List (List α),
      (parts.filter fun part ↦ !part.isEmpty).flatten = parts.flatten := by
    intro parts
    induction parts with
    | nil => rfl
    | cons part parts ih => cases part <;> simp [ih]
  rw [words, hfilter]
  induction l with
  | nil => rfl
  | cons x l ih =>
    rw [List.splitOnP_cons_eq_if_modifyHead]
    by_cases hx : p x
    · rw [if_pos hx, List.flatten_cons, List.nil_append, ih, List.filter_cons_of_neg (by simp [hx])]
    · rw [if_neg hx, List.filter_cons_of_pos (by simp [hx]), ← ih]
      obtain ⟨part, parts, hparts⟩ := List.exists_cons_of_ne_nil (List.splitOnP_ne_nil p l)
      rw [hparts]
      rfl

/-- A list in which nothing but `sep` separates, with no separator at an end and no two of them side
by side, is its words, joined. -/
theorem intercalate_words {n : ℕ} (hn : l.length ≤ n) (honly : ∀ x ∈ l, p x → x = sep)
    (hchain : l.IsChain fun x y ↦ p x = false ∨ p y = false) (hhead : ∀ x ∈ l.head?, p x = false)
    (hlast : ∀ x ∈ l.getLast?, p x = false) : [sep].intercalate (words p l) = l := by
  induction n generalizing l with
  | zero =>
    rw [List.length_eq_zero_iff.1 (Nat.le_zero.1 hn)]
    rfl
  | succ n ih =>
    -- The list is cut at its first separator.
    cases hl : l.dropWhile fun x ↦ !p x with
    | nil =>
      have hall : ∀ x ∈ l, p x = false := by simpa using List.dropWhile_eq_nil_iff.1 hl
      cases l with
      | nil => rfl
      | cons x l => rw [words_of_forall hall (List.cons_ne_nil x l), List.intercalate_singleton]
    | cons x rest =>
      have hx : p x := by
        have hne : (l.dropWhile fun x ↦ !p x) ≠ [] := hl ▸ List.cons_ne_nil x rest
        simpa [hl] using List.head_dropWhile_not (fun x ↦ !p x) hne
      obtain ⟨w, hw, hlw⟩ : ∃ w, (∀ y ∈ w, p y = false) ∧ l = w ++ x :: rest := by
        refine ⟨l.takeWhile fun x ↦ !p x, fun y hy ↦ ?_, ?_⟩
        · simpa using List.mem_takeWhile_imp hy
        · rw [← hl, List.takeWhile_append_dropWhile]
      subst hlw
      have hxsep : x = sep := honly x (by simp) hx
      have hwne : w ≠ [] := by
        rintro rfl
        exact Bool.noConfusion ((hhead x (by simp)).symm.trans hx)
      obtain ⟨y, rest, rfl⟩ : ∃ y rest', rest = y :: rest' := by
        cases rest with
        | nil => exact absurd ((hlast x (by simp)).symm.trans hx) Bool.noConfusion
        | cons y rest => exact ⟨y, rest, rfl⟩
      obtain ⟨-, hchain, -⟩ := List.isChain_append.1 hchain
      obtain ⟨hxy, hchain⟩ := List.isChain_cons_cons.1 hchain
      have hy : p y = false := hxy.resolve_left (by simp [hx])
      -- What is behind it begins with no separator, so that the rest is of the same kind.
      have hrest := ih (l := y :: rest) (by simp at hn ⊢; omega)
        (fun z hz hp ↦ honly z (by simp [List.mem_cons.1 hz]) hp) hchain (by simpa using hy)
        (fun z hz ↦ hlast z (by simpa using hz))
      rw [words_append_cons hx, words_of_forall hw hwne]
      cases hws : words p (y :: rest) with
      | nil =>
        rw [hws] at hrest
        exact absurd hrest (List.cons_ne_nil y rest).symm
      | cons w' ws =>
        rw [hws] at hrest
        rw [List.singleton_append, List.intercalate_cons_cons, hrest, hxsep, List.append_assoc,
          List.singleton_append]

end Foundation
