import Mathlib.Data.List.Basic
import Mathlib.Data.List.DropRight

/-!
# Joining and splitting lists

Lists are joined with a separator and split at it again. A list that contains the separator falls
apart, so what comes out is the parts of the lists that went in (`splitOn_intercalate_flatMap`). The
`fields` of a list are its parts that are not empty; they do not change when empty lists are left
out before joining (`flatMap_fields_filter`).
-/

namespace Foundation

variable {α : Type*} [BEq α] [LawfulBEq α] {sep : α} {l part : List α}

/-- The parts of a list between separators that are not empty. -/
def fields (sep : α) (l : List α) : List (List α) :=
  (l.splitOn sep).filter fun part ↦ !part.isEmpty

/-- Lists that are joined and split again fall into the parts of each. -/
theorem splitOn_intercalate_flatMap {ls : List (List α)} (hls : ls ≠ []) :
    ([sep].intercalate ls).splitOn sep = ls.flatMap (List.splitOn sep) := by
  induction ls with
  | nil => exact absurd rfl hls
  | cons l ls ih =>
    cases ls with
    | nil => simp
    | cons l' ls =>
      rw [List.intercalate_cons_cons, List.append_assoc, List.singleton_append,
        List.splitOn_append_cons_self, ih (List.cons_ne_nil _ _)]
      rfl

omit [BEq α] [LawfulBEq α] in
/-- What holds of the separator holds of all that is joined if it holds of all that is in a part. -/
theorem forall_mem_intercalate {P : α → Prop} (hsep : P sep) {ls : List (List α)} :
    (∀ x ∈ [sep].intercalate ls, P x) ↔ ∀ part ∈ ls, ∀ x ∈ part, P x := by
  induction ls with
  | nil => simp
  | cons l ls ih =>
    cases ls with
    | nil => simp
    | cons l' ls =>
      rw [List.intercalate_cons_cons, List.append_assoc, List.forall_mem_append,
        List.singleton_append, List.forall_mem_cons, ih]
      exact (and_congr_right fun _ ↦ and_iff_right hsep).trans
        (List.forall_mem_cons (p := fun part ↦ ∀ x ∈ part, P x)).symm

theorem forall_mem_splitOn {P : α → Prop} (hsep : P sep) :
    (∀ part ∈ l.splitOn sep, ∀ x ∈ part, P x) ↔ ∀ x ∈ l, P x := by
  rw [← forall_mem_intercalate hsep, List.intercalate_splitOn]

theorem notMem_of_mem_splitOn (h : part ∈ l.splitOn sep) : sep ∉ part := by
  induction l generalizing part with
  | nil =>
    rw [List.splitOn_nil, List.mem_singleton] at h
    simp [h]
  | cons y l ih =>
    rw [List.splitOn_cons_eq_if_modifyHead] at h
    split at h
    · obtain rfl | h := List.mem_cons.1 h
      · exact List.not_mem_nil
      · exact ih h
    · rename_i hy
      have hparts := @ih
      generalize l.splitOn sep = parts at *
      cases parts with
      | nil => exact absurd h List.not_mem_nil
      | cons part' parts =>
        obtain rfl | h := List.mem_cons.1 h
        · rw [List.mem_cons, not_or]
          exact ⟨fun heq ↦ hy (by simp [heq]), hparts List.mem_cons_self⟩
        · exact hparts (List.mem_cons_of_mem _ h)

/-- Parts that are not empty come out again where empty parts at the end are left out. -/
theorem rdropWhile_splitOn_intercalate {ls : List (List α)} (hne : ls ≠ [])
    (h : ∀ part ∈ ls, sep ∉ part ∧ part ≠ []) :
    (if sep ∈ [sep].intercalate ls then
      (([sep].intercalate ls).splitOn sep).rdropWhile List.isEmpty
    else [[sep].intercalate ls]) = ls := by
  have hsplit : ([sep].intercalate ls).splitOn sep = ls :=
    List.splitOn_intercalate sep (fun part hpart ↦ (h part hpart).1) hne
  split
  · rw [hsplit, List.rdropWhile_eq_self_iff]
    exact fun hls hempty ↦ (h _ (List.getLast_mem hls)).2 (List.isEmpty_iff.mp hempty)
  · next hmem => rw [← List.splitOn_eq_singleton hmem, hsplit]

/-! ### Fields -/

omit [LawfulBEq α] in
@[simp]
theorem fields_nil : fields sep ([] : List α) = [] := rfl

theorem fields_of_notMem (h : sep ∉ l) (hne : l ≠ []) : fields sep l = [l] := by
  rw [fields, List.splitOn_eq_singleton h]
  simpa using hne

omit [LawfulBEq α] in
theorem mem_fields : part ∈ fields sep l ↔ part ∈ l.splitOn sep ∧ part ≠ [] := by
  simp [fields]

omit [LawfulBEq α] in
theorem fields_eq_splitOn (h : [] ∉ l.splitOn sep) : fields sep l = l.splitOn sep := by
  rw [fields, List.filter_eq_self]
  intro part hpart
  have hne : part ≠ [] := fun heq ↦ h (heq ▸ hpart)
  simpa using hne

theorem fields_append_cons (l l' : List α) :
    fields sep (l ++ sep :: l') = fields sep l ++ fields sep l' := by
  rw [fields, List.splitOn_append_cons_self, List.filter_append, fields, fields]

/-- The fields of lists that are joined. -/
theorem fields_intercalate (ls : List (List α)) :
    fields sep ([sep].intercalate ls) = ls.flatMap (fields sep) := by
  cases ls with
  | nil => rfl
  | cons l ls =>
    rw [fields, splitOn_intercalate_flatMap (List.cons_ne_nil _ _), List.filter_flatMap]
    rfl

theorem flatMap_fields_splitOn (l : List α) :
    (l.splitOn sep).flatMap (fields sep) = fields sep l := by
  rw [← fields_intercalate, List.intercalate_splitOn]

omit [LawfulBEq α] in
/-- Empty lists have no fields. -/
theorem flatMap_fields_filter (ls : List (List α)) :
    (ls.filter fun part ↦ !part.isEmpty).flatMap (fields sep) = ls.flatMap (fields sep) := by
  induction ls with
  | nil => rfl
  | cons l ls ih =>
    cases l with
    | nil => simpa using ih
    | cons x l => simp [ih]

end Foundation
