import Mathlib.Data.List.Nodup
import Mathlib.Data.List.Chain

/-!
# Trails

A partial function leads from a node to the next one. The trail of a node is the list of the nodes
on the way to one that has no next, if it comes to one; there is at most one (`Trail.unique`), and
no node is on it twice (`Trail.nodup`). `UpToRepetition` is the way as far as the nodes are new,
which is the trail if there is one.
-/

namespace Foundation

variable {α : Type*} {next : α → Option α} {a b : α} {l l' : List α}

/-- The nodes from `a` on, to the one that has no next. -/
inductive Trail (next : α → Option α) : α → List α → Prop where
  | last {a : α} (h : next a = none) : Trail next a [a]
  | cons {a b : α} {l : List α} (h : next a = some b) (ht : Trail next b l) : Trail next a (a :: l)

/-- The nodes from `a` on, to the one that has no next or whose next is among them. -/
structure UpToRepetition (next : α → Option α) (a : α) (l : List α) : Prop where
  head : l.head? = some a
  chain : l.IsChain fun a b ↦ next a = some b
  nodup : l.Nodup
  last : ∀ b, l.getLast? = some b → ∀ c, next b = some c → c ∈ l

namespace Trail

theorem unique (h : Trail next a l) (h' : Trail next a l') : l = l' := by
  induction h generalizing l' with
  | last hnone =>
    cases h' with
    | last => rfl
    | cons hsome => exact absurd (hnone.symm.trans hsome) (Option.some_ne_none _).symm
  | cons hsome _ ih =>
    cases h' with
    | last hnone => exact absurd (hnone.symm.trans hsome) (Option.some_ne_none _).symm
    | cons hsome' ht' =>
      obtain rfl := Option.some.inj (hsome.symm.trans hsome')
      rw [ih ht']

theorem head (h : Trail next a l) : l.head? = some a := by
  cases h <;> rfl

/-- Each node of a trail has the rest for its trail. -/
theorem of_mem (h : Trail next a l) (hb : b ∈ l) : ∃ l', Trail next b l' ∧ l' <:+ l := by
  induction h with
  | last hnone =>
    obtain rfl := List.mem_singleton.1 hb
    exact ⟨[b], .last hnone, List.suffix_rfl⟩
  | cons hsome ht ih =>
    obtain rfl | hb := List.mem_cons.1 hb
    · exact ⟨_, .cons hsome ht, List.suffix_rfl⟩
    · obtain ⟨l', hl', hsuffix⟩ := ih hb
      exact ⟨l', hl', hsuffix.trans (List.suffix_cons _ _)⟩

theorem nodup (h : Trail next a l) : l.Nodup := by
  induction h with
  | last => exact List.nodup_singleton _
  | @cons a b l hsome ht ih =>
    refine List.nodup_cons.2 ⟨fun hmem ↦ ?_, ih⟩
    -- a second `a` would have a shorter trail
    obtain ⟨l', hl', hsuffix⟩ := ht.of_mem hmem
    obtain rfl := hl'.unique (.cons hsome ht)
    exact absurd hsuffix.length_le (by simp)

theorem chain (h : Trail next a l) : l.IsChain fun a b ↦ next a = some b := by
  induction h with
  | last => exact .singleton _
  | cons hsome ht ih =>
    obtain ⟨l, rfl⟩ := List.head?_eq_some_iff.1 ht.head
    exact .cons_cons hsome ih

theorem next_last (h : Trail next a l) (hb : l.getLast? = some b) : next b = none := by
  induction h with
  | last hnone =>
    obtain rfl := Option.some.inj hb
    exact hnone
  | cons _ ht ih =>
    obtain ⟨l, rfl⟩ := List.head?_eq_some_iff.1 ht.head
    rw [List.getLast?_cons_cons] at hb
    exact ih hb

theorem upToRepetition (h : Trail next a l) : UpToRepetition next a l where
  head := h.head
  chain := h.chain
  nodup := h.nodup
  last _ hb c hc := absurd ((h.next_last hb).symm.trans hc) (Option.some_ne_none c).symm

/-- Whatever goes from node to node keeps to the trail. -/
theorem prefix_of_chain (h : Trail next a l) (hhead : l'.head? = some a)
    (hchain : l'.IsChain fun a b ↦ next a = some b) : l' <+: l := by
  induction h generalizing l' with
  | last hnone =>
    obtain ⟨rest, rfl⟩ := List.head?_eq_some_iff.1 hhead
    cases hchain with
    | singleton => exact List.prefix_rfl
    | cons_cons hsome _ => exact absurd (hnone.symm.trans hsome) (Option.some_ne_none _).symm
  | cons hsome ht ih =>
    obtain ⟨rest, rfl⟩ := List.head?_eq_some_iff.1 hhead
    cases hchain with
    | singleton => exact List.prefix_append [_] _
    | cons_cons hsome' hchain =>
      obtain rfl := Option.some.inj (hsome.symm.trans hsome')
      exact List.prefix_cons_inj _ |>.2 (ih rfl hchain)

end Trail

/-- The way as far as it is new is all of a trail. -/
theorem UpToRepetition.eq_trail (h : UpToRepetition next a l) (ht : Trail next a l') : l = l' := by
  obtain ⟨rest, rfl⟩ := ht.prefix_of_chain h.head h.chain
  cases rest with
  | nil => exact (List.append_nil l).symm
  | cons c rest =>
    obtain ⟨l₀, b, rfl⟩ : ∃ l₀ b, l = l₀ ++ [b] := by
      obtain ⟨rest', rfl⟩ := List.head?_eq_some_iff.1 h.head
      exact ⟨_, _, (List.dropLast_append_getLast (List.cons_ne_nil _ _)).symm⟩
    have hnext : next b = some c :=
      (List.isChain_append.1 ht.chain).2.2 b (by simp) c (by simp)
    have hmem : c ∈ l₀ ++ [b] := h.last b (by simp) c hnext
    exact ((List.nodup_append.1 ht.nodup).2.2 c hmem c (by simp) rfl).elim

end Foundation
