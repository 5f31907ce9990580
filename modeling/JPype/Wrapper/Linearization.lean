import JPype.Foundation.Turning
import Mathlib.Data.Fintype.Card

/-!
# The linearization of the bases

`PyJPClass_mro` of `pyjp_class.cpp`: in what order Python looks through the bases of a type. A first
loop gathers the type and all its ancestors, in the list that it goes through. A second one takes
the types from the front of that list; one that is still a base of another goes to the end, and
behind one that is taken its solid base `tp_base` moves up to the front.

`mro_linearExtension` is the result: both loops end, and what comes out is the type with its
ancestors, each once and each before its bases.
-/

open Foundation Relation

namespace JPype

/-- Types with their bases, as the type objects hold them. Nothing is among its own ancestors, and
the solid base, which `object` does not have, is one of the bases. -/
structure TypeGraph (T : Type*) where
  tpBases : T → List T
  tpBase : T → Option T
  tpBase_mem : ∀ {t b}, tpBase t = some b → b ∈ tpBases t
  acyclic : ∀ t, ¬TransGen (fun a b ↦ b ∈ tpBases a) t t

namespace TypeGraph

variable {T : Type*} (G : TypeGraph T)

/-- `b` is a base of `a`. -/
def IsBase (a b : T) : Prop :=
  b ∈ G.tpBases a

/-- `b` is `a` or one of the ancestors of `a`. -/
def IsAncestor : T → T → Prop :=
  ReflTransGen G.IsBase

variable [DecidableEq T]

/-- One round of the loop that merges together all bases: the position of its iterator, and the
list. -/
def mergeBases : ℕ × List T → (ℕ × List T) ⊕ List T
  | (i, bases) =>
    match bases[i]? with
    | none => .inr bases
    | some t => .inl (i + 1, (G.tpBases t).foldl
        (fun bases obj ↦ if obj ∈ bases then bases else bases ++ [obj]) bases)

/-- One round of the loop that empties the list `bases` into the list `out`. -/
def takeFront : List T × List T → (List T × List T) ⊕ List T
  | ([], out) => .inr out
  | (front :: bases, out) =>
    if bases.any fun t ↦ (G.tpBases t).contains front then .inl (bases ++ [front], out)
    else
      match G.tpBase front with
      | none => .inl (bases, out ++ [front])
      | some next => .inl (next :: bases.filter (· != next), out ++ [front])

/-- `PyJPClass_mro` -/
def mro (fuel : ℕ) (self : T) : Option (List T) := do
  let bases ← iterate G.mergeBases fuel (0, [self])
  iterate G.takeFront fuel (bases, [])

variable {G}

omit [DecidableEq T] in
theorem not_isBase_self (t : T) : ¬G.IsBase t t :=
  fun h ↦ G.acyclic t (TransGen.single h)

omit [DecidableEq T] in
/-- An ancestor does not derive from its descendants. -/
theorem IsAncestor.not_isBase {a b : T} (h : G.IsAncestor a b) : ¬G.IsBase b a :=
  fun hb ↦ G.acyclic b (TransGen.head' hb h)

/-! ### Gathering the ancestors -/

/-- What the merging of one type's bases does to the list. -/
theorem merge_spec (l : List T) : ∀ bases : List T, bases.Nodup →
    ∃ added, l.foldl (fun bases obj ↦ if obj ∈ bases then bases else bases ++ [obj]) bases =
      bases ++ added ∧ (bases ++ added).Nodup ∧ added ⊆ l ∧ l ⊆ bases ++ added := by
  induction l with
  | nil =>
    intro bases hnodup
    exact ⟨[], (List.append_nil _).symm, by rwa [List.append_nil], List.Subset.refl _,
      List.nil_subset _⟩
  | cons obj l ih =>
    intro bases hnodup
    rw [List.foldl_cons]
    split_ifs with hfound
    · obtain ⟨added, heq, hnodup', hadded, hl⟩ := ih bases hnodup
      refine ⟨added, heq, hnodup', List.subset_cons_of_subset obj hadded, ?_⟩
      exact List.cons_subset.2 ⟨List.mem_append_left added hfound, hl⟩
    · have hsnoc : (bases ++ [obj]).Nodup := by
        simpa only [List.concat_eq_append] using hnodup.concat hfound
      obtain ⟨added, heq, hnodup', hadded, hl⟩ := ih (bases ++ [obj]) hsnoc
      rw [List.append_assoc, List.singleton_append] at heq hnodup' hl
      refine ⟨obj :: added, heq, hnodup', List.cons_subset_cons obj hadded, ?_⟩
      refine List.cons_subset.2 ⟨?_, hl⟩
      exact List.mem_append_right bases List.mem_cons_self

/-- What holds in each round of the first loop: the bases of the types before the iterator are in
the list, and nothing is in it but ancestors. -/
structure Merging (G : TypeGraph T) (start : T) (s : ℕ × List T) : Prop where
  nodup : s.2.Nodup
  ancestor : ∀ t ∈ s.2, G.IsAncestor start t
  head : s.2.head? = some start
  closed : ∀ j < s.1, ∀ t, s.2[j]? = some t → ∀ b ∈ G.tpBases t, b ∈ s.2

omit [DecidableEq T] in
theorem merging_start (start : T) : Merging G start (0, [start]) where
  nodup := List.nodup_singleton start
  ancestor t ht := by
    rw [List.mem_singleton.1 ht]
    exact ReflTransGen.refl
  head := rfl
  closed j hj := absurd hj (Nat.not_lt_zero j)

theorem Merging.mergeBases {start : T} {s s' : ℕ × List T} (h : Merging G start s)
    (hs : G.mergeBases s = .inl s') : Merging G start s' ∧ s.1 < s.2.length ∧ s'.1 = s.1 + 1 := by
  obtain ⟨i, bases⟩ := s
  rw [TypeGraph.mergeBases] at hs
  cases hi : bases[i]? with
  | none =>
    rw [hi] at hs
    cases hs
  | some t =>
    rw [hi] at hs
    obtain rfl := Sum.inl.inj hs
    have hlt : i < bases.length := (List.getElem?_eq_some_iff.1 hi).1
    have ht : t ∈ bases := List.mem_of_getElem? hi
    obtain ⟨added, heq, hnodup, hadded, hl⟩ := merge_spec (G.tpBases t) bases h.nodup
    refine ⟨?_, hlt, rfl⟩
    show Merging G start (i + 1, _)
    rw [heq]
    refine ⟨hnodup, fun b hb ↦ ?_, ?_, fun j hj u hu b hb ↦ ?_⟩
    · rcases List.mem_append.1 hb with hb | hb
      · exact h.ancestor b hb
      · exact (h.ancestor t ht).tail (hadded hb)
    · show (bases ++ added).head? = some start
      rw [List.head?_append_of_ne_nil bases (List.ne_nil_of_mem ht)]
      exact h.head
    · have hj' : j < bases.length := by
        have : j < i + 1 := hj
        omega
      rw [List.getElem?_append_left hj'] at hu
      rcases Nat.lt_or_eq_of_le (Nat.le_of_lt_succ hj) with hji | rfl
      · exact List.mem_append_left added (h.closed j hji u hu b hb)
      · obtain rfl := Option.some.inj (hi.symm.trans hu)
        exact hl hb

/-- The first loop ends. -/
theorem exists_merged [Fintype T] (start : T) : ∃ bases, Ends G.mergeBases (0, [start]) bases := by
  refine Ends.exists_of_wellFounded Nat.lt_wfRel.wf (fun s ↦ Fintype.card T - s.1)
    (fun s s' h hs ↦ ?_) (merging_start (G := G) start)
  obtain ⟨h', hlt, hnext⟩ := h.mergeBases hs
  have hcard : s.2.length ≤ Fintype.card T := h.nodup.length_le_card
  refine ⟨h', ?_⟩
  show Fintype.card T - s'.1 < Fintype.card T - s.1
  omega

/-- What the second loop starts from: the type in front of all its ancestors. -/
theorem merged_spec {start : T} {bases : List T} (h : Ends G.mergeBases (0, [start]) bases) :
    bases.Nodup ∧ bases.head? = some start ∧ ∀ t, t ∈ bases ↔ G.IsAncestor start t := by
  have hend : ∀ s bases, Merging G start s → G.mergeBases s = .inr bases →
      (bases.Nodup ∧ bases.head? = some start ∧ ∀ t, t ∈ bases ↔ G.IsAncestor start t) := by
    rintro ⟨i, bases'⟩ bases hm hbases
    rw [TypeGraph.mergeBases] at hbases
    cases hi : bases'[i]? with
    | some t =>
      rw [hi] at hbases
      cases hbases
    | none =>
      rw [hi] at hbases
      obtain rfl := Sum.inr.inj hbases
      refine ⟨hm.nodup, hm.head, fun t ↦ ⟨hm.ancestor t, fun ht ↦ ?_⟩⟩
      induction ht with
      | refl => exact List.mem_of_mem_head? hm.head
      | tail _ hbase ih =>
        obtain ⟨j, hj⟩ := List.getElem?_of_mem ih
        have hji : j < i := by
          have hlt := (List.getElem?_eq_some_iff.1 hj).1
          exact Nat.lt_of_lt_of_le hlt (List.getElem?_eq_none_iff.1 hi)
        exact hm.closed j hji _ hj _ hbase
  have hstep : ∀ s s', Merging G start s → G.mergeBases s = .inl s' → Merging G start s' :=
    fun _ _ hm hs ↦ (hm.mergeBases hs).1
  have hspec := Ends.invariant hstep hend (merging_start start) h
  exact hspec

/-! ### Taking them in order -/

/-- What holds in each round of the second loop: every ancestor is on one of the two lists, once;
the bases of what remains remain; and no type that is out has one of its bases before it. -/
structure Taking (G : TypeGraph T) (start : T) (s : List T × List T) : Prop where
  nodup : (s.1 ++ s.2).Nodup
  mem : ∀ t, t ∈ s.1 ++ s.2 ↔ G.IsAncestor start t
  closed : ∀ t ∈ s.1, ∀ b ∈ G.tpBases t, b ∈ s.1
  pairwise : s.2.Pairwise fun a b ↦ ¬G.IsBase b a
  first : (s.2 = [] ∧ s.1.head? = some start) ∨ s.2.head? = some start

omit [DecidableEq T] in
theorem taking_start {start : T} {bases : List T} (hnodup : bases.Nodup)
    (hhead : bases.head? = some start) (hmem : ∀ t, t ∈ bases ↔ G.IsAncestor start t) :
    Taking G start (bases, []) where
  nodup := by rwa [List.append_nil]
  mem t := by rw [List.append_nil, hmem]
  closed t ht b hb := (hmem b).2 (((hmem t).1 ht).tail hb)
  pairwise := List.Pairwise.nil
  first := .inl ⟨rfl, hhead⟩

omit [DecidableEq T] in
/-- A type that is still a base of another goes to the end. -/
theorem Taking.turn {start front : T} {bases out : List T}
    (h : Taking G start (front :: bases, out))
    {t : T} (ht : t ∈ bases) (hbase : G.IsBase t front) :
    Taking G start (bases ++ [front], out) := by
  have hperm : (bases ++ [front] ++ out).Perm (front :: bases ++ out) :=
    (List.perm_append_singleton front bases).append_right out
  refine ⟨hperm.nodup_iff.2 h.nodup, fun u ↦ hperm.mem_iff.trans (h.mem u), fun u hu b hb ↦ ?_,
    h.pairwise, h.first.imp_left fun hfirst ↦ ?_⟩
  · have hperm' := List.perm_append_singleton front bases
    exact hperm'.mem_iff.2 (h.closed u (hperm'.mem_iff.1 hu) b hb)
  · -- The first type itself is never a base of one of its ancestors.
    obtain rfl : front = start := Option.some.inj hfirst.2
    have hancestor : G.IsAncestor front t :=
      (h.mem t).1 (List.mem_append_left out (List.mem_cons_of_mem front ht))
    exact absurd hbase hancestor.not_isBase

omit [DecidableEq T] in
/-- A type from which nothing that remains derives is taken; what remains may be put in another
order. -/
theorem Taking.take {start front : T} {bases bases' out : List T}
    (h : Taking G start (front :: bases, out)) (hfront : ∀ t ∈ bases, ¬G.IsBase t front)
    (hperm : bases'.Perm bases) : Taking G start (bases', out ++ [front]) := by
  have hall : (bases' ++ (out ++ [front])).Perm (front :: bases ++ out) := by
    refine (hperm.append_right _).trans ?_
    rw [← List.append_assoc]
    exact List.perm_append_singleton front (bases ++ out)
  refine ⟨hall.nodup_iff.2 h.nodup, fun t ↦ hall.mem_iff.trans (h.mem t), fun t ht b hb ↦ ?_, ?_,
    .inr ?_⟩
  · have ht' := hperm.mem_iff.1 ht
    have hbase := h.closed t (List.mem_cons_of_mem front ht') b hb
    refine hperm.mem_iff.2 ((List.mem_cons.1 hbase).resolve_left ?_)
    rintro rfl
    exact hfront t ht' hb
  · refine List.pairwise_append.2 ⟨h.pairwise, List.pairwise_singleton _ _, fun a ha b hb ↦ ?_⟩
    obtain rfl := List.mem_singleton.1 hb
    intro hbase
    have hmem := h.closed b List.mem_cons_self a hbase
    exact (List.nodup_append.1 h.nodup).2.2 a hmem a ha rfl
  · rcases h.first with ⟨rfl, hhead⟩ | hhead
    · exact hhead
    · show (out ++ [front]).head? = some start
      rw [List.head?_append, hhead]
      rfl

/-- Moving the solid base up to the front only changes the order. -/
theorem Taking.perm_next {start front next : T} {bases out : List T}
    (h : Taking G start (front :: bases, out)) (hnext : G.tpBase front = some next) :
    (next :: bases.filter (· != next)).Perm bases := by
  have hbase := G.tpBase_mem hnext
  have hmem : next ∈ bases := by
    refine (List.mem_cons.1 (h.closed front List.mem_cons_self next hbase)).resolve_left ?_
    rintro rfl
    exact not_isBase_self next hbase
  have hnodup : bases.Nodup := (List.nodup_cons.1 (List.nodup_append.1 h.nodup).1).2
  rw [← hnodup.erase_eq_filter]
  exact (List.perm_cons_erase hmem).symm

/-- One round of the second loop takes the front or turns the list. -/
theorem Taking.takeFront {start : T} {s s' : List T × List T} (h : Taking G start s)
    (hs : G.takeFront s = .inl s') :
    Taking G start s' ∧ (s'.1.length < s.1.length ∨ ∃ front bases, s.1 = front :: bases ∧
      s'.1 = bases ++ [front] ∧ ∃ t ∈ bases, G.IsBase t front) := by
  obtain ⟨_ | ⟨front, bases⟩, out⟩ := s
  · cases hs
  · rw [TypeGraph.takeFront] at hs
    split_ifs at hs with hany
    · obtain rfl := Sum.inl.inj hs
      obtain ⟨t, ht, hcontains⟩ := List.any_eq_true.1 hany
      have hbase : G.IsBase t front := List.contains_iff_mem.1 hcontains
      exact ⟨h.turn ht hbase, .inr ⟨front, bases, rfl, rfl, t, ht, hbase⟩⟩
    · have hfront : ∀ t ∈ bases, ¬G.IsBase t front := by
        intro t ht hbase
        exact hany (List.any_eq_true.2 ⟨t, ht, List.contains_iff_mem.2 hbase⟩)
      cases hnext : G.tpBase front with
      | none =>
        rw [hnext] at hs
        obtain rfl := Sum.inl.inj hs
        exact ⟨h.take hfront (List.Perm.refl bases), .inl (Nat.lt_succ_self _)⟩
      | some next =>
        rw [hnext] at hs
        obtain rfl := Sum.inl.inj hs
        have hperm := h.perm_next hnext
        refine ⟨h.take hfront hperm, .inl ?_⟩
        show (next :: bases.filter (· != next)).length < (front :: bases).length
        rw [hperm.length_eq]
        exact Nat.lt_succ_self _

/-- The second loop ends: of the types that remain there is one from which no other derives. -/
theorem Taking.exists_taken {start : T} {s : List T × List T} (h : Taking G start s) :
    ∃ out, Ends G.takeFront s out := by
  have hready : ∀ {bases : List T} {t : T},
      (!bases.any fun u ↦ (G.tpBases u).contains t) = true ↔ ∀ u ∈ bases, ¬G.IsBase u t := by
    intro bases t
    rw [Bool.not_eq_true', List.any_eq_false]
    exact forall₂_congr fun u _ ↦ not_congr List.contains_iff_mem
  refine exists_ends_of_turning (Taking G start)
    (fun s t ↦ !s.1.any fun u ↦ (G.tpBases u).contains t) (fun s s' hinv hs ↦ ?_) h
  obtain ⟨hinv', hlt | ⟨front, bases, heq, heq', t, ht, hbase⟩⟩ := hinv.takeFront hs
  · exact ⟨hinv', .inl hlt⟩
  · refine ⟨hinv', .inr ⟨front, bases, heq, heq', ?_, ?_, fun u _ ↦ ?_⟩⟩
    · rw [← Bool.not_eq_true, hready, heq]
      exact fun hall ↦ hall t (List.mem_cons_of_mem front ht) hbase
    · obtain ⟨a, ha, hfirst⟩ := exists_first G.acyclic (List.cons_ne_nil front bases)
      have hne : a ≠ front := by
        rintro rfl
        exact hfirst t (List.mem_cons_of_mem a ht) hbase
      refine ⟨a, (List.mem_cons.1 ha).resolve_left hne, ?_⟩
      rw [hready, heq]
      exact hfirst
    · have hperm : s'.1.Perm s.1 := by
        rw [heq, heq']
        exact List.perm_append_singleton front bases
      rw [hready, hready]
      exact fun hall v hv ↦ hall v (hperm.mem_iff.1 hv)

/-- What the second loop leaves in the list `out`. -/
theorem Taking.taken_spec {start : T} {s : List T × List T} {out : List T} (h : Taking G start s)
    (hout : Ends G.takeFront s out) :
    out.Nodup ∧ (∀ t, t ∈ out ↔ G.IsAncestor start t) ∧ out.Pairwise (fun a b ↦ ¬G.IsBase b a) ∧
      out.head? = some start := by
  have hend : ∀ s out, Taking G start s → G.takeFront s = .inr out →
      (out.Nodup ∧ (∀ t, t ∈ out ↔ G.IsAncestor start t) ∧
        out.Pairwise (fun a b ↦ ¬G.IsBase b a) ∧ out.head? = some start) := by
    rintro ⟨_ | ⟨front, bases⟩, out'⟩ out hs hout
    · obtain rfl := Sum.inr.inj hout
      refine ⟨hs.nodup, hs.mem, hs.pairwise, hs.first.resolve_left ?_⟩
      rintro ⟨-, hnone⟩
      cases hnone
    · rw [TypeGraph.takeFront] at hout
      split_ifs at hout
      cases hnext : G.tpBase front with
      | none =>
        rw [hnext] at hout
        cases hout
      | some next =>
        rw [hnext] at hout
        cases hout
  have hstep : ∀ s s', Taking G start s → G.takeFront s = .inl s' → Taking G start s' :=
    fun _ _ hs hnext ↦ (hs.takeFront hnext).1
  have hspec := Ends.invariant hstep hend h hout
  exact hspec

/-- Where no type has one of its bases before it, its bases come behind it. -/
theorem idxOf_lt_of_isBase {out : List T} (hout : out.Pairwise fun a b ↦ ¬G.IsBase b a) {t b : T}
    (ht : t ∈ out) (hb : G.IsBase t b) : out.idxOf t < out.idxOf b := by
  induction out with
  | nil => exact absurd ht List.not_mem_nil
  | cons a out ih =>
    obtain ⟨ha, hout⟩ := List.pairwise_cons.1 hout
    have hab : t ∈ out → a ≠ b := by
      rintro hmem rfl
      exact ha t hmem hb
    rcases List.mem_cons.1 ht with rfl | hmem
    · have hne : t ≠ b := by
        rintro rfl
        exact not_isBase_self t hb
      rw [List.idxOf_cons_self, List.idxOf_cons_ne out hne]
      exact Nat.succ_pos _
    · by_cases hat : a = t
      · subst hat
        rw [List.idxOf_cons_self, List.idxOf_cons_ne out (hab hmem)]
        exact Nat.succ_pos _
      · rw [List.idxOf_cons_ne out hat, List.idxOf_cons_ne out (hab hmem)]
        exact Nat.succ_lt_succ (ih hout hmem)

/-- `PyJPClass_mro` ends, with a list that starts with the type itself, holds it and each of its
ancestors once and nothing else, and has every type before its bases. -/
theorem mro_linearExtension {T : Type*} [DecidableEq T] [Fintype T] (G : TypeGraph T) (self : T) :
    ∃ out, (∃ enough, ∀ fuel ≥ enough, G.mro fuel self = some out) ∧ out.head? = some self ∧
      out.Nodup ∧ (∀ t, t ∈ out ↔ G.IsAncestor self t) ∧
      ∀ t ∈ out, ∀ b ∈ G.tpBases t, out.idxOf t < out.idxOf b := by
  obtain ⟨bases, hbases⟩ : ∃ bases, Ends G.mergeBases (0, [self]) bases := exists_merged self
  obtain ⟨hnodup, hhead, hmem⟩ := merged_spec hbases
  have hstart := taking_start hnodup hhead hmem
  obtain ⟨out, hout⟩ := hstart.exists_taken
  have hend := hstart.taken_spec hout
  obtain ⟨hnodup', hmem', hpairwise, hhead'⟩ := hend
  obtain ⟨enough, henough⟩ := hbases
  obtain ⟨enough', henough'⟩ := hout
  refine ⟨out, ⟨max enough enough', fun fuel hfuel ↦ ?_⟩, hhead', hnodup', hmem',
    fun t ht b hb ↦ ?_⟩
  · have hmerged := iterate_mono (Nat.le_trans (Nat.le_max_left _ _) hfuel) henough
    rw [mro, hmerged]
    exact iterate_mono (Nat.le_trans (Nat.le_max_right _ _) hfuel) henough'
  · exact idxOf_lt_of_isBase hpairwise ht hb

omit [DecidableEq T] in
/-- Where every base has a smaller rank, nothing is among its own ancestors. -/
theorem acyclic_of_rank {tpBases : T → List T} (rank : T → ℕ)
    (hrank : ∀ a, ∀ b ∈ tpBases a, rank b < rank a) (t : T) :
    ¬TransGen (fun a b ↦ b ∈ tpBases a) t t := by
  intro hcycle
  have hlt : ∀ {a b}, TransGen (fun a b ↦ b ∈ tpBases a) a b → rank b < rank a := by
    intro a b h
    induction h with
    | single hbase => exact hrank _ _ hbase
    | tail _ hbase ih => exact (hrank _ _ hbase).trans ih
  exact lt_irrefl _ (hlt hcycle)

/-- A class with two interfaces that have one base in common. -/
def diamond : TypeGraph (Fin 4) where
  tpBases
    | 0 => []
    | 1 => [0]
    | 2 => [0]
    | 3 => [1, 2]
  tpBase
    | 0 => none
    | 1 => some 0
    | 2 => some 0
    | 3 => some 1
  tpBase_mem := by decide
  acyclic := acyclic_of_rank Fin.val (by decide)

/-- The base in common comes behind both interfaces. -/
theorem mro_linearExtension_diamond :
    ∃ out, (∃ enough, ∀ fuel ≥ enough, diamond.mro fuel 3 = some out) ∧ out.head? = some 3 ∧
      out.idxOf 1 < out.idxOf 0 ∧ out.idxOf 2 < out.idxOf 0 := by
  obtain ⟨out, hends, hhead, -, hmem, hbefore⟩ := mro_linearExtension diamond 3
  have hinterface (t) (ht : t ∈ diamond.tpBases 3) : t ∈ out := (hmem t).2 (.single ht)
  exact ⟨out, hends, hhead, hbefore 1 (hinterface 1 (by decide)) 0 (by decide),
    hbefore 2 (hinterface 2 (by decide)) 0 (by decide)⟩

end TypeGraph

end JPype
