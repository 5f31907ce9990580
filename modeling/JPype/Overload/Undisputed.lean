import JPype.Overload.Succession
import Mathlib.Logic.Relation

/-!
# Selection in every order

Candidates arrive in some order in which nobody stands before a candidate that hides it, and which
is otherwise open. A candidate is undisputed among the others (`Undisputed`) if it beats each of
them, whichever of the two comes first; or if it matches exactly and no other exact match can come
before it. Neither mentions an order of the list.

An undisputed candidate wins in an order unless that order leaves a tie to it (`LeftTie`): rivals
of a former leader that are still on the list when an exact match ends the fold, or when the
candidate takes the lead by its preference. So two orders of which the one selects an undisputed
candidate and the other leaves no tie to it select alike (`winner_perm`). Conversely a candidate
that wins in every order is undisputed, provided that hiding is transitive
(`winner_forall_iff`).
-/

namespace JPype

namespace Contest

variable {α ε : Type} (c : Contest α) (quality : α → MatchType)

/-- Nobody stands before a candidate that hides it. -/
def Ordered (l : List α) : Prop :=
  l.Pairwise fun x y ↦ c.hides y x = false

/-- The winner of the fold over a list. -/
def winner (rate : α → Except ε MatchType) (l : List α) : Except ε (Option α) :=
  (c.pick rate l none []).map winnerOf

/-- Candidate `m` is taken rather than `a`, whichever of them comes first. -/
def Beats (m a : α) : Prop :=
  c.hides m a = true ∨ (c.hides a m = false ∧ c.rank quality a < c.rank quality m)

/-- Candidate `a` stands before `b` in every order of the candidates `l`: it hides it, or there is
a chain of candidates each of which hides the next. -/
def Precedes (l : List α) : α → α → Prop :=
  Relation.TransGen fun x y ↦ x ∈ l ∧ y ∈ l ∧ c.hides x y = true

/-- **What selection is for**: `m` is undisputed among the candidates `l`. -/
structure Undisputed (l : List α) (m : α) : Prop where
  mem : m ∈ l
  matching : Matching quality m
  /-- No other exact match can come before an exact match. -/
  exact : quality m = .exact → ∀ e ∈ l, quality e = .exact → e ≠ m → c.Precedes l m e
  /-- Without an exact match, `m` beats the others. -/
  inexact : quality m ≠ .exact →
    ∀ a ∈ l, Matching quality a → a ≠ m → quality a ≠ .exact ∧ c.Beats quality m a

/-- In the order `l`, the rivals of a leader before `m` are still on the list when `m`, an exact
match, ends the fold, or takes over by its preference alone. -/
def LeftTie (l : List α) (m : α) : Prop :=
  (quality m = .exact ∧ ∃ pre post b r, l = pre ++ m :: post ∧
    (c.Rival quality pre b r ∨ c.Stale quality pre b r)) ∨
  ∃ r, c.Stale quality l m r

variable {c quality} {rate : α → Except ε MatchType} {l l' : List α} {m : α}

/-! ### Orders -/

/-- Whoever stands before the other is not preceded by it. -/
theorem Ordered.not_precedes {pre post : List α} {e : α} (h : c.Ordered (pre ++ m :: post))
    (hnodup : (pre ++ m :: post).Nodup) (he : e ∈ pre) :
    ¬c.Precedes (pre ++ m :: post) m e := by
  intro hprec
  have hpost : e ∈ m :: post := by
    induction hprec with
    | single hstep =>
      obtain ⟨-, hmem, hhides⟩ := hstep
      have hbefore := (List.pairwise_append.1 h).2.2 _ he m List.mem_cons_self
      exact absurd (hbefore.symm.trans hhides) Bool.false_ne_true
    | @tail x y _ hstep ih =>
      obtain ⟨hx, -, hhides⟩ := hstep
      have hxpost : x ∈ m :: post := by
        rcases List.mem_append.1 hx with hxpre | hxpost
        · exact ih hxpre
        · exact hxpost
      have hbefore := (List.pairwise_append.1 h).2.2 _ he x hxpost
      exact absurd (hbefore.symm.trans hhides) Bool.false_ne_true
  exact (List.nodup_append.1 hnodup).2.2 e he e hpost rfl

/-- Whoever hides a candidate stands before it. -/
theorem Ordered.mem_front {pre post : List α} {a : α} (h : c.Ordered (pre ++ m :: post))
    (ha : a ∈ pre ++ m :: post) (hne : a ≠ m) (hhides : c.hides a m = true) : a ∈ pre := by
  rcases List.mem_append.1 ha with hpre | hpost
  · exact hpre
  · have hpost := (List.mem_cons.1 hpost).resolve_left hne
    have hbefore := (List.pairwise_cons.1 (List.pairwise_append.1 h).2.1).1 a hpost
    exact absurd (hbefore.symm.trans hhides) Bool.false_ne_true

theorem Precedes.perm {a b : α} (h : c.Precedes l a b) (hperm : l.Perm l') :
    c.Precedes l' a b :=
  Relation.TransGen.mono
    (fun _ _ h ↦ ⟨hperm.mem_iff.1 h.1, hperm.mem_iff.1 h.2.1, h.2.2⟩) _ _ h

theorem Undisputed.perm (h : c.Undisputed quality l m) (hperm : l.Perm l') :
    c.Undisputed quality l' m where
  mem := hperm.mem_iff.1 h.mem
  matching := h.matching
  exact hm e he hee hne := (h.exact hm e (hperm.mem_iff.2 he) hee hne).perm hperm
  inexact hm a ha := h.inexact hm a (hperm.mem_iff.2 ha)

/-! ### The winner of an order -/

theorem exists_leader (h : ∃ a ∈ l, Matching quality a) : ∃ b, c.Leader quality l b := by
  induction l using List.reverseRecOn with
  | nil =>
    obtain ⟨a, ha, -⟩ := h
    exact absurd ha List.not_mem_nil
  | append_singleton l a ih =>
    by_cases hl : ∃ x ∈ l, Matching quality x
    · obtain ⟨b, hb⟩ := ih hl
      by_cases hover : c.Overtakes quality b a
      · exact ⟨a, leader_concat.2 (.inr (.inl ⟨b, hb, hover, rfl⟩))⟩
      · exact ⟨b, leader_concat.2 (.inl ⟨hb, hover⟩)⟩
    · obtain ⟨x, hx, hmatch⟩ := h
      have hnone : ∀ x ∈ l, ¬Matching quality x := fun x hx hm ↦ hl ⟨x, hx, hm⟩
      rcases List.mem_append.1 hx with hx | hx
      · exact absurd hmatch (hnone x hx)
      · obtain rfl := List.mem_singleton.1 hx
        exact ⟨x, leader_concat.2 (.inr (.inr ⟨hnone, hmatch, rfl⟩))⟩

theorem Recalls.winnerOf_eq_some_iff {best : Option (α × MatchType)} {rivals : List α}
    (h : c.Recalls quality l best rivals) :
    winnerOf (best, rivals) = some m ↔
      c.Leader quality l m ∧ ∀ b r, ¬c.Rival quality l b r ∧ ¬c.Stale quality l b r := by
  have hnil := h.eq_nil_iff
  rcases best with - | ⟨b, q⟩
  · obtain ⟨rfl, hnone⟩ := h
    refine iff_of_false (by simp [winnerOf]) fun hm ↦ ?_
    exact hnone m hm.1.matching.1 hm.1.matching.2
  · obtain ⟨-, hb, -⟩ := h
    rw [winnerOf, ← hnil]
    constructor
    · intro h
      split at h
      · next hrivals => exact ⟨Option.some.inj h ▸ hb, hrivals⟩
      · cases h
    · rintro ⟨hm, hrivals⟩
      rw [if_pos hrivals, hb.unique hm]
      rfl

/-- The first exact match wins, unless somebody before it has rivals. -/
theorem winner_of_exact {pre : List α} (post : List α) {e : α}
    (hpre : ∀ a ∈ pre, rate a = .ok (quality a) ∧ quality a ≠ .exact)
    (he : rate e = .ok .exact) :
    ∃ t, c.winner rate (pre ++ e :: post) = .ok t ∧
      (t = some m ↔ e = m ∧ ∀ b r, ¬c.Rival quality pre b r ∧ ¬c.Stale quality pre b r) := by
  obtain ⟨best, rivals, hrec, hpick⟩ := pick_of_first_exact (c := c) post hpre he
  refine ⟨_, by rw [winner, hpick, Except.map], ?_⟩
  rw [winnerOf, ← hrec.eq_nil_iff]
  by_cases hrivals : rivals = []
  · simp [hrivals]
  · simp [hrivals]

/-- Without an exact match the last leader wins, unless it has rivals or there are stale ones. -/
theorem winner_of_inexact (h : ∀ a ∈ l, rate a = .ok (quality a) ∧ quality a ≠ .exact) :
    ∃ t, c.winner rate l = .ok t ∧ ∀ m, t = some m ↔
      c.Leader quality l m ∧ ∀ b r, ¬c.Rival quality l b r ∧ ¬c.Stale quality l b r := by
  obtain ⟨best, rivals, hrec, hpick⟩ := pick_of_inexact (c := c) h
  exact ⟨_, by rw [winner, hpick, Except.map], fun m ↦ hrec.winnerOf_eq_some_iff⟩

/-- The first exact match of a list. -/
theorem exists_first_exact (h : ∃ e ∈ l, quality e = .exact) :
    ∃ pre e post, l = pre ++ e :: post ∧ quality e = .exact ∧ ∀ a ∈ pre, quality a ≠ .exact := by
  obtain ⟨e, he⟩ := Option.isSome_iff_exists.1 (List.find?_isSome (p := fun a ↦
    decide (quality a = .exact)).2 (by simpa using h))
  obtain ⟨hexact, pre, post, rfl, hpre⟩ := List.find?_eq_some_iff_append.1 he
  exact ⟨pre, e, post, rfl, by simpa using hexact, by simpa using hpre⟩

/-- Rated candidates have a winner or none, and only one of them wins. -/
theorem exists_winner (hrate : ∀ a ∈ l, rate a = .ok (quality a)) :
    ∃ t, c.winner rate l = .ok t := by
  by_cases hexact : ∃ e ∈ l, quality e = .exact
  · obtain ⟨pre, e, post, rfl, he, hpre⟩ := exists_first_exact hexact
    have hpre : ∀ a ∈ pre, rate a = .ok (quality a) ∧ quality a ≠ .exact :=
      fun a ha ↦ ⟨hrate a (List.mem_append_left _ ha), hpre a ha⟩
    have he : rate e = .ok .exact := he ▸ hrate e (by simp)
    obtain ⟨t, ht, -⟩ := winner_of_exact (c := c) (m := e) post hpre he
    exact ⟨t, ht⟩
  · obtain ⟨t, ht, -⟩ := winner_of_inexact (c := c) fun a ha ↦
      ⟨hrate a ha, fun he ↦ hexact ⟨a, ha, he⟩⟩
    exact ⟨t, ht⟩

/-! ### An undisputed candidate wins -/

theorem Beats.not_overtakes {a : α} (h : c.Beats quality m a) : ¬c.Overtakes quality m a := by
  rintro ⟨-, hhides, hrank⟩
  rcases h with h | ⟨-, h⟩
  · exact absurd (hhides.symm.trans h) Bool.false_ne_true
  · exact lt_asymm hrank h

theorem Beats.not_level {a : α} (h : c.Beats quality m a) : ¬c.Level quality m a := by
  rintro ⟨-, hhides, hrank⟩
  rcases h with h | ⟨-, h⟩
  · exact absurd (hhides.symm.trans h) Bool.false_ne_true
  · exact h.ne hrank

/-- A candidate overtakes a leader that it beats. -/
theorem Beats.overtakes {b : α} (h : c.Beats quality m b) (hm : Matching quality m)
    (hbefore : c.hides m b = false) : c.Overtakes quality b m := by
  rcases h with h | ⟨hhides, hrank⟩
  · exact absurd (hbefore.symm.trans h) Bool.false_ne_true
  · exact ⟨hm, hhides, hrank⟩

/-- A candidate that beats all others leads in the end. -/
theorem Undisputed.leader (hm : c.Undisputed quality l m) (hinexact : quality m ≠ .exact)
    (hnodup : l.Nodup) (hord : c.Ordered l) : c.Leader quality l m := by
  have hbeats := hm.inexact hinexact
  obtain ⟨pre, post, rfl⟩ := List.append_of_mem hm.mem
  obtain ⟨-, hnodup', hdisjoint⟩ := List.nodup_append.1 hnodup
  have hpost : ∀ a ∈ post, ¬c.Overtakes quality m a := by
    intro a ha hover
    have hne : a ≠ m := fun he ↦ (List.nodup_cons.1 hnodup').1 (he ▸ ha)
    exact (hbeats a (by simp [ha]) hover.1 hne).2.not_overtakes hover
  by_cases hpre : ∃ a ∈ pre, Matching quality a
  · obtain ⟨b, hb⟩ := exists_leader (c := c) hpre
    obtain ⟨hbmem, hbmatch⟩ := hb.matching
    have hne : b ≠ m := hdisjoint b hbmem m List.mem_cons_self
    have hbefore : c.hides m b = false :=
      (List.pairwise_append.1 hord).2.2 b hbmem m List.mem_cons_self
    have hbeat := (hbeats b (List.mem_append_left _ hbmem) hbmatch hne).2
    exact .next hb (hbeat.overtakes hm.matching hbefore) hpost
  · exact .first (fun a ha hmatch ↦ hpre ⟨a, ha, hmatch⟩) hm.matching hpost

theorem Undisputed.not_rival (hm : c.Undisputed quality l m) (hinexact : quality m ≠ .exact)
    (hnodup : l.Nodup) (r : α) : ¬c.Rival quality l m r := by
  rintro ⟨pre, post, rfl, hlead, hlevel, -⟩
  have hne : r ≠ m := fun he ↦
    (List.nodup_append.1 hnodup).2.2 m hlead.matching.1 r List.mem_cons_self he.symm
  exact (hm.inexact hinexact r (by simp) hlevel.1 hne).2.not_level hlevel

/-- No other exact match stands before an undisputed one. -/
theorem Undisputed.first_exact {pre post : List α} {e : α}
    (hm : c.Undisputed quality (pre ++ e :: post) m) (hexact : quality m = .exact)
    (hnodup : (pre ++ e :: post).Nodup) (hord : c.Ordered (pre ++ e :: post))
    (he : quality e = .exact) (hpre : ∀ a ∈ pre, quality a ≠ .exact) : e = m := by
  by_contra hne
  have hpost : m ∈ post := by
    rcases List.mem_append.1 hm.mem with hmem | hmem
    · exact absurd hexact (hpre m hmem)
    · exact (List.mem_cons.1 hmem).resolve_left (Ne.symm hne)
  obtain ⟨s, t, rfl⟩ := List.append_of_mem hpost
  have hl : pre ++ e :: (s ++ m :: t) = (pre ++ e :: s) ++ m :: t := by simp
  have hprec := hm.exact hexact e (by simp) he hne
  rw [hl] at hprec hnodup hord
  exact hord.not_precedes hnodup (by simp) hprec

theorem matching_of_exact {a : α} (h : quality a = .exact) : Matching quality a := by
  rw [Matching, h]
  decide

/-- **An undisputed candidate wins in every order that leaves no tie to it.** -/
theorem Undisputed.winner (hm : c.Undisputed quality l m)
    (hrate : ∀ a ∈ l, rate a = .ok (quality a)) (hnodup : l.Nodup) (hord : c.Ordered l)
    (htie : ¬c.LeftTie quality l m) : c.winner rate l = .ok (some m) := by
  by_cases hexact : quality m = .exact
  · obtain ⟨pre, e, post, rfl, he, hpre⟩ := exists_first_exact ⟨m, hm.mem, hexact⟩
    obtain rfl : e = m := hm.first_exact hexact hnodup hord he hpre
    have hratepre : ∀ a ∈ pre, rate a = .ok (quality a) ∧ quality a ≠ .exact :=
      fun a ha ↦ ⟨hrate a (List.mem_append_left _ ha), hpre a ha⟩
    have hratee : rate e = .ok .exact := he ▸ hrate e (by simp)
    obtain ⟨t, ht, hiff⟩ := winner_of_exact (c := c) (m := e) post hratepre hratee
    rw [ht, hiff.2 ⟨rfl, fun b r ↦ ?_⟩]
    rw [← not_or]
    exact fun h ↦ htie (.inl ⟨hexact, pre, post, b, r, rfl, h⟩)
  · have hall : ∀ a ∈ l, rate a = .ok (quality a) ∧ quality a ≠ .exact := by
      refine fun a ha ↦ ⟨hrate a ha, fun he ↦ ?_⟩
      rcases eq_or_ne a m with rfl | hne
      · exact hexact he
      · exact (hm.inexact hexact a ha (matching_of_exact he) hne).1 he
    obtain ⟨t, ht, hiff⟩ := winner_of_inexact (c := c) hall
    have hlead := hm.leader hexact hnodup hord
    rw [ht, (hiff m).2 ⟨hlead, fun b r ↦ ⟨fun h ↦ ?_, fun h ↦ ?_⟩⟩]
    · exact hm.not_rival hexact hnodup r (hlead.unique h.leader ▸ h)
    · exact htie (.inr ⟨r, hlead.unique h.leader ▸ h⟩)

/-- **Order independence.** If a candidate that wins in one of two orders is undisputed, and the
other order leaves no tie to it, then the two orders have the same winner, or none. -/
theorem winner_perm (hrate : ∀ a ∈ l, rate a = .ok (quality a)) (hnodup : l.Nodup)
    (hperm : l.Perm l') (hord : c.Ordered l) (hord' : c.Ordered l')
    (h : ∀ m, c.winner rate l = .ok (some m) →
      c.Undisputed quality l m ∧ ¬c.LeftTie quality l' m)
    (h' : ∀ m, c.winner rate l' = .ok (some m) →
      c.Undisputed quality l m ∧ ¬c.LeftTie quality l m) :
    c.winner rate l = c.winner rate l' := by
  have hnodup' : l'.Nodup := hperm.nodup_iff.1 hnodup
  have hrate' : ∀ a ∈ l', rate a = .ok (quality a) := fun a ha ↦ hrate a (hperm.mem_iff.2 ha)
  obtain ⟨t, ht⟩ := exists_winner (c := c) hrate
  obtain ⟨t', ht'⟩ := exists_winner (c := c) hrate'
  rcases t with - | m
  · rcases t' with - | m'
    · rw [ht, ht']
    · obtain ⟨hm, htie⟩ := h' m' ht'
      rw [ht', hm.winner hrate hnodup hord htie]
  · obtain ⟨hm, htie⟩ := h m ht
    rw [ht, (hm.perm hperm).winner hrate' hnodup' hord' htie]

/-! ### A candidate that wins in every order -/

/-- How a leader came to lead. -/
theorem Leader.exists_split (h : c.Leader quality l m) :
    ∃ pre post, l = pre ++ m :: post ∧
      ((∀ a ∈ pre, ¬Matching quality a) ∨ ∃ b, c.Leader quality pre b ∧ c.Overtakes quality b m) ∧
      ∀ a ∈ post, ¬c.Overtakes quality m a := by
  rcases h with ⟨hpre, -, hpost⟩ | ⟨hb, hover, hpost⟩
  · exact ⟨_, _, rfl, .inl hpre, hpost⟩
  · exact ⟨_, _, rfl, .inr ⟨_, hb, hover⟩, hpost⟩

theorem split_unique {pre post pre' post' : List α} (hnodup : (pre ++ m :: post).Nodup)
    (h : pre ++ m :: post = pre' ++ m :: post') : pre = pre' ∧ post = post' := by
  have hpre : m ∉ pre := fun hm ↦
    (List.nodup_append.1 hnodup).2.2 m hm m List.mem_cons_self rfl
  have hpost : m ∉ post := (List.nodup_cons.1 (List.nodup_append.1 hnodup).2.1).1
  obtain ⟨hpre, -, hpost⟩ := (List.append_cons_inj_of_notMem hpre hpost).1 h
  exact ⟨hpre, hpost⟩

/-- What a win says: of an exact match that it is the first one, and without an exact match that the
winner leads. In both cases nobody is left as a rival. -/
theorem winner_cases (hrate : ∀ a ∈ l, rate a = .ok (quality a))
    (h : c.winner rate l = .ok (some m)) :
    (quality m = .exact ∧ ∃ pre post, l = pre ++ m :: post ∧ (∀ a ∈ pre, quality a ≠ .exact) ∧
      ∀ b r, ¬c.Rival quality pre b r ∧ ¬c.Stale quality pre b r) ∨
    ((∀ a ∈ l, quality a ≠ .exact) ∧ c.Leader quality l m ∧
      ∀ b r, ¬c.Rival quality l b r ∧ ¬c.Stale quality l b r) := by
  by_cases hexact : ∃ e ∈ l, quality e = .exact
  · obtain ⟨pre, e, post, rfl, he, hpre⟩ := exists_first_exact hexact
    have hratepre : ∀ a ∈ pre, rate a = .ok (quality a) ∧ quality a ≠ .exact :=
      fun a ha ↦ ⟨hrate a (List.mem_append_left _ ha), hpre a ha⟩
    have hratee : rate e = .ok .exact := he ▸ hrate e (by simp)
    obtain ⟨t, ht, hiff⟩ := winner_of_exact (c := c) (m := m) post hratepre hratee
    obtain ⟨rfl, hrivals⟩ := hiff.1 (Except.ok.inj (ht.symm.trans h))
    exact .inl ⟨he, pre, post, rfl, hpre, hrivals⟩
  · have hall : ∀ a ∈ l, quality a ≠ .exact := fun a ha he ↦ hexact ⟨a, ha, he⟩
    obtain ⟨t, ht, hiff⟩ := winner_of_inexact (c := c) fun a ha ↦ ⟨hrate a ha, hall a ha⟩
    exact .inr ⟨hall, (hiff m).1 (Except.ok.inj (ht.symm.trans h))⟩

/-- No tie is left to a candidate that wins. -/
theorem not_leftTie_of_winner (hrate : ∀ a ∈ l, rate a = .ok (quality a)) (hnodup : l.Nodup)
    (h : c.winner rate l = .ok (some m)) : ¬c.LeftTie quality l m := by
  rcases winner_cases hrate h with ⟨hexact, pre, post, rfl, -, hrivals⟩ | ⟨hall, hlead, hrivals⟩
  · rintro (⟨-, pre', post', b, r, hl, htie⟩ | ⟨r, pre', post', b, hl, htie, -⟩)
    · obtain ⟨rfl, -⟩ := split_unique hnodup hl
      exact htie.elim (hrivals b r).1 (hrivals b r).2
    · obtain ⟨rfl, -⟩ := split_unique hnodup hl
      exact (hrivals b r).1 htie
  · rintro (⟨hexact, -⟩ | ⟨r, hstale⟩)
    · exact hall m hlead.matching.1 hexact
    · exact (hrivals m r).2 hstale

/-- Candidates may be drawn to the front together with those that hide them. -/
theorem Ordered.filter_append {p : α → Bool} (h : c.Ordered l)
    (hp : ∀ x ∈ l, ∀ y ∈ l, c.hides x y = true → p y = true → p x = true) :
    c.Ordered (l.filter p ++ l.filter fun x ↦ !p x) := by
  refine List.pairwise_append.2 ⟨h.filter _, h.filter _, fun x hx y hy ↦ ?_⟩
  obtain ⟨hxl, hpx⟩ := List.mem_filter.1 hx
  obtain ⟨hyl, hpy⟩ := List.mem_filter.1 hy
  by_contra hhides
  have hpy' := hp y hyl x hxl (by simpa using hhides) hpx
  simp [hpy'] at hpy

/-- An exact match that wins in every order is preceded by no other. -/
theorem precedes_of_winner (hrate : ∀ a ∈ l, rate a = .ok (quality a)) (hord : c.Ordered l)
    (h : ∀ l', l.Perm l' → c.Ordered l' → c.winner rate l' = .ok (some m)) {e : α} (he : e ∈ l)
    (hexact : quality e = .exact) (hne : e ≠ m) : c.Precedes l m e := by
  classical
  by_contra hprec
  -- Draw `e` to the front, with what has to come before it.
  let p : α → Bool := fun x ↦ decide (x = e ∨ c.Precedes l x e)
  have hdown : ∀ x ∈ l, ∀ y ∈ l, c.hides x y = true → p y = true → p x = true := by
    intro x hx y hy hhides hpy
    have hstep : c.Precedes l x y := .single ⟨hx, hy, hhides⟩
    rcases of_decide_eq_true hpy with rfl | hpy
    · exact decide_eq_true (.inr hstep)
    · exact decide_eq_true (.inr (hstep.trans hpy))
  have hperm : l.Perm (l.filter p ++ l.filter fun x ↦ !p x) :=
    (List.filter_append_perm p l).symm
  have hwin := h _ hperm (hord.filter_append hdown)
  have hfront : ∃ x ∈ l.filter p, quality x = .exact :=
    ⟨e, List.mem_filter.2 ⟨he, decide_eq_true (.inl rfl)⟩, hexact⟩
  have hrate' : ∀ a ∈ l.filter p ++ l.filter (fun x ↦ !p x), rate a = .ok (quality a) :=
    fun a ha ↦ hrate a (hperm.mem_iff.2 ha)
  obtain ⟨pre, e', post, hl, he', hpre⟩ := exists_first_exact hfront
  rw [hl, List.append_assoc, List.cons_append] at hwin hrate'
  have hratepre : ∀ a ∈ pre, rate a = .ok (quality a) ∧ quality a ≠ .exact :=
    fun a ha ↦ ⟨hrate' a (List.mem_append_left _ ha), hpre a ha⟩
  have hratee : rate e' = .ok .exact := he' ▸ hrate' e' (by simp)
  obtain ⟨t, ht, hiff⟩ := winner_of_exact (c := c) (m := m) _ hratepre hratee
  obtain ⟨rfl, -⟩ := hiff.1 (Except.ok.inj (ht.symm.trans hwin))
  have hmem : e' ∈ l.filter p := by simp [hl]
  rcases of_decide_eq_true (List.mem_filter.1 hmem).2 with rfl | h
  · exact hne rfl
  · exact hprec h

/-- A leader nobody overtakes or comes level with beats the candidates that may come after it. -/
theorem Leader.not_level {pre post : List α} (hnodup : (pre ++ m :: post).Nodup)
    (h : c.Leader quality (pre ++ m :: post) m)
    (hrivals : ∀ r, ¬c.Rival quality (pre ++ m :: post) m r) :
    ∀ a ∈ post, ¬c.Overtakes quality m a ∧ ¬c.Level quality m a := by
  obtain ⟨pre', post', hl, hcame, hpost⟩ := h.exists_split
  obtain ⟨rfl, rfl⟩ := split_unique hnodup hl
  intro a ha
  refine ⟨hpost a ha, fun hlevel ↦ ?_⟩
  obtain ⟨s, t, rfl⟩ := List.append_of_mem ha
  have hs : ∀ x ∈ s, ¬c.Overtakes quality m x := fun x hx ↦ hpost x (by simp [hx])
  have hlead : c.Leader quality (pre ++ m :: s) m := by
    rcases hcame with hpre | ⟨b, hb, hover⟩
    · exact .first hpre h.matching.2 hs
    · exact .next hb hover hs
  exact hrivals a ⟨pre ++ m :: s, t, by simp, hlead, hlevel, fun x hx ↦ hpost x (by simp [hx])⟩

/-- A leader overtakes the one before it, so none of those that hide it matches. -/
theorem Leader.not_matching_front {pre post : List α} (hnodup : (pre ++ m :: post).Nodup)
    (h : c.Leader quality (pre ++ m :: post) m) (hhides : ∀ x ∈ pre, c.hides x m = true) :
    ∀ a ∈ pre, ¬Matching quality a := by
  obtain ⟨pre', post', hl, hcame, -⟩ := h.exists_split
  obtain ⟨rfl, -⟩ := split_unique hnodup hl
  rcases hcame with hnone | ⟨b, hb, hover⟩
  · exact hnone
  · have hbhides := hhides b hb.matching.1
    exact absurd (hover.2.1.symm.trans hbhides) Bool.false_ne_true

/-- Who does not overtake a candidate or come level with it is beaten by it, unless it hides it. -/
theorem beats_of_not_overtakes {a : α} (hmatch : Matching quality a) (hhides : c.hides a m = false)
    (hover : ¬c.Overtakes quality m a) (hlevel : ¬c.Level quality m a) : c.Beats quality m a := by
  rcases hma : c.hides m a with - | -
  · refine .inr ⟨hhides, ?_⟩
    rcases lt_trichotomy (c.rank quality a) (c.rank quality m) with hrank | hrank | hrank
    · exact hrank
    · exact absurd ⟨hmatch, hma, hrank⟩ hlevel
    · exact absurd ⟨hmatch, hma, hrank⟩ hover
  · exact .inl hma

/-- Without an exact match a candidate that wins in every order beats the others, if those that
hide a candidate that hides it hide it as well. -/
theorem beats_of_winner (hrate : ∀ a ∈ l, rate a = .ok (quality a)) (hnodup : l.Nodup)
    (hord : c.Ordered l)
    (htrans : ∀ x ∈ l, ∀ y ∈ l, c.hides x y = true → c.hides y m = true → c.hides x m = true)
    (h : ∀ l', l.Perm l' → c.Ordered l' → c.winner rate l' = .ok (some m))
    (hexact : quality m ≠ .exact) {a : α} (ha : a ∈ l) (hmatch : Matching quality a)
    (hne : a ≠ m) : c.Beats quality m a := by
  classical
  -- Draw `m` to the front, with those that hide it.
  let p : α → Bool := fun x ↦ decide (x = m ∨ c.hides x m = true)
  have hdown : ∀ x ∈ l, ∀ y ∈ l, c.hides x y = true → p y = true → p x = true := by
    intro x hx y hy hhides hpy
    rcases of_decide_eq_true hpy with rfl | hpy
    · exact decide_eq_true (.inr hhides)
    · exact decide_eq_true (.inr (htrans x hx y hy hhides hpy))
  have hperm : l.Perm (l.filter p ++ l.filter fun x ↦ !p x) :=
    (List.filter_append_perm p l).symm
  have hord' := hord.filter_append hdown
  have hwin := h _ hperm hord'
  have hnodup' := hperm.nodup_iff.1 hnodup
  rcases winner_cases (fun x hx ↦ hrate x (hperm.mem_iff.2 hx)) hwin with
    ⟨he, -⟩ | ⟨-, hlead, hrivals⟩
  · exact absurd he hexact
  have hm : m ∈ l.filter p :=
    List.mem_filter.2 ⟨hperm.mem_iff.2 hlead.matching.1, decide_eq_true (.inl rfl)⟩
  obtain ⟨pre, post, hl⟩ := List.append_of_mem hm
  have hsplit : (l.filter p ++ l.filter fun x ↦ !p x) =
      pre ++ m :: (post ++ l.filter fun x ↦ !p x) := by
    rw [hl, List.append_assoc, List.cons_append]
  rw [hsplit] at hlead hrivals hord' hnodup'
  rcases hhides : c.hides a m with - | -
  · -- `a` comes after `m`, where nobody overtakes it or comes level with it.
    have hpa : p a = false := decide_eq_false (by simp [hne, hhides])
    have hback : a ∈ post ++ l.filter fun x ↦ !p x :=
      List.mem_append_right _ (List.mem_filter.2 ⟨ha, by simp [hpa]⟩)
    obtain ⟨hover, hlevel⟩ := hlead.not_level hnodup' (fun r ↦ (hrivals m r).1) a hback
    exact beats_of_not_overtakes hmatch hhides hover hlevel
  · -- Only candidates that hide `m` come before it, so that it cannot overtake their leader.
    have hpre : ∀ x ∈ pre, c.hides x m = true := by
      intro x hx
      have hmem : x ∈ l.filter p := hl ▸ List.mem_append_left _ hx
      have hxm : x ≠ m := (List.nodup_append.1 hnodup').2.2 x hx m List.mem_cons_self
      exact (of_decide_eq_true (List.mem_filter.1 hmem).2).resolve_left hxm
    have hmem : a ∈ pre ++ m :: (post ++ l.filter fun x ↦ !p x) :=
      hsplit ▸ hperm.mem_iff.1 ha
    have hbefore := hord'.mem_front hmem hne hhides
    exact absurd hmatch (hlead.not_matching_front hnodup' hpre a hbefore)

/-- **A candidate wins in every order exactly if it is undisputed and no order leaves a tie to
it**, where those that hide a candidate that hides it hide it as well. -/
theorem winner_forall_iff (hrate : ∀ a ∈ l, rate a = .ok (quality a)) (hnodup : l.Nodup)
    (hord : c.Ordered l)
    (htrans : ∀ x ∈ l, ∀ y ∈ l, c.hides x y = true → c.hides y m = true → c.hides x m = true) :
    (∀ l', l.Perm l' → c.Ordered l' → c.winner rate l' = .ok (some m)) ↔
      c.Undisputed quality l m ∧
        ∀ l', l.Perm l' → c.Ordered l' → ¬c.LeftTie quality l' m := by
  constructor
  · intro h
    have hwin := h l (.refl l) hord
    refine ⟨?_, fun l' hperm hord' ↦ not_leftTie_of_winner
      (fun a ha ↦ hrate a (hperm.mem_iff.2 ha)) (hperm.nodup_iff.1 hnodup) (h l' hperm hord')⟩
    rcases winner_cases hrate hwin with ⟨hexact, pre, post, rfl, -⟩ | ⟨hall, hlead, -⟩
    · exact ⟨by simp, matching_of_exact hexact,
        fun _ e he hee hne ↦ precedes_of_winner hrate hord h he hee hne,
        fun hne ↦ absurd hexact hne⟩
    · have hm := hlead.matching
      exact ⟨hm.1, hm.2, fun hexact ↦ absurd hexact (hall m hm.1),
        fun hexact a ha hmatch hne ↦
          ⟨hall a ha, beats_of_winner hrate hnodup hord htrans h hexact ha hmatch hne⟩⟩
  · rintro ⟨hm, htie⟩ l' hperm hord'
    exact (hm.perm hperm).winner (fun a ha ↦ hrate a (hperm.mem_iff.2 ha))
      (hperm.nodup_iff.1 hnodup) hord' (htie l' hperm hord')

/-! ### Where no tie can be left -/

variable (c quality)

/-- Two candidates that nothing tells apart. -/
def Tie (a b : α) : Prop :=
  a ≠ b ∧ Matching quality a ∧ Matching quality b ∧ c.rank quality a = c.rank quality b ∧
    c.hides a b = false ∧ c.hides b a = false

variable {c quality}

/-- A rival ties with its leader. -/
theorem Rival.tie {b r : α} (h : c.Rival quality l b r) (hord : c.Ordered l) (hnodup : l.Nodup) :
    b ∈ l ∧ r ∈ l ∧ c.Tie quality b r := by
  obtain ⟨pre, post, rfl, hlead, hlevel, -⟩ := h
  obtain ⟨hb, hbmatch⟩ := hlead.matching
  have hne : b ≠ r := (List.nodup_append.1 hnodup).2.2 b hb r List.mem_cons_self
  have hbefore := (List.pairwise_append.1 hord).2.2 b hb r List.mem_cons_self
  exact ⟨List.mem_append_left _ hb, by simp, hne, hbmatch, hlevel.1, hlevel.2.2.symm, hlevel.2.1,
    hbefore⟩

/-- The rivals that are left to a candidate came before it. -/
theorem LeftTie.exists_rival (h : c.LeftTie quality l m) :
    ∃ pre post pre' b r, l = pre ++ m :: post ∧ pre' <+: pre ∧ c.Rival quality pre' b r := by
  rcases h with ⟨-, pre, post, b, r, rfl, hrival | hstale⟩ | ⟨r, pre, post, b, rfl, hrival, -⟩
  · exact ⟨pre, post, pre, b, r, rfl, List.prefix_rfl, hrival⟩
  · obtain ⟨pre', post', b₀, rfl, hrival, -⟩ := hstale
    exact ⟨_, post, pre', b₀, r, rfl, List.prefix_append .., hrival⟩
  · exact ⟨pre, post, pre, b, r, rfl, List.prefix_rfl, hrival⟩

/-- No tie is left to a candidate that comes before one of any two that tie. -/
theorem not_leftTie_of_precedes (hord : c.Ordered l) (hnodup : l.Nodup)
    (h : ∀ a ∈ l, ∀ b ∈ l, c.Tie quality a b → c.Precedes l m a ∨ c.Precedes l m b) :
    ¬c.LeftTie quality l m := by
  intro htie
  obtain ⟨pre, post, pre', b, r, rfl, hpre, hrival⟩ := htie.exists_rival
  have hsub : pre'.Sublist (pre ++ m :: post) :=
    hpre.sublist.trans (List.sublist_append_left ..)
  obtain ⟨hb, hr, htie⟩ := hrival.tie (hord.sublist hsub) (hnodup.sublist hsub)
  rcases h b (hsub.subset hb) r (hsub.subset hr) htie with hprec | hprec
  · exact hord.not_precedes hnodup (hpre.subset hb) hprec
  · exact hord.not_precedes hnodup (hpre.subset hr) hprec

end Contest

end JPype
