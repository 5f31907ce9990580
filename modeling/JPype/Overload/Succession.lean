import JPype.Overload.Selection
import Mathlib.Data.List.Induction

/-!
# What a selection remembers of former leaders

Selection by rating replaces the leader in two ways. A candidate of better quality sends the
rivals of its predecessor home; a candidate whose kind agrees with the call takes over from one
whose kind does not, and its predecessor's rivals stay on the list. So the list a fold ends with
holds two kinds of candidates: the rivals of the leader (`Rival`), and those that were rivals of
a leader the preference deposed and that nobody has sent home since (`Stale`).

Leaders are described by their succession, not by the fold: the first matching candidate leads,
and after it every candidate that overtakes the leader before it (`Leader`). `pick_append` shows
that the fold keeps exactly the leader and the rivals described here.
-/

namespace JPype

namespace Contest

variable {α ε : Type} (c : Contest α) (quality : α → MatchType)

/-- Candidate `a` outranks the leader `b`, which does not hide it. -/
def Overtakes (b a : α) : Prop :=
  Matching quality a ∧ c.hides b a = false ∧ c.rank quality b < c.rank quality a

/-- Candidate `a` is of the leader's rank, and the leader `b` does not hide it. -/
def Level (b a : α) : Prop :=
  Matching quality a ∧ c.hides b a = false ∧ c.rank quality a = c.rank quality b

/-- `b` leads at the end of the list. -/
inductive Leader : List α → α → Prop
  /-- The first candidate that matches, while nobody overtakes it. -/
  | first {pre post : List α} {b : α} (hpre : ∀ a ∈ pre, ¬Matching quality a)
      (hb : Matching quality b) (hpost : ∀ a ∈ post, ¬c.Overtakes quality b a) :
      Leader (pre ++ b :: post) b
  /-- A candidate that overtakes the leader before it, while nobody overtakes it in turn. -/
  | next {pre post : List α} {b a : α} (hb : Leader pre b) (ha : c.Overtakes quality b a)
      (hpost : ∀ x ∈ post, ¬c.Overtakes quality a x) : Leader (pre ++ a :: post) a

/-- `r` came level with `b` while `b` led, and `b` still leads at the end of the list. -/
def Rival (l : List α) (b r : α) : Prop :=
  ∃ pre post, l = pre ++ r :: post ∧ c.Leader quality pre b ∧ c.Level quality b r ∧
    ∀ a ∈ post, ¬c.Overtakes quality b a

/-- `r` was a rival when `b` took the lead by its preference alone, and `b` still leads at the
end of the list. -/
def Stale (l : List α) (b r : α) : Prop :=
  ∃ pre post b₀, l = pre ++ b :: post ∧ c.Rival quality pre b₀ r ∧
    c.preferred b₀ = false ∧ c.preferred b = true ∧ c.Overtakes quality b₀ b ∧
    ∀ a ∈ post, ¬c.Overtakes quality b a

variable {c quality}

theorem not_overtakes_self (b : α) : ¬c.Overtakes quality b b :=
  fun h ↦ lt_irrefl _ h.2.2

theorem Level.not_overtakes {b a : α} (h : c.Level quality b a) : ¬c.Overtakes quality b a :=
  fun ha ↦ ha.2.2.ne' h.2.2

/-- A leader whose preference differs from that of the one it overtakes is the preferred one. -/
theorem Overtakes.preferred {b a : α} (h : c.Overtakes quality b a)
    (hne : c.preferred a ≠ c.preferred b) : c.preferred b = false ∧ c.preferred a = true := by
  rcases Prod.Lex.toLex_lt_toLex.1 h.2.2 with hlt | ⟨heq, -⟩
  · exact Bool.lt_iff.1 hlt
  · exact absurd heq.symm hne

/-! ### One candidate more -/

theorem concat_eq_append_cons {l pre post : List α} {a x : α}
    (h : l ++ [a] = pre ++ x :: post) :
    (l = pre ∧ a = x ∧ post = []) ∨ ∃ post', l = pre ++ x :: post' ∧ post = post' ++ [a] := by
  rcases List.eq_nil_or_concat post with rfl | ⟨post', y, rfl⟩
  · obtain ⟨rfl, hx⟩ := List.append_inj' h rfl
    exact .inl ⟨rfl, List.head_eq_of_cons_eq hx, rfl⟩
  · rw [List.concat_eq_append, ← List.cons_append, ← List.append_assoc] at h
    obtain ⟨rfl, hy⟩ := List.append_inj' h rfl
    exact .inr ⟨post', rfl, by rw [List.concat_eq_append, List.head_eq_of_cons_eq hy]⟩

theorem forall_mem_concat {l : List α} {a : α} {p : α → Prop} :
    (∀ x ∈ l ++ [a], p x) ↔ (∀ x ∈ l, p x) ∧ p a := by
  rw [List.forall_mem_append, List.forall_mem_singleton]

theorem Leader.matching {l : List α} {b : α} (h : c.Leader quality l b) :
    b ∈ l ∧ Matching quality b := by
  cases h with
  | first hpre hb hpost => exact ⟨by simp, hb⟩
  | next hb ha hpost => exact ⟨by simp, ha.1⟩

theorem leader_concat {l : List α} {a b : α} :
    c.Leader quality (l ++ [a]) b ↔
      (c.Leader quality l b ∧ ¬c.Overtakes quality b a) ∨
        (∃ b₀, c.Leader quality l b₀ ∧ c.Overtakes quality b₀ a ∧ b = a) ∨
          ((∀ x ∈ l, ¬Matching quality x) ∧ Matching quality a ∧ b = a) := by
  constructor
  · intro h
    generalize hl : l ++ [a] = l' at h
    cases h with
    | first hpre hb hpost =>
      rcases concat_eq_append_cons hl with ⟨rfl, rfl, -⟩ | ⟨post', rfl, rfl⟩
      · exact .inr (.inr ⟨hpre, hb, rfl⟩)
      · obtain ⟨hpost, ha⟩ := forall_mem_concat.1 hpost
        exact .inl ⟨.first hpre hb hpost, ha⟩
    | next hb hb' hpost =>
      rcases concat_eq_append_cons hl with ⟨rfl, rfl, -⟩ | ⟨post', rfl, rfl⟩
      · exact .inr (.inl ⟨_, hb, hb', rfl⟩)
      · obtain ⟨hpost, ha⟩ := forall_mem_concat.1 hpost
        exact .inl ⟨.next hb hb' hpost, ha⟩
  · rintro (⟨h, ha⟩ | ⟨b₀, h, ha, rfl⟩ | ⟨hl, ha, rfl⟩)
    · cases h with
      | first hpre hb hpost =>
        rw [List.append_assoc, List.cons_append]
        exact .first hpre hb (forall_mem_concat.2 ⟨hpost, ha⟩)
      | next hb hb' hpost =>
        rw [List.append_assoc, List.cons_append]
        exact .next hb hb' (forall_mem_concat.2 ⟨hpost, ha⟩)
    · exact .next h ha (List.forall_mem_nil _)
    · exact .first hl ha (List.forall_mem_nil _)

/-- A list has one leader at most. -/
theorem Leader.unique {l : List α} {b b' : α} (h : c.Leader quality l b)
    (h' : c.Leader quality l b') : b = b' := by
  induction l using List.reverseRecOn generalizing b b' with
  | nil => exact absurd h.matching.1 List.not_mem_nil
  | append_singleton l a ih =>
    rcases leader_concat.1 h with ⟨hb, ha⟩ | ⟨b₀, hb, ha, rfl⟩ | ⟨hl, -, rfl⟩ <;>
      rcases leader_concat.1 h' with ⟨hb', ha'⟩ | ⟨b₀', hb', ha', rfl⟩ | ⟨hl', -, rfl⟩
    · exact ih hb hb'
    · exact absurd (ih hb hb' ▸ ha') ha
    · exact absurd hb.matching.2 (hl' b hb.matching.1)
    · exact absurd (ih hb hb' ▸ ha) ha'
    · rfl
    · rfl
    · exact absurd hb'.matching.2 (hl b' hb'.matching.1)
    · rfl
    · rfl

/-- A leader keeps the lead while nobody overtakes it. -/
theorem Leader.extend {pre post : List α} {b : α} (h : c.Leader quality pre b)
    (hpost : ∀ a ∈ post, ¬c.Overtakes quality b a) : c.Leader quality (pre ++ post) b := by
  induction post using List.reverseRecOn with
  | nil => rwa [List.append_nil]
  | append_singleton post a ih =>
    obtain ⟨hpost, ha⟩ := forall_mem_concat.1 hpost
    rw [← List.append_assoc]
    exact leader_concat.2 (.inl ⟨ih hpost, ha⟩)

theorem Rival.leader {l : List α} {b r : α} (h : c.Rival quality l b r) :
    c.Leader quality l b := by
  obtain ⟨pre, post, rfl, hb, hr, hpost⟩ := h
  exact hb.extend (List.forall_mem_cons.2 ⟨hr.not_overtakes, hpost⟩)

theorem Stale.leader {l : List α} {b r : α} (h : c.Stale quality l b r) :
    c.Leader quality l b := by
  obtain ⟨pre, post, b₀, rfl, hr, -, -, hb, hpost⟩ := h
  exact .next hr.leader hb hpost

theorem Stale.preferred {l : List α} {b r : α} (h : c.Stale quality l b r) :
    c.preferred b = true := by
  obtain ⟨-, -, -, -, -, -, hb, -⟩ := h
  exact hb

theorem rival_concat {l : List α} {a b r : α} :
    c.Rival quality (l ++ [a]) b r ↔
      (c.Rival quality l b r ∧ ¬c.Overtakes quality b a) ∨
        (c.Leader quality l b ∧ c.Level quality b a ∧ r = a) := by
  constructor
  · rintro ⟨pre, post, hl, hb, hr, hpost⟩
    rcases concat_eq_append_cons hl with ⟨rfl, rfl, -⟩ | ⟨post', rfl, rfl⟩
    · exact .inr ⟨hb, hr, rfl⟩
    · obtain ⟨hpost, ha⟩ := forall_mem_concat.1 hpost
      exact .inl ⟨⟨pre, post', rfl, hb, hr, hpost⟩, ha⟩
  · rintro (⟨⟨pre, post, rfl, hb, hr, hpost⟩, ha⟩ | ⟨hb, hr, rfl⟩)
    · exact ⟨pre, post ++ [a], by simp, hb, hr, forall_mem_concat.2 ⟨hpost, ha⟩⟩
    · exact ⟨l, [], rfl, hb, hr, List.forall_mem_nil _⟩

theorem stale_concat {l : List α} {a b r : α} :
    c.Stale quality (l ++ [a]) b r ↔
      (c.Stale quality l b r ∧ ¬c.Overtakes quality b a) ∨
        ∃ b₀, c.Rival quality l b₀ r ∧ c.preferred b₀ = false ∧ c.preferred b = true ∧
          c.Overtakes quality b₀ b ∧ b = a := by
  constructor
  · rintro ⟨pre, post, b₀, hl, hr, hb₀, hb, hover, hpost⟩
    rcases concat_eq_append_cons hl with ⟨rfl, rfl, -⟩ | ⟨post', rfl, rfl⟩
    · exact .inr ⟨b₀, hr, hb₀, hb, hover, rfl⟩
    · obtain ⟨hpost, ha⟩ := forall_mem_concat.1 hpost
      exact .inl ⟨⟨pre, post', b₀, rfl, hr, hb₀, hb, hover, hpost⟩, ha⟩
  · rintro (⟨⟨pre, post, b₀, rfl, hr, hb₀, hb, hover, hpost⟩, ha⟩ | ⟨b₀, hr, hb₀, hb, hover, rfl⟩)
    · exact ⟨pre, post ++ [a], b₀, by simp, hr, hb₀, hb, hover,
        forall_mem_concat.2 ⟨hpost, ha⟩⟩
    · exact ⟨l, [], b₀, rfl, hr, hb₀, hb, hover, List.forall_mem_nil _⟩

/-! ### The fold -/

variable (c quality)

/-- What the fold knows after the candidates `seen`: their leader, and as rivals its rivals and
the stale ones. -/
def Recalls (seen : List α) : Option (α × MatchType) → List α → Prop
  | none, rivals => rivals = [] ∧ ∀ a ∈ seen, ¬Matching quality a
  | some (b, q), rivals =>
    q = quality b ∧ c.Leader quality seen b ∧
      ∀ r, r ∈ rivals ↔ c.Rival quality seen b r ∨ c.Stale quality seen b r

variable {c quality}

/-- A candidate that overtakes the leader sends the rivals home unless it owes the lead to its
preference. -/
theorem challenge_of_overtakes {a b : α} (h : c.Overtakes quality b a) (rivals : List α) :
    c.challenge a (quality a) (some (b, quality b)) rivals =
      (some (a, quality a), if c.preferred a = c.preferred b then [] else rivals) := by
  obtain ⟨ha, hhides, hrank⟩ := h
  simp only [challenge, if_neg (not_lt.2 ha), hhides, Bool.false_eq_true, if_false]
  rcases Prod.Lex.toLex_lt_toLex.1 hrank with hp | ⟨hp, hq⟩
  · obtain ⟨hb, ha⟩ := Bool.lt_iff.1 hp
    have hb : c.preferred b = false := hb
    have ha : c.preferred a = true := ha
    simp [hb, ha]
  · have hp : c.preferred b = c.preferred a := hp
    have hq : quality b < quality a := hq
    simp [hp, hq]

theorem challenge_of_level {a b : α} (h : c.Level quality b a) (rivals : List α) :
    c.challenge a (quality a) (some (b, quality b)) rivals =
      (some (b, quality b), rivals ++ [a]) := by
  obtain ⟨ha, hhides, hrank⟩ := h
  have hp : c.preferred a = c.preferred b := congrArg (fun p ↦ (ofLex p).1) hrank
  have hq : quality a = quality b := congrArg (fun p ↦ (ofLex p).2) hrank
  simp only [challenge, if_neg (not_lt.2 ha)]
  simp [hhides, hp, hq]

theorem challenge_of_below {a b : α} (hover : ¬c.Overtakes quality b a)
    (hlevel : ¬c.Level quality b a) (rivals : List α) :
    c.challenge a (quality a) (some (b, quality b)) rivals = (some (b, quality b), rivals) := by
  rcases lt_or_ge (quality a) .implicit with hlow | ha
  · exact challenge_of_lt a hlow _ _
  rcases challenge_cases c quality a b ha rivals with
    ⟨-, heq⟩ | ⟨-, -, heq⟩ | ⟨hhides, hpa, hpb, -⟩ | ⟨hrank, heq⟩ | ⟨hhides, hrank, -⟩
  · exact heq
  · exact heq
  · exact absurd ⟨ha, hhides, rank_lt_of_preferred hpa hpb⟩ hover
  · rcases hhides : c.hides b a with - | -
    · exact absurd ⟨ha, hhides, hrank⟩ hover
    · simp [challenge, not_lt.2 ha, hhides]
  · exact absurd ⟨ha, hhides, hrank⟩ hlevel

/-- One candidate more. -/
theorem Recalls.challenge {seen : List α} {best : Option (α × MatchType)} {rivals : List α}
    (h : c.Recalls quality seen best rivals) (a : α) :
    c.Recalls quality (seen ++ [a]) (c.challenge a (quality a) best rivals).1
      (c.challenge a (quality a) best rivals).2 := by
  rcases best with - | ⟨b, q⟩
  · obtain ⟨rfl, hnone⟩ := h
    have hlead : ∀ b, ¬c.Leader quality seen b := fun b hb ↦ hnone b hb.matching.1 hb.matching.2
    rcases lt_or_ge (quality a) .implicit with hlow | ha
    · rw [challenge_of_lt a hlow]
      exact ⟨rfl, forall_mem_concat.2 ⟨hnone, not_le.2 hlow⟩⟩
    · have heq : c.challenge a (quality a) none [] = (some (a, quality a), []) := by
        simp [Contest.challenge, not_lt.2 ha]
      rw [heq]
      refine ⟨rfl, leader_concat.2 (.inr (.inr ⟨hnone, ha, rfl⟩)), fun r ↦
        iff_of_false List.not_mem_nil ?_⟩
      rw [rival_concat, stale_concat]
      rintro ((⟨h, -⟩ | ⟨h, -⟩) | (⟨h, -⟩ | ⟨b₀, h, -⟩))
      exacts [hlead _ h.leader, hlead _ h, hlead _ h.leader, hlead _ h.leader]
  obtain ⟨rfl, hb, hrivals⟩ := h
  by_cases hover : c.Overtakes quality b a
  · -- the newcomer was not the leader before
    have hne : ¬c.Leader quality seen a := fun ha ↦
      not_overtakes_self a (hb.unique ha ▸ hover)
    rw [challenge_of_overtakes hover]
    refine ⟨rfl, leader_concat.2 (.inr (.inl ⟨b, hb, hover, rfl⟩)), fun r ↦ ?_⟩
    rw [rival_concat, stale_concat]
    have hnew : (c.Rival quality seen a r ∧ ¬c.Overtakes quality a a ∨
        c.Leader quality seen a ∧ c.Level quality a a ∧ r = a) ↔ False := by
      refine iff_of_false ?_ id
      rintro (⟨h, -⟩ | ⟨h, -⟩)
      exacts [hne h.leader, hne h]
    rw [hnew, false_or]
    show r ∈ (if c.preferred a = c.preferred b then [] else rivals) ↔ _
    split
    · next hp =>
      refine iff_of_false List.not_mem_nil ?_
      rintro (⟨h, -⟩ | ⟨b₀, h, hb₀, ha, -⟩)
      · exact hne h.leader
      · rw [hb.unique h.leader, hb₀, ha] at hp
        cases hp
    · next hp =>
      obtain ⟨hpb, hpa⟩ := hover.preferred hp
      rw [hrivals r]
      constructor
      · rintro (h | h)
        · exact .inr ⟨b, h, hpb, hpa, hover, rfl⟩
        · exact absurd (hpb.symm.trans h.preferred) Bool.false_ne_true
      · rintro (⟨h, -⟩ | ⟨b₀, h, -⟩)
        · exact absurd h.leader hne
        · exact .inl (hb.unique h.leader ▸ h)
  have hkeep : ∀ b₀, c.Rival quality seen b₀ a → b₀ = b := fun b₀ h ↦ h.leader.unique hb
  by_cases hlevel : c.Level quality b a
  · rw [challenge_of_level hlevel]
    refine ⟨rfl, leader_concat.2 (.inl ⟨hb, hover⟩), fun r ↦ ?_⟩
    rw [List.mem_append, List.mem_singleton, hrivals r, rival_concat, stale_concat]
    constructor
    · rintro ((h | h) | rfl)
      exacts [.inl (.inl ⟨h, hover⟩), .inr (.inl ⟨h, hover⟩), .inl (.inr ⟨hb, hlevel, rfl⟩)]
    · rintro ((⟨h, -⟩ | ⟨-, -, rfl⟩) | (⟨h, -⟩ | ⟨b₀, h, -, -, hb₀, rfl⟩))
      exacts [.inl (.inl h), .inr rfl, .inl (.inr h), absurd (h.leader.unique hb ▸ hb₀) hover]
  · rw [challenge_of_below hover hlevel]
    refine ⟨rfl, leader_concat.2 (.inl ⟨hb, hover⟩), fun r ↦ ?_⟩
    rw [hrivals r, rival_concat, stale_concat]
    constructor
    · rintro (h | h)
      exacts [.inl (.inl ⟨h, hover⟩), .inr (.inl ⟨h, hover⟩)]
    · rintro ((⟨h, -⟩ | ⟨-, h, -⟩) | (⟨h, -⟩ | ⟨b₀, h, -, -, hb₀, rfl⟩))
      exacts [.inl h, absurd h hlevel, .inr h, absurd (h.leader.unique hb ▸ hb₀) hover]

/-- **What the fold remembers**: after candidates none of which matches exactly it goes on with
their leader, its rivals and the stale ones. -/
theorem pick_append {rate : α → Except ε MatchType} {pre : List α}
    (hpre : ∀ a ∈ pre, rate a = .ok (quality a) ∧ quality a ≠ .exact) (rest : List α) :
    ∃ best rivals, c.Recalls quality pre best rivals ∧
      c.pick rate (pre ++ rest) none [] = c.pick rate rest best rivals := by
  induction pre using List.reverseRecOn generalizing rest with
  | nil => exact ⟨none, [], ⟨rfl, List.forall_mem_nil _⟩, rfl⟩
  | append_singleton pre a ih =>
    obtain ⟨hpre, ha, hexact⟩ := forall_mem_concat.1 hpre
    obtain ⟨best, rivals, h, hpick⟩ := ih hpre (a :: rest)
    refine ⟨_, _, h.challenge a, ?_⟩
    rw [List.append_assoc, List.singleton_append, hpick, pick_cons c ha, if_neg hexact]

/-- Without an exact match the fold ends with what it recalls of the list. -/
theorem pick_of_inexact {rate : α → Except ε MatchType} {l : List α}
    (h : ∀ a ∈ l, rate a = .ok (quality a) ∧ quality a ≠ .exact) :
    ∃ best rivals, c.Recalls quality l best rivals ∧
      c.pick rate l none [] = .ok (best, rivals) := by
  obtain ⟨best, rivals, hrec, hpick⟩ := pick_append (c := c) h []
  rw [List.append_nil] at hpick
  exact ⟨best, rivals, hrec, hpick⟩

/-- The first exact match ends the fold, with the rivals of whoever led before it. -/
theorem pick_of_first_exact {rate : α → Except ε MatchType} {pre : List α} (post : List α) {e : α}
    (hpre : ∀ a ∈ pre, rate a = .ok (quality a) ∧ quality a ≠ .exact)
    (he : rate e = .ok .exact) :
    ∃ best rivals, c.Recalls quality pre best rivals ∧
      c.pick rate (pre ++ e :: post) none [] = .ok (some (e, .exact), rivals) := by
  obtain ⟨best, rivals, hrec, hpick⟩ := pick_append (c := c) hpre (e :: post)
  exact ⟨best, rivals, hrec, by rw [hpick, pick_cons c he, if_pos rfl]⟩

/-- The fold has recorded somebody exactly if there are rivals or stale ones. -/
theorem Recalls.eq_nil_iff {seen : List α} {best : Option (α × MatchType)} {rivals : List α}
    (h : c.Recalls quality seen best rivals) :
    rivals = [] ↔ ∀ b r, ¬c.Rival quality seen b r ∧ ¬c.Stale quality seen b r := by
  rw [List.eq_nil_iff_forall_not_mem]
  rcases best with - | ⟨b, q⟩
  · obtain ⟨rfl, hnone⟩ := h
    have hlead : ∀ b, ¬c.Leader quality seen b := fun b hb ↦ hnone b hb.matching.1 hb.matching.2
    exact iff_of_true (fun r ↦ List.not_mem_nil)
      fun b r ↦ ⟨fun h ↦ hlead b h.leader, fun h ↦ hlead b h.leader⟩
  · obtain ⟨-, hb, hrivals⟩ := h
    constructor
    · refine fun hnil b' r ↦ ⟨fun h ↦ ?_, fun h ↦ ?_⟩
      · exact hnil r ((hrivals r).2 (.inl (h.leader.unique hb ▸ h)))
      · exact hnil r ((hrivals r).2 (.inr (h.leader.unique hb ▸ h)))
    · rintro hnone r hr
      rcases (hrivals r).1 hr with h | h
      exacts [(hnone b r).1 h, (hnone b r).2 h]

end Contest

end JPype
