import JPype.Overload.Dispatch
import JPype.Overload.Succession

/-!
# Reports of ambiguity

A report of `findOverload` that several overloads are ambiguous ought to say something of the
best match it ends with: that it cannot be told from one of the others (`SoundReports`). The list
`ambiguous` is kept for one best match after another, and only one of the three branches that
replace the best match clears it. The `break` of an exact match and the switch to an overload
that agrees with the instance leave it as it is.

`soundReports_iff` says when this does no harm: no overload is, or was, ambiguous when the first
exact match arrives; and without an exact match, whenever a switch has left overloads behind, the
overload it switched to is ambiguous itself. `SlotClass.put_not_soundReports` is a call of two
`int`s that is reported as ambiguous though one of the overloads takes two `int`s.
-/

namespace JPype

open JPMethod JPMethodDispatch

/-! ### Inexact ratings -/

namespace Contest

variable {α ε : Type} (c : Contest α) (rate : α → Except ε MatchType)

/-- The candidate is rated without a fault, and below exact. -/
def Inexact (a : α) : Prop := ∃ q, rate a = .ok q ∧ q ≠ .exact

/-- The quality of a candidate that is rated without a fault. -/
def qualityOf (a : α) : MatchType :=
  match rate a with
  | .ok q => q
  | .error _ => .none

/-- No former leader has left rivals to a leader that has none of its own. -/
structure Unburdened (l : List α) : Prop where
  /-- If some candidate matches exactly, all candidates before the first such are rated without a
  fault, and they leave neither a rival nor a stale one. -/
  exact : (∃ e ∈ l, rate e = .ok .exact) →
    ∃ pre e post, l = pre ++ e :: post ∧ rate e = .ok .exact ∧ (∀ a ∈ pre, Inexact rate a) ∧
      ∀ b r, ¬c.Rival (qualityOf rate) pre b r ∧ ¬c.Stale (qualityOf rate) pre b r
  /-- Without an exact match or a fault, a leader with stale rivals has a rival of its own. -/
  inexact : (∀ a ∈ l, Inexact rate a) → ∀ b r, c.Stale (qualityOf rate) l b r →
    ∃ r', c.Rival (qualityOf rate) l b r'

variable {c rate}

theorem Inexact.rate_eq {a : α} (h : Inexact rate a) :
    rate a = .ok (qualityOf rate a) ∧ qualityOf rate a ≠ .exact := by
  obtain ⟨q, hq, hne⟩ := h
  rw [qualityOf, hq]
  exact ⟨rfl, hne⟩

/-- A list that is not inexact throughout ends its inexact part with an exact match or a
fault. -/
theorem exists_not_inexact {l : List α} (h : ¬∀ a ∈ l, Inexact rate a) :
    ∃ pre a post, l = pre ++ a :: post ∧ (∀ x ∈ pre, Inexact rate x) ∧
      (rate a = .ok .exact ∨ ∃ f, rate a = .error f) := by
  induction l with
  | nil => exact absurd (List.forall_mem_nil _) h
  | cons a l ih =>
    by_cases ha : Inexact rate a
    · have hl : ¬∀ x ∈ l, Inexact rate x := fun hl ↦ h (List.forall_mem_cons.2 ⟨ha, hl⟩)
      obtain ⟨pre, b, post, rfl, hpre, hb⟩ := ih hl
      exact ⟨a :: pre, b, post, rfl, List.forall_mem_cons.2 ⟨ha, hpre⟩, hb⟩
    · refine ⟨[], a, l, rfl, List.forall_mem_nil _, ?_⟩
      rcases hrate : rate a with f | q
      · exact .inr ⟨f, rfl⟩
      · refine .inl (congrArg Except.ok ?_)
        by_contra hne
        exact ha ⟨q, hrate, hne⟩

/-- The inexact part of a list, up to its first exact match or fault, is no matter of choice. -/
theorem first_unique {pre pre' post post' : List α} {a a' : α}
    (h : pre ++ a :: post = pre' ++ a' :: post') (hpre : ∀ x ∈ pre, Inexact rate x)
    (hpre' : ∀ x ∈ pre', Inexact rate x) (ha : ¬Inexact rate a) (ha' : ¬Inexact rate a') :
    pre = pre' ∧ a = a' := by
  induction pre generalizing pre' with
  | nil =>
    rcases pre' with - | ⟨x, pre'⟩
    · exact ⟨rfl, (List.cons.inj h).1⟩
    · exact absurd ((List.cons.inj h).1 ▸ hpre' x List.mem_cons_self) ha
  | cons x pre ih =>
    rcases pre' with - | ⟨y, pre'⟩
    · exact absurd ((List.cons.inj h).1 ▸ hpre x List.mem_cons_self) ha'
    · obtain ⟨rfl, htail⟩ := List.cons.inj h
      obtain ⟨rfl, rfl⟩ :=
        ih htail (List.forall_mem_cons.1 hpre).2 (List.forall_mem_cons.1 hpre').2
      exact ⟨rfl, rfl⟩

theorem not_inexact_of_exact {a : α} (h : rate a = .ok .exact) : ¬Inexact rate a := by
  rintro ⟨q, hq, hne⟩
  exact hne (Except.ok.inj (hq.symm.trans h))

theorem not_inexact_of_error {a : α} {f : ε} (h : rate a = .error f) : ¬Inexact rate a := by
  rintro ⟨q, hq, -⟩
  cases hq.symm.trans h

/-! ### The three ends of a fold -/

/-- A fault ends the fold. -/
theorem pick_of_fault {pre : List α} (post : List α) {a : α} {f : ε}
    (hpre : ∀ a ∈ pre, Inexact rate a)
    (ha : rate a = .error f) : c.pick rate (pre ++ a :: post) none [] = .error f := by
  obtain ⟨best, rivals, -, hpick⟩ :=
    pick_append (c := c) (fun a ha ↦ (hpre a ha).rate_eq) (a :: post)
  rw [hpick, pick, ha]
  rfl

end Contest

variable {Cls Py H D : Type} [DecidableEq H]

/-- **Ambiguity reports are sound** for the call, on dispatch `d` with an empty cache. -/
structure SoundReports [DecidableEq D] (rt : Runtime Cls Py H)
    (dispatch : JPMethodDispatch Cls) (hash : ℕ → H) (d : D) (call : Call Py) : Prop where
  /-- With an exact match among the overloads, `findOverload` returns an exact match. -/
  exact : (∃ m ∈ dispatch.overloads, m.rating rt.conv call = .ok .exact) → ∀ raise,
    ∃ mm cache m,
      findOverload rt dispatch (Cache.empty hash) d call raise = .ok (some mm, cache) ∧
      mm.overload = some m ∧ m ∈ dispatch.overloads ∧ m.rating rt.conv call = .ok .exact
  /-- Among the others that are reported with the final best overload there is one of its
  quality and its preference that it does not hide. -/
  ambiguous : ∀ reported,
    resolve rt dispatch (Cache.empty hash) d call = .ok (.ambiguous reported) →
    ∃ others best r q, reported = others ++ [best] ∧ r ∈ others ∧
      best.rating rt.conv call = .ok q ∧ r.rating rt.conv call = .ok q ∧
      best.checkMoreSpecificThan r = false ∧
      (call.callInstance = !r.isStatic ↔ call.callInstance = !best.isStatic)

namespace SoundReports

open Contest

variable (rt : Runtime Cls Py H) (self : JPMethodDispatch Cls) (hash : ℕ → H) (d : D)
  (call : Call Py)

/-- What an empty cache leaves to the selection by rating: the reported overloads. -/
theorem resolve_eq_ambiguous_iff (reported : List (JPMethod Cls)) :
    resolve rt self (Cache.empty hash) d call = .ok (.ambiguous reported) ↔
      ∃ best rivals, (contest Cls call.callInstance).pick (rating rt.conv call) self.overloads
          none [] = .ok (best, rivals) ∧
        rivals ≠ [] ∧ reported = rivals ++ (best.map Prod.fst).toList := by
  have hout := outcome_empty rt self hash d call
  rw [outcome, freshOutcome] at hout
  constructor
  · intro h
    rw [h] at hout
    rcases hpick : (contest Cls call.callInstance).pick (rating rt.conv call) self.overloads
      none [] with f | ⟨best, rivals⟩
    · rw [hpick] at hout
      cases hout
    · rw [hpick] at hout
      have hout := Except.ok.inj hout
      simp only [Resolution.outcome, outcomeOf] at hout
      split at hout
      · next hne => exact ⟨best, rivals, rfl, hne, Outcome.ambiguous.inj hout⟩
      · split at hout <;> cases hout
  · rintro ⟨best, rivals, hpick, hne, rfl⟩
    rw [hpick, Except.map, outcomeOf, if_pos hne] at hout
    rcases hres : resolve rt self (Cache.empty hash) d call with f | res
    · rw [hres] at hout
      cases hout
    · rw [hres] at hout
      have hout := Except.ok.inj hout
      rcases res with _ | _ | overloads | _
      · cases hout
      · cases hout
      · rw [Outcome.ambiguous.inj hout]
      · cases hout

variable [DecidableEq D]

/-- An exact match that meets no rivals is what `findOverload` returns. -/
theorem findOverload_of_pick {e : JPMethod Cls} {q : MatchType}
    (h : (contest Cls call.callInstance).pick (rating rt.conv call) self.overloads none [] =
      .ok (some (e, q), [])) (raise : Bool) :
    ∃ mm cache, findOverload rt self (Cache.empty hash) d call raise = .ok (some mm, cache) ∧
      mm.overload = some e := by
  have hreport := findOverload_report rt self (Cache.empty hash) d call raise
  rw [outcome_empty, freshOutcome, h] at hreport
  have hreport : (findOverload rt self (Cache.empty hash) d call raise).map
      (fun r ↦ r.1.bind JPMethodMatch.overload) = .ok (some e) := hreport
  rcases hfind : findOverload rt self (Cache.empty hash) d call raise with f | ⟨mm, cache⟩
  · rw [hfind] at hreport
    cases hreport
  · rw [hfind] at hreport
    have hmm : mm.bind JPMethodMatch.overload = some e := Except.ok.inj hreport
    obtain ⟨mm, rfl, hoverload⟩ := Option.bind_eq_some_iff.1 hmm
    exact ⟨mm, cache, rfl, hoverload⟩

/-- What `findOverload` returns is what the selection by rating picks without rivals. -/
theorem pick_of_findOverload {mm : JPMethodMatch Cls Py} {cache : Cache D Cls H} {raise : Bool}
    {m : JPMethod Cls}
    (h : findOverload rt self (Cache.empty hash) d call raise = .ok (some mm, cache))
    (hm : mm.overload = some m) :
    ∃ q, (contest Cls call.callInstance).pick (rating rt.conv call) self.overloads none [] =
      .ok (some (m, q), []) := by
  have hreport := findOverload_report rt self (Cache.empty hash) d call raise
  rw [outcome_empty, freshOutcome, h] at hreport
  have hreport : Except.ok (some m) = report rt self call raise
      (((contest Cls call.callInstance).pick (rating rt.conv call) self.overloads none []).map
        outcomeOf) := by
    rw [← hreport, Except.map, Option.bind_some, hm]
  rcases hpick : (contest Cls call.callInstance).pick (rating rt.conv call) self.overloads
    none [] with f | ⟨best, rivals⟩
  · rw [hpick] at hreport
    cases hreport
  · rw [hpick, Except.map, outcomeOf] at hreport
    split at hreport
    · rcases raise with - | - <;> cases hreport
    · next hnil =>
      rcases best with - | ⟨b, q⟩
      · rcases raise with - | - <;> cases hreport
      · have hb : some m = some b := Except.ok.inj hreport
        have hnil : rivals = [] := by simpa using hnil
        exact ⟨q, by rw [Option.some.inj hb, hnil]⟩

variable {rt self hash d call}

/-- Without an exact match or a fault, the reports are sound if a leader with stale rivals has a
rival of its own. -/
theorem iff_of_inexact (hall : ∀ m ∈ self.overloads, Inexact (rating rt.conv call) m) :
    SoundReports rt self hash d call ↔
      (contest Cls call.callInstance).Unburdened (rating rt.conv call) self.overloads := by
  obtain ⟨best, rivals, hrec, hpick⟩ :=
    pick_of_inexact (c := contest Cls call.callInstance) fun a ha ↦ (hall a ha).rate_eq
  have hnone : ¬∃ m ∈ self.overloads, m.rating rt.conv call = .ok .exact := by
    rintro ⟨m, hm, hexact⟩
    exact not_inexact_of_exact hexact (hall m hm)
  constructor
  · refine fun h ↦ ⟨fun hexact ↦ absurd hexact hnone, fun _ b r hstale ↦ ?_⟩
    rcases best with - | ⟨b', q⟩
    · exact absurd hstale.leader.matching.2 (hrec.2 b hstale.leader.matching.1)
    obtain ⟨rfl, hlead, hrivals⟩ := hrec
    obtain rfl : b = b' := hstale.leader.unique hlead
    have hne : rivals ≠ [] := List.ne_nil_of_mem ((hrivals r).2 (.inr hstale))
    obtain ⟨others, best, r', q, heq, hr', hqb, hqr, hhides, hkind⟩ :=
      h.ambiguous _ ((resolve_eq_ambiguous_iff rt self hash d call _).2 ⟨_, _, hpick, hne, rfl⟩)
    obtain ⟨rfl, hbest⟩ := List.append_inj' heq rfl
    obtain rfl : b = best := List.head_eq_of_cons_eq hbest
    rcases (hrivals r').1 hr' with hr' | hr'
    · exact ⟨r', hr'⟩
    · -- a stale rival is of another preference than the leader
      obtain ⟨-, -, b₀, -, ⟨-, -, -, -, hlevel, -⟩, hb₀, hb, -⟩ := hr'
      have hpr : (contest Cls call.callInstance).preferred r' = false :=
        (congrArg (fun p ↦ (ofLex p).1) hlevel.2.2).trans hb₀
      exact absurd (of_decide_eq_true hb) (hkind.not.1 (of_decide_eq_false hpr))
  · refine fun h ↦ ⟨fun hexact ↦ absurd hexact hnone, fun reported hrep ↦ ?_⟩
    obtain ⟨best', rivals', hpick', hne, rfl⟩ :=
      (resolve_eq_ambiguous_iff rt self hash d call reported).1 hrep
    obtain ⟨rfl, rfl⟩ := Prod.mk.inj (Except.ok.inj (hpick.symm.trans hpick'))
    rcases best with - | ⟨b, q⟩
    · exact absurd hrec.1 hne
    obtain ⟨rfl, hlead, hrivals⟩ := hrec
    obtain ⟨r, hr⟩ := List.exists_mem_of_ne_nil rivals hne
    obtain ⟨r', hr'⟩ : ∃ r', (contest Cls call.callInstance).Rival
        (qualityOf (rating rt.conv call)) self.overloads b r' := by
      rcases (hrivals r).1 hr with hr | hr
      · exact ⟨r, hr⟩
      · exact h.inexact hall b r hr
    have hmem : r' ∈ self.overloads := by
      obtain ⟨pre, post, hl, -⟩ := hr'
      simp [hl]
    have hlevel : (contest Cls call.callInstance).Level
        (qualityOf (rating rt.conv call)) b r' := by
      obtain ⟨-, -, -, -, hlevel, -⟩ := hr'
      exact hlevel
    have hkind : (contest Cls call.callInstance).preferred r' =
        (contest Cls call.callInstance).preferred b := congrArg (fun p ↦ (ofLex p).1) hlevel.2.2
    have hquality : qualityOf (rating rt.conv call) r' = qualityOf (rating rt.conv call) b :=
      congrArg (fun p ↦ (ofLex p).2) hlevel.2.2
    refine ⟨rivals, b, r', _, rfl, (hrivals r').2 (.inl hr'),
      (hall b hlead.matching.1).rate_eq.1, ?_, hlevel.2.1, decide_eq_decide.1 hkind⟩
    rw [← hquality]
    exact (hall r' hmem).rate_eq.1

/-- With an exact match and no fault before it, the reports are sound if it meets no rivals. -/
theorem iff_of_first_exact {pre post : List (JPMethod Cls)} {e : JPMethod Cls}
    (hl : self.overloads = pre ++ e :: post)
    (hpre : ∀ m ∈ pre, Inexact (rating rt.conv call) m)
    (he : e.rating rt.conv call = .ok .exact) :
    SoundReports rt self hash d call ↔
      (contest Cls call.callInstance).Unburdened (rating rt.conv call) self.overloads := by
  obtain ⟨best, rivals, hrec, hpick⟩ :=
    pick_of_first_exact (c := contest Cls call.callInstance) post
      (fun a ha ↦ (hpre a ha).rate_eq) he
  rw [← hl] at hpick
  have hmem : e ∈ self.overloads := by simp [hl]
  constructor
  · intro h
    obtain ⟨mm, cache, m, hfind, hm, -, -⟩ := h.exact ⟨e, hmem, he⟩ true
    obtain ⟨q, hpick'⟩ := pick_of_findOverload rt self hash d call hfind hm
    have hnil : rivals = [] := (Prod.mk.inj (Except.ok.inj (hpick.symm.trans hpick'))).2
    exact ⟨fun _ ↦ ⟨pre, e, post, hl, he, hpre, hrec.eq_nil_iff.1 hnil⟩,
      fun hall ↦ absurd (hall e hmem) (not_inexact_of_exact he)⟩
  · intro h
    obtain ⟨pre', e', post', hl', he', hpre', hnone⟩ := h.exact ⟨e, hmem, he⟩
    obtain ⟨rfl, rfl⟩ := first_unique (hl.symm.trans hl') hpre hpre' (not_inexact_of_exact he)
      (not_inexact_of_exact he')
    obtain rfl := hrec.eq_nil_iff.2 hnone
    refine ⟨fun _ raise ↦ ?_, fun reported hrep ↦ ?_⟩
    · obtain ⟨mm, cache, hfind, hm⟩ := findOverload_of_pick rt self hash d call hpick raise
      exact ⟨mm, cache, e, hfind, hm, hmem, he⟩
    · obtain ⟨best', rivals', hpick', hne, -⟩ :=
        (resolve_eq_ambiguous_iff rt self hash d call reported).1 hrep
      exact absurd (Prod.mk.inj (Except.ok.inj (hpick'.symm.trans hpick))).2 hne

/-- With a fault before any exact match, the reports are sound if there is no exact match. -/
theorem iff_of_fault {pre post : List (JPMethod Cls)} {m : JPMethod Cls} {f : Fault}
    (hl : self.overloads = pre ++ m :: post)
    (hpre : ∀ m ∈ pre, Inexact (rating rt.conv call) m)
    (hm : m.rating rt.conv call = .error f) :
    SoundReports rt self hash d call ↔
      (contest Cls call.callInstance).Unburdened (rating rt.conv call) self.overloads := by
  have hpick := pick_of_fault (c := contest Cls call.callInstance) post hpre hm
  rw [← hl] at hpick
  have hmem : m ∈ self.overloads := by simp [hl]
  constructor
  · refine fun h ↦ ⟨fun hexact ↦ ?_,
      fun hall ↦ absurd (hall m hmem) (not_inexact_of_error hm)⟩
    obtain ⟨mm, cache, e, hfind, he, -⟩ := h.exact hexact true
    obtain ⟨q, hpick'⟩ := pick_of_findOverload rt self hash d call hfind he
    cases hpick.symm.trans hpick'
  · refine fun h ↦ ⟨fun hexact ↦ ?_, fun reported hrep ↦ ?_⟩
    · obtain ⟨pre', e, post', hl', he, hpre', -⟩ := h.exact hexact
      obtain ⟨-, rfl⟩ := first_unique (hl.symm.trans hl') hpre hpre' (not_inexact_of_error hm)
        (not_inexact_of_exact he)
      cases hm.symm.trans he
    · obtain ⟨best, rivals, hpick', -⟩ :=
        (resolve_eq_ambiguous_iff rt self hash d call reported).1 hrep
      cases hpick.symm.trans hpick'

end SoundReports

open Contest in
/-- **Soundness of ambiguity reports**: they are sound exactly if no former best match has left
overloads on the list to one that is not ambiguous itself. -/
theorem soundReports_iff [DecidableEq D] (rt : Runtime Cls Py H) (self : JPMethodDispatch Cls)
    (hash : ℕ → H) (d : D) (call : Call Py) :
    SoundReports rt self hash d call ↔
      (contest Cls call.callInstance).Unburdened (rating rt.conv call) self.overloads := by
  by_cases hall : ∀ m ∈ self.overloads, Inexact (rating rt.conv call) m
  · exact SoundReports.iff_of_inexact hall
  · obtain ⟨pre, m, post, hl, hpre, hm | ⟨f, hm⟩⟩ := exists_not_inexact hall
    · exact SoundReports.iff_of_first_exact hl hpre hm
    · exact SoundReports.iff_of_fault hl hpre hm

/-! ### An exact match after a tie -/

/-- The parameter classes of the overloads of `put`. -/
inductive SlotClass where
  | int
  | integer
  | object
  | slots
  deriving DecidableEq, Repr

namespace SlotClass

/-- `Slots.put`, a static method. -/
def put (ptr : ℕ) (javaParameters : List SlotClass) : JPMethod SlotClass where
  ptr := ptr
  name := "put"
  declaringClass := slots
  kind := .staticMethod
  isVarArgs := false
  javaParameters := javaParameters
  moreSpecificOverloads := []
  javaParameters_ne_nil h := by cases h

/-- The dispatch of `Slots.put`. None of the three overloads is more specific than another. -/
def puts : JPMethodDispatch SlotClass where
  name := "put"
  declaringClass := slots
  overloads := [put 1 [object, integer], put 2 [integer, object], put 3 [int, int]]
  isConstructor := false

/-- How a `JInt` converts: it is an `int`, is boxed to an `Integer`, and to an `Object` by the
conversion of any Java value. -/
def convertInt : SlotClass → MatchType
  | int => .exact
  | integer => .derived
  | object => .implicit
  | slots => .none

/-- The runtime in which all arguments are `JInt`s. -/
def runtime : Runtime SlotClass Unit (Bool × ℕ) where
  conv :=
    { findJavaConversion := fun type _ ↦ convertInt type
      getComponentType := id }
  hash callInstance args := (callInstance, args.length)
  typeName _ := "JInt"
  canonicalName _ := "Slots"

/-- `Slots.put(JInt(1), JInt(2))` is reported as ambiguous, though `put(int, int)` matches it
exactly. -/
theorem put_not_soundReports :
    ¬SoundReports runtime puts (fun _ ↦ (false, 0)) () (.unbound [(), ()]) := by
  intro h
  obtain ⟨mm, cache, m, hfind, -⟩ :=
    h.exact ⟨put 3 [int, int], by simp [puts], rfl⟩ false
  cases hfind

end SlotClass

end JPype
