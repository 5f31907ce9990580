import JPype.Foundation.Runs
import JPype.Overload.Delivery
import JPype.Overload.Dispatch

/-!
# Transparency of the overload cache

A cache is transparent when no history of calls can be told from its absence. The entry of a
dispatch is keyed on the hash of the argument types, while the outcome it stands for was decided
by the match qualities of all the overloads, and those depend on the argument values; the key,
moreover, lives in the `JPMethod`, which another dispatch may share and overwrite. So the cache
of `findOverload` is not transparent (`listDispatch_not_transparent`), and no hash can make it
so.

What does hold is proved over every history. The states are traced with a ghost, the call that
last filled each entry; the invariant `Traced.Valid` says that a fresh search on that call picks
the entry. A call that takes the entry therefore has the outcome of a fresh search as soon as
the overloads match it as they matched the filling call (`Backed`), whatever the hash and
whatever the other dispatches did in between (`transparent_of_backed`).
-/

namespace JPype

open Foundation JPMethod JPMethodDispatch

variable {Cls Py H D : Type}

/-- One call of a history: `findOverload` on dispatch `dispatch`. -/
structure Request (D Py : Type) where
  dispatch : D
  call : Call Py
  raise : Bool

namespace Cache

/-- The cache with every `m_LastOverload` null. -/
def emptied (cache : Cache D Cls H) : Cache D Cls H :=
  empty cache.hash

variable [DecidableEq H] [DecidableEq D]

/-- The cache after a request. An exception leaves it as it is. -/
def next (rt : Runtime Cls Py H) (dispatches : D → JPMethodDispatch Cls) (cache : Cache D Cls H)
    (r : Request D Py) : Cache D Cls H :=
  match findOverload rt (dispatches r.dispatch) cache r.dispatch r.call r.raise with
  | .error _ => cache
  | .ok (_, cache) => cache

/-- The cache after a history of requests, with the hashes in the methods as they happened to be
at its start. -/
def after (rt : Runtime Cls Py H) (dispatches : D → JPMethodDispatch Cls) (hash : ℕ → H)
    (history : List (Request D Py)) : Cache D Cls H :=
  run (next rt dispatches) (empty hash) history

end Cache

/-- A call on null entries is a fresh search. -/
theorem outcome_emptied [DecidableEq H] (rt : Runtime Cls Py H) (self : JPMethodDispatch Cls)
    (cache : Cache D Cls H) (d : D) (call : Call Py) :
    outcome rt self cache.emptied d call = freshOutcome rt.conv self call :=
  outcome_empty rt self cache.hash d call

variable [DecidableEq H] [DecidableEq D]

/-- **Cache transparency** of a family of dispatches: after every history, every call comes out
as it does when all the entries are null. -/
def CacheTransparent (rt : Runtime Cls Py H) (dispatches : D → JPMethodDispatch Cls) : Prop :=
  ∀ (hash : ℕ → H) (history : List (Request D Py)) (r : Request D Py),
    outcome rt (dispatches r.dispatch) (Cache.after rt dispatches hash history) r.dispatch r.call =
      outcome rt (dispatches r.dispatch) (Cache.after rt dispatches hash history).emptied
        r.dispatch r.call

/-! ### Selection looks at qualities from `_implicit` on -/

/-- A rating as selection uses it: below `_implicit` all are alike. -/
def clip (q : Except Fault MatchType) : Except Fault (Option MatchType) :=
  q.map fun q ↦ if q < .implicit then none else some q

theorem clip_inj_of_ok {q q' : MatchType} (h : clip (.ok q) = clip (.ok q')) :
    q = q' ∨ (q < .implicit ∧ q' < .implicit) := by
  simp only [clip, Except.map, Except.ok.injEq] at h
  split at h <;> split at h
  · next h₁ h₂ => exact .inr ⟨h₁, h₂⟩
  · cases h
  · cases h
  · exact .inl (Option.some.inj h)

/-- Ratings that agree from `_implicit` on select alike. -/
theorem pick_congr {α : Type} (c : Contest α) {rate rate' : α → Except Fault MatchType} :
    ∀ (l : List α) (best : Option (α × MatchType)) (rivals : List α),
      (∀ a ∈ l, clip (rate a) = clip (rate' a)) →
      c.pick rate l best rivals = c.pick rate' l best rivals := by
  intro l
  induction l with
  | nil => exact fun _ _ _ ↦ rfl
  | cons a rest ih =>
    intro best rivals h
    have ha := h a List.mem_cons_self
    have hrest : ∀ b ∈ rest, clip (rate b) = clip (rate' b) :=
      fun b hb ↦ h b (List.mem_cons_of_mem a hb)
    rcases hq : rate a with f | q <;> rcases hq' : rate' a with f' | q' <;> rw [hq, hq'] at ha
    · obtain rfl : f = f' := by simpa [clip, Except.map] using ha
      rw [Contest.pick, Contest.pick, hq, hq']
      rfl
    · simp [clip, Except.map] at ha
    · simp [clip, Except.map] at ha
    · rw [Contest.pick_cons c hq, Contest.pick_cons c hq']
      rcases clip_inj_of_ok ha with rfl | ⟨hlow, hlow'⟩
      · split
        · rfl
        · exact ih _ _ hrest
      · have hne : q ≠ .exact := fun he ↦ absurd (he ▸ hlow) (by decide)
        have hne' : q' ≠ .exact := fun he ↦ absurd (he ▸ hlow') (by decide)
        rw [if_neg hne, if_neg hne', Contest.challenge_of_lt a hlow,
          Contest.challenge_of_lt a hlow']
        exact ih _ _ hrest

/-- Two calls made in the same way whose overloads match alike are alike to a fresh search. -/
theorem freshOutcome_congr (conv : Conversions Cls Py) (self : JPMethodDispatch Cls)
    {call call' : Call Py} (hinstance : call.callInstance = call'.callInstance)
    (h : ∀ m ∈ self.overloads, clip (m.rating conv call) = clip (m.rating conv call')) :
    freshOutcome conv self call = freshOutcome conv self call' := by
  rw [freshOutcome, freshOutcome, hinstance, pick_congr _ _ _ _ h]

/-- A method of fixed arity is always rated. -/
theorem exists_rating (conv : Conversions Cls Py) (m : JPMethod Cls) (call : Call Py)
    (hfixed : m.isVarArgs = false) : ∃ q, m.rating conv call = .ok q := by
  have hmm : (JPMethodMatch.ofArgs call.vargs : JPMethodMatch Cls Py).objects = call.vargs :=
    JPMethodMatch.objects_ofArgs _
  obtain ⟨mm, hrun, -, -⟩ :=
    matchesCall_fixed conv m _ call.callInstance hfixed (offset_le m call _ hmm)
  exact ⟨mm.type, by rw [rating, hrun]; rfl⟩

/-! ### The traced states -/

/-- A cache together with the call that last filled each entry. -/
structure Traced (D Cls Py H : Type) where
  cache : Cache D Cls H
  filledBy : D → Option (Call Py)

namespace Traced

/-- The state before any call. -/
def start (hash : ℕ → H) : Traced D Cls Py H where
  cache := Cache.empty hash
  filledBy _ := none

/-- The request makes `findOverload` store the overload it found. -/
def stores (rt : Runtime Cls Py H) (dispatches : D → JPMethodDispatch Cls)
    (cache : Cache D Cls H) (r : Request D Py) : Bool :=
  match resolve rt (dispatches r.dispatch) cache r.dispatch r.call with
  | .ok (.chosen mm _) => decide (.implicit ≤ mm.type)
  | _ => false

/-- A request, traced. -/
def next (rt : Runtime Cls Py H) (dispatches : D → JPMethodDispatch Cls)
    (t : Traced D Cls Py H) (r : Request D Py) : Traced D Cls Py H where
  cache := t.cache.next rt dispatches r
  filledBy :=
    if stores rt dispatches t.cache r then
      Function.update t.filledBy r.dispatch (some r.call)
    else t.filledBy

/-- Every entry is what a fresh search on the call that filled it picks. -/
def Valid (rt : Runtime Cls Py H) (dispatches : D → JPMethodDispatch Cls)
    (t : Traced D Cls Py H) : Prop :=
  ∀ d m, t.cache.lastOverload d = some m → ∃ call, t.filledBy d = some call ∧
    freshOutcome rt.conv (dispatches d) call = .ok (.chosen m)

/-- What a request does to the cache: it stores the overload that a fresh search picks, or
nothing. -/
theorem next_cases (rt : Runtime Cls Py H) (dispatches : D → JPMethodDispatch Cls)
    (cache : Cache D Cls H) (r : Request D Py) :
    (stores rt dispatches cache r = false ∧ cache.next rt dispatches r = cache) ∨
    ∃ m, stores rt dispatches cache r = true ∧
      freshOutcome rt.conv (dispatches r.dispatch) r.call = .ok (.chosen m) ∧
      (cache.next rt dispatches r).lastOverload =
        Function.update cache.lastOverload r.dispatch (some m) := by
  rw [stores, Cache.next, findOverload]
  rcases hres : resolve rt (dispatches r.dispatch) cache r.dispatch r.call with
    f | ⟨mm, m⟩ | ⟨mm, m⟩ | ⟨overloads⟩ | -
  · exact .inl ⟨rfl, rfl⟩
  · exact .inl ⟨rfl, rfl⟩
  · have hfresh := freshOutcome_of_chosen rt _ cache r.dispatch r.call hres
    by_cases hq : MatchType.implicit ≤ mm.type
    · exact .inr ⟨m, by simp [hq], hfresh, by simp [hq]⟩
    · exact .inl ⟨by simp [hq], by simp [hq]⟩
  · refine .inl ⟨rfl, ?_⟩
    rcases r.raise with - | - <;> rfl
  · refine .inl ⟨rfl, ?_⟩
    rcases r.raise with - | - <;> rfl

/-- Entries stay valid, whichever requests come. -/
theorem Valid.next {rt : Runtime Cls Py H} {dispatches : D → JPMethodDispatch Cls}
    (t : Traced D Cls Py H) (r : Request D Py) (h : t.Valid rt dispatches) :
    (t.next rt dispatches r).Valid rt dispatches := by
  intro d m hlast
  rcases next_cases rt dispatches t.cache r with ⟨hno, hcache⟩ | ⟨m', hyes, hfresh, hcache⟩
  · rw [Traced.next, hcache] at hlast
    simpa only [Traced.next, hno, Bool.false_eq_true, if_false] using h d m hlast
  · simp only [Traced.next, hcache, hyes, if_true] at hlast ⊢
    rcases eq_or_ne d r.dispatch with rfl | hne
    · rw [Function.update_self] at hlast ⊢
      exact ⟨r.call, rfl, Option.some.inj hlast ▸ hfresh⟩
    · rw [Function.update_of_ne hne] at hlast ⊢
      exact h d m hlast

/-- Entries are valid after every history. -/
theorem valid_run (rt : Runtime Cls Py H) (dispatches : D → JPMethodDispatch Cls) (hash : ℕ → H)
    (history : List (Request D Py)) :
    (run (Traced.next rt dispatches) (start hash) history).Valid rt dispatches :=
  invariant_run (fun t r h ↦ Valid.next t r h) history _ fun _ _ h ↦ nomatch h

/-- The caches of a traced history are those of the history. -/
theorem cache_run (rt : Runtime Cls Py H) (dispatches : D → JPMethodDispatch Cls) (hash : ℕ → H)
    (history : List (Request D Py)) :
    (run (Traced.next rt dispatches) (start hash) history).cache =
      Cache.after rt dispatches hash history :=
  run_projection (fun _ _ ↦ rfl) history _

/-- If the request takes the entry of its dispatch, then it is made in the same way as the call
that filled the entry, and every overload matches it as it matched that call. -/
def Backed (rt : Runtime Cls Py H) (dispatches : D → JPMethodDispatch Cls)
    (t : Traced D Cls Py H) (r : Request D Py) : Prop :=
  ∀ m q, Hit rt t.cache r.dispatch r.call m → m.rating rt.conv r.call = .ok q → .explicit < q →
    ∃ call, t.filledBy r.dispatch = some call ∧ r.call.callInstance = call.callInstance ∧
      ∀ m' ∈ (dispatches r.dispatch).overloads,
        clip (m'.rating rt.conv r.call) = clip (m'.rating rt.conv call)

omit [DecidableEq D] in
/-- A backed request on valid entries comes out as a fresh search. -/
theorem Valid.outcome_eq {rt : Runtime Cls Py H} {dispatches : D → JPMethodDispatch Cls}
    {t : Traced D Cls Py H} (h : t.Valid rt dispatches) {r : Request D Py}
    (hbacked : Backed rt dispatches t r) :
    outcome rt (dispatches r.dispatch) t.cache r.dispatch r.call =
      freshOutcome rt.conv (dispatches r.dispatch) r.call := by
  by_cases hhit : ∃ m, Hit rt t.cache r.dispatch r.call m
  · obtain ⟨m, hhit⟩ := hhit
    rw [outcome_of_hit rt _ t.cache r.dispatch r.call hhit]
    obtain ⟨q, hq⟩ := exists_rating rt.conv m r.call hhit.2.1
    rw [hq]
    show (if MatchType.explicit < q then _ else _) = _
    split
    · next hmatch =>
      obtain ⟨call, hcall, hinstance, hall⟩ := hbacked m q hhit hq hmatch
      obtain ⟨call', hcall', hfresh⟩ := h r.dispatch m hhit.1
      obtain rfl : call = call' := Option.some.inj (hcall.symm.trans hcall')
      rw [freshOutcome_congr rt.conv _ hinstance hall, hfresh]
    · rfl
  · exact outcome_of_miss rt _ t.cache r.dispatch r.call fun m hm ↦ hhit ⟨m, hm⟩

end Traced

/-- **Transparency where the entry is backed.** After every history, a request that is backed
comes out as it does on null entries. -/
theorem transparent_of_backed (rt : Runtime Cls Py H) (dispatches : D → JPMethodDispatch Cls)
    (hash : ℕ → H) (history : List (Request D Py)) (r : Request D Py)
    (h : Traced.Backed rt dispatches
      (run (Traced.next rt dispatches) (Traced.start hash) history) r) :
    outcome rt (dispatches r.dispatch) (Cache.after rt dispatches hash history) r.dispatch r.call =
      outcome rt (dispatches r.dispatch) (Cache.after rt dispatches hash history).emptied
        r.dispatch r.call := by
  have hvalid := Traced.valid_run rt dispatches hash history
  rw [outcome_emptied, ← hvalid.outcome_eq h, Traced.cache_run]

/-! ### Lists of strings and lists of integers -/

/-- `static void f(int[])` -/
def takesInts : JPMethod String where
  ptr := 0
  name := "f"
  declaringClass := "A"
  kind := .staticMethod
  isVarArgs := false
  javaParameters := ["int[]"]
  moreSpecificOverloads := []
  javaParameters_ne_nil h := by cases h

/-- `static void f(String[])` -/
def takesStrings : JPMethod String where
  ptr := 1
  name := "f"
  declaringClass := "A"
  kind := .staticMethod
  isVarArgs := false
  javaParameters := ["String[]"]
  moreSpecificOverloads := []
  javaParameters_ne_nil h := by cases h

/-- The two overloads of `f`. -/
def listDispatch : JPMethodDispatch String where
  name := "f"
  declaringClass := "A"
  overloads := [takesInts, takesStrings]
  isConstructor := false

/-- Arguments that are Python lists of strings: each converts to `String[]`, and the empty one to
every array. The type of lists lies at the address 4096. -/
def listRuntime : Runtime String (List String) (BitVec 64) where
  conv :=
    { findJavaConversion := fun type items ↦
        if type = "String[]" ∨ items = [] then .implicit else .none
      getComponentType := fun type ↦ type }
  hash := argumentHash (fun _ ↦ 4096) fun _ ↦ none
  typeName _ := "list"
  canonicalName c := c

/-- `f(["a"])` fills the cache with the overload on strings, and `f([])`, ambiguous on its own,
then goes to it. -/
theorem listDispatch_not_transparent :
    ¬CacheTransparent listRuntime (fun _ : Unit ↦ listDispatch) := by
  intro h
  have hsame := h (fun _ ↦ 0) [⟨(), .unbound [["a"]], true⟩] ⟨(), .unbound [[]], true⟩
  have hfresh : freshOutcome listRuntime.conv listDispatch (.unbound [[]]) =
      .ok (.ambiguous [takesStrings, takesInts]) := rfl
  have hcached : outcome listRuntime listDispatch
      (Cache.after listRuntime (fun _ : Unit ↦ listDispatch) (fun _ ↦ 0)
        [⟨(), .unbound [["a"]], true⟩]) () (.unbound [[]]) = .ok (.chosen takesStrings) := rfl
  rw [outcome_emptied, hfresh, hcached] at hsame
  simp at hsame

/-- Repeating `f(["a"])` is backed, and comes out as it did. -/
theorem listDispatch_repeated :
    outcome listRuntime listDispatch
        (Cache.after listRuntime (fun _ : Unit ↦ listDispatch) (fun _ ↦ 0)
          [⟨(), .unbound [["a"]], true⟩]) () (.unbound [["a"]]) =
      outcome listRuntime listDispatch
        (Cache.after listRuntime (fun _ : Unit ↦ listDispatch) (fun _ ↦ 0)
          [⟨(), .unbound [["a"]], true⟩]).emptied () (.unbound [["a"]]) :=
  transparent_of_backed listRuntime (fun _ ↦ listDispatch) (fun _ ↦ 0)
    [⟨(), .unbound [["a"]], true⟩] ⟨(), .unbound [["a"]], true⟩
    fun _ _ _ _ _ ↦ ⟨.unbound [["a"]], rfl, rfl, fun _ _ ↦ rfl⟩

end JPype
