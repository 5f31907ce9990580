import JPype.Foundation.Runs
import JPype.Foundation.Spacing
import Mathlib.Data.Int.Order.Basic
import Mathlib.Algebra.BigOperators.Ring.List
import Mathlib.Algebra.Order.Ring.Int
import Mathlib.Logic.Function.Basic

/-!
# Collections of Python forced by collections of Java

`JPGarbageCollection`. A collection of Java calls `triggered` on some thread, which forces a
collection of Python unless another thread is about it or the last one is too recent. The callbacks
`onStart` and `onEnd`, which Python runs around each of its collections, may ask Java to collect in
turn; they do nothing on a thread that forces a collection.

The threads take the steps of `triggered` in any order, with the clock running on in between.
`forced` records the collections as `triggered` has measured them. Clock and sizes are exact
numbers.
-/

namespace JPype

open Foundation

namespace JPGarbageCollection

/-- `FORCED_GC_MIN_INTERVAL_NS` -/
def forcedGcMinIntervalNs : ℤ := 50 * 1000 * 1000

/-- `FORCED_GC_BACKOFF` -/
def forcedGcBackoff : ℤ := 4

/-- `DELTA_LIMIT` -/
def deltaLimit : ℕ := 20 * 1024 * 1024

/-- Where a thread stands in `triggered`. -/
inductive Pc where
  | outside
  /-- Before `if (!running) return` -/
  | entry
  /-- Before `forcing_gc.exchange(true)` -/
  | claim
  /-- Before the clock is read for the comparison -/
  | claimed
  /-- Before the comparison with `next_forced_ns` -/
  | sampled (now : ℤ)
  /-- Before `start` is read -/
  | admitted
  /-- Before Python is locked -/
  | locking (start : ℤ)
  /-- In `PyGC_Collect` -/
  | collecting (start : ℤ)
  /-- Before `forcing_collection = false` -/
  | collected (start : ℤ)
  /-- Before `end` is read -/
  | leaving (start : ℤ)
  /-- Before `next_forced_ns` is set -/
  | measured (start stop : ℤ)
  /-- Before `forcing_gc = false` -/
  | releasing
  deriving DecidableEq

/-- The sizes and counts that `onEnd` decides by. -/
structure Sizes where
  lastPython : ℕ := 0
  lowWater : ℕ := 0
  highWater : ℕ := 0
  limit : ℕ := 0
  last : ℕ := 0
  pythonCount : ℕ := 0
  pythonTriggered : ℕ := 0

/-- The members of `JPGarbageCollection`, with the threads that use it. -/
structure State (Thread : Type) where
  clock : ℤ
  running : Bool := false
  inPythonGc : Bool := false
  forcingGc : Bool := false
  nextForcedNs : ℤ := 0
  sizes : Sizes := {}
  /-- `forcing_collection`, of which each thread has its own. -/
  forcingCollection : Thread → Bool := fun _ ↦ false
  pc : Thread → Pc := fun _ ↦ .outside
  /-- The start and the end of each forced collection. -/
  forced : List (ℤ × ℤ) := []

/-- What happens: time passes, the garbage collection is set up or shut down, Java has collected, a
thread takes its next step of `triggered` (where `locks` says whether Python can be locked), or
Python runs its callbacks, with `current` the working size. -/
inductive Event (Thread : Type) where
  | tick (ns : ℕ)
  | init (current : ℕ)
  | shutdown
  | triggered (t : Thread)
  | advance (t : Thread) (locks : Bool)
  | onStart (t : Thread)
  | onEnd (t : Thread) (current : ℕ)

/-- The pause after a forced collection. -/
def pause (collection : ℤ × ℤ) : ℤ :=
  max forcedGcMinIntervalNs (forcedGcBackoff * (collection.2 - collection.1))

namespace Sizes

/-- The policy at the end of `onEnd`. -/
def decide (s : Sizes) (current : ℕ) : Sizes :=
  let run_gc := if current > s.limit then 1 else 0
  let limit := if current > s.limit then s.highWater + deltaLimit else s.limit
  let slope : ℤ := current - s.last
  let pred : ℤ := current + 2 * slope
  let run_gc := if pred > limit then 2 else run_gc
  let limit := if pred > limit then s.highWater + s.highWater / 8 else limit
  let s := { s with limit := limit, last := current }
  if run_gc > 0 then
    { s with
      lowWater := (s.lowWater + s.highWater) / 2
      pythonTriggered := s.pythonTriggered + 1 }
  else s

/-- `onEnd`, after `in_python_gc` has been reset. -/
def onEnd (s : Sizes) (current : ℕ) : Sizes :=
  let s := { s with
    pythonCount := s.pythonCount + 1
    highWater := max s.highWater current
    lowWater := min s.lowWater current
    lastPython := current }
  let s :=
    if current = s.lowWater then
      { s with
        limit := (s.limit + s.highWater) / 2
        highWater := min s.highWater (s.lowWater + 4 * deltaLimit) }
    else s
  if current < s.last then { s with last := current } else s.decide current

end Sizes

variable {Thread : Type} [DecidableEq Thread]

namespace State

/-- A thread goes on to the next step. -/
def goto (s : State Thread) (t : Thread) (pc : Pc) : State Thread :=
  { s with pc := Function.update s.pc t pc }

/-- A thread marks itself as the one that forces a collection, or no longer. -/
def setForcingCollection (s : State Thread) (t : Thread) (b : Bool) : State Thread :=
  { s with forcingCollection := Function.update s.forcingCollection t b }

/-- The steps of `triggered` -/
def advance (s : State Thread) (t : Thread) (locks : Bool) : State Thread :=
  match s.pc t with
  | .outside => s
  | .entry => if !s.running then s.goto t .outside else s.goto t .claim
  | .claim =>
    if s.forcingGc then s.goto t .outside else { s with forcingGc := true }.goto t .claimed
  | .claimed => s.goto t (.sampled s.clock)
  | .sampled now =>
    if now < s.nextForcedNs then s.goto t .releasing else s.goto t .admitted
  | .admitted => (s.setForcingCollection t true).goto t (.locking s.clock)
  | .locking start =>
    if locks && s.running then s.goto t (.collecting start) else s.goto t (.collected start)
  | .collecting start => s.goto t (.collected start)
  | .collected start => (s.setForcingCollection t false).goto t (.leaving start)
  | .leaving start => s.goto t (.measured start s.clock)
  | .measured start stop =>
    { s with
      nextForcedNs := stop + pause (start, stop)
      forced := s.forced ++ [(start, stop)] }.goto t .releasing
  | .releasing => { s with forcingGc := false }.goto t .outside

/-- `onStart` -/
def onStart (s : State Thread) (t : Thread) : State Thread :=
  if !s.running || s.forcingCollection t then s else { s with inPythonGc := true }

/-- `onEnd` -/
def onEnd (s : State Thread) (t : Thread) (current : ℕ) : State Thread :=
  if !s.running || s.forcingCollection t then s
  else if s.inPythonGc then { s with inPythonGc := false, sizes := s.sizes.onEnd current }
  else s

/-- An event. -/
def step (s : State Thread) : Event Thread → State Thread
  | .tick ns => { s with clock := s.clock + ns }
  | .init current =>
    { s with
      running := true
      sizes := { s.sizes with highWater := current, limit := current + deltaLimit } }
  | .shutdown => { s with running := false }
  | .triggered t => if s.pc t = .outside then s.goto t .entry else s
  | .advance t locks => s.advance t locks
  | .onStart t => s.onStart t
  | .onEnd t current => s.onEnd t current

end State

/-- Before the garbage collection is set up. -/
def new (clock : ℤ) : State Thread where
  clock := clock

/-! ### What holds between the steps -/

namespace Pc

/-- Between the claim of `forcing_gc` and its release. -/
def guarded : Pc → Bool
  | .outside | .entry | .claim => false
  | _ => true

/-- While `forcing_collection` is set. -/
def forcing : Pc → Bool
  | .locking _ | .collecting _ | .collected _ => true
  | _ => false

/-- What the times that have been read say. -/
def Ready (clock next : ℤ) : Pc → Prop
  | .sampled now => now ≤ clock
  | .admitted => next ≤ clock
  | .locking start | .collecting start | .collected start | .leaving start =>
    next ≤ start ∧ start ≤ clock
  | .measured start stop => next ≤ start ∧ start ≤ stop
  | _ => True

theorem ready_of_not_guarded {pc : Pc} {clock next : ℤ} (h : pc.guarded = false) :
    pc.Ready clock next := by
  cases pc <;> trivial

theorem Ready.mono {pc : Pc} {clock clock' next : ℤ} (h : pc.Ready clock next)
    (hle : clock ≤ clock') : pc.Ready clock' next := by
  cases pc with
  | sampled now => exact h.trans hle
  | admitted => exact h.trans hle
  | locking start => exact ⟨h.1, h.2.trans hle⟩
  | collecting start => exact ⟨h.1, h.2.trans hle⟩
  | collected start => exact ⟨h.1, h.2.trans hle⟩
  | leaving start => exact ⟨h.1, h.2.trans hle⟩
  | measured start stop => exact h
  | _ => trivial

end Pc

/-- How long a forced collection keeps the next one off, from its start on. -/
def span (collection : ℤ × ℤ) : ℤ :=
  collection.2 - collection.1 + pause collection

/-- One thread at a time is in the guarded part, and goes on past the comparison only when the
pause is over. -/
structure Inv (s : State Thread) : Prop where
  forcingGc : ∀ t, (s.pc t).guarded = true → s.forcingGc = true
  unique : ∀ t u, (s.pc t).guarded = true → (s.pc u).guarded = true → t = u
  ready : ∀ t, (s.pc t).Ready s.clock s.nextForcedNs
  forcingCollection : ∀ t, s.forcingCollection t = (s.pc t).forcing
  ordered : ∀ c ∈ s.forced, c.1 ≤ c.2
  apart : Apart Prod.fst span s.forced
  nextForcedNs : ∀ c ∈ s.forced.getLast?, c.1 + span c ≤ s.nextForcedNs

namespace Inv

variable {s : State Thread} {t : Thread} {pc' : Pc}

omit [DecidableEq Thread] in
theorem initial (clock : ℤ) : Inv (new clock : State Thread) where
  forcingGc _ h := absurd h Bool.false_ne_true
  unique _ _ h := absurd h Bool.false_ne_true
  ready _ := trivial
  forcingCollection _ := rfl
  ordered _ hc := absurd hc List.not_mem_nil
  apart := apart_nil
  nextForcedNs _ hc := absurd hc (by simp [new])

/-- A thread that goes on within the guarded part, or outside of it. -/
theorem move (h : Inv s) (hguarded : pc'.guarded = true → (s.pc t).guarded = true)
    (hready : pc'.Ready s.clock s.nextForcedNs) :
    Inv ((s.setForcingCollection t pc'.forcing).goto t pc') := by
  have hback : ∀ u, (Function.update s.pc t pc' u).guarded = true → (s.pc u).guarded = true := by
    intro u hu
    by_cases hut : u = t
    · rw [hut, Function.update_self] at hu
      exact hut ▸ hguarded hu
    · rwa [Function.update_of_ne hut] at hu
  exact
    { forcingGc := fun u hu ↦ h.forcingGc u (hback u hu)
      unique := fun u v hu hv ↦ h.unique u v (hback u hu) (hback v hv)
      ready := by
        intro u
        by_cases hut : u = t
        · rw [hut]
          simpa [State.goto, State.setForcingCollection] using hready
        · simpa [State.goto, State.setForcingCollection, hut] using h.ready u
      forcingCollection := by
        intro u
        by_cases hut : u = t
        · simp [hut, State.goto, State.setForcingCollection]
        · simpa [State.goto, State.setForcingCollection, hut] using h.forcingCollection u
      ordered := h.ordered
      apart := h.apart
      nextForcedNs := h.nextForcedNs }

theorem goto (h : Inv s) (hguarded : pc'.guarded = true → (s.pc t).guarded = true)
    (hforcing : pc'.forcing = (s.pc t).forcing) (hready : pc'.Ready s.clock s.nextForcedNs) :
    Inv (s.goto t pc') := by
  have hmove := h.move hguarded hready
  rwa [hforcing, ← h.forcingCollection, State.setForcingCollection,
    Function.update_eq_self] at hmove

/-- Where no thread is in the guarded part, one may enter it. -/
theorem claim (h : Inv s) (hfree : s.forcingGc = false) (hpc : s.pc t = .claim) :
    Inv ({ s with forcingGc := true }.goto t .claimed) := by
  have hnone : ∀ u, (s.pc u).guarded = false := fun u ↦
    Bool.eq_false_iff.2 fun hu ↦ Bool.eq_false_iff.1 hfree (h.forcingGc u hu)
  have honly : ∀ u, (Function.update s.pc t .claimed u).guarded = true → u = t := by
    intro u hu
    by_contra hut
    rw [Function.update_of_ne hut, hnone u] at hu
    cases hu
  exact
    { forcingGc := fun _ _ ↦ rfl
      unique := fun u v hu hv ↦ (honly u hu).trans (honly v hv).symm
      ready := by
        intro u
        by_cases hut : u = t
        · simp [hut, State.goto, Pc.Ready]
        · simpa [State.goto, hut] using h.ready u
      forcingCollection := by
        intro u
        by_cases hut : u = t
        · simp [hut, State.goto, h.forcingCollection, hpc, Pc.forcing]
        · simpa [State.goto, hut] using h.forcingCollection u
      ordered := h.ordered
      apart := h.apart
      nextForcedNs := h.nextForcedNs }

omit [DecidableEq Thread] in
/-- The thread in the guarded part is the only one that the clock and the pause matter to. -/
theorem ready_of_guarded (h : Inv s) (ht : (s.pc t).guarded = true) {u : Thread} (hu : u ≠ t)
    (clock next : ℤ) : (s.pc u).Ready clock next :=
  Pc.ready_of_not_guarded (Bool.eq_false_iff.2 fun hg ↦ hu (h.unique u t hg ht))

theorem measured {start stop : ℤ} (h : Inv s) (hpc : s.pc t = .measured start stop) :
    Inv ({ s with
      nextForcedNs := stop + pause (start, stop)
      forced := s.forced ++ [(start, stop)] }.goto t .releasing) := by
  have hready : s.nextForcedNs ≤ start ∧ start ≤ stop := by
    have hready := h.ready t
    rwa [hpc] at hready
  have hguarded : (s.pc t).guarded = true := by rw [hpc]; rfl
  exact
    { forcingGc := fun _ _ ↦ h.forcingGc t hguarded
      unique := by
        intro u v hu hv
        have hback : ∀ w, (Function.update s.pc t .releasing w).guarded = true → w = t := by
          intro w hw
          by_contra hwt
          rw [Function.update_of_ne hwt] at hw
          exact hwt (h.unique w t hw hguarded)
        exact (hback u hu).trans (hback v hv).symm
      ready := by
        intro u
        by_cases hut : u = t
        · simp [hut, State.goto, Pc.Ready]
        · simpa [State.goto, hut] using h.ready_of_guarded hguarded hut _ _
      forcingCollection := by
        intro u
        by_cases hut : u = t
        · simp [hut, State.goto, h.forcingCollection, hpc, Pc.forcing]
        · simpa [State.goto, hut] using h.forcingCollection u
      ordered := by
        intro c hc
        obtain hc | hc := List.mem_append.1 hc
        · exact h.ordered c hc
        · rw [List.mem_singleton.1 hc]
          exact hready.2
      apart := h.apart.concat fun c hc ↦ (h.nextForcedNs c hc).trans hready.1
      nextForcedNs := by
        intro c hc
        obtain rfl : c = (start, stop) := by simpa [State.goto] using hc.symm
        simp only [State.goto, span]
        omega }

theorem release (h : Inv s) (hpc : s.pc t = .releasing) :
    Inv ({ s with forcingGc := false }.goto t .outside) := by
  have hguarded : (s.pc t).guarded = true := by rw [hpc]; rfl
  have hnone : ∀ u, (Function.update s.pc t .outside u).guarded ≠ true := by
    intro u hu
    by_cases hut : u = t
    · rw [hut, Function.update_self] at hu
      cases hu
    · rw [Function.update_of_ne hut] at hu
      exact hut (h.unique u t hu hguarded)
  exact
    { forcingGc := fun u hu ↦ absurd hu (hnone u)
      unique := fun u _ hu ↦ absurd hu (hnone u)
      ready := by
        intro u
        by_cases hut : u = t
        · simp [hut, State.goto, Pc.Ready]
        · simpa [State.goto, hut] using h.ready u
      forcingCollection := by
        intro u
        by_cases hut : u = t
        · simp [hut, State.goto, h.forcingCollection, hpc, Pc.forcing]
        · simpa [State.goto, hut] using h.forcingCollection u
      ordered := h.ordered
      apart := h.apart
      nextForcedNs := h.nextForcedNs }

omit [DecidableEq Thread] in
/-- The states that agree in what the invariant speaks of. -/
theorem congr {s' : State Thread} (h : Inv s) (hclock : s.clock ≤ s'.clock)
    (hforcing : s'.forcingGc = s.forcingGc) (hnext : s'.nextForcedNs = s.nextForcedNs)
    (hflag : s'.forcingCollection = s.forcingCollection) (hpc : s'.pc = s.pc)
    (hforced : s'.forced = s.forced) : Inv s' where
  forcingGc := by
    rw [hpc, hforcing]
    exact h.forcingGc
  unique := hpc ▸ h.unique
  ready t := by
    rw [hpc, hnext]
    exact (h.ready t).mono hclock
  forcingCollection := by
    rw [hpc, hflag]
    exact h.forcingCollection
  ordered := hforced ▸ h.ordered
  apart := hforced ▸ h.apart
  nextForcedNs := by
    rw [hforced, hnext]
    exact h.nextForcedNs

theorem advance (h : Inv s) (t : Thread) (locks : Bool) : Inv (s.advance t locks) := by
  have hready := h.ready t
  rw [State.advance]
  cases hpc : s.pc t with
  | outside => exact h
  | entry =>
    dsimp only
    split_ifs
    · exact h.goto (by rw [hpc]; exact id) (by rw [hpc]; rfl) trivial
    · exact h.goto (by rw [hpc]; exact id) (by rw [hpc]; rfl) trivial
  | claim =>
    dsimp only
    split_ifs with hclaimed
    · exact h.goto (by rw [hpc]; exact id) (by rw [hpc]; rfl) trivial
    · exact h.claim (Bool.eq_false_iff.2 hclaimed) hpc
  | claimed => exact h.goto (by rw [hpc]; exact id) (by rw [hpc]; rfl) le_rfl
  | sampled now =>
    rw [hpc] at hready
    dsimp only
    split_ifs with hlt
    · exact h.goto (by rw [hpc]; exact id) (by rw [hpc]; rfl) trivial
    -- The pause is over at the time that has been read, so it is over now.
    · exact h.goto (by rw [hpc]; exact id) (by rw [hpc]; rfl) ((not_lt.1 hlt).trans hready)
  | admitted =>
    rw [hpc] at hready
    exact @move _ _ s t (.locking s.clock) h (by rw [hpc]; exact id) ⟨hready, le_rfl⟩
  | locking start =>
    rw [hpc] at hready
    dsimp only
    split_ifs
    · exact h.goto (by rw [hpc]; exact id) (by rw [hpc]; rfl) hready
    · exact h.goto (by rw [hpc]; exact id) (by rw [hpc]; rfl) hready
  | collecting start =>
    rw [hpc] at hready
    exact h.goto (by rw [hpc]; exact id) (by rw [hpc]; rfl) hready
  | collected start =>
    rw [hpc] at hready
    exact @move _ _ s t (.leaving start) h (by rw [hpc]; exact id) hready
  | leaving start =>
    rw [hpc] at hready
    exact h.goto (by rw [hpc]; exact id) (by rw [hpc]; rfl) hready
  | measured start stop => exact h.measured hpc
  | releasing => exact h.release hpc

theorem step (h : Inv s) : ∀ e, Inv (s.step e) := by
  intro e
  cases e with
  | tick ns => exact h.congr (by simp [State.step]) rfl rfl rfl rfl rfl
  | init current => exact h.congr le_rfl rfl rfl rfl rfl rfl
  | shutdown => exact h.congr le_rfl rfl rfl rfl rfl rfl
  | triggered t =>
    rw [State.step]
    split_ifs with hpc
    · exact h.goto (by rw [hpc]; exact id) (by rw [hpc]; rfl) trivial
    · exact h
  | advance t locks => exact h.advance t locks
  | onStart t =>
    rw [State.step, State.onStart]
    split_ifs
    · exact h
    · exact h.congr le_rfl rfl rfl rfl rfl rfl
  | onEnd t current =>
    rw [State.step, State.onEnd]
    split_ifs
    · exact h
    · exact h.congr le_rfl rfl rfl rfl rfl rfl
    · exact h

theorem run (clock : ℤ) (events : List (Event Thread)) :
    Inv (Foundation.run State.step (new clock) events) :=
  invariant_run (fun _ e h ↦ h.step e) events _ (initial clock)

end Inv

/-! ### Forced collections are rare and on their own -/

/-- What the throttle is for. -/
structure Throttled (s : State Thread) : Prop where
  /-- One thread at a time forces a collection. -/
  alone : ∀ t u start start', s.pc t = .collecting start → s.pc u = .collecting start' → t = u
  /-- It does not start before the pause after the last one is over. -/
  paused : ∀ t start, s.pc t = .collecting start →
    ∀ c ∈ s.forced.getLast?, c.2 + pause c ≤ start
  /-- The collections take their part of the time at most, -/
  share : ∀ first rest last, s.forced = first :: rest ++ [last] →
    (forcedGcBackoff + 1) * ((first :: rest).map fun c ↦ c.2 - c.1).sum ≤ last.1 - first.1
  /-- and do not start more often than the interval allows. -/
  interval : ∀ first rest last, s.forced = first :: rest ++ [last] →
    ((first :: rest).length : ℤ) * forcedGcMinIntervalNs ≤ last.1 - first.1
  /-- A forced collection of Python does not lead to a collection of Java. -/
  unheard : ∀ t start current, s.pc t = .collecting start →
    s.onStart t = s ∧ s.onEnd t current = s

theorem backoff_le_span (c : ℤ × ℤ) : (forcedGcBackoff + 1) * (c.2 - c.1) ≤ span c := by
  have hle := le_max_right forcedGcMinIntervalNs (forcedGcBackoff * (c.2 - c.1))
  rw [span, pause, add_mul, one_mul, add_comm]
  exact Int.add_le_add_left hle _

theorem interval_le_span {c : ℤ × ℤ} (h : c.1 ≤ c.2) : forcedGcMinIntervalNs ≤ span c := by
  have hle := le_max_left forcedGcMinIntervalNs (forcedGcBackoff * (c.2 - c.1))
  rw [span, pause]
  omega

omit [DecidableEq Thread] in
theorem Inv.throttled {s : State Thread} (h : Inv s) : Throttled s where
  alone t u start start' ht hu := h.unique t u (by rw [ht]; rfl) (by rw [hu]; rfl)
  paused t start ht c hc := by
    have hready := h.ready t
    rw [ht] at hready
    have hnext := h.nextForcedNs c hc
    rw [span] at hnext
    have hstart := hready.1
    omega
  share first rest last hforced := by
    have hsum := Apart.sum_spans_le first last (hforced ▸ h.apart)
    have hle : ((first :: rest).map fun c ↦ (forcedGcBackoff + 1) * (c.2 - c.1)).sum ≤
        ((first :: rest).map span).sum :=
      List.sum_le_sum fun c _ ↦ backoff_le_span c
    rw [List.sum_map_mul_left] at hle
    exact le_sub_iff_add_le'.2 ((Int.add_le_add_left hle _).trans hsum)
  interval first rest last hforced := by
    have hsum := Apart.sum_spans_le first last (hforced ▸ h.apart)
    have hle : ∀ x ∈ (first :: rest).map span, forcedGcMinIntervalNs ≤ x := by
      intro x hx
      obtain ⟨c, hc, rfl⟩ := List.mem_map.1 hx
      refine interval_le_span (h.ordered c ?_)
      rw [hforced]
      exact List.mem_append_left _ hc
    have hcard := List.card_nsmul_le_sum _ _ hle
    rw [List.length_map, nsmul_eq_mul] at hcard
    exact le_sub_iff_add_le'.2 ((Int.add_le_add_left hcard _).trans hsum)
  unheard t start current ht := by
    have hforcing : s.forcingCollection t = true := by rw [h.forcingCollection, ht]; rfl
    simp [State.onStart, State.onEnd, hforcing]

/-- However the threads take turns. -/
theorem forcedCollections_throttled (clock : ℤ) (events : List (Event Thread)) :
    Throttled (run State.step (new clock) events) :=
  (Inv.run clock events).throttled

end JPGarbageCollection

end JPype
