import JPype.Reference.ReferenceSet

/-!
# The reference queue

`org.jpype.ref.JPypeReferenceQueue`: three kinds of threads work on one set of references. Each call
of `registerRef` tests the flag and then inserts a reference; the worker takes references whose
objects have been collected, removes them from the set and releases them; `stop` sets the flag,
waits for the worker, and flushes the set. The methods of the set that are synchronized are one
step, and `flush`, which is not, is as many as it has reads and writes.

Two orders of the steps go wrong, and both are the same omission: `stop` goes on when its wait has
timed out, and nothing keeps the other threads out of the set while it is flushed.
-/

open Foundation

namespace JPype

namespace JPypeReferenceQueue

/-- Where a call of `registerRef` is. -/
inductive RegisterPc where
  | start
  | insert
  | release
  | done
  deriving DecidableEq

/-- Where the worker is. -/
inductive WorkerPc (Ref : Type) where
  /-- `while (!isStopped)` -/
  | loop
  /-- `remove(250)` -/
  | poll
  /-- The reads of the fields of a reference. -/
  | read (ref : Ref)
  /-- `hostReferences.remove(ref)` -/
  | remove (ref : Ref) (hostRef cleanup : ℤ)
  /-- `removeHostReference(hostRef, cleanup)` -/
  | release (ref : Ref) (hostRef cleanup : ℤ)
  /-- `queueStopMutex.notifyAll()` -/
  | notify
  | done
  deriving DecidableEq

/-- Where the call of `stop` is. In the loops of `flush`, `k` is the pool, `n` the number of pools
that the iterator expects, and `i` the place. -/
inductive StopPc (Ref : Type) where
  | start
  | wait
  /-- `for (Pool pool : pools)` -/
  | next (k n : ℕ)
  /-- `i < pool.tail` -/
  | test (k n i : ℕ)
  /-- `pool.entries[i]` -/
  | load (k n i : ℕ)
  /-- The reads of the fields of a reference. -/
  | read (k n i : ℕ) (ref : Ref)
  /-- `ref.cleanup = 0` -/
  | zero (k n i : ℕ) (ref : Ref) (hostRef cleanup : ℤ)
  /-- `removeHostReference(hostRef, cleanup)` -/
  | release (k n i : ℕ) (ref : Ref) (hostRef cleanup : ℤ)
  /-- `pool.tail = 0` -/
  | clear (k n : ℕ)
  | done
  /-- An exception. -/
  | failed
  deriving DecidableEq

/-- The call has ended. -/
def StopPc.Ended {Ref : Type} : StopPc Ref → Prop
  | .done | .failed => True
  | _ => False

/-- The set is being flushed. -/
def StopPc.Flushes {Ref : Type} : StopPc Ref → Prop
  | .start | .wait | .done | .failed => False
  | _ => True

end JPypeReferenceQueue

open JPypeReferenceQueue JPypeReferenceSet

/-- `JPypeReferenceQueue` and its threads. A call of `registerRef` is known by its reference, and
`released` has the pairs that have been released with the fields of each. The references whose
objects live, or wait in the queue, are `pending`. -/
structure JPypeReferenceQueue (Ref : Type) where
  hostReferences : JPypeReferenceSet Ref
  isStopped : Bool
  pending : List Ref
  released : Ref → List (ℤ × ℤ)
  register : Ref → RegisterPc
  worker : WorkerPc Ref
  stop : StopPc Ref

namespace JPypeReferenceQueue

variable {Ref : Type} [DecidableEq Ref]

/-- A queue that has been started. -/
def started (refs : Ref → JPypeReference) : JPypeReferenceQueue Ref where
  hostReferences := JPypeReferenceSet.new refs
  isStopped := false
  pending := []
  released _ := []
  register _ := .start
  worker := .loop
  stop := .start

/-- `removeHostReference`: a cleanup of 0 is ignored. -/
def removeHostReference (released : Ref → List (ℤ × ℤ)) (ref : Ref) (hostRef cleanup : ℤ) :
    Ref → List (ℤ × ℤ) :=
  if cleanup = 0 then released
  else Function.update released ref (released ref ++ [(hostRef, cleanup)])

/-- A step of `registerRef`, with the arguments that `refs` has; `none` is an exception of the
set. -/
def registerRef (refs : Ref → JPypeReference) (q : JPypeReferenceQueue Ref) (ref : Ref) :
    Option (JPypeReferenceQueue Ref) :=
  match q.register ref with
  | .start =>
    let pc : RegisterPc :=
      if (refs ref).cleanup = 0 then .done else if q.isStopped then .release else .insert
    some { q with register := Function.update q.register ref pc }
  | .insert =>
    (q.hostReferences.add ref).map fun hostReferences ↦ { q with
      hostReferences := hostReferences
      pending := q.pending ++ [ref]
      register := Function.update q.register ref .done }
  | .release =>
    some { q with
      released := removeHostReference q.released ref (refs ref).hostReference (refs ref).cleanup
      register := Function.update q.register ref .done }
  | .done => some q

/-- A step of `Worker.run`, other than `remove(250)`; `none` is an exception of the set. -/
def workerRun (q : JPypeReferenceQueue Ref) : Option (JPypeReferenceQueue Ref) :=
  match q.worker with
  | .loop => some { q with worker := if q.isStopped then .notify else .poll }
  | .poll => some q
  | .read ref =>
    let entry := q.hostReferences.refs ref
    some { q with worker := .remove ref entry.hostReference entry.cleanup }
  | .remove ref hostRef cleanup =>
    (q.hostReferences.remove ref).map fun hostReferences ↦
      { q with hostReferences := hostReferences, worker := .release ref hostRef cleanup }
  | .release ref hostRef cleanup =>
    some { q with
      released := removeHostReference q.released ref hostRef cleanup, worker := .loop }
  | .notify => some { q with worker := .done }
  | .done => some q

/-- `remove(250)`: a reference, or nothing: the time has passed, or the thread has been
interrupted, or there is the sentinel. -/
def poll (q : JPypeReferenceQueue Ref) : Option Ref → JPypeReferenceQueue Ref
  | some ref => { q with pending := q.pending.erase ref, worker := .read ref }
  | none => { q with worker := .loop }

/-- A step of `stop`. The wait ends when the worker notifies, or the time has passed, or the thread
has been interrupted. -/
def stopStep (q : JPypeReferenceQueue Ref) : Option (JPypeReferenceQueue Ref) :=
  let set := q.hostReferences
  match q.stop with
  | .start => some { q with isStopped := true, stop := .wait }
  | .wait => some { q with stop := .next 0 set.pools.length }
  | .next k n =>
    let pc : StopPc Ref :=
      if k = set.pools.length then .done
      -- `ConcurrentModificationException`
      else if set.pools.length ≠ n then .failed
      else .test k n 0
    some { q with stop := pc }
  | .test k n i =>
    set.pools[k]?.map fun pool ↦
      { q with stop := if i < pool.tail then .load k n i else .clear k n }
  | .load k n i =>
    set.pools[k]?.map fun pool ↦
      match pool.entries i with
      | some ref => { q with stop := .read k n i ref }
      | none => { q with stop := .failed }
  | .read k n i ref =>
    let entry := set.refs ref
    let pc : StopPc Ref :=
      if entry.cleanup = 0 then .test k n (i + 1)
      else .zero k n i ref entry.hostReference entry.cleanup
    some { q with stop := pc }
  | .zero k n i ref hostRef cleanup =>
    some { q with
      hostReferences := { set with
        refs := Function.update set.refs ref { set.refs ref with cleanup := 0 } }
      stop := .release k n i ref hostRef cleanup }
  | .release k n i ref hostRef cleanup =>
    some { q with
      released := removeHostReference q.released ref hostRef cleanup
      stop := .test k n (i + 1) }
  | .clear k n =>
    set.pools[k]?.map fun pool ↦ { q with
      hostReferences := { set with pools := set.pools.set k { pool with tail := 0 } }
      stop := .next (k + 1) n }
  | .done => some q
  | .failed => some q

/-- The next step of a thread. -/
inductive Action (Ref : Type) where
  | register (ref : Ref)
  | worker
  | poll (ref : Option Ref)
  | stop

/-- A step. -/
def step (refs : Ref → JPypeReference) (q : JPypeReferenceQueue Ref) :
    Action Ref → Option (JPypeReferenceQueue Ref)
  | .register ref => q.registerRef refs ref
  | .worker => q.workerRun
  | .poll ref => some (q.poll ref)
  | .stop => q.stopStep

/-- The thread can take a step. The object of a reference is alive until its call returns, and a
reference is queued once. -/
def Enabled (q : JPypeReferenceQueue Ref) : Action Ref → Prop
  | .register ref => q.register ref ≠ .done
  | .worker => q.worker ≠ .poll ∧ q.worker ≠ .done
  | .poll none => q.worker = .poll
  | .poll (some ref) => q.worker = .poll ∧ ref ∈ q.pending
  | .stop => ¬ q.stop.Ended

/-- The wait ends after the worker, and nothing is inserted while the set is flushed. -/
def Timely (q : JPypeReferenceQueue Ref) : Action Ref → Prop
  | .stop => q.stop = .wait → q.worker = .done
  | .register ref => q.register ref = .insert → ¬ q.stop.Flushes
  | _ => True

/-! ### While the threads run -/

section Running

variable {refs : Ref → JPypeReference} {q q' : JPypeReferenceQueue Ref} {h : History Ref}
    {ref : Ref}

/-- The pair that a call registers. -/
def pair (refs : Ref → JPypeReference) (ref : Ref) : ℤ × ℤ :=
  ((refs ref).hostReference, (refs ref).cleanup)

theorem removeHostReference_eq {released : Ref → List (ℤ × ℤ)} {hostRef cleanup : ℤ}
    (hcleanup : (refs ref).cleanup ≠ 0) (hpair : (hostRef, cleanup) = pair refs ref)
    (hreleased : released ref = []) :
    removeHostReference released ref hostRef cleanup =
      Function.update released ref [pair refs ref] := by
  obtain ⟨rfl, rfl⟩ := Prod.mk.inj hpair
  rw [removeHostReference, if_neg hcleanup, hreleased]
  rfl

/-- What the worker has in hand. -/
def WorkerHolds (refs : Ref → JPypeReference) (q : JPypeReferenceQueue Ref) (live : List Ref) :
    Prop :=
  match q.worker with
  | .read ref => ref ∈ live ∧ ref ∉ q.pending
  | .remove ref hostRef cleanup =>
    ref ∈ live ∧ ref ∉ q.pending ∧ (hostRef, cleanup) = pair refs ref
  | .release ref hostRef cleanup =>
    ref ∉ live ∧ (refs ref).cleanup ≠ 0 ∧ q.register ref = .done ∧ q.released ref = [] ∧
      (hostRef, cleanup) = pair refs ref
  | _ => True

/-- A reference that has left the set is the one that the worker releases. -/
def WorkerReleases (q : JPypeReferenceQueue Ref) (ref : Ref) : Prop :=
  ∃ hostRef cleanup, q.worker = .release ref hostRef cleanup

/-- The threads before the flush, for the calls of the set that they have made. -/
structure Running (refs : Ref → JPypeReference) (h : History Ref) (q : JPypeReferenceQueue Ref) :
    Prop where
  set : JPypeReferenceSet.Consistent refs h q.hostReferences
  added : ∀ ref ∈ h.added, q.register ref = .done
  insert : ∀ ref, q.register ref = .insert → (refs ref).cleanup ≠ 0
  pending : ∀ ref ∈ q.pending, ref ∈ h.live
  pending_nodup : q.pending.Nodup
  unreleased : ∀ ref ∈ h.live, q.released ref = []
  accounted : ∀ ref, q.register ref = .done → (refs ref).cleanup ≠ 0 →
    q.released ref = [pair refs ref] ∨ ref ∈ h.live ∨ WorkerReleases q ref
  holds : WorkerHolds refs q h.live

/-- What is said of each call at all times. -/
structure Once (refs : Ref → JPypeReference) (q : JPypeReferenceQueue Ref) : Prop where
  released : ∀ ref, q.released ref = [] ∨ q.released ref = [pair refs ref]
  unregistered : ∀ ref, q.register ref ≠ .done → q.released ref = []

omit [DecidableEq Ref] in
theorem Running.live_done (hq : Running refs h q) (hr : ref ∈ h.live) :
    q.register ref = .done ∧ (refs ref).cleanup ≠ 0 :=
  ⟨hq.added ref (hq.set.live_added hr), fun hzero ↦
    hq.set.cleanup_ne ref hr ((hq.set.cleanup_live ref hr).trans hzero)⟩

/-- A call moves on, or releases its pair: the set and the worker have nothing to do with it. -/
theorem Running.register (hq : Running refs h q) (hstart : q.register ref ≠ .done)
    {pc : RegisterPc} {released : Ref → List (ℤ × ℤ)}
    (hinsert : pc = .insert → (refs ref).cleanup ≠ 0)
    (hframe : ∀ r, r ≠ ref → released r = q.released r)
    (hdone : pc = .done → (refs ref).cleanup ≠ 0 → released ref = [pair refs ref]) :
    Running refs h { q with
      released := released, register := Function.update q.register ref pc } := by
  have hne : ∀ r, q.register r = .done → r ≠ ref := fun r hr hrr ↦ hstart (hrr ▸ hr)
  have hkeep : ∀ r, q.register r = .done → Function.update q.register ref pc r = .done :=
    fun r hr ↦ (Function.update_of_ne (hne r hr) _ _).trans hr
  refine { hq with
    added := fun r hr ↦ hkeep r (hq.added r hr)
    insert := ?_
    unreleased := fun r hr ↦ ?_
    accounted := ?_
    holds := ?_ }
  · intro r hr
    by_cases hrr : r = ref
    · subst hrr
      exact hinsert ((Function.update_self ..).symm.trans hr)
    · exact hq.insert r ((Function.update_of_ne hrr _ _).symm.trans hr)
  · exact (hframe r (hne r (hq.live_done hr).1)).trans (hq.unreleased r hr)
  · intro r hr hcleanup
    by_cases hrr : r = ref
    · subst hrr
      exact .inl (hdone ((Function.update_self ..).symm.trans hr) hcleanup)
    · have hr' := (Function.update_of_ne hrr _ _).symm.trans hr
      refine (hq.accounted r hr' hcleanup).imp_left ((hframe r hrr).trans ·)
  · have hholds := hq.holds
    rw [WorkerHolds] at hholds ⊢
    revert hholds
    cases q.worker with
    | release r hostRef cleanup =>
      rintro ⟨hlive, hzero, hr, hreleased, hpair⟩
      exact ⟨hlive, hzero, hkeep r hr, (hframe r (hne r hr)).trans hreleased, hpair⟩
    | _ => exact id

/-- A reference is inserted. -/
theorem Running.add (hq : Running refs h q) (hinsert : q.register ref = .insert)
    (hreleased : q.released ref = []) :
    ∃ set, q.hostReferences.add ref = some set ∧
      Running refs (h.next refs (.add ref)) { q with
        hostReferences := set
        pending := q.pending ++ [ref]
        register := Function.update q.register ref .done } := by
  have hcleanup := hq.insert ref hinsert
  have hstart : q.register ref ≠ .done := by simp [hinsert]
  have hnew : ref ∉ h.added := fun hr ↦ hstart (hq.added ref hr)
  have hnewLive : ref ∉ h.live := fun hr ↦ hnew (hq.set.live_added hr)
  have hne : ∀ r, q.register r = .done → r ≠ ref := fun r hr hrr ↦ hstart (hrr ▸ hr)
  have hkeep : ∀ r, q.register r = .done →
      Function.update q.register ref RegisterPc.done r = .done :=
    fun r hr ↦ (Function.update_of_ne (hne r hr) _ _).trans hr
  obtain ⟨set, hset, hconsistent⟩ := hq.set.add hnew
  have hnext : h.next refs (.add ref) =
      { h with added := h.added ++ [ref], live := h.live ++ [ref] } := by
    rw [History.next, if_neg hcleanup]
  rw [hnext] at hconsistent ⊢
  have hnewPending : ref ∉ q.pending := fun hr ↦ hnewLive (hq.pending ref hr)
  refine ⟨set, hset, ?_⟩
  constructor
  case set => exact hconsistent
  case added =>
    intro r hr
    obtain hr | hr := List.mem_append.1 hr
    · exact hkeep r (hq.added r hr)
    · rw [List.mem_singleton.1 hr]
      exact Function.update_self ..
  case insert =>
    intro r hr
    by_cases hrr : r = ref
    · rwa [hrr]
    · exact hq.insert r ((Function.update_of_ne hrr _ _).symm.trans hr)
  case pending =>
    intro r hr
    exact List.mem_append.2 ((List.mem_append.1 hr).imp_left (hq.pending r))
  case pending_nodup =>
    exact List.nodup_append.2 ⟨hq.pending_nodup, List.nodup_singleton _,
      fun r hr r' hr' hrr ↦ hnewPending (List.mem_singleton.1 hr' ▸ hrr ▸ hr)⟩
  case unreleased =>
    intro r hr
    obtain hr | hr := List.mem_append.1 hr
    · exact hq.unreleased r hr
    · rwa [List.mem_singleton.1 hr]
  -- The new reference lives; of the others nothing has changed.
  case accounted =>
    intro r hr hzero
    by_cases hrr : r = ref
    · exact .inr (.inl (List.mem_append_right _ (List.mem_singleton.2 hrr)))
    · exact (hq.accounted r ((Function.update_of_ne hrr _ _).symm.trans hr) hzero).imp_right
        (.imp_left (List.mem_append_left _ ·))
  case holds =>
    have hholds := hq.holds
    rw [WorkerHolds] at hholds ⊢
    revert hholds
    cases q.worker with
    | read r =>
      rintro ⟨hlive, hpending⟩
      refine ⟨List.mem_append_left _ hlive, ?_⟩
      simp [hpending, hne r (hq.live_done hlive).1]
    | remove r hostRef cleanup =>
      rintro ⟨hlive, hpending, hpair⟩
      refine ⟨List.mem_append_left _ hlive, ?_, hpair⟩
      simp [hpending, hne r (hq.live_done hlive).1]
    | release r hostRef cleanup =>
      rintro ⟨hlive, hzero, hr, hreleased, hpair⟩
      refine ⟨?_, hzero, hkeep r hr, hreleased, hpair⟩
      simp [hlive, hne r hr]
    | _ => exact id

omit [DecidableEq Ref] in
/-- A worker that is elsewhere releases nothing. -/
theorem not_workerReleases {worker : WorkerPc Ref} (hworker : q.worker = worker)
    (h : ∀ ref hostRef cleanup, worker ≠ .release ref hostRef cleanup) (r : Ref) :
    ¬ WorkerReleases q r := by
  rintro ⟨hostRef, cleanup, hr⟩
  exact h r hostRef cleanup (hworker.symm.trans hr)

omit [DecidableEq Ref] in
/-- The worker moves on, without a release. -/
theorem Running.setWorker (hq : Running refs h q) (hworker : ∀ r, ¬ WorkerReleases q r)
    {worker : WorkerPc Ref} {pending : List Ref} (hpending : pending.Sublist q.pending)
    (hholds : WorkerHolds refs { q with pending := pending, worker := worker } h.live) :
    Running refs h { q with pending := pending, worker := worker } :=
  { hq with
    pending := fun r hr ↦ hq.pending r (hpending.subset hr)
    pending_nodup := hq.pending_nodup.sublist hpending
    accounted := fun r hr hzero ↦ (hq.accounted r hr hzero).imp_right fun hr' ↦
      .inl (hr'.resolve_right (hworker r))
    holds := hholds }

theorem Running.poll (hq : Running refs h q) (hpoll : q.worker = .poll) {r : Option Ref}
    (hr : ∀ ref ∈ r, ref ∈ q.pending) : Running refs h (q.poll r) := by
  have hworker := not_workerReleases hpoll fun _ _ _ ↦ nofun
  cases r with
  | none => exact hq.setWorker hworker (List.Sublist.refl _) trivial
  | some ref =>
    refine hq.setWorker hworker List.erase_sublist ⟨hq.pending ref (hr ref rfl), ?_⟩
    exact hq.pending_nodup.not_mem_erase

/-- The worker has removed a reference from the set. -/
theorem Running.remove (hq : Running refs h q) {hostRef cleanup : ℤ}
    (hworker : q.worker = .remove ref hostRef cleanup) :
    ∃ set, q.hostReferences.remove ref = some set ∧
      Running refs (h.next refs (.remove ref))
        { q with hostReferences := set, worker := .release ref hostRef cleanup } := by
  have hholds := hq.holds
  simp only [WorkerHolds, hworker] at hholds
  obtain ⟨hlive, hpending, hpair⟩ := hholds
  obtain ⟨set, hset, hconsistent⟩ := hq.set.remove (hq.set.live_added hlive)
  have hmem : ∀ r, r ∈ (h.next refs (.remove ref)).live ↔ r ≠ ref ∧ r ∈ h.live :=
    fun r ↦ hq.set.live_nodup.mem_erase_iff
  refine ⟨set, hset, { hq with
    set := hconsistent
    pending := fun r hr ↦ (hmem r).2 ⟨fun hrr ↦ hpending (hrr ▸ hr), hq.pending r hr⟩
    unreleased := fun r hr ↦ hq.unreleased r ((hmem r).1 hr).2
    accounted := ?_
    holds := ?_ }⟩
  · intro r hr hzero
    obtain hr' | hr' | ⟨_, _, hr'⟩ := hq.accounted r hr hzero
    · exact .inl hr'
    · by_cases hrr : r = ref
      · exact .inr (.inr ⟨hostRef, cleanup, by rw [hrr]⟩)
      · exact .inr (.inl ((hmem r).2 ⟨hrr, hr'⟩))
    · rw [hworker] at hr'
      exact absurd hr' (by simp)
  · obtain ⟨hdone, hzero⟩ := hq.live_done hlive
    exact ⟨fun hr ↦ ((hmem ref).1 hr).1 rfl, hzero, hdone, hq.unreleased ref hlive, hpair⟩

/-- The worker has released what it has removed. -/
theorem Running.release (hq : Running refs h q) {hostRef cleanup : ℤ}
    (hworker : q.worker = .release ref hostRef cleanup) :
    Running refs h { q with
      released := Function.update q.released ref [pair refs ref], worker := .loop } := by
  have hholds := hq.holds
  simp only [WorkerHolds, hworker] at hholds
  obtain ⟨hlive, hzero, hdone, hreleased, hpair⟩ := hholds
  refine { hq with unreleased := ?_, accounted := ?_, holds := trivial }
  · intro r hr
    have hne : r ≠ ref := fun hrr ↦ hlive (hrr ▸ hr)
    exact (Function.update_of_ne hne _ _).trans (hq.unreleased r hr)
  · intro r hr hcleanup
    by_cases hrr : r = ref
    · subst hrr
      exact .inl (Function.update_self ..)
    · obtain hr' | hr' | ⟨_, _, hr'⟩ := hq.accounted r hr hcleanup
      · exact .inl ((Function.update_of_ne hrr _ _).trans hr')
      · exact .inr (.inl hr')
      · rw [hworker, WorkerPc.release.injEq] at hr'
        exact absurd hr'.1.symm hrr

omit [DecidableEq Ref] in
/-- A release with the pair of a call that has not released it. -/
theorem Once.release (hq : Once refs q) (hdone : q.register ref = .done)
    {released : Ref → List (ℤ × ℤ)} (hframe : ∀ r, r ≠ ref → released r = q.released r)
    (hreleased : released ref = [pair refs ref])
    (hregister : q'.register = q.register) (hq' : q'.released = released) : Once refs q' where
  released r := by
    rw [hq']
    by_cases hr : r = ref
    · exact .inr (hr ▸ hreleased)
    · rw [hframe r hr]
      exact hq.released r
  unregistered r hr := by
    rw [hregister] at hr
    rw [hq', hframe r fun hrr ↦ hr (hrr ▸ hdone)]
    exact hq.unregistered r hr

/-- A step of the worker. -/
theorem Running.workerRun (honce : Once refs q) (hq : Running refs h q) :
    ∃ q' h', q.workerRun = some q' ∧ q'.stop = q.stop ∧ Once refs q' ∧ Running refs h' q' := by
  rw [JPypeReferenceQueue.workerRun]
  cases hworker : q.worker with
  | loop =>
    have hreleases := not_workerReleases hworker fun _ _ _ ↦ nofun
    refine ⟨_, h, rfl, rfl, ⟨honce.released, honce.unregistered⟩, ?_⟩
    refine hq.setWorker hreleases (List.Sublist.refl _) ?_
    rw [WorkerHolds]
    split_ifs <;> trivial
  | poll => exact ⟨q, h, rfl, rfl, honce, hq⟩
  | read ref =>
    have hreleases := not_workerReleases hworker fun _ _ _ ↦ nofun
    have hholds := hq.holds
    simp only [WorkerHolds, hworker] at hholds
    refine ⟨_, h, rfl, rfl, ⟨honce.released, honce.unregistered⟩, ?_⟩
    refine hq.setWorker hreleases (List.Sublist.refl _) ⟨hholds.1, hholds.2, ?_⟩
    rw [hq.set.host, hq.set.cleanup_live ref hholds.1]
    rfl
  | remove ref hostRef cleanup =>
    obtain ⟨set, hset, hrunning⟩ := hq.remove hworker
    exact ⟨_, _, Option.map_eq_some_iff.2 ⟨set, hset, rfl⟩, rfl,
      ⟨honce.released, honce.unregistered⟩, hrunning⟩
  | release ref hostRef cleanup =>
    have hholds := hq.holds
    simp only [WorkerHolds, hworker] at hholds
    obtain ⟨-, hzero, hdone, hreleased, hpair⟩ := hholds
    simp only [removeHostReference_eq hzero hpair hreleased]
    refine ⟨_, h, rfl, rfl, ?_, hq.release hworker⟩
    exact honce.release hdone (fun r hr ↦ Function.update_of_ne hr _ _)
      (Function.update_self ..) rfl rfl
  | notify =>
    have hreleases := not_workerReleases hworker fun _ _ _ ↦ nofun
    exact ⟨_, h, rfl, rfl, ⟨honce.released, honce.unregistered⟩,
      hq.setWorker hreleases (List.Sublist.refl _) trivial⟩
  | done => exact ⟨q, h, rfl, rfl, honce, hq⟩

end Running

/-! ### While the set is flushed -/

section Flushing

variable {refs : Ref → JPypeReference} {q q' : JPypeReferenceQueue Ref} {ref : Ref}

/-- References can be added. -/
structure Usable (s : JPypeReferenceSet Ref) : Prop where
  id : ∀ {k : ℕ} {pool : Pool Ref}, s.pools[k]? = some pool → pool.id = k
  current : ∀ k, s.current = some k → ∃ pool, s.pools[k]? = some pool ∧ pool.tail < SIZE

theorem Usable.add {s : JPypeReferenceSet Ref} (hs : Usable s) (ref : Ref) :
    ∃ s', s.add ref = some s' ∧ Usable s' := by
  by_cases hzero : (s.refs ref).cleanup = 0
  · exact ⟨s, if_pos hzero, hs⟩
  obtain ⟨pools, k, pool, hensure, hpools, hk, hfree⟩ := ensureCurrent_spec
    (s := { s with items := javaInt (s.items + 1) }) hs.current
  have hid : ∀ {j : ℕ} {p : Pool Ref}, pools[j]? = some p → p.id = j := by
    intro j p hp
    obtain rfl | rfl := hpools
    · exact hs.id hp
    · obtain hp | ⟨rfl, rfl⟩ := getElem?_append_new.1 hp
      · exact hs.id hp
      · rfl
  rw [JPypeReferenceSet.add, if_neg hzero]
  simp only [hensure, hk, Pool.add, if_pos hfree, Option.bind_eq_bind, Option.bind_some,
    Option.pure_def]
  have hid' : ∀ {j : ℕ} {p : Pool Ref}, (pools.set k { pool with
      entries := Function.update pool.entries pool.tail (some ref), tail := pool.tail + 1 })[j]? =
        some p → p.id = j := by
    intro j p hp
    obtain ⟨rfl, rfl⟩ | ⟨-, hp⟩ := (getElem?_set_iff hk).1 hp
    · exact (hid hk :)
    · exact hid hp
  refine ⟨_, rfl, hid', fun j hj ↦ ?_⟩
  dsimp only at hj
  split_ifs at hj with hfull
  · exact findFree_spec hid' hj
  · obtain rfl := Option.some.inj hj
    exact ⟨_, (getElem?_set_iff hk).2 (.inl ⟨rfl, rfl⟩), lt_of_le_of_ne hfree hfull⟩

/-- A reference that is to be released, at its place. -/
structure Due (refs : Ref → JPypeReference) (q : JPypeReferenceQueue Ref) (ref : Ref) (k i : ℕ) :
    Prop where
  place : (q.hostReferences.refs ref).pool = k ∧ (q.hostReferences.refs ref).index = i
  pair : ((q.hostReferences.refs ref).hostReference, (q.hostReferences.refs ref).cleanup) =
    pair refs ref
  cleanup : (q.hostReferences.refs ref).cleanup ≠ 0
  released : q.released ref = []
  done : q.register ref = .done

omit [DecidableEq Ref] in
theorem Due.frame {k i : ℕ} (h : Due refs q ref k i)
    (hrefs : q'.hostReferences.refs ref = q.hostReferences.refs ref)
    (hreleased : q'.released ref = q.released ref) (hregister : q'.register ref = q.register ref) :
    Due refs q' ref k i := by
  refine ⟨?_, ?_, ?_, hreleased.trans h.released, hregister.trans h.done⟩
  · rw [hrefs]
    exact h.place
  · rw [hrefs]
    exact h.pair
  · rw [hrefs]
    exact h.cleanup

/-- The reference at a place in use. -/
def At (q : JPypeReferenceQueue Ref) (ref : Ref) (k i : ℕ) : Prop :=
  ∃ pool, q.hostReferences.pools[k]? = some pool ∧ i < pool.tail ∧ pool.entries i = some ref

/-- The set in the middle of a flush: the places that are `ahead` have references to be released,
and all others have been released, but for the one that is in hand. -/
structure Flushing (refs : Ref → JPypeReference) (q : JPypeReferenceQueue Ref)
    (ahead : ℕ → ℕ → Prop) (hand : Ref → Prop) : Prop where
  worker : q.worker = .done
  usable : Usable q.hostReferences
  due : ∀ {k i : ℕ} {pool : Pool Ref}, q.hostReferences.pools[k]? = some pool → i < pool.tail →
    ahead k i → ∃ ref, pool.entries i = some ref ∧ Due refs q ref k i
  accounted : ∀ ref, q.register ref = .done → (refs ref).cleanup ≠ 0 →
    q.released ref = [JPypeReferenceQueue.pair refs ref] ∨ hand ref ∨
      ∃ k i, ahead k i ∧ At q ref k i

/-- The places from one on. -/
def From (k i : ℕ) : ℕ → ℕ → Prop :=
  fun k' i' ↦ k < k' ∨ (k = k' ∧ i ≤ i')

/-- Nothing is in hand. -/
def Empty (_ : Ref) : Prop := False

/-- The invariant of `stop`, at each of its steps. -/
def Phase (refs : Ref → JPypeReference) (q : JPypeReferenceQueue Ref) : Prop :=
  let pools := q.hostReferences.pools
  match q.stop with
  | .start | .wait => ∃ h, Running refs h q
  | .next k n => Flushing refs q (From k 0) Empty ∧ n = pools.length ∧ k ≤ n
  | .test k n i => Flushing refs q (From k i) Empty ∧ n = pools.length ∧ k < n
  | .load k n i => Flushing refs q (From k i) Empty ∧ n = pools.length ∧ k < n ∧
      ∃ pool, pools[k]? = some pool ∧ i < pool.tail
  | .read k n i ref => Flushing refs q (From k i) Empty ∧ n = pools.length ∧ k < n ∧ At q ref k i
  | .zero k n i ref hostRef cleanup => Flushing refs q (From k i) Empty ∧ n = pools.length ∧
      k < n ∧ At q ref k i ∧ (hostRef, cleanup) = pair refs ref
  | .release k n i ref hostRef cleanup => Flushing refs q (From k (i + 1)) (· = ref) ∧
      n = pools.length ∧ k < n ∧ (q.hostReferences.refs ref).cleanup = 0 ∧
        (refs ref).cleanup ≠ 0 ∧ q.register ref = .done ∧ q.released ref = [] ∧
          (hostRef, cleanup) = pair refs ref
  | .clear k n => Flushing refs q (From (k + 1) 0) Empty ∧ n = pools.length ∧ k < n
  | .done => q.worker = .done ∧ Usable q.hostReferences
  | .failed => False

variable {ahead : ℕ → ℕ → Prop} {hand : Ref → Prop} {k i : ℕ}

omit [DecidableEq Ref] in
theorem from_iff {k' i' : ℕ} :
    From k i k' i' ↔ (k' = k ∧ i' = i) ∨ From k (i + 1) k' i' := by
  simp only [From]
  omega

omit [DecidableEq Ref] in
/-- The worker has ended, and the flush begins. -/
theorem Running.flushing {h : History Ref} (hq : Running refs h q) (hworker : q.worker = .done) :
    Flushing refs q (From 0 0) Empty where
  worker := hworker
  usable := ⟨hq.set.placed.id, hq.set.current⟩
  due hk hi _ := by
    obtain ⟨r, hr, hentry, hplace⟩ := hq.set.placed.entry hk hi
    refine ⟨r, hentry, hplace, ?_, hq.set.cleanup_ne r hr, hq.unreleased r hr,
      (hq.live_done hr).1⟩
    rw [hq.set.host r, hq.set.cleanup_live r hr]
    rfl
  accounted r hr hzero := by
    refine (hq.accounted r hr hzero).imp_right fun hr' ↦ .inr ?_
    obtain hlive | ⟨hostRef, cleanup, hrelease⟩ := hr'
    · obtain ⟨k, pool, hk, -, hplace⟩ := hq.set.placed.held r hlive
      exact ⟨k, _, (Nat.eq_zero_or_pos k).elim (fun h ↦ .inr ⟨h.symm, Nat.zero_le _⟩) .inl,
        pool, hk, hplace⟩
    · exact absurd (hworker.symm.trans hrelease) (by simp)

omit [DecidableEq Ref] in
/-- The end of a pool. -/
theorem Flushing.next_pool (hq : Flushing refs q (From k i) hand) {pool : Pool Ref}
    (hk : q.hostReferences.pools[k]? = some pool) (hi : ¬ i < pool.tail) :
    Flushing refs q (From (k + 1) 0) hand := by
  have hsub : ∀ {k' i' : ℕ}, From (k + 1) 0 k' i' → From k i k' i' := by
    intro k' i' h
    simp only [From] at h ⊢
    omega
  refine { hq with
    due := fun hk' hi' h ↦ hq.due hk' hi' (hsub h)
    accounted := fun r hr hzero ↦ ?_ }
  refine (hq.accounted r hr hzero).imp_right (.imp_right ?_)
  rintro ⟨k', i', hahead, pool', hk', hi', hentry⟩
  refine ⟨k', i', ?_, pool', hk', hi', hentry⟩
  obtain hlt | ⟨rfl, hle⟩ := hahead
  · obtain hlt | rfl := (Nat.succ_le_of_lt hlt).lt_or_eq
    · exact .inl hlt
    · exact .inr ⟨rfl, Nat.zero_le _⟩
  · obtain rfl : pool = pool' := Option.some.inj (hk.symm.trans hk')
    exact absurd (hle.trans_lt hi') hi

omit [DecidableEq Ref] in
theorem Flushing.due_at (hq : Flushing refs q (From k i) hand) (hat : At q ref k i) :
    Due refs q ref k i := by
  obtain ⟨pool, hk, hi, hentry⟩ := hat
  obtain ⟨r, hr, hdue⟩ := hq.due hk hi (.inr ⟨rfl, Nat.le_refl i⟩)
  obtain rfl : r = ref := Option.some.inj (hr.symm.trans hentry)
  exact hdue

/-- The cleanup of the reference at hand is cleared. -/
theorem Flushing.zero (hq : Flushing refs q (From k i) Empty) (hat : At q ref k i)
    (hset : q'.hostReferences = { q.hostReferences with
      refs := Function.update q.hostReferences.refs ref
        { q.hostReferences.refs ref with cleanup := 0 } })
    (hreleased : q'.released = q.released) (hregister : q'.register = q.register)
    (hworker : q'.worker = q.worker) :
    Flushing refs q' (From k (i + 1)) (· = ref) := by
  have hplace := (hq.due_at hat).place
  have hpools : q'.hostReferences.pools = q.hostReferences.pools := by rw [hset]
  constructor
  case worker => exact hworker.trans hq.worker
  case usable => rw [hset]; exact ⟨hq.usable.id, hq.usable.current⟩
  case due =>
    intro k' i' pool hk' hi' hahead
    rw [hpools] at hk'
    obtain ⟨r, hentry, hdue⟩ := hq.due hk' hi' (from_iff.2 (.inr hahead))
    have hne : r ≠ ref := by
      -- A reference has one place.
      rintro rfl
      have hk : k' = k := Int.natCast_inj.1 (hdue.place.1.symm.trans hplace.1)
      have hi : i' = i := hdue.place.2.symm.trans hplace.2
      simp only [From] at hahead
      omega
    refine ⟨r, hentry, hdue.frame ?_ (by rw [hreleased]) (by rw [hregister])⟩
    rw [hset]
    exact Function.update_of_ne hne _ _
  case accounted =>
    intro r hr hzero
    rw [hregister] at hr
    rw [hreleased]
    refine (hq.accounted r hr hzero).imp_right fun hr' ↦ ?_
    obtain ⟨k', i', hahead, pool, hk', hi', hentry⟩ := hr'.resolve_left id
    obtain ⟨rfl, rfl⟩ | hahead := from_iff.1 hahead
    · obtain ⟨pool', hk, -, hentry'⟩ := hat
      obtain rfl : pool = pool' := Option.some.inj (hk'.symm.trans hk)
      exact .inl (Option.some.inj (hentry.symm.trans hentry'))
    · exact .inr ⟨k', i', hahead, pool, by rwa [hpools], hi', hentry⟩

/-- The reference at hand is released. -/
theorem Flushing.release (hq : Flushing refs q ahead (· = ref))
    (hzero : (q.hostReferences.refs ref).cleanup = 0)
    (hset : q'.hostReferences = q.hostReferences)
    (hreleased : q'.released = Function.update q.released ref [JPypeReferenceQueue.pair refs ref])
    (hregister : q'.register = q.register) (hworker : q'.worker = q.worker) :
    Flushing refs q' ahead Empty := by
  constructor
  case worker => exact hworker.trans hq.worker
  case usable => rw [hset]; exact hq.usable
  case due =>
    intro k' i' pool hk' hi' hahead
    rw [hset] at hk'
    obtain ⟨r, hentry, hdue⟩ := hq.due hk' hi' hahead
    have hne : r ≠ ref := fun hrr ↦ hdue.cleanup (hrr ▸ hzero)
    refine ⟨r, hentry, hdue.frame (by rw [hset]) ?_ (by rw [hregister])⟩
    rw [hreleased, Function.update_of_ne hne]
  case accounted =>
    intro r hr hcleanup
    rw [hregister] at hr
    rw [hreleased]
    by_cases hrr : r = ref
    · subst hrr
      exact .inl (Function.update_self ..)
    · rw [Function.update_of_ne hrr]
      refine (hq.accounted r hr hcleanup).imp_right fun hr' ↦ .inr ?_
      obtain ⟨k', i', hahead, hat⟩ := hr'.resolve_left hrr
      exact ⟨k', i', hahead, by rwa [At, hset]⟩

omit [DecidableEq Ref] in
/-- A pool that has been flushed is emptied. -/
theorem Flushing.clear (hq : Flushing refs q (From (k + 1) 0) hand) {pool : Pool Ref}
    (hk : q.hostReferences.pools[k]? = some pool)
    (hset : q'.hostReferences = { q.hostReferences with
      pools := q.hostReferences.pools.set k { pool with tail := 0 } })
    (hreleased : q'.released = q.released) (hregister : q'.register = q.register)
    (hworker : q'.worker = q.worker) :
    Flushing refs q' (From (k + 1) 0) hand := by
  have hne : ∀ {k' i' : ℕ}, From (k + 1) 0 k' i' → k' ≠ k := by
    intro k' i' h
    simp only [From] at h
    omega
  have hpools : ∀ {j : ℕ} {p : Pool Ref}, q'.hostReferences.pools[j]? = some p ↔
      (j = k ∧ p = { pool with tail := 0 }) ∨ (j ≠ k ∧ q.hostReferences.pools[j]? = some p) := by
    intro j p
    rw [hset]
    exact getElem?_set_iff hk
  have hrefs : q'.hostReferences.refs = q.hostReferences.refs := by rw [hset]
  constructor
  case worker => exact hworker.trans hq.worker
  case usable =>
    constructor
    · intro j p hp
      obtain ⟨rfl, rfl⟩ | ⟨-, hp⟩ := hpools.1 hp
      · exact (hq.usable.id hk :)
      · exact hq.usable.id hp
    · intro j hj
      have hcurrent : q'.hostReferences.current = q.hostReferences.current := by rw [hset]
      rw [hcurrent] at hj
      obtain ⟨p, hp, hfree⟩ := hq.usable.current j hj
      by_cases hjk : j = k
      · exact ⟨_, hpools.2 (.inl ⟨hjk, rfl⟩), show 0 < SIZE by decide⟩
      · exact ⟨p, hpools.2 (.inr ⟨hjk, hp⟩), hfree⟩
  case due =>
    intro k' i' p hk' hi' hahead
    obtain ⟨hk'', -⟩ | ⟨-, hk'⟩ := hpools.1 hk'
    · exact absurd hk'' (hne hahead)
    · obtain ⟨r, hentry, hdue⟩ := hq.due hk' hi' hahead
      exact ⟨r, hentry, hdue.frame (by rw [hrefs]) (by rw [hreleased]) (by rw [hregister])⟩
  case accounted =>
    intro r hr hzero
    rw [hregister] at hr
    rw [hreleased]
    refine (hq.accounted r hr hzero).imp_right (.imp_right ?_)
    rintro ⟨k', i', hahead, p, hk', hplace⟩
    exact ⟨k', i', hahead, p, hpools.2 (.inr ⟨hne hahead, hk'⟩), hplace⟩

/-- A call moves on, or releases its pair, while the set is flushed. -/
theorem Flushing.register (hq : Flushing refs q ahead hand) (hstart : q.register ref ≠ .done)
    {pc : RegisterPc} {released : Ref → List (ℤ × ℤ)}
    (hframe : ∀ r, r ≠ ref → released r = q.released r)
    (hdone : pc = .done → (refs ref).cleanup ≠ 0 →
      released ref = [JPypeReferenceQueue.pair refs ref]) :
    Flushing refs { q with
      released := released, register := Function.update q.register ref pc } ahead hand := by
  refine { hq with due := ?_, accounted := ?_ }
  · intro k i pool hk hi hahead
    obtain ⟨r, hentry, hdue⟩ := hq.due hk hi hahead
    have hne : r ≠ ref := fun hrr ↦ hstart (hrr ▸ hdue.done)
    exact ⟨r, hentry, hdue.frame rfl (hframe r hne) (Function.update_of_ne hne _ _)⟩
  · intro r hr hzero
    by_cases hrr : r = ref
    · subst hrr
      exact .inl (hdone ((Function.update_self ..).symm.trans hr) hzero)
    · have hr' := (Function.update_of_ne hrr _ _).symm.trans hr
      exact (hq.accounted r hr' hzero).imp_left ((hframe r hrr).trans ·)

/-- The calls that move on, or release their pairs, in each phase. -/
theorem Phase.register (hq : Phase refs q) (hstart : q.register ref ≠ .done)
    {pc : RegisterPc} {released : Ref → List (ℤ × ℤ)}
    (hinsert : pc = .insert → (refs ref).cleanup ≠ 0)
    (hframe : ∀ r, r ≠ ref → released r = q.released r)
    (hdone : pc = .done → (refs ref).cleanup ≠ 0 →
      released ref = [JPypeReferenceQueue.pair refs ref]) :
    Phase refs { q with
      released := released, register := Function.update q.register ref pc } := by
  obtain ⟨set, isStopped, pending, released', register, worker, stop⟩ := q
  cases stop with
  | start | wait =>
    obtain ⟨h, hq⟩ := hq
    exact ⟨h, hq.register hstart hinsert hframe hdone⟩
  | next k n | test k n i | load k n i | read k n i r | zero k n i r hostRef cleanup | clear k n =>
    obtain ⟨hq, hrest⟩ := hq
    exact ⟨hq.register hstart hframe hdone, hrest⟩
  | release k n i r hostRef cleanup =>
    obtain ⟨hq, hn, hk, hzero, hcleanup, hr, hreleased, hpair⟩ := hq
    have hne : r ≠ ref := fun hrr ↦ hstart (hrr ▸ hr)
    exact ⟨hq.register hstart hframe hdone, hn, hk, hzero, hcleanup,
      (Function.update_of_ne hne _ _).trans hr, (hframe r hne).trans hreleased, hpair⟩
  | done => exact hq
  | failed => exact hq

omit [DecidableEq Ref] in
theorem Flushing.setStop (hq : Flushing refs q ahead hand) (stop : StopPc Ref) :
    Flushing refs { q with stop := stop } ahead hand :=
  { hq with
    due := fun hk hi hahead ↦ by
      obtain ⟨r, hentry, hdue⟩ := hq.due hk hi hahead
      exact ⟨r, hentry, hdue.frame rfl rfl rfl⟩ }

/-- A step of `stop`. -/
theorem Phase.stopStep (honce : Once refs q) (hq : Phase refs q)
    (htimely : q.stop = .wait → q.worker = .done) (hended : ¬ q.stop.Ended) :
    ∃ q', q.stopStep = some q' ∧ Once refs q' ∧ Phase refs q' := by
  obtain ⟨set, isStopped, pending, released, register, worker, stop⟩ := q
  have hkeep : ∀ (set' : JPypeReferenceSet Ref) (isStopped' : Bool) (stop' : StopPc Ref),
      Once refs ⟨set', isStopped', pending, released, register, worker, stop'⟩ :=
    fun _ _ _ ↦ ⟨honce.released, honce.unregistered⟩
  cases stop with
  | start =>
    obtain ⟨h, hq⟩ := hq
    exact ⟨_, rfl, hkeep _ _ _, h, { hq with }⟩
  -- The worker has ended, so that it holds no reference any more.
  | wait =>
    obtain ⟨h, hq⟩ := hq
    exact ⟨_, rfl, hkeep _ _ _, (hq.flushing (htimely rfl)).setStop _, rfl, Nat.zero_le _⟩
  | next k n =>
    obtain ⟨hq, hn, hk⟩ := hq
    dsimp only at hn
    subst hn
    refine ⟨_, rfl, hkeep _ _ _, ?_⟩
    by_cases hend : k = set.pools.length
    · simp only [Phase, if_pos hend]
      exact ⟨hq.worker, hq.usable⟩
    · simp only [Phase, if_neg hend, ne_eq, not_true_eq_false, if_false]
      exact ⟨hq.setStop _, trivial, lt_of_le_of_ne hk hend⟩
  | test k n i =>
    obtain ⟨hq, hn, hk⟩ := hq
    dsimp only at hn
    subst hn
    have hpool := List.getElem?_eq_getElem (l := set.pools) hk
    refine ⟨_, Option.map_eq_some_iff.2 ⟨_, hpool, rfl⟩, hkeep _ _ _, ?_⟩
    by_cases hi : i < set.pools[k].tail
    · simp only [Phase, if_pos hi]
      exact ⟨hq.setStop _, trivial, hk, _, hpool, hi⟩
    · simp only [Phase, if_neg hi]
      exact ⟨(hq.next_pool hpool hi).setStop _, trivial, hk⟩
  -- An entry before the tail is there, since each pool is filled from the front.
  | load k n i =>
    obtain ⟨hq, hn, hk, pool, hpool, hi⟩ := hq
    dsimp only at hn
    subst hn
    obtain ⟨r, hentry, -⟩ := hq.due hpool hi (.inr ⟨rfl, Nat.le_refl i⟩)
    refine ⟨_, Option.map_eq_some_iff.2 ⟨pool, hpool, by rw [hentry]⟩, hkeep _ _ _, ?_⟩
    exact ⟨hq.setStop _, rfl, hk, pool, hpool, hi, hentry⟩
  | read k n i r =>
    obtain ⟨hq, hn, hk, hat⟩ := hq
    dsimp only at hn
    subst hn
    have hdue := hq.due_at hat
    refine ⟨_, rfl, hkeep _ _ _, ?_⟩
    simp only [Phase, if_neg hdue.cleanup]
    exact ⟨hq.setStop _, trivial, hk, hat, hdue.pair⟩
  | zero k n i r hostRef cleanup =>
    obtain ⟨hq, hn, hk, hat, hpair⟩ := hq
    dsimp only at hn
    subst hn
    have hdue := hq.due_at hat
    refine ⟨_, rfl, hkeep _ _ _, hq.zero hat rfl rfl rfl rfl, rfl, hk, ?_, ?_, hdue.done,
      hdue.released, hpair⟩
    · simp
    · exact (Prod.mk.inj hdue.pair).2 ▸ hdue.cleanup
  -- The one turn that releases: what is due has not been released before.
  | release k n i r hostRef cleanup =>
    obtain ⟨hq, hn, hk, hzero, hcleanup, hdone, hreleased, hpair⟩ := hq
    dsimp only at hn
    subst hn
    have heq := removeHostReference_eq hcleanup hpair hreleased
    refine ⟨_, rfl, ?_, ?_⟩
    · exact honce.release hdone (fun r' hr' ↦ by rw [heq]; exact Function.update_of_ne hr' _ _)
        (by rw [heq]; exact Function.update_self ..) rfl rfl
    · exact ⟨hq.release hzero rfl heq rfl rfl, rfl, hk⟩
  | clear k n =>
    obtain ⟨hq, hn, hk⟩ := hq
    dsimp only at hn
    subst hn
    have hpool := List.getElem?_eq_getElem (l := set.pools) hk
    refine ⟨_, Option.map_eq_some_iff.2 ⟨_, hpool, rfl⟩, hkeep _ _ _,
      hq.clear hpool rfl rfl rfl rfl, ?_, hk⟩
    exact List.length_set.symm
  | done => exact absurd trivial hended
  | failed => exact absurd trivial hended

/-- What holds in every state. -/
def Inv (refs : Ref → JPypeReference) (q : JPypeReferenceQueue Ref) : Prop :=
  Once refs q ∧ Phase refs q

omit [DecidableEq Ref] in
theorem inv_started (refs : Ref → JPypeReference) : Inv refs (started refs) := by
  refine ⟨⟨fun _ ↦ .inl rfl, fun _ _ ↦ rfl⟩, History.start, ?_⟩
  exact
    { set := consistent_new refs
      added := fun _ h ↦ absurd h List.not_mem_nil
      insert := fun _ h ↦ absurd h (by simp [started])
      pending := fun _ h ↦ absurd h List.not_mem_nil
      pending_nodup := List.nodup_nil
      unreleased := fun _ h ↦ absurd h List.not_mem_nil
      accounted := fun _ h ↦ absurd h (by simp [started])
      holds := trivial }

omit [DecidableEq Ref] in
/-- The worker has ended where the set is flushed, and after that. -/
theorem Phase.running_of_worker (hq : Phase refs q) (hworker : q.worker ≠ .done) :
    (q.stop = .start ∨ q.stop = .wait) ∧ ∃ h, Running refs h q := by
  obtain ⟨set, isStopped, pending, released, register, worker, stop⟩ := q
  cases stop with
  | start => exact ⟨.inl rfl, hq⟩
  | wait => exact ⟨.inr rfl, hq⟩
  | next | test | load | read | zero | release | clear => exact absurd hq.1.worker hworker
  | done => exact absurd hq.1 hworker
  | failed => exact hq.elim

omit [DecidableEq Ref] in
theorem Running.phase {h : History Ref} (hq : Running refs h q)
    (hstop : q.stop = .start ∨ q.stop = .wait) : Phase refs q := by
  obtain hstop | hstop := hstop
  all_goals
    rw [Phase, hstop]
    exact ⟨h, hq⟩

omit [DecidableEq Ref] in
theorem Once.register (hq : Once refs q) (hstart : q.register ref ≠ .done)
    {released : Ref → List (ℤ × ℤ)} (hframe : ∀ r, r ≠ ref → released r = q.released r)
    (hreleased : released ref = [] ∨ released ref = [JPypeReferenceQueue.pair refs ref])
    (hregister : ∀ r, r ≠ ref → q'.register r = q.register r)
    (hpc : q'.register ref ≠ .done → released ref = []) (hq' : q'.released = released) :
    Once refs q' where
  released r := by
    rw [hq']
    by_cases hr : r = ref
    · exact hr ▸ hreleased
    · rw [hframe r hr]
      exact hq.released r
  unregistered r hr := by
    rw [hq']
    by_cases hrr : r = ref
    · subst hrr
      exact hpc hr
    · rw [hframe r hrr]
      exact hq.unregistered r (hregister r hrr ▸ hr)

/-- A step of a call of `registerRef`. -/
theorem Inv.registerRef (hq : Inv refs q) (hstart : q.register ref ≠ .done)
    (htimely : q.register ref = .insert → ¬ q.stop.Flushes) :
    ∃ q', q.registerRef refs ref = some q' ∧ Inv refs q' := by
  obtain ⟨honce, hphase⟩ := hq
  have hnone := honce.unregistered ref hstart
  have hne : ∀ (pc : RegisterPc) (r : Ref), r ≠ ref →
      Function.update q.register ref pc r = q.register r :=
    fun pc r hr ↦ Function.update_of_ne hr _ _
  rw [JPypeReferenceQueue.registerRef]
  cases hpc : q.register ref with
  | start =>
    refine ⟨_, rfl, ?_, ?_⟩
    · exact honce.register hstart (fun _ _ ↦ rfl) (.inl hnone) (hne _) (fun _ ↦ hnone) rfl
    · refine hphase.register hstart ?_ (fun _ _ ↦ rfl) ?_
      · intro h hzero
        simp [hzero] at h
      · intro h hzero
        simp only [if_neg hzero] at h
        split_ifs at h
  | insert =>
    have hflushes := htimely hpc
    have hkeep : ∀ set, Once refs { q with
        hostReferences := set
        pending := q.pending ++ [ref]
        register := Function.update q.register ref .done } :=
      fun _ ↦ honce.register hstart (fun _ _ ↦ rfl) (.inl hnone) (hne _) (fun _ ↦ hnone) rfl
    by_cases hended : q.stop = .start ∨ q.stop = .wait
    · have hrunning : ∃ h, Running refs h q := by
        obtain hstop | hstop := hended
        all_goals rwa [Phase, hstop] at hphase
      obtain ⟨h, hrunning⟩ := hrunning
      obtain ⟨set, hset, hrunning'⟩ := hrunning.add hpc hnone
      exact ⟨_, Option.map_eq_some_iff.2 ⟨set, hset, rfl⟩, hkeep set, hrunning'.phase hended⟩
    · -- The call has been late: the set has been flushed.
      have hdone : q.stop = .done := by
        revert hflushes hended
        rw [Phase] at hphase
        revert hphase
        cases q.stop <;> simp [StopPc.Flushes]
      rw [Phase, hdone] at hphase
      obtain ⟨set, hset, husable⟩ := hphase.2.add ref
      refine ⟨_, Option.map_eq_some_iff.2 ⟨set, hset, rfl⟩, hkeep set, ?_⟩
      rw [Phase, hdone]
      exact ⟨hphase.1, husable⟩
  | release =>
    have hframe : ∀ r, r ≠ ref → removeHostReference q.released ref (refs ref).hostReference
        (refs ref).cleanup r = q.released r := by
      intro r hr
      rw [removeHostReference]
      split_ifs
      · rfl
      · exact Function.update_of_ne hr _ _
    have hreleased : (refs ref).cleanup ≠ 0 → removeHostReference q.released ref
        (refs ref).hostReference (refs ref).cleanup ref =
          [JPypeReferenceQueue.pair refs ref] := by
      intro hzero
      rw [removeHostReference_eq hzero rfl hnone]
      exact Function.update_self ..
    refine ⟨_, rfl, ?_, hphase.register hstart nofun hframe fun _ ↦ hreleased⟩
    refine honce.register hstart hframe ?_ (hne _) (fun h ↦ absurd (Function.update_self ..) h) rfl
    by_cases hzero : (refs ref).cleanup = 0
    · rw [removeHostReference, if_pos hzero]
      exact .inl hnone
    · exact .inr (hreleased hzero)
  | done => exact absurd hpc hstart

/-- What a step keeps. -/
theorem Inv.step {a : Action Ref} (hq : Inv refs q) (ha : q.Enabled a ∧ q.Timely a) :
    ∃ q', step refs q a = some q' ∧ Inv refs q' := by
  obtain ⟨hen, htimely⟩ := ha
  cases a with
  | register ref => exact hq.registerRef hen htimely
  | worker =>
    obtain ⟨hstop, h, hrunning⟩ := hq.2.running_of_worker hen.2
    obtain ⟨q', h', hq', hstop', honce, hrunning'⟩ := hrunning.workerRun hq.1
    exact ⟨q', hq', honce, hrunning'.phase (hstop' ▸ hstop)⟩
  | poll r =>
    have hpoll : q.worker = .poll ∧ ∀ ref ∈ r, ref ∈ q.pending := by
      cases r with
      | none => exact ⟨hen, nofun⟩
      | some ref => exact ⟨hen.1, fun _ hr ↦ Option.some.inj hr ▸ hen.2⟩
    obtain ⟨hstop, h, hrunning⟩ := hq.2.running_of_worker (by simp [hpoll.1])
    refine ⟨q.poll r, rfl, ?_, (hrunning.poll hpoll.1 hpoll.2).phase ?_⟩
    · cases r <;> exact ⟨hq.1.released, hq.1.unregistered⟩
    · cases r <;> exact hstop
  | stop => exact hq.2.stopStep hq.1 htimely hen

/-! ### Each reference is released once -/

theorem prefix_removeHostReference (released : Ref → List (ℤ × ℤ)) (hostRef cleanup : ℤ) (r : Ref) :
    released r <+: removeHostReference released ref hostRef cleanup r := by
  rw [removeHostReference]
  split_ifs
  · exact List.prefix_rfl
  · by_cases hr : r = ref
    · subst hr
      rw [Function.update_self]
      exact List.prefix_append _ _
    · have hsame := Function.update_of_ne hr (released ref ++ [(hostRef, cleanup)]) released
      exact hsame ▸ List.prefix_rfl

/-- What a step leaves as it is: the pairs that have been released, and the calls that have
returned. -/
structure Grows (q q' : JPypeReferenceQueue Ref) : Prop where
  released : ∀ r, q.released r <+: q'.released r
  register : ∀ r, q.register r = .done → q'.register r = .done

theorem grows_registerRef (h : q.registerRef refs ref = some q') :
    Grows q q' ∧ q'.stop = q.stop := by
  have hdone : ∀ pc, (q.register ref = .done → pc = .done) →
      ∀ r, q.register r = .done → Function.update q.register ref pc r = .done := by
    intro pc hpc r hr
    by_cases hrr : r = ref
    · subst hrr
      exact (Function.update_self ..).trans (hpc hr)
    · exact (Function.update_of_ne hrr _ _).trans hr
  rw [registerRef] at h
  cases hpc : q.register ref with
  | start =>
    simp only [hpc, Option.some.injEq] at h
    subst h
    exact ⟨⟨fun _ ↦ List.prefix_rfl, hdone _ fun hr ↦ absurd (hpc.symm.trans hr) (by simp)⟩, rfl⟩
  | insert =>
    simp only [hpc, Option.map_eq_some_iff] at h
    obtain ⟨set, -, rfl⟩ := h
    exact ⟨⟨fun _ ↦ List.prefix_rfl, hdone _ fun _ ↦ rfl⟩, rfl⟩
  | release =>
    simp only [hpc, Option.some.injEq] at h
    subst h
    exact ⟨⟨prefix_removeHostReference _ _ _, hdone _ fun _ ↦ rfl⟩, rfl⟩
  | done =>
    simp only [hpc, Option.some.injEq] at h
    subst h
    exact ⟨⟨fun _ ↦ List.prefix_rfl, fun _ ↦ id⟩, rfl⟩

theorem grows_workerRun (h : q.workerRun = some q') : Grows q q' ∧ q'.stop = q.stop := by
  rw [workerRun] at h
  cases hpc : q.worker with
  | remove ref hostRef cleanup =>
    simp only [hpc, Option.map_eq_some_iff] at h
    obtain ⟨set, -, rfl⟩ := h
    exact ⟨⟨fun _ ↦ List.prefix_rfl, fun _ ↦ id⟩, rfl⟩
  | release ref hostRef cleanup =>
    simp only [hpc, Option.some.injEq] at h
    subst h
    exact ⟨⟨prefix_removeHostReference _ _ _, fun _ ↦ id⟩, rfl⟩
  | loop | poll | read | notify | done =>
    simp only [hpc, Option.some.injEq] at h
    subst h
    exact ⟨⟨fun _ ↦ List.prefix_rfl, fun _ ↦ id⟩, rfl⟩

theorem grows_stopStep (h : q.stopStep = some q') : Grows q q' := by
  rw [stopStep] at h
  cases hpc : q.stop with
  | test | clear =>
    simp only [hpc, Option.map_eq_some_iff] at h
    obtain ⟨pool, -, rfl⟩ := h
    exact ⟨fun _ ↦ List.prefix_rfl, fun _ ↦ id⟩
  | load k n i =>
    simp only [hpc, Option.map_eq_some_iff] at h
    obtain ⟨pool, -, rfl⟩ := h
    cases pool.entries i <;> exact ⟨fun _ ↦ List.prefix_rfl, fun _ ↦ id⟩
  | release k n i ref hostRef cleanup =>
    simp only [hpc, Option.some.injEq] at h
    subst h
    exact ⟨prefix_removeHostReference _ _ _, fun _ ↦ id⟩
  | start | wait | next | read | zero | done | failed =>
    simp only [hpc, Option.some.injEq] at h
    subst h
    exact ⟨fun _ ↦ List.prefix_rfl, fun _ ↦ id⟩

theorem grows_step {a : Action Ref} (h : step refs q a = some q') : Grows q q' := by
  cases a with
  | register ref => exact (grows_registerRef h).1
  | worker => exact (grows_workerRun h).1
  | poll r =>
    obtain rfl := Option.some.inj h
    cases r <;> exact ⟨fun _ ↦ List.prefix_rfl, fun _ ↦ id⟩
  | stop => exact grows_stopStep h

/-- `stop` ends where no reference is left. -/
theorem ended_of_step {a : Action Ref} (hq : Phase refs q) (hq' : Phase refs q')
    (h : step refs q a = some q') (hstop : ¬ q.stop.Ended) (hended : q'.stop.Ended) :
    q'.released = q.released ∧ ∀ r, q.register r = .done → (refs r).cleanup ≠ 0 →
      q.released r = [pair refs r] := by
  have hsame : q'.stop ≠ q.stop := fun h ↦ hstop (h ▸ hended)
  cases a with
  | register ref => exact absurd (grows_registerRef h).2 hsame
  | worker => exact absurd (grows_workerRun h).2 hsame
  | poll r =>
    obtain rfl := Option.some.inj h
    cases r <;> exact absurd rfl hsame
  | stop =>
    replace h : q.stopStep = some q' := h
    rw [stopStep] at h
    cases hpc : q.stop with
    -- The only way to end well: there is no pool left, and nothing lies ahead.
    | next k n =>
      simp only [hpc, Option.some.injEq] at h
      subst h
      rw [Phase, hpc] at hq
      obtain ⟨hflushing, hn, hk⟩ := hq
      refine ⟨rfl, fun r hr hzero ↦ (hflushing.accounted r hr hzero).resolve_right ?_⟩
      rintro (hhand | ⟨k', i', hahead, pool, hk', -⟩)
      · exact hhand
      · have hend : k = q.hostReferences.pools.length := by
          by_contra hne
          simp [hne, hn, StopPc.Ended] at hended
        have hlt := (List.getElem?_eq_some_iff.1 hk').1
        simp only [From] at hahead
        omega
    | start | wait | zero | release =>
      simp only [hpc, Option.some.injEq] at h
      subst h
      exact absurd hended id
    | read k n i ref =>
      simp only [hpc, Option.some.injEq] at h
      subst h
      dsimp only at hended
      split_ifs at hended <;> exact absurd hended id
    | test k n i =>
      simp only [hpc, Option.map_eq_some_iff] at h
      obtain ⟨pool, -, rfl⟩ := h
      dsimp only at hended
      split_ifs at hended <;> exact absurd hended id
    | clear k n =>
      simp only [hpc, Option.map_eq_some_iff] at h
      obtain ⟨pool, -, rfl⟩ := h
      exact absurd hended id
    -- A missing entry would end it too, but the phase excludes it.
    | load k n i =>
      simp only [hpc, Option.map_eq_some_iff] at h
      obtain ⟨pool, -, rfl⟩ := h
      cases hentry : pool.entries i with
      | some r =>
        simp only [hentry] at hended
        exact absurd hended id
      | none =>
        simp only [hentry] at hq'
        exact hq'.elim
    | done | failed =>
      rw [hpc] at hstop
      exact absurd trivial hstop

/-- What is known of a call that has returned before `stop` has ended. -/
structure Returned (refs : Ref → JPypeReference) (ref : Ref) (q : JPypeReferenceQueue Ref) :
    Prop where
  inv : Inv refs q
  done : q.register ref = .done
  released : q.stop.Ended → q.released ref = [pair refs ref]

theorem Returned.step (hcleanup : (refs ref).cleanup ≠ 0) {a : Action Ref}
    (hq : Returned refs ref q) (ha : q.Enabled a ∧ q.Timely a) :
    ∃ q', step refs q a = some q' ∧ Returned refs ref q' := by
  obtain ⟨q', hstep, hinv⟩ := hq.inv.step ha
  have hgrows := grows_step hstep
  refine ⟨q', hstep, hinv, hgrows.register ref hq.done, fun hended ↦ ?_⟩
  by_cases hstop : q.stop.Ended
  · have hprefix := hgrows.released ref
    rw [hq.released hstop] at hprefix
    obtain hnil | hpair := hinv.1.released ref
    · rw [hnil] at hprefix
      exact absurd (List.prefix_nil.1 hprefix) (by simp)
    · exact hpair
  · obtain ⟨hreleased, hall⟩ := ended_of_step hq.inv.2 hinv.2 hstep hstop hended
    rw [hreleased]
    exact hall ref hq.done hcleanup

end Flushing

/-- In every order of the steps that is timely, no thread fails in the set, no pair is released
twice, and what has been registered before the end of `stop` has been released by then. -/
theorem released_once (refs : Ref → JPypeReference) (actions actions' : List (Action Ref))
    (horderly : Orderly (step refs) (fun q a ↦ q.Enabled a ∧ q.Timely a) (started refs)
      (actions ++ actions')) :
    ∃ q q', actions.foldlM (step refs) (started refs) = some q ∧
      actions'.foldlM (step refs) q = some q' ∧
        ∀ ref, (q'.released ref).length ≤ 1 ∧
          ((refs ref).cleanup ≠ 0 → q.register ref = .done → ¬ q.stop.Ended → q'.stop.Ended →
            q'.released ref = [((refs ref).hostReference, (refs ref).cleanup)]) := by
  obtain ⟨q'', hq'', -⟩ := exists_run_of_orderly (fun _ _ ↦ Inv.step) (actions ++ actions') _
    (inv_started refs) horderly
  rw [List.foldlM_append] at hq''
  obtain ⟨q, hq, -⟩ := Option.bind_eq_some_iff.1 hq''
  obtain ⟨hbefore, hafter⟩ := horderly.append hq
  obtain ⟨_, hq₁, hinv⟩ := exists_run_of_orderly (fun _ _ ↦ Inv.step) actions _
    (inv_started refs) hbefore
  obtain rfl := Option.some.inj (hq.symm.trans hq₁)
  obtain ⟨q', hq', hinv'⟩ := exists_run_of_orderly (fun _ _ ↦ Inv.step) actions' _ hinv hafter
  refine ⟨q, q', hq, hq', fun ref ↦ ⟨?_, fun hcleanup hdone hstop hended ↦ ?_⟩⟩
  · obtain h | h := hinv'.1.released ref
    all_goals simp [h]
  · obtain ⟨_, hq₂, hreturned⟩ := exists_run_of_orderly (fun _ _ ↦ Returned.step hcleanup)
      actions' q
      ⟨hinv, hdone, fun h ↦ absurd h hstop⟩ hafter
    obtain rfl := Option.some.inj (hq'.symm.trans hq₂)
    exact hreturned.released hended

instance (pc : StopPc Ref) : Decidable pc.Ended := by
  cases pc <;> first | exact isTrue trivial | exact isFalse id

instance (pc : StopPc Ref) : Decidable pc.Flushes := by
  cases pc <;> first | exact isTrue trivial | exact isFalse id

instance (q : JPypeReferenceQueue Ref) : DecidablePred q.Enabled
  | .register _ => inferInstanceAs (Decidable (_ ≠ _))
  | .worker => inferInstanceAs (Decidable (_ ∧ _))
  | .poll none => inferInstanceAs (Decidable (_ = _))
  | .poll (some _) => inferInstanceAs (Decidable (_ ∧ _))
  | .stop => inferInstanceAs (Decidable (¬ _))

instance (q : JPypeReferenceQueue Ref) : DecidablePred q.Timely
  | .register _ => inferInstanceAs (Decidable (_ → _))
  | .worker => isTrue trivial
  | .poll _ => isTrue trivial
  | .stop => inferInstanceAs (Decidable (_ → _))

/-- Two calls. -/
def registrations : List (Action ℕ) :=
  [.register 0, .register 0, .register 1, .register 1]

/-- The worker releases the first reference, and ends when `stop` has set the flag. -/
def inTime : List (Action ℕ) :=
  [.worker, .poll (some 0), .worker, .worker, .worker, .stop, .worker, .worker] ++
    List.replicate 10 .stop

/-- One reference is released by the worker, and one by the flush. -/
theorem released_inTime :
    ∃ q q', registrations.foldlM (step sample) (started sample) = some q ∧
      inTime.foldlM (step sample) q = some q' ∧
        q'.released 0 = [(1, 2)] ∧ q'.released 1 = [(1, 2)] := by
  obtain ⟨q, q', hq, hq', h⟩ := released_once sample registrations inTime (by decide)
  refine ⟨q, q', hq, hq', ?_, ?_⟩
  all_goals
    obtain rfl := Option.some.inj hq
    obtain rfl := Option.some.inj hq'
  · exact (h 0).2 (by decide) (by decide) (by decide) (by decide)
  · exact (h 1).2 (by decide) (by decide) (by decide) (by decide)

/-- The wait times out while the worker is about to remove a reference. -/
def timedOut : List (Action ℕ) :=
  [.register 0, .register 0, .worker, .poll (some 0), .worker] ++ List.replicate 8 .stop ++
    [.worker, .worker]

/-- The flush releases the reference, and then the worker does. -/
theorem released_twice :
    Orderly (step sample) Enabled (started sample) timedOut ∧
      ∃ q, timedOut.foldlM (step sample) (started sample) = some q ∧
        q.released 0 = [(1, 2), (1, 2)] :=
  ⟨by decide, _, rfl, by decide⟩

/-- A reference is inserted while the set is flushed. -/
def inserted : List (Action ℕ) :=
  [.register 0, .register 0, .register 1, .worker, .poll none] ++ List.replicate 2 .stop ++
    [.worker, .worker] ++ List.replicate 7 .stop ++ [.register 1] ++ List.replicate 2 .stop

/-- The reference is in a pool that is emptied after its last test: it is lost. -/
theorem released_never :
    Orderly (step sample) Enabled (started sample) inserted ∧
      ∃ q, inserted.foldlM (step sample) (started sample) = some q ∧
        q.stop = .done ∧ q.register 1 = .done ∧ q.released 1 = [] :=
  ⟨by decide, _, rfl, by decide, by decide, by decide⟩

end JPypeReferenceQueue

end JPype
