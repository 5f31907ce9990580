import JPype.Array.BufferExport
import JPype.Foundation.Runs
import Mathlib.Data.List.Range

/-!
# The life of an exported view

All buffers that are exported from an array object share the view in its `m_View`: the memory, the
shape and the strides are those of the view, which counts the buffers and is deleted with the last
one. A request can fail before it has a view, in between, or after it has counted; the handler then
releases a buffer in any case. After a shutdown a release deletes the view without a look at the
count. `safe_iff` has the two conditions under which no buffer outlives its view.
-/

open Foundation

namespace JPype

namespace ViewLifetime

/-- A `JPArrayView`; `id` tells the views of an array object apart. -/
structure View where
  id : ℕ
  refCount : ℤ
  owned : Bool
  deriving DecidableEq

/-- The class of the array object, and its step. -/
structure Source where
  isNull : Bool := false
  isPrimitiveArray : Bool := true
  dimensions : ℕ := 1
  slice : Bool := false
  step : ℤ := 1

/-- What the calls of one request do, where they are reached; `false` is an exception. -/
structure Calls where
  clone : Bool := true
  collectRectangular : Bool := true
  newView : Bool := true
  /-- `JP_PY_CHECK()` -/
  check : Bool := true

/-- An array object with its view. `granted` has the view of each buffer that has not been
released. -/
structure State where
  running : Bool
  view : Option View
  created : ℕ
  granted : List ℕ
  releasedViews : List ℕ
  deleted : List ℕ

/-- An array object without a view. -/
def new : State where
  running := true
  view := none
  created := 0
  granted := []
  releasedViews := []
  deleted := []

/-- `delete self->m_View; self->m_View = nullptr` -/
def State.deleteView (s : State) : State :=
  match s.view with
  | some view => { s with deleted := s.deleted ++ [view.id], view := none }
  | none => s

/-- `unreference`: whether the count is zero; memory of Java is given back then. -/
def State.unreference (s : State) (view : View) : State × Bool :=
  let view := { view with refCount := view.refCount - 1 }
  let s := { s with view := some view }
  if view.refCount = 0 then
    (if view.owned then s else { s with releasedViews := s.releasedViews ++ [view.id] }, true)
  else (s, false)

/-- `PyJPArray_releaseBuffer` -/
def State.releaseBuffer (s : State) : State :=
  if s.running then
    match s.view with
    | none => s
    | some view =>
      match s.unreference view with
      | (s, true) => s.deleteView
      | (s, false) => s
  else s.deleteView

/-- `if (self->m_View == nullptr) self->m_View = new JPArrayView(...)`; `none` is an exception. -/
def State.keepView (s : State) (owned newView : Bool) : Option (State × View) :=
  match s.view with
  | some view => some (s, view)
  | none =>
    if newView then
      let view := { id := s.created, refCount := 0, owned := owned }
      some ({ s with view := some view, created := s.created + 1 }, view)
    else none

/-- `reference` -/
def State.reference (s : State) (view : View) : State :=
  { s with view := some { view with refCount := view.refCount + 1 } }

/-- The buffer has been granted. -/
def State.grant (s : State) (view : View) : State :=
  { s with granted := s.granted ++ [view.id] }

/-- `PyJPArrayPrimitive_getBuffer` -/
def getBufferPrimitive (source : Source) (flags : ℕ) (calls : Calls) (s : State) : State :=
  if !s.running || source.isNull then s
  else if requested flags pyBufWriteable then s
  else
    match s.keepView false calls.newView with
    | none => s.releaseBuffer
    | some (s, view) =>
      let s := s.reference view
      -- Without strides a buffer has to be contiguous.
      if !requested flags pyBufStrides && source.step ≠ 1 then s.releaseBuffer
      else s.grant view

/-- `PyJPArray_getBuffer` -/
def getBuffer (source : Source) (flags : ℕ) (calls : Calls) (s : State) : State :=
  if !s.running || source.isNull then s
  else if !source.isPrimitiveArray then s
  else if requested flags pyBufWriteable then s
  else if source.slice && !calls.clone then s
  else if !calls.collectRectangular then s
  else
    match s.keepView true calls.newView with
    | none => s.releaseBuffer
    | some (s, view) =>
      if !calls.check then s.releaseBuffer
      else (s.reference view).grant view

/-- What happens to an array object: a request, the release of a granted buffer, and the shutdown
of the machine. -/
inductive Event where
  | request (flags : ℕ) (calls : Calls)
  | release (i : ℕ)
  | shutdown

/-- An event. The buffers of an array of one dimension are those of `PyJPArrayPrimitive`. -/
def step (source : Source) (s : State) : Event → State
  | .request flags calls =>
    if source.dimensions = 1 then getBufferPrimitive source flags calls s
    else getBuffer source flags calls s
  | .release i => { s.releaseBuffer with granted := s.granted.eraseIdx i }
  | .shutdown => { s with running := false }

/-- A buffer that is released has been granted, and not been released. -/
def Enabled (s : State) : Event → Prop
  | .release i => i < s.granted.length
  | _ => True

/-- The check does not fail where it is reached, and after a shutdown the only buffer is
released. -/
def Cond (source : Source) (s : State) : Event → Prop
  | .request flags calls =>
    calls.check = true ∨ source.dimensions = 1 ∨ s.running = false ∨ source.isNull = true ∨
      source.isPrimitiveArray = false ∨ requested flags pyBufWriteable = true ∨
        (source.slice = true ∧ calls.clone = false) ∨ calls.collectRectangular = false ∨
          (s.view = none ∧ calls.newView = false)
  | .release _ => s.running = false → s.granted.length = 1
  | .shutdown => True

/-- What is to hold of the buffers and their view. -/
structure Safe (s : State) : Prop where
  /-- The memory of a granted buffer is not freed. -/
  alive : ∀ id ∈ s.granted, id ∉ s.releasedViews ∧ id ∉ s.deleted
  refCount : s.running = true → (s.view.map (·.refCount)).getD 0 = s.granted.length
  /-- After the last release every view has been deleted once. -/
  deleted : s.granted = [] → s.view = none ∧ ∀ id < s.created, s.deleted.count id = 1

/-- The array object has a view, which counts the granted buffers. -/
structure Held (s : State) (view : View) : Prop where
  view_eq : s.view = some view
  refCount : view.refCount = s.granted.length
  granted : ∀ id ∈ s.granted, id = view.id
  created : s.created = view.id + 1
  deleted : s.deleted = List.range view.id
  releasedViews : ∀ id ∈ s.releasedViews, id ∈ s.deleted

/-- The array object has no view, and all it has had are deleted. -/
structure Closed (s : State) : Prop where
  view_eq : s.view = none
  granted : s.granted = []
  deleted : s.deleted = List.range s.created
  releasedViews : ∀ id ∈ s.releasedViews, id ∈ s.deleted

/-- What holds between the requests. -/
def Inv (s : State) : Prop :=
  Closed s ∨ s.granted ≠ [] ∧ ∃ view, Held s view

variable {source : Source} {s s' : State} {view : View}

theorem Held.notMem_deleted (h : Held s view) : view.id ∉ s.deleted := by
  rw [h.deleted, List.mem_range]
  exact lt_irrefl _

theorem Closed.safe (h : Closed s) : Safe s where
  alive id hid := by
    rw [h.granted] at hid
    exact absurd hid List.not_mem_nil
  refCount _ := by
    rw [h.view_eq, h.granted]
    rfl
  deleted _ := by
    refine ⟨h.view_eq, fun id hid ↦ ?_⟩
    rw [h.deleted]
    exact List.count_eq_one_of_mem List.nodup_range (List.mem_range.2 hid)

theorem Held.safe (h : Held s view) (hne : s.granted ≠ []) : Safe s where
  alive id hid := by
    rw [h.granted id hid]
    exact ⟨fun hr ↦ h.notMem_deleted (h.releasedViews _ hr), h.notMem_deleted⟩
  refCount _ := by
    rw [h.view_eq]
    exact h.refCount
  deleted hnil := absurd hnil hne

theorem Inv.safe (h : Inv s) : Safe s := by
  obtain h | ⟨hne, view, h⟩ := h
  · exact h.safe
  · exact h.safe hne

/-! ### The steps of a request -/

theorem keepView_none (h : Inv s) {owned newView : Bool} (hkeep : s.keepView owned newView = none) :
    Closed s := by
  obtain h | ⟨-, view, h⟩ := h
  · exact h
  · rw [State.keepView, h.view_eq] at hkeep
    exact absurd hkeep (by simp)

theorem keepView_some (h : Inv s) {owned newView : Bool}
    (hkeep : s.keepView owned newView = some (s', view)) :
    Held s' view ∧ s'.granted = s.granted ∧ s'.running = s.running := by
  obtain h | ⟨-, view', h⟩ := h
  · rw [State.keepView, h.view_eq] at hkeep
    split_ifs at hkeep
    obtain ⟨rfl, rfl⟩ := Prod.mk.inj (Option.some.inj hkeep)
    refine ⟨⟨rfl, ?_, fun id hid ↦ ?_, rfl, h.deleted, h.releasedViews⟩, rfl, rfl⟩
    · rw [h.granted]
      rfl
    · rw [h.granted] at hid
      exact absurd hid List.not_mem_nil
  · rw [State.keepView, h.view_eq] at hkeep
    obtain ⟨rfl, rfl⟩ := Prod.mk.inj (Option.some.inj hkeep)
    exact ⟨h, rfl, rfl⟩

theorem Held.grant (h : Held s view) : Inv ((s.reference view).grant view) := by
  refine .inr ⟨by simp [State.grant], { view with refCount := view.refCount + 1 }, rfl, ?_, ?_,
    h.created, h.deleted, h.releasedViews⟩
  · have hcount := h.refCount
    simp only [State.grant, State.reference, List.length_append, List.length_singleton]
    omega
  · intro id hid
    obtain hid | hid := List.mem_append.1 hid
    · exact h.granted id hid
    · exact List.mem_singleton.1 hid

/-- The last buffer of a view is released. -/
theorem releaseBuffer_last (hrunning : s.running = true) (hview : s.view = some view)
    (hcount : view.refCount = 1) :
    ∃ releasedViews, (∀ id ∈ releasedViews, id ∈ s.releasedViews ∨ id = view.id) ∧
      s.releaseBuffer = { s with
        view := none, deleted := s.deleted ++ [view.id], releasedViews := releasedViews } := by
  have hzero : view.refCount - 1 = 0 := by omega
  cases howned : view.owned with
  | true =>
    refine ⟨s.releasedViews, fun id ↦ .inl, ?_⟩
    simp only [State.releaseBuffer, hrunning, if_true, hview, State.unreference, hzero, howned,
      State.deleteView]
  | false =>
    refine ⟨s.releasedViews ++ [view.id], fun id hid ↦ ?_, ?_⟩
    · exact (List.mem_append.1 hid).imp_right List.mem_singleton.1
    · simp only [State.releaseBuffer, hrunning, if_true, hview, State.unreference, hzero, howned,
        Bool.false_eq_true, if_false, State.deleteView]

/-- A buffer of a view that has others is released. -/
theorem releaseBuffer_next (hrunning : s.running = true) (hview : s.view = some view)
    (hcount : view.refCount ≠ 1) :
    s.releaseBuffer = { s with view := some { view with refCount := view.refCount - 1 } } := by
  have hzero : view.refCount - 1 ≠ 0 := by omega
  simp only [State.releaseBuffer, hrunning, if_true, hview, State.unreference, hzero, if_false]

theorem releaseBuffer_none (hview : s.view = none) : s.releaseBuffer = s := by
  simp [State.releaseBuffer, State.deleteView, hview]

/-- A release, where the count is one more than the buffers that stay. -/
theorem inv_release {granted : List ℕ} (hrunning : s.running = true) (hview : s.view = some view)
    (hcount : view.refCount = granted.length + 1) (hgranted : ∀ id ∈ granted, id = view.id)
    (hcreated : s.created = view.id + 1) (hdeleted : s.deleted = List.range view.id)
    (hreleased : ∀ id ∈ s.releasedViews, id ∈ s.deleted) :
    Inv { s.releaseBuffer with granted := granted } := by
  cases granted with
  | nil =>
    obtain ⟨releasedViews, hviews, heq⟩ := releaseBuffer_last hrunning hview hcount
    rw [heq]
    refine .inl ⟨rfl, rfl, ?_, fun id hid ↦ ?_⟩
    · show s.deleted ++ [view.id] = List.range s.created
      rw [hdeleted, hcreated, List.range_succ]
    · exact List.mem_append.2 ((hviews id hid).imp (hreleased id) List.mem_singleton.2)
  | cons id granted =>
    have hne : view.refCount ≠ 1 := by
      rw [hcount, List.length_cons]
      omega
    rw [releaseBuffer_next hrunning hview hne]
    refine .inr ⟨List.cons_ne_nil _ _, { view with refCount := view.refCount - 1 }, rfl, ?_,
      hgranted,
      hcreated, hdeleted, hreleased⟩
    show view.refCount - 1 = ((id :: granted).length : ℤ)
    omega

theorem releaseBuffer_granted (s : State) : s.releaseBuffer.granted = s.granted := by
  cases hview : s.view with
  | none => rw [releaseBuffer_none hview]
  | some view =>
    cases hrunning : s.running with
    | false => simp only [State.releaseBuffer, hrunning, State.deleteView, hview,
      Bool.false_eq_true,
        if_false]
    | true =>
      by_cases hcount : view.refCount = 1
      · obtain ⟨_, -, heq⟩ := releaseBuffer_last hrunning hview hcount
        rw [heq]
      · rw [releaseBuffer_next hrunning hview hcount]

/-- A request that has counted, and fails, gives the count back. -/
theorem Held.release (h : Held s view) (hrunning : s.running = true) :
    Inv (s.reference view).releaseBuffer := by
  have hview : (s.reference view).view = some { view with refCount := view.refCount + 1 } := rfl
  have hinv : Inv { (s.reference view).releaseBuffer with granted := s.granted } :=
    inv_release hrunning hview (congrArg (· + 1) h.refCount) h.granted h.created h.deleted
      h.releasedViews
  have hgranted := releaseBuffer_granted (s.reference view)
  change (s.reference view).releaseBuffer.granted = s.granted at hgranted
  rwa [← hgranted] at hinv

/-- A failure before the view has counted: the handler gives back what another buffer has
counted. -/
theorem Held.not_safe_release (h : Held s view) (hrunning : s.running = true) :
    ¬Safe s.releaseBuffer := by
  intro hsafe
  have hgranted := releaseBuffer_granted s
  by_cases hcount : view.refCount = 1
  · obtain ⟨_, -, heq⟩ := releaseBuffer_last hrunning h.view_eq hcount
    obtain ⟨id, hid⟩ : ∃ id, id ∈ s.granted := by
      refine List.exists_mem_of_length_pos ?_
      have := h.refCount
      omega
    have hdeleted := (hsafe.alive id (hgranted.symm ▸ hid)).2
    rw [heq, h.granted id hid] at hdeleted
    exact hdeleted (List.mem_append_right _ (List.mem_singleton_self _))
  · have heq := releaseBuffer_next hrunning h.view_eq hcount
    have hcounted := hsafe.refCount (by rw [heq]; exact hrunning)
    rw [heq] at hcounted
    have := h.refCount
    simp only [Option.map_some, Option.getD_some] at hcounted
    omega

/-! ### The events -/

theorem Closed.releaseBuffer (h : Closed s) : Inv s.releaseBuffer := by
  rw [releaseBuffer_none h.view_eq]
  exact .inl h

theorem running_of_guard (h : ¬(!s.running || source.isNull) = true) : s.running = true := by
  simp only [Bool.or_eq_true, Bool.not_eq_true', not_or, Bool.not_eq_false] at h
  exact h.1

theorem Inv.getBufferPrimitive (hs : Inv s) (flags : ℕ) (calls : Calls) :
    Inv (getBufferPrimitive source flags calls s) := by
  cases hkeep : s.keepView false calls.newView with
  | none =>
    simp only [ViewLifetime.getBufferPrimitive, hkeep]
    split_ifs
    · exact hs
    · exact hs
    · exact (keepView_none hs hkeep).releaseBuffer
  | some p =>
    obtain ⟨s', view⟩ := p
    obtain ⟨hheld, -, hrun⟩ := keepView_some hs hkeep
    simp only [ViewLifetime.getBufferPrimitive, hkeep]
    split_ifs with hnull
    · exact hs
    · exact hs
    · exact hheld.release (hrun.trans (running_of_guard hnull))
    · exact hheld.grant

/-- A request for a buffer of several dimensions, where the check does not fail. -/
theorem Inv.getBuffer (hs : Inv s) (flags : ℕ) {calls : Calls}
    (hcheck : Cond source s (.request flags calls)) (hdim : source.dimensions ≠ 1) :
    Inv (getBuffer source flags calls s) := by
  cases hkeep : s.keepView true calls.newView with
  | none =>
    simp only [ViewLifetime.getBuffer, hkeep]
    split_ifs
    all_goals first | exact hs | exact (keepView_none hs hkeep).releaseBuffer
  | some p =>
    obtain ⟨s', view⟩ := p
    obtain ⟨hheld, -, -⟩ := keepView_some hs hkeep
    simp only [ViewLifetime.getBuffer, hkeep]
    split_ifs with hnull hprimitive hwriteable hclone hcollect hfails
    · exact hs
    · exact hs
    · exact hs
    · exact hs
    · exact hs
    · -- Where the check fails, one of the calls before it has failed already.
      refine absurd hcheck ?_
      have hview : ¬(s.view = none ∧ calls.newView = false) := by
        rintro ⟨hnone, hnew⟩
        simp [State.keepView, hnone, hnew] at hkeep
      simp_all [Cond]
    · exact hheld.grant

theorem not_safe_getBuffer (hs : Inv s) {flags : ℕ} {calls : Calls}
    (hcheck : ¬Cond source s (.request flags calls)) :
    ¬Safe (getBuffer source flags calls s) := by
  simp only [Cond, not_or, Bool.not_eq_true, Bool.not_eq_false, not_and] at hcheck
  obtain ⟨hfails, -, hrunning, hnull, hprimitive, hwriteable, hclone, hcollect, hview⟩ := hcheck
  cases hkeep : s.keepView true calls.newView with
  | none =>
    have hclosed := keepView_none hs hkeep
    simp [State.keepView, hclosed.view_eq, hview hclosed.view_eq] at hkeep
  | some p =>
    obtain ⟨s', view⟩ := p
    obtain ⟨hheld, -, hrun⟩ := keepView_some hs hkeep
    have hkept : (source.slice && !calls.clone) = false := by
      cases hslice : source.slice with
      | false => rfl
      | true => simp [hclone hslice]
    simp only [ViewLifetime.getBuffer, hkeep, hrunning, hnull, hprimitive, hwriteable, hkept,
      hcollect, hfails, Bool.not_true, Bool.not_false, Bool.or_self, Bool.false_eq_true, if_false,
      if_true]
    exact hheld.not_safe_release (hrun.trans hrunning)

/-- The release of a buffer while the machine runs. -/
theorem Held.releaseGranted (h : Held s view) (hrunning : s.running = true) {i : ℕ}
    (hi : i < s.granted.length) :
    Inv { s.releaseBuffer with granted := s.granted.eraseIdx i } := by
  refine inv_release hrunning h.view_eq ?_
    (fun id hid ↦ h.granted id (List.mem_of_mem_eraseIdx hid))
    h.created h.deleted h.releasedViews
  rw [h.refCount, List.length_eraseIdx_of_lt hi]
  omega

theorem releaseBuffer_stopped (hrunning : s.running = false) (hview : s.view = some view) :
    s.releaseBuffer = { s with view := none, deleted := s.deleted ++ [view.id] } := by
  simp only [State.releaseBuffer, hrunning, Bool.false_eq_true, if_false, State.deleteView, hview]

/-- What an event keeps that meets the condition. -/
theorem Inv.step (hs : Inv s) {e : Event} (hen : Enabled s e) (hcond : Cond source s e) :
    Inv (step source s e) := by
  cases e with
  | request flags calls =>
    rw [ViewLifetime.step]
    split_ifs with hdim
    · exact hs.getBufferPrimitive flags calls
    · exact hs.getBuffer flags hcond hdim
  | release i =>
    obtain hs | ⟨-, view, hs⟩ := hs
    · rw [Enabled, hs.granted] at hen
      exact absurd hen (Nat.not_lt_zero i)
    cases hrunning : s.running with
    | true => exact hs.releaseGranted hrunning hen
    | false =>
      -- The last buffer of a machine that has been shut down.
      have hlength := hcond hrunning
      rw [ViewLifetime.step, releaseBuffer_stopped hrunning hs.view_eq]
      refine .inl ⟨rfl, ?_, ?_, fun id hid ↦ List.mem_append_left _ (hs.releasedViews id hid)⟩
      · refine List.length_eq_zero_iff.1 ?_
        show (s.granted.eraseIdx i).length = 0
        rw [List.length_eraseIdx_of_lt hen, hlength]
      · show s.deleted ++ [view.id] = List.range s.created
        rw [hs.deleted, hs.created, List.range_succ]
  | shutdown =>
    obtain hs | ⟨hne, view, hs⟩ := hs
    · exact .inl ⟨hs.view_eq, hs.granted, hs.deleted, hs.releasedViews⟩
    · exact .inr ⟨hne, view, hs.view_eq, hs.refCount, hs.granted, hs.created, hs.deleted,
        hs.releasedViews⟩

/-- What an event breaks that does not. -/
theorem not_safe_step (hs : Inv s) {e : Event} (hen : Enabled s e) (hcond : ¬Cond source s e) :
    ¬Safe (step source s e) := by
  cases e with
  | request flags calls =>
    have hdim : source.dimensions ≠ 1 := fun h ↦ hcond (.inr (.inl h))
    rw [ViewLifetime.step, if_neg hdim]
    exact not_safe_getBuffer hs hcond
  | release i =>
    obtain hs | ⟨-, view, hs⟩ := hs
    · rw [Enabled, hs.granted] at hen
      exact absurd hen (Nat.not_lt_zero i)
    obtain ⟨hrunning, hlength⟩ := Classical.not_imp.1 hcond
    intro hsafe
    rw [ViewLifetime.step, releaseBuffer_stopped hrunning hs.view_eq] at hsafe
    obtain ⟨id, hid⟩ : ∃ id, id ∈ s.granted.eraseIdx i := by
      refine List.exists_mem_of_length_pos ?_
      rw [List.length_eraseIdx_of_lt hen]
      simp only [Enabled] at hen
      omega
    have hdeleted := (hsafe.alive id hid).2
    rw [hs.granted id (List.mem_of_mem_eraseIdx hid)] at hdeleted
    exact hdeleted (List.mem_append_right _ (List.mem_singleton_self _))
  | shutdown => exact absurd trivial hcond

/-- In every sequence of requests, releases and a shutdown, granted buffers are alive and counted
throughout exactly if no check fails after a view has been found, and after a shutdown no buffer
but the last is released. -/
theorem safe_iff (source : Source) (events : List Event)
    (henabled : Admissible Enabled (step source) new events) :
    (∀ l, l <+: events → Safe (run (step source) new l)) ↔
      Admissible (Cond source) (step source) new events := by
  have hnew : Inv new := .inl ⟨rfl, rfl, rfl, fun id hid ↦ absurd hid List.not_mem_nil⟩
  exact safe_prefixes_iff (fun s (hs : Inv s) ↦ hs.safe) (fun _ _ hs hen hcond ↦ hs.step hen hcond)
    (fun _ _ hs hen hcond ↦ not_safe_step hs hen hcond) events new hnew henabled

instance (s : State) : DecidablePred (Enabled s)
  | .request _ _ => isTrue trivial
  | .release _ => inferInstanceAs (Decidable (_ < _))
  | .shutdown => isTrue trivial

/-- An array of two dimensions. -/
def matrix : Source where
  dimensions := 2

/-- Two buffers are granted and released, a request for a writable one is refused, and the machine
is shut down at the end. -/
theorem safe_sample :
    Safe (run (step matrix) new [.request 0x18 {}, .request 0x1 {}, .request 0x18 {}, .release 0,
      .release 0, .shutdown]) := by
  have hcond : Admissible (Cond matrix) (step matrix) new [.request 0x18 {}, .request 0x1 {},
      .request 0x18 {}, .release 0, .release 0, .shutdown] :=
    ⟨.inl rfl, .inl rfl, .inl rfl, fun h ↦ absurd h (by decide), fun h ↦ absurd h (by decide),
      trivial, trivial⟩
  exact (safe_iff matrix _ (by decide)).2 hcond _ List.prefix_rfl

/-- Two buffers are granted, and one of them is released after the shutdown. -/
def releasedLate : List Event :=
  [.request 0x18 {}, .request 0x18 {}, .shutdown, .release 0]

/-- The other buffer has lost its memory. -/
theorem releasedLate_not_safe :
    Admissible Enabled (step matrix) new releasedLate ∧
      (run (step matrix) new releasedLate).granted = [0] ∧
        (run (step matrix) new releasedLate).deleted = [0] ∧
          ¬Safe (run (step matrix) new releasedLate) :=
  ⟨by decide, by decide, by decide, fun h ↦ absurd (h.alive 0 (by decide)).2 (by decide)⟩

end ViewLifetime

end JPype
