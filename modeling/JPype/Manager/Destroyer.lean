import JPype.Foundation.Hoare
import Mathlib.Algebra.BigOperators.Group.Finset.Basic
import Mathlib.Data.List.Perm.Basic

/-!
# The destroyer of native resources

`TypeManager` hands the pointers of native resources to its factory in blocks. Single pointers fill
a block; an array of pointers is copied into it, after the block has been handed over if it has no
room, or is handed over itself if it is large. Every run hands over what was added, in some order,
and the index never leaves the block (`forM_perform_spec`).
-/

namespace JPype.Manager

open Foundation

/-- A pointer to a native resource, as a `long` of Java. -/
abbrev Pointer := Int64

/-- An exception of Java. -/
inductive Fault where
  | arrayIndexOutOfBounds
  deriving DecidableEq

/-- What the destroyer does: the values that its index takes, and the pointers with which
`typeFactory.destroy` is called. -/
inductive Event where
  | index (value : ℕ)
  | destroy (pointers : List Pointer)
  deriving DecidableEq

/-- `BLOCK_SIZE` -/
abbrev blockSize : ℕ := 1024

/-- `Destroyer`, with what it did so far. -/
structure Destroyer where
  queue : Vector Pointer blockSize
  index : ℕ
  events : List Event

namespace Destroyer

abbrev DestroyerProgram := Program Destroyer Fault PUnit

/-- `new Destroyer()` -/
def new : Destroyer where
  queue := Vector.replicate blockSize 0
  index := 0
  events := [.index 0]

/-- `index = value` -/
def setIndex (value : ℕ) : DestroyerProgram :=
  modify fun s ↦ { s with index := value, events := s.events ++ [.index value] }

/-- `typeFactory.destroy(context, values, sz)` -/
def destroy (values : List Pointer) (sz : ℕ) : DestroyerProgram :=
  modify fun s ↦ { s with events := s.events ++ [.destroy (values.take sz)] }

/-- `queue[index++] = v` -/
def store (v : Pointer) : DestroyerProgram := do
  let s ← get
  setIndex (s.index + 1)
  if h : s.index < blockSize then
    modify fun s' ↦ { s' with queue := s'.queue.set s.index v h }
  else throw .arrayIndexOutOfBounds

/-- `flush` -/
def flush : DestroyerProgram := do
  let s ← get
  destroy s.queue.toList s.index
  setIndex 0

/-- `if (index == BLOCK_SIZE) flush();` -/
def flushFull : DestroyerProgram := do
  let s ← get
  if s.index = blockSize then flush else pure ()

/-- `if (index + v.length > BLOCK_SIZE) flush();` -/
def makeRoom (length : ℕ) : DestroyerProgram := do
  let s ← get
  if s.index + length > blockSize then flush else pure ()

/-- `add(long v)` -/
def add (v : Pointer) : DestroyerProgram :=
  if v = 0 then pure ()
  else do
    store v
    flushFull

/-- `add(long[] v)`, where the array may be `null`. -/
def addArray : Option (List Pointer) → DestroyerProgram
  | none => pure ()
  | some v =>
    if v.length > blockSize / 2 then destroy v v.length
    else do
      makeRoom v.length
      v.forM store
      flushFull

/-- A call of one of the methods. -/
inductive Op where
  | add (v : Pointer)
  | addArray (v : Option (List Pointer))
  | flush
  deriving DecidableEq

/-- The call is made. -/
def perform : Op → DestroyerProgram
  | .add v => Destroyer.add v
  | .addArray v => Destroyer.addArray v
  | .flush => Destroyer.flush

/-- The pointers that are added by a call. -/
def Op.pointers : Op → List Pointer
  | .add v => [v]
  | .addArray v => v.getD []
  | .flush => []

/-- What was passed to the factory. -/
def destroyed (s : Destroyer) : List Pointer :=
  s.events.flatMap fun event ↦
    match event with
    | .index _ => []
    | .destroy pointers => pointers

/-! ### One call -/

/-- What was added and is not forgotten: what was destroyed, and the part of the block in use. -/
def held (s : Destroyer) : List Pointer :=
  s.destroyed ++ s.queue.toList.take s.index

/-- The pointers of a call that reach the block or the factory. -/
def Op.passed : Op → List Pointer
  | .add v => if v = 0 then [] else [v]
  | .addArray v => v.getD []
  | .flush => []

/-- These pointers are held, and the index never left the block. -/
structure Inv (l : List Pointer) (s : Destroyer) : Prop where
  perm : s.held.Perm l
  index_le : ∀ value, .index value ∈ s.events → value ≤ blockSize

variable {l : List Pointer} {s : Destroyer}

theorem inv_new : Inv [] new where
  perm := .refl _
  index_le value h := by
    obtain rfl : value = 0 := by simpa [new] using h
    exact Nat.zero_le _

theorem mem_events_of_index {value next : ℕ} {events : List Event}
    (h : .index value ∈ events ++ [.index next]) : .index value ∈ events ∨ value = next :=
  (List.mem_append.mp h).imp_right fun h ↦ Event.index.inj (List.mem_singleton.mp h)

theorem mem_events_of_destroy {value : ℕ} {events : List Event} {pointers : List Pointer}
    (h : .index value ∈ events ++ [.destroy pointers]) : .index value ∈ events :=
  (List.mem_append.mp h).resolve_right fun h ↦ by cases List.mem_singleton.mp h

theorem exec_destroy (values : List Pointer) (sz : ℕ) : (destroy values sz).exec s =
    (.ok ⟨⟩, { s with events := s.events ++ [.destroy (values.take sz)] }) :=
  rfl

theorem exec_flush : flush.exec s = (.ok ⟨⟩, { s with
    index := 0
    events := s.events ++ [.destroy (s.queue.toList.take s.index)] ++ [.index 0] }) :=
  rfl

theorem exec_store {v : Pointer} (h : s.index < blockSize) : (store v).exec s = (.ok ⟨⟩, {
    queue := s.queue.set s.index v h
    index := s.index + 1
    events := s.events ++ [.index (s.index + 1)] }) := by
  rw [store, Program.exec_bind, Program.exec_get]
  show (setIndex (s.index + 1) >>= fun _ ↦ _).exec s = _
  rw [Program.exec_bind, setIndex, Program.exec_modify, dif_pos h]
  rfl

/-- The block is handed over. -/
theorem flush_spec : Triple (Inv l) flush (fun _ s ↦ Inv l s ∧ s.index = 0) fun _ _ ↦ False := by
  intro s hs
  rw [exec_flush]
  refine ⟨⟨?_, fun value hvalue ↦ ?_⟩, rfl⟩
  · have hheld : held { s with
        index := 0
        events := s.events ++ [.destroy (s.queue.toList.take s.index)] ++ [.index 0] } =
          s.held := by
      simp [held, destroyed]
    rw [hheld]
    exact hs.perm
  · rcases mem_events_of_index hvalue with hvalue | rfl
    · exact hs.index_le value (mem_events_of_destroy hvalue)
    · exact Nat.zero_le _

/-- A pointer is put into the block. -/
theorem store_spec (v : Pointer) {n : ℕ} (hn : n < blockSize) :
    Triple (fun s ↦ Inv l s ∧ s.index = n) (store v)
      (fun _ s ↦ Inv (l ++ [v]) s ∧ s.index = n + 1) fun _ _ ↦ False := by
  rintro s ⟨hs, rfl⟩
  rw [exec_store hn]
  refine ⟨⟨?_, fun value hvalue ↦ ?_⟩, rfl⟩
  · have hheld : held {
        queue := s.queue.set s.index v hn
        index := s.index + 1
        events := s.events ++ [.index (s.index + 1)] } = s.held ++ [v] := by
      have htake : (s.queue.set s.index v hn).toList.take (s.index + 1) =
          s.queue.toList.take s.index ++ [v] := by
        have hlength : s.index < s.queue.toList.length := by rwa [Vector.length_toList]
        rw [Vector.toList_set, List.take_add_one, List.take_set_of_le (Nat.le_refl _),
          List.getElem?_set_self hlength]
        rfl
      rw [held, held, htake, ← List.append_assoc]
      simp [destroyed]
    rw [hheld]
    exact hs.perm.append_right _
  · rcases mem_events_of_index hvalue with hvalue | rfl
    · exact hs.index_le value hvalue
    · exact hn

/-- A block that is full is handed over. -/
theorem flushFull_spec : Triple (fun s ↦ Inv l s ∧ s.index ≤ blockSize) flushFull
    (fun _ s ↦ Inv l s ∧ s.index < blockSize) fun _ _ ↦ False := by
  refine Triple.get_bind fun s hs ↦ ?_
  split
  · refine (flush_spec.consequence (fun s h ↦ h) (fun _ s h ↦ ⟨h.1, ?_⟩) fun _ _ h ↦ h).of_eq hs.1
    rw [h.2]
    exact Nat.zero_lt_succ _
  · next hfull =>
    exact Triple.pure fun s' heq ↦ heq ▸ ⟨hs.1, Nat.lt_of_le_of_ne hs.2 hfull⟩

/-- The loop that copies an array into the block. -/
theorem forM_store_spec (v : List Pointer) {n : ℕ} (hn : n + v.length ≤ blockSize) :
    Triple (fun s ↦ Inv l s ∧ s.index = n) (v.forM store)
      (fun _ s ↦ Inv (l ++ v) s ∧ s.index = n + v.length) fun _ _ ↦ False := by
  have hloop : Triple (fun s ↦ Inv (l ++ []) s ∧ s.index = n + 0) (v.forM store)
      (fun _ s ↦ Inv (l ++ v) s ∧ s.index = n + v.length) fun _ _ ↦ False := by
    refine Triple.forM_consumed (fun done s ↦ Inv (l ++ done) s ∧ s.index = n + done.length)
      fun done a rest heq ↦ ?_
    have hlt : n + done.length < blockSize := by
      rw [heq, List.length_append, List.length_cons] at hn
      omega
    rw [List.length_append, ← List.append_assoc]
    exact store_spec a hlt
  rwa [List.append_nil, Nat.add_zero] at hloop

theorem add_spec (v : Pointer) : Triple (fun s ↦ Inv l s ∧ s.index < blockSize) (add v)
    (fun _ s ↦ Inv (l ++ (Op.add v).passed) s ∧ s.index < blockSize) fun _ _ ↦ False := by
  rw [add, Op.passed]
  split
  · rw [List.append_nil]
    exact Triple.pure fun s hs ↦ hs
  · refine Triple.of_forall fun s hs ↦ ?_
    have hadd : Triple (fun s' ↦ Inv l s' ∧ s'.index = s.index) (store v >>= fun _ ↦ flushFull)
        (fun _ s' ↦ Inv (l ++ [v]) s' ∧ s'.index < blockSize) fun _ _ ↦ False :=
      Triple.bind (store_spec v hs.2) fun _ ↦
        flushFull_spec.weaken_pre fun s' hs' ↦ ⟨hs'.1, hs'.2 ▸ hs.2⟩
    exact hadd.of_eq ⟨hs.1, rfl⟩

theorem destroy_spec (v : List Pointer) : Triple (fun s ↦ Inv l s ∧ s.index < blockSize)
    (destroy v v.length) (fun _ s ↦ Inv (l ++ v) s ∧ s.index < blockSize) fun _ _ ↦ False := by
  rintro s ⟨hs, hindex⟩
  rw [exec_destroy, List.take_length]
  refine ⟨⟨?_, fun value hvalue ↦ hs.index_le value (mem_events_of_destroy hvalue)⟩, hindex⟩
  -- the array is destroyed before what is in the block
  have hheld : held { s with events := s.events ++ [.destroy v] } =
      s.destroyed ++ v ++ s.queue.toList.take s.index := by
    simp [held, destroyed]
  rw [hheld, List.append_assoc]
  refine (List.Perm.append_left _ List.perm_append_comm).trans ?_
  rw [← List.append_assoc]
  exact hs.perm.append_right v

/-- The block has room for the array after it has been handed over, if it had none before. -/
theorem makeRoom_spec {m : ℕ} (hm : m ≤ blockSize) :
    Triple (fun s ↦ Inv l s ∧ s.index < blockSize) (makeRoom m)
      (fun _ s ↦ Inv l s ∧ s.index + m ≤ blockSize) fun _ _ ↦ False := by
  refine Triple.get_bind fun s hs ↦ ?_
  split
  · refine (flush_spec.consequence (fun s h ↦ h) (fun _ s h ↦ ⟨h.1, ?_⟩) fun _ _ h ↦ h).of_eq hs.1
    rw [h.2, Nat.zero_add]
    exact hm
  · next hroom =>
    exact Triple.pure fun s' heq ↦ heq ▸ ⟨hs.1, Nat.le_of_not_lt hroom⟩

theorem addArray_spec (v : Option (List Pointer)) :
    Triple (fun s ↦ Inv l s ∧ s.index < blockSize) (addArray v)
      (fun _ s ↦ Inv (l ++ (Op.addArray v).passed) s ∧ s.index < blockSize)
      fun _ _ ↦ False := by
  cases v with
  | none =>
    show Triple _ (pure ()) (fun _ s ↦ Inv (l ++ []) s ∧ _) _
    rw [List.append_nil]
    exact Triple.pure fun s hs ↦ hs
  | some v =>
    show Triple _ _ (fun _ s ↦ Inv (l ++ v) s ∧ _) _
    rw [addArray]
    split
    · exact destroy_spec v
    · next hsmall =>
      have hlength : v.length ≤ blockSize :=
        Nat.le_trans (Nat.le_of_not_lt hsmall) (Nat.div_le_self _ _)
      refine Triple.bind (makeRoom_spec hlength) fun _ ↦ Triple.of_forall fun s hs ↦ ?_
      have hcopy : Triple (fun s' ↦ Inv l s' ∧ s'.index = s.index)
          (v.forM store >>= fun _ ↦ flushFull)
          (fun _ s' ↦ Inv (l ++ v) s' ∧ s'.index < blockSize) fun _ _ ↦ False :=
        Triple.bind (forM_store_spec v hs.2) fun _ ↦
          flushFull_spec.weaken_pre fun s' hs' ↦ ⟨hs'.1, hs'.2 ▸ hs.2⟩
      exact hcopy.of_eq ⟨hs.1, rfl⟩

/-- Every call keeps what is held, and leaves the block with room. -/
theorem perform_spec (op : Op) : Triple (fun s ↦ Inv l s ∧ s.index < blockSize) (perform op)
    (fun _ s ↦ Inv (l ++ op.passed) s ∧ s.index < blockSize) fun _ _ ↦ False := by
  cases op with
  | add v => exact add_spec v
  | addArray v => exact addArray_spec v
  | flush =>
    show Triple _ flush (fun _ s ↦ Inv (l ++ []) s ∧ _) _
    rw [List.append_nil]
    refine flush_spec.consequence (fun s hs ↦ hs.1) (fun _ s hs ↦ ⟨hs.1, ?_⟩) fun _ _ h ↦ h
    rw [hs.2]
    exact Nat.zero_lt_succ _

/-! ### Whole runs -/

/-- Every sequence of calls holds what was passed, and no call fails. -/
theorem forM_perform_spec (ops : List Op) : Triple (· = new) (ops.forM perform)
    (fun _ s ↦ Inv (ops.flatMap Op.passed) s ∧ s.index < blockSize) fun _ _ ↦ False := by
  refine Triple.weaken_pre (Triple.forM_consumed
    (fun done s ↦ Inv (done.flatMap Op.passed) s ∧ s.index < blockSize)
    fun done op rest _ ↦ ?_) fun s hs ↦ ?_
  · rw [List.flatMap_append, List.flatMap_singleton]
    exact perform_spec op
  · rw [show s = new from hs]
    exact ⟨inv_new, Nat.zero_lt_succ _⟩

theorem count_passed {p : Pointer} (hp : p ≠ 0) (op : Op) :
    op.passed.count p = op.pointers.count p := by
  cases op with
  | add v =>
    rw [Op.passed, Op.pointers]
    split
    · next hv => rw [hv, List.count_nil, List.count_singleton, if_neg (by simpa using hp.symm)]
    · rfl
  | addArray v => rfl
  | flush => rfl

theorem forM_perform_flush (ops : List Op) :
    (ops ++ [Op.flush]).forM perform = ops.forM perform >>= fun _ ↦ flush := by
  refine List.forM_append.trans (bind_congr fun _ ↦ ?_)
  exact bind_pure flush

/-- A run that ends with a flush returns, and has passed everything to the factory. -/
theorem exists_exec_flush (ops : List Op) : ∃ s,
    ((ops ++ [Op.flush]).forM perform).exec new = (.ok ⟨⟩, s) ∧
      s.destroyed.Perm (ops.flatMap Op.passed) ∧
      ∀ value, Event.index value ∈ s.events → value ≤ blockSize := by
  have hrun : Triple (· = new) (ops.forM perform >>= fun _ ↦ flush)
      (fun _ s ↦ Inv (ops.flatMap Op.passed) s ∧ s.index = 0) fun _ _ ↦ False :=
    Triple.bind (forM_perform_spec ops) fun _ ↦ flush_spec.weaken_pre fun s hs ↦ hs.1
  have hnew := hrun new rfl
  rw [forM_perform_flush]
  generalize (ops.forM perform >>= fun _ ↦ flush).exec new = outcome at hnew ⊢
  obtain ⟨e | ⟨⟩, s⟩ := outcome
  · exact hnew.elim
  · obtain ⟨hinv, hindex⟩ := hnew
    have hperm := hinv.perm
    rw [held, hindex, List.take_zero, List.append_nil] at hperm
    exact ⟨s, rfl, hperm, hinv.index_le⟩

theorem count_flatMap_passed {p : Pointer} (hp : p ≠ 0) (ops : List Op) :
    (ops.flatMap Op.passed).count p = (ops.flatMap Op.pointers).count p := by
  rw [List.count_flatMap, List.count_flatMap]
  exact congrArg List.sum (List.map_congr_left fun op _ ↦ count_passed hp op)

/-- Every sequence of calls that ends with a flush returns. Every pointer but zero has been passed
to the factory as often as it was added, and the index was in the block all the time. -/
theorem destroyed_exactly_once (ops : List Op) : ∃ s,
    ((ops ++ [Op.flush]).forM perform).exec new = (.ok ⟨⟩, s) ∧
      (∀ p, p ≠ 0 → s.destroyed.count p = (ops.flatMap Op.pointers).count p) ∧
      ∀ value, Event.index value ∈ s.events → value ≤ blockSize := by
  obtain ⟨s, hexec, hperm, hindex⟩ := exists_exec_flush ops
  refine ⟨s, hexec, fun p hp ↦ ?_, hindex⟩
  rw [hperm.count_eq, count_flatMap_passed hp]

end Destroyer

/-! ### Shutdown -/

open Destroyer

/-- The resources of a class. -/
structure ClassDescriptor where
  constructorDispatch : Pointer
  constructors : Option (List Pointer)
  methodDispatch : Option (List Pointer)
  methods : Option (List Pointer)
  fields : Option (List Pointer)
  anonymous : Pointer
  classPtr : Pointer
  deriving DecidableEq

/-- A descriptor of which the resources have been added. -/
def ClassDescriptor.blank : ClassDescriptor :=
  ⟨0, none, none, none, none, 0, 0⟩

/-- The calls for one entry of the class map. -/
def ClassDescriptor.ops (entry : ClassDescriptor) : List Op :=
  [.add entry.constructorDispatch, .addArray entry.constructors, .addArray entry.methodDispatch,
    .addArray entry.methods, .addArray entry.fields, .add entry.anonymous, .add entry.classPtr]

/-- The loop of `shutdown` over the values of the class map, which are references to descriptors:
the same may appear more than once, and is blank when it does. -/
def shutdownOps (descriptors : ℕ → ClassDescriptor) : List ℕ → List Op
  | [] => []
  | entry :: entries => (descriptors entry).ops ++
      shutdownOps (Function.update descriptors entry .blank) entries

/-- `shutdown` -/
def shutdown (descriptors : ℕ → ClassDescriptor) (classMap : List ℕ) : DestroyerProgram :=
  (shutdownOps descriptors classMap ++ [Op.flush]).forM perform

/-- How often a descriptor has a pointer. -/
def ClassDescriptor.count (entry : ClassDescriptor) (p : Pointer) : ℕ :=
  (entry.ops.flatMap Op.pointers).count p

theorem ClassDescriptor.count_blank {p : Pointer} (hp : p ≠ 0) :
    ClassDescriptor.blank.count p = 0 := by
  refine List.count_eq_zero.mpr fun hmem ↦ hp ?_
  simpa [blank, ops, Op.pointers] using hmem

theorem count_shutdownOps {p : Pointer} (hp : p ≠ 0) (descriptors : ℕ → ClassDescriptor)
    (classMap : List ℕ) : ((shutdownOps descriptors classMap).flatMap Op.pointers).count p =
      ∑ entry ∈ classMap.toFinset, (descriptors entry).count p := by
  induction classMap generalizing descriptors with
  | nil => rfl
  | cons entry entries ih =>
    have hblank : ∑ other ∈ entries.toFinset,
        (Function.update descriptors entry .blank other).count p =
          ∑ other ∈ entries.toFinset.erase entry, (descriptors other).count p := by
      have herase := Finset.sum_erase entries.toFinset (a := entry)
        (f := fun other ↦ (Function.update descriptors entry .blank other).count p)
        (by rw [Function.update_self, ClassDescriptor.count_blank hp])
      refine herase.symm.trans (Finset.sum_congr rfl fun other hother ↦ ?_)
      rw [Function.update_of_ne (Finset.ne_of_mem_erase hother)]
    rw [shutdownOps, List.flatMap_append, List.count_append, ih, hblank, List.toFinset_cons,
      ← Finset.add_sum_erase _ _ (Finset.mem_insert_self entry _), Finset.erase_insert_eq_erase]
    rfl

/-- Every resource is destroyed as often as the descriptors have it, also where the class map has
several entries with one descriptor. -/
theorem shutdown_destroys (descriptors : ℕ → ClassDescriptor) (classMap : List ℕ) : ∃ s,
    (shutdown descriptors classMap).exec new = (.ok ⟨⟩, s) ∧ ∀ p, p ≠ 0 →
      s.destroyed.count p = ∑ entry ∈ classMap.toFinset, (descriptors entry).count p := by
  obtain ⟨s, hexec, hperm, -⟩ := exists_exec_flush (shutdownOps descriptors classMap)
  refine ⟨s, hexec, fun p hp ↦ ?_⟩
  rw [hperm.count_eq, count_flatMap_passed hp, count_shutdownOps hp]

end JPype.Manager
