import JPype.Overload.Population

/-!
# The invariant of the type manager

What is observed of a type manager, and what always holds of it (`Sound`): its native methods wrap
different executables, the overloads stored with a method are those, among the overloads of the
class that declares it, that it is strictly more specific than, and a dispatch has the more specific
ones in front. Loading a class is not observed at
all (`Silent`), and populating one only adds methods of classes that had no members (`Grows`).
-/

namespace JPype

open Foundation

variable {Cls : Type} [DecidableEq Cls] (R : Reflection Cls)

/-! ### What is observed of a state -/

namespace TypeManager

/-- `fields` of the descriptor of a class, with null for a class that has none. -/
def fields (s : TypeManager Cls) (c : Cls) : Option (List ℕ) := (s.classMap c).bind (·.fields)

/-- The methods that the descriptor of a class lists. -/
def defined (s : TypeManager Cls) (c : Cls) : List (Executable Cls × ℕ) :=
  (s.classMap c).elim [] (·.defined)

/-- The native object at an address wraps this executable. -/
def Registered (s : TypeManager Cls) (m : Executable Cls) (ptr : ℕ) : Prop :=
  ∃ e ∈ s.methods, e.1 = m ∧ e.2.ptr = ptr

/-- Classes may have been added, and nothing else that is observed has happened. -/
structure Quiet (s s' : TypeManager Cls) : Prop where
  methods : s'.methods = s.methods
  dispatches : s'.dispatches = s.dispatches
  nextPtr : s.nextPtr ≤ s'.nextPtr
  known : ∀ c, s.classMap c ≠ none → s'.classMap c ≠ none
  fields : ∀ c, s'.fields c = s.fields c
  defined : ∀ c, s'.defined c = s.defined c

namespace Quiet

variable {s s' s'' : TypeManager Cls}

omit [DecidableEq Cls] in
theorem refl (s : TypeManager Cls) : Quiet s s :=
  ⟨rfl, rfl, le_rfl, fun _ ↦ id, fun _ ↦ rfl, fun _ ↦ rfl⟩

omit [DecidableEq Cls] in
theorem trans (h : Quiet s s') (h' : Quiet s' s'') : Quiet s s'' where
  methods := h'.methods.trans h.methods
  dispatches := h'.dispatches.trans h.dispatches
  nextPtr := h.nextPtr.trans h'.nextPtr
  known c hc := h'.known c (h.known c hc)
  fields c := (h'.fields c).trans (h.fields c)
  defined c := (h'.defined c).trans (h.defined c)

omit [DecidableEq Cls] in
theorem allocate (s : TypeManager Cls) : Quiet s { s with nextPtr := s.nextPtr + 1 } :=
  ⟨rfl, rfl, Nat.le_succ _, fun _ ↦ id, fun _ ↦ rfl, fun _ ↦ rfl⟩

end Quiet

section Update

variable (s : TypeManager Cls) (c : Cls) (desc : Option (ClassDescriptor Cls))

/-- The state with another descriptor for one class. -/
def update : TypeManager Cls := { s with classMap := Function.update s.classMap c desc }

theorem classMap_update : (s.update c desc).classMap = Function.update s.classMap c desc :=
  rfl

theorem fields_update :
    (s.update c desc).fields = Function.update s.fields c (desc.bind (·.fields)) := by
  funext c'
  by_cases hc : c' = c
  · obtain rfl := hc
    simp [fields, update]
  · simp [fields, update, hc]

theorem defined_update :
    (s.update c desc).defined = Function.update s.defined c (desc.elim [] (·.defined)) := by
  funext c'
  by_cases hc : c' = c
  · obtain rfl := hc
    simp [defined, update]
  · simp [defined, update, hc]

theorem known_update (hdesc : s.classMap c ≠ none → desc ≠ none) (c' : Cls)
    (hc' : s.classMap c' ≠ none) : (s.update c desc).classMap c' ≠ none := by
  by_cases hc : c' = c
  · obtain rfl := hc
    rw [classMap_update, Function.update_self]
    exact hdesc hc'
  · rwa [classMap_update, Function.update_of_ne hc]

variable {s c desc}

/-- An update that keeps what is observed of the class. -/
theorem quiet_update (hdesc : s.classMap c ≠ none → desc ≠ none)
    (hf : desc.bind (·.fields) = s.fields c) (hd : desc.elim [] (·.defined) = s.defined c) :
    Quiet s (s.update c desc) where
  methods := rfl
  dispatches := rfl
  nextPtr := le_rfl
  known := known_update s c desc hdesc
  fields c' := by rw [fields_update, hf, Function.update_eq_self]
  defined c' := by rw [defined_update, hd, Function.update_eq_self]

/-- A class without members may get a new descriptor. -/
theorem quiet_put (hf : s.fields c = none) (hd : s.defined c = []) (classPtr : ℕ) :
    Quiet s (s.put c { classPtr }) :=
  quiet_update (fun _ ↦ nofun) hf.symm hd.symm

theorem quiet_modifyDesc {f : ClassDescriptor Cls → ClassDescriptor Cls}
    (hf : ∀ d, (f d).fields = d.fields) (hd : ∀ d, (f d).defined = d.defined) :
    Quiet s (s.modifyDesc c f) := by
  refine quiet_update ?_ ?_ ?_
  · exact fun h ↦ (Option.map_eq_none_iff.not).2 h
  · rw [fields]
    cases s.classMap c with
    | none => rfl
    | some d => exact hf d
  · rw [defined]
    cases s.classMap c with
    | none => rfl
    | some d => exact hd d

end Update

end TypeManager

/-- A program that is not observed, however it ends. -/
def Silent {α : Type} (x : ManagerM Cls α) : Prop :=
  ∀ s₀, Triple (TypeManager.Quiet s₀) x (fun _ ↦ TypeManager.Quiet s₀)
    fun e s ↦ e ≠ .danglingPointer ∧ TypeManager.Quiet s₀ s

open TypeManager

namespace Silent

variable {α β : Type} {x : ManagerM Cls α} {f : α → ManagerM Cls β}

omit [DecidableEq Cls] in
theorem pure (a : α) : Silent (Pure.pure a : ManagerM Cls α) :=
  fun _ ↦ Triple.pure fun _ hs ↦ hs

omit [DecidableEq Cls] in
theorem throw {e : JavaError} (he : e ≠ .danglingPointer) :
    Silent (MonadExcept.throw e : ManagerM Cls α) :=
  fun _ ↦ Triple.throw fun _ hs ↦ ⟨he, hs⟩

omit [DecidableEq Cls] in
theorem bind (hx : Silent x) (hf : ∀ a, Silent (f a)) : Silent (x >>= f) :=
  fun s₀ ↦ (hx s₀).bind fun a ↦ hf a s₀

omit [DecidableEq Cls] in
theorem mapM {f : α → ManagerM Cls β} {l : List α} (hf : ∀ a ∈ l, Silent (f a)) :
    Silent (l.mapM f) :=
  fun s₀ ↦ Triple.mapM fun a ha ↦ hf a ha s₀

omit [DecidableEq Cls] in
theorem allocate : Silent (allocate : ManagerM Cls ℕ) :=
  fun _ ↦ Triple.modifyGet fun _ hs ↦ hs.trans (Quiet.allocate _)

omit [DecidableEq Cls] in
theorem defineField (c : Cls) (field : Field Cls) : Silent (defineField c field) :=
  fun _ ↦ Triple.modifyGet fun _ hs ↦
    hs.trans ⟨rfl, rfl, Nat.le_succ _, fun _ ↦ id, fun _ ↦ rfl, fun _ ↦ rfl⟩

theorem modifyDesc (c : Cls) {f : ClassDescriptor Cls → ClassDescriptor Cls}
    (hf : ∀ d, (f d).fields = d.fields) (hd : ∀ d, (f d).defined = d.defined) :
    Silent (modify (·.modifyDesc c f) : ManagerM Cls Unit) :=
  fun _ ↦ Triple.modify fun _ hs ↦ hs.trans (quiet_modifyDesc hf hd)

end Silent

/-! ### Classes -/

section Classes

theorem cacheWrapper_quiet {s₀ : TypeManager Cls} {c : Cls} (hf : s₀.fields c = none)
    (hd : s₀.defined c = []) :
    Triple (Quiet s₀) (cacheWrapper c) (fun _ ↦ Quiet s₀)
      fun e s ↦ e ≠ .danglingPointer ∧ Quiet s₀ s := by
  refine (Silent.allocate s₀).bind fun classPtr ↦ Triple.bind (Triple.modify fun s hs ↦ ?_)
    fun _ ↦ Triple.pure fun _ hs ↦ hs
  exact hs.trans (quiet_put ((hs.fields c).trans hf) ((hs.defined c).trans hd) classPtr)

variable {R}

/-- A class is created from a state where it has no members. -/
theorem createClass_quiet {load : Cls → ManagerM Cls (ClassDescriptor Cls)}
    (hload : ∀ c, Silent (load c)) {s₀ : TypeManager Cls} {c : Cls} (hf : s₀.fields c = none)
    (hd : s₀.defined c = []) :
    Triple (Quiet s₀) (createClass R load c) (fun _ ↦ Quiet s₀)
      fun e s ↦ e ≠ .danglingPointer ∧ Quiet s₀ s := by
  rw [createClass]
  split_ifs with harray
  · exact (hload _ s₀).bind fun _ ↦ cacheWrapper_quiet hf hd
  · rw [createOrdinaryClass]
    split_ifs with hlink
    · exact Silent.throw (by decide) s₀
    · exact (Silent.mapM (fun c' _ ↦ hload c') s₀).bind fun _ ↦ cacheWrapper_quiet hf hd

theorem getClass_silent (fuel : ℕ) : ∀ c, Silent (getClass R fuel c) := by
  induction fuel with
  | zero => exact fun c ↦ Silent.throw (by decide)
  | succ fuel ih =>
    intro c s₀
    refine Triple.get_bind fun s hs ↦ ?_
    cases hc : s.classMap c with
    | some desc => exact Triple.of_eq (Triple.pure fun _ h ↦ h) hs
    | none =>
      refine Triple.of_eq (createClass_quiet ih ?_ ?_) hs
      · rw [← hs.fields, TypeManager.fields, hc]
        rfl
      · rw [← hs.defined, TypeManager.defined, hc]
        rfl

end Classes

/-! ### The invariant -/

/-- The overloads from which the dispatch of a name, or of the constructors, is made. -/
def overloadSet (c : Cls) (isConstructor : Bool) (name : String) : List (Executable Cls) :=
  if isConstructor then ((R.getDeclaredConstructors c).getD []).filter (·.isPublic)
  else (filterOverridden R c ((R.getMethods c).getD [])).filter (·.name = name)

/-- The overloads of an executable in the class that declares it. -/
def declaredAmong (m : Executable Cls) : List (Executable Cls) :=
  overloadSet R m.declaringClass (m.kind = .constructor) m.name

open MethodResolution in
/-- What holds of a type manager at all times. -/
structure Sound (s : TypeManager Cls) : Prop where
  nextPtr_pos : 0 < s.nextPtr
  ptr_pos : ∀ e ∈ s.methods, 0 < e.2.ptr
  ptr_lt : ∀ e ∈ s.methods, e.2.ptr < s.nextPtr
  ptr_inj : ∀ e ∈ s.methods, ∀ e' ∈ s.methods, e.2.ptr = e'.2.ptr → e = e'
  executable_inj : ∀ e ∈ s.methods, ∀ e' ∈ s.methods, e.1 = e'.1 → e = e'
  /-- A class gets its fields before its methods. -/
  populated : ∀ e ∈ s.methods, s.fields e.1.declaringClass ≠ none
  defined : ∀ c, ∀ p ∈ s.defined c, s.Registered p.1 p.2
  /-- A stored overload is one of those that the declaring class was populated with. -/
  stored : ∀ e ∈ s.methods, ∀ ptr ∈ e.2.moreSpecificOverloads, ∃ m, s.Registered m ptr ∧
    m ∈ declaredAmong R e.1 ∧ isStrictlyMoreSpecificThan R e.1 m = true
  /-- All of these are stored. -/
  complete : ∀ e ∈ s.methods, ∀ m ∈ declaredAmong R e.1,
    isStrictlyMoreSpecificThan R e.1 m = true →
      ∃ ptr ∈ e.2.moreSpecificOverloads, s.Registered m ptr
  dispatches : ∀ d ∈ s.dispatches, ∃ es, es ⊆ s.methods ∧ d.2.overloads = es.map (·.2) ∧
    (es.map (·.1)).Perm (overloadSet R d.2.declaringClass d.2.isConstructor d.2.name) ∧
    (es.map (·.1)).Pairwise fun m₁ m₂ ↦ isStrictlyMoreSpecificThan R m₂ m₁ = false

/-- Methods are only added, and only to classes that had no members. -/
structure Grows (s s' : TypeManager Cls) : Prop where
  methods : s.methods ⊆ s'.methods
  added : ∀ e ∈ s'.methods, e ∈ s.methods ∨ s.fields e.1.declaringClass = none
  known : ∀ c, s.classMap c ≠ none → s'.classMap c ≠ none
  fields : ∀ c, s.fields c ≠ none → s'.fields c ≠ none

namespace Grows

variable {s s' s'' : TypeManager Cls}

omit [DecidableEq Cls] in
theorem refl (s : TypeManager Cls) : Grows s s :=
  ⟨List.Subset.refl _, fun _ ↦ .inl, fun _ ↦ id, fun _ ↦ id⟩

omit [DecidableEq Cls] in
theorem trans (h : Grows s s') (h' : Grows s' s'') : Grows s s'' where
  methods := List.Subset.trans h.methods h'.methods
  added e he := by
    rcases h'.added e he with hmem | hnone
    · exact h.added e hmem
    · exact .inr (Not.imp_symm (h.fields _) (not_not.2 hnone))
  known c hc := h'.known c (h.known c hc)
  fields c hc := h'.fields c (h.fields c hc)

omit [DecidableEq Cls] in
theorem of_quiet (h : Quiet s s') : Grows s s' where
  methods := h.methods ▸ List.Subset.refl _
  added _ he := .inl (h.methods ▸ he)
  known := h.known
  fields c hc := (h.fields c).symm ▸ hc

omit [DecidableEq Cls] in
theorem registered (h : Grows s s') {m : Executable Cls} {ptr : ℕ} (hm : s.Registered m ptr) :
    s'.Registered m ptr := by
  obtain ⟨e, he, hem⟩ := hm
  exact ⟨e, h.methods he, hem⟩

end Grows

section Sound

open MethodResolution

variable {R} {s s' : TypeManager Cls}

/-- A step that adds no native object but allocates. -/
theorem Sound.frame (h : Sound R s) (hmethods : s'.methods = s.methods)
    (hdispatches : s'.dispatches = s.dispatches) (hnext : s.nextPtr ≤ s'.nextPtr)
    (hfields : ∀ c, s.fields c ≠ none → s'.fields c ≠ none)
    (hdefined : ∀ c, ∀ p ∈ s'.defined c, s'.Registered p.1 p.2) : Sound R s' where
  nextPtr_pos := h.nextPtr_pos.trans_le hnext
  ptr_pos := hmethods ▸ h.ptr_pos
  ptr_lt e he := (h.ptr_lt e (hmethods ▸ he)).trans_le hnext
  ptr_inj := hmethods ▸ h.ptr_inj
  executable_inj := hmethods ▸ h.executable_inj
  populated e he := hfields _ (h.populated e (hmethods ▸ he))
  defined := hdefined
  stored := by
    simpa only [Registered, hmethods] using h.stored
  complete := by
    simpa only [Registered, hmethods] using h.complete
  dispatches := by
    simpa only [hmethods, hdispatches] using h.dispatches

theorem Sound.quiet (h : Sound R s) (hs : Quiet s s') : Sound R s' := by
  refine h.frame hs.methods hs.dispatches hs.nextPtr (fun c hc ↦ (hs.fields c).symm ▸ hc) ?_
  intro c p hp
  rw [hs.defined] at hp
  exact (Grows.of_quiet hs).registered (h.defined c p hp)

omit [DecidableEq Cls] in
theorem Grows.define {m : Executable Cls} {j : JPMethod Cls} (h : Grows s s')
    (hfields : s.fields m.declaringClass = none) :
    Grows s { s' with nextPtr := s'.nextPtr + 1, methods := s'.methods ++ [(m, j)] } where
  methods := List.Subset.trans h.methods (List.subset_append_left _ _)
  added e he := by
    rcases List.mem_append.1 he with hmem | hnew
    · exact h.added e hmem
    · obtain rfl := List.mem_singleton.1 hnew
      exact .inr hfields
  known := h.known
  fields := h.fields

/-- A new element is told apart from the others by something that none of them has. -/
theorem injOn_concat {α β : Type} {f : α → β} {l : List α} {a : α}
    (h : ∀ e ∈ l, ∀ e' ∈ l, f e = f e' → e = e') (hnew : ∀ e ∈ l, f e ≠ f a) :
    ∀ e ∈ l ++ [a], ∀ e' ∈ l ++ [a], f e = f e' → e = e' := by
  intro e he e' he' heq
  rcases List.mem_append.1 he with hmem | hlast <;>
    rcases List.mem_append.1 he' with hmem' | hlast'
  · exact h e hmem e' hmem' heq
  · obtain rfl := List.mem_singleton.1 hlast'
    exact absurd heq (hnew e hmem)
  · obtain rfl := List.mem_singleton.1 hlast
    exact absurd heq.symm (hnew e' hmem')
  · rw [List.mem_singleton.1 hlast, List.mem_singleton.1 hlast']

/-- A new method keeps the invariant if its overloads are those that the invariant wants. -/
theorem Sound.define (h : Sound R s) {m : Executable Cls} {j : JPMethod Cls}
    (hptr : j.ptr = s.nextPtr) (hnew : ∀ e ∈ s.methods, e.1 ≠ m)
    (hpopulated : s.fields m.declaringClass ≠ none)
    (hstored : ∀ ptr ∈ j.moreSpecificOverloads, ∃ m', s.Registered m' ptr ∧
      m' ∈ declaredAmong R m ∧ isStrictlyMoreSpecificThan R m m' = true)
    (hcomplete : ∀ m' ∈ declaredAmong R m, isStrictlyMoreSpecificThan R m m' = true →
      ∃ ptr ∈ j.moreSpecificOverloads, s.Registered m' ptr) :
    Sound R { s with nextPtr := s.nextPtr + 1, methods := s.methods ++ [(m, j)] } := by
  have hreg : ∀ {m' ptr}, s.Registered m' ptr →
      Registered { s with nextPtr := s.nextPtr + 1, methods := s.methods ++ [(m, j)] } m' ptr :=
    fun ⟨e, he, heq⟩ ↦ ⟨e, List.mem_append_left _ he, heq⟩
  constructor
  case nextPtr_pos => exact Nat.succ_pos _
  case ptr_pos =>
    exact List.forall_mem_append.2 ⟨h.ptr_pos, List.forall_mem_singleton.2 (hptr ▸ h.nextPtr_pos)⟩
  case ptr_lt =>
    exact List.forall_mem_append.2 ⟨fun e he ↦ (h.ptr_lt e he).trans (Nat.lt_succ_self _),
      List.forall_mem_singleton.2 (hptr ▸ Nat.lt_succ_self _)⟩
  case ptr_inj => exact injOn_concat h.ptr_inj fun e he heq ↦ (h.ptr_lt e he).ne (heq.trans hptr)
  case executable_inj => exact injOn_concat h.executable_inj hnew
  case populated =>
    exact List.forall_mem_append.2 ⟨h.populated, List.forall_mem_singleton.2 hpopulated⟩
  case defined => exact fun c p hp ↦ hreg (h.defined c p hp)
  case stored =>
    have hold : ∀ e ∈ s.methods ++ [(m, j)], ∀ ptr ∈ e.2.moreSpecificOverloads,
        ∃ m', s.Registered m' ptr ∧ m' ∈ declaredAmong R e.1 ∧
          isStrictlyMoreSpecificThan R e.1 m' = true :=
      List.forall_mem_append.2 ⟨h.stored, List.forall_mem_singleton.2 hstored⟩
    intro e he ptr hp
    obtain ⟨m', hm', hspec⟩ := hold e he ptr hp
    exact ⟨m', hreg hm', hspec⟩
  case complete =>
    have hold : ∀ e ∈ s.methods ++ [(m, j)], ∀ m' ∈ declaredAmong R e.1,
        isStrictlyMoreSpecificThan R e.1 m' = true →
          ∃ ptr ∈ e.2.moreSpecificOverloads, s.Registered m' ptr :=
      List.forall_mem_append.2 ⟨h.complete, List.forall_mem_singleton.2 hcomplete⟩
    intro e he m' hm' hspec
    obtain ⟨ptr, hp, hr⟩ := hold e he m' hm' hspec
    exact ⟨ptr, hp, hreg hr⟩
  case dispatches =>
    intro d hd
    obtain ⟨es, hes, hrest⟩ := h.dispatches d hd
    exact ⟨es, List.Subset.trans hes (List.subset_append_left _ _), hrest⟩

/-- A new dispatch keeps the invariant if it is made of its overload set. -/
theorem Sound.defineDispatch (h : Sound R s) {d : ℕ × JPMethodDispatch Cls}
    (hd : ∃ es, es ⊆ s.methods ∧ d.2.overloads = es.map (·.2) ∧
      (es.map (·.1)).Perm (overloadSet R d.2.declaringClass d.2.isConstructor d.2.name) ∧
      (es.map (·.1)).Pairwise fun m₁ m₂ ↦ isStrictlyMoreSpecificThan R m₂ m₁ = false) :
    Sound R { s with nextPtr := s.nextPtr + 1, dispatches := s.dispatches ++ [d] } where
  nextPtr_pos := Nat.succ_pos _
  ptr_pos := h.ptr_pos
  ptr_lt e he := (h.ptr_lt e he).trans (Nat.lt_succ_self _)
  ptr_inj := h.ptr_inj
  executable_inj := h.executable_inj
  populated := h.populated
  defined := h.defined
  stored := h.stored
  complete := h.complete
  dispatches d' hd' := by
    rcases List.mem_append.1 hd' with hmem | hlast
    · exact h.dispatches d' hmem
    · obtain rfl := List.mem_singleton.1 hlast
      exact hd

end Sound

end JPype
