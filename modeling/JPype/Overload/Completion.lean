import JPype.Overload.Interruption

/-!
# Population is all or nothing

`populateMembers` takes a class for populated once its descriptor has fields. These are stored
first, before the constructors, the methods and `assignMembers`, so a call that throws in between
leaves a class that looks finished, and later calls return without members. The same calls, as
long as none of them throws after it has stored the fields, give every class that a call returns
for all its members (`populateMembers_complete`).

A state `Advances` another if the descriptors of populated classes stay as they are and the classes
that are populated in between have been assigned all members. This is what a call does that
returns; the classes that it populates on the way are included.
-/

namespace JPype

open Foundation FaultyProgram

variable {Cls : Type} [DecidableEq Cls] (R : Reflection Cls)

/-! ### All members -/

/-- A descriptor without the arrays of overloads and the wrapper of the anonymous classes. -/
def ClassDescriptor.bare (desc : ClassDescriptor Cls) : ClassDescriptor Cls :=
  { desc with constructors := none, capacity := none, defined := [], anonymous := 0 }

namespace TypeManager

/-- The descriptor of a class, as far as its members are concerned. -/
def view (s : TypeManager Cls) (c : Cls) : Option (ClassDescriptor Cls) :=
  (s.classMap c).map ClassDescriptor.bare

/-- There is an object for the field of the class at this address. -/
def HasField (s : TypeManager Cls) (c : Cls) (field : Field Cls) (ptr : ℕ) : Prop :=
  (ptr, c, field) ∈ s.fieldObjects

/-- There is a dispatch of the class for a name at this address. -/
def HasDispatch (s : TypeManager Cls) (c : Cls) (isConstructor : Bool) (name : String)
    (ptr : ℕ) : Prop :=
  ∃ d ∈ s.dispatches, d.1 = ptr ∧ d.2.declaringClass = c ∧ d.2.isConstructor = isConstructor ∧
    d.2.name = name

/-- The dispatch at this address has methods for all overloads of the name. -/
def HasOverloads (s : TypeManager Cls) (c : Cls) (isConstructor : Bool) (name : String)
    (ptr : ℕ) : Prop :=
  ∃ d ∈ s.dispatches, d.1 = ptr ∧ ∃ es, es ⊆ s.methods ∧ d.2.overloads = es.map (·.2) ∧
    (es.map (·.1)).Perm (overloadSet R c isConstructor name)

end TypeManager

/-- These are all members of a class, as far as the addresses of fields and of dispatches have what
they should. -/
structure AllMembers (c : Cls) (wraps : Field Cls → ℕ → Prop) (has : Bool → String → ℕ → Prop)
    (members : ClassMembers) : Prop where
  fields : ∃ declared, R.getDeclaredFields c = some declared ∧
    List.Forall₂ wraps (declared.filter (·.isPublic)) members.fields
  constructors : overloadSet R c true "<init>" ≠ [] →
    has true "<init>" members.constructorDispatch
  methods : ∀ m ∈ filterOverridden R c ((R.getMethods c).getD []),
    ∃ ptr ∈ members.methodDispatch, has false m.name ptr

/-- The class has been assigned members. -/
def GivenMembers (s : TypeManager Cls) (c : Cls) (good : ClassMembers → Prop) : Prop :=
  ∃ desc members, s.view c = some desc ∧ members ∈ s.assigned ∧
    members.classPtr = desc.classPtr ∧ good members

/-- `assignMembers` has been called for the class with all its fields, constructors and methods. -/
def Complete (s : TypeManager Cls) (c : Cls) : Prop :=
  GivenMembers s c (AllMembers R c (s.HasField c) (s.HasOverloads R c))

/-- The class has been assigned its fields, and members with a dispatch for each name. -/
def Done (s : TypeManager Cls) (c : Cls) : Prop :=
  GivenMembers s c (AllMembers R c (s.HasField c) (s.HasDispatch c))

/-! ### Progress -/

/-- Classes that had fields are as they were, and those that have got fields are done. Only the
classes with `p` are looked at. -/
structure Advances (p : Cls → Prop) (s s' : TypeManager Cls) : Prop where
  fieldObjects : s.fieldObjects ⊆ s'.fieldObjects
  dispatches : s.dispatches ⊆ s'.dispatches
  assigned : s.assigned ⊆ s'.assigned
  view : ∀ c, p c → s.fields c ≠ none → s'.view c = s.view c
  fresh : ∀ c, p c → s'.fields c ≠ none → s.fields c ≠ none ∨ Done R s' c

/-- Classes may have been loaded, and objects for fields been made. -/
structure Loads (s s' : TypeManager Cls) : Prop where
  quiet : TypeManager.Quiet s s'
  fieldObjects : s.fieldObjects ⊆ s'.fieldObjects
  assigned : s'.assigned = s.assigned
  view : ∀ c, s.fields c ≠ none → s'.view c = s.view c

section Progress

variable {R} {p : Cls → Prop} {s s' s'' : TypeManager Cls} {c : Cls}

omit [DecidableEq Cls] in
theorem TypeManager.fields_eq (s : TypeManager Cls) (c : Cls) :
    s.fields c = (s.view c).bind (·.fields) := by
  rw [fields, view]
  cases s.classMap c <;> rfl

omit [DecidableEq Cls] in
theorem TypeManager.fields_of_view (h : s'.view c = s.view c) : s'.fields c = s.fields c := by
  rw [fields_eq, fields_eq, h]

omit [DecidableEq Cls] in
theorem TypeManager.HasDispatch.mono {isConstructor : Bool} {name : String} {ptr : ℕ}
    (h : s.HasDispatch c isConstructor name ptr) (hd : s.dispatches ⊆ s'.dispatches) :
    s'.HasDispatch c isConstructor name ptr := by
  obtain ⟨d, hmem, hrest⟩ := h
  exact ⟨d, hd hmem, hrest⟩

theorem AllMembers.mono {wraps wraps' : Field Cls → ℕ → Prop}
    {has has' : Bool → String → ℕ → Prop} {members : ClassMembers}
    (h : AllMembers R c wraps has members)
    (hwraps : ∀ field ptr, wraps field ptr → wraps' field ptr)
    (hhas : ∀ isConstructor name ptr, has isConstructor name ptr → has' isConstructor name ptr) :
    AllMembers R c wraps' has' members where
  fields := by
    obtain ⟨declared, hdeclared, hfields⟩ := h.fields
    exact ⟨declared, hdeclared, hfields.imp hwraps⟩
  constructors hne := hhas _ _ _ (h.constructors hne)
  methods m hm := by
    obtain ⟨ptr, hptr, hp⟩ := h.methods m hm
    exact ⟨ptr, hptr, hhas _ _ _ hp⟩

/-- A class stays done. -/
theorem Done.mono (h : Done R s c) (hview : s'.view c = s.view c)
    (hf : s.fieldObjects ⊆ s'.fieldObjects) (hd : s.dispatches ⊆ s'.dispatches)
    (ha : s.assigned ⊆ s'.assigned) : Done R s' c := by
  obtain ⟨desc, members, hdesc, hmem, hptr, hall⟩ := h
  exact ⟨desc, members, hview.trans hdesc, ha hmem, hptr,
    hall.mono (fun _ _ h ↦ hf h) fun _ _ _ h ↦ h.mono hd⟩

namespace Advances

theorem refl (p : Cls → Prop) (s : TypeManager Cls) : Advances R p s s :=
  ⟨List.Subset.refl _, List.Subset.refl _, List.Subset.refl _, fun _ _ _ ↦ rfl, fun _ _ ↦ .inl⟩

theorem trans (h : Advances R p s s') (h' : Advances R p s' s'') : Advances R p s s'' where
  fieldObjects := List.Subset.trans h.fieldObjects h'.fieldObjects
  dispatches := List.Subset.trans h.dispatches h'.dispatches
  assigned := List.Subset.trans h.assigned h'.assigned
  view c hc hf := by
    have hview := h.view c hc hf
    exact (h'.view c hc (TypeManager.fields_of_view hview ▸ hf)).trans hview
  fresh c hc hf := by
    rcases h'.fresh c hc hf with hf' | hdone
    · refine (h.fresh c hc hf').imp_right fun hdone ↦ ?_
      exact hdone.mono (h'.view c hc hf') h'.fieldObjects h'.dispatches h'.assigned
    · exact .inr hdone

theorem mono {q : Cls → Prop} (h : Advances R p s s') (hq : ∀ c, q c → p c) :
    Advances R q s s' :=
  ⟨h.fieldObjects, h.dispatches, h.assigned, fun c hc ↦ h.view c (hq c hc),
    fun c hc ↦ h.fresh c (hq c hc)⟩

instance : Std.Refl (Advances R p) := ⟨refl p⟩

instance : IsTrans (TypeManager Cls) (Advances R p) := ⟨fun _ _ _ h h' ↦ h.trans h'⟩

/-- A populated class keeps its descriptor. -/
theorem view_of_fields (h : Advances R (fun _ ↦ True) s s') {desc : ClassDescriptor Cls}
    (hview : s.view c = some desc) (hfields : desc.fields ≠ none) : s'.view c = some desc := by
  refine (h.view c trivial ?_).trans hview
  rw [TypeManager.fields_eq, hview]
  exact hfields

/-- A step that leaves the descriptors as they are, the arrays of methods apart. -/
theorem of_view (hf : s.fieldObjects ⊆ s'.fieldObjects) (hd : s.dispatches ⊆ s'.dispatches)
    (ha : s.assigned ⊆ s'.assigned) (hview : ∀ c, p c → s'.view c = s.view c) :
    Advances R p s s' :=
  ⟨hf, hd, ha, fun c hc _ ↦ hview c hc, fun c hc hf ↦
    .inl (TypeManager.fields_of_view (hview c hc) ▸ hf)⟩

end Advances

namespace Loads

omit [DecidableEq Cls] in
theorem refl (s : TypeManager Cls) : Loads s s :=
  ⟨.refl s, List.Subset.refl _, rfl, fun _ _ ↦ rfl⟩

omit [DecidableEq Cls] in
theorem trans (h : Loads s s') (h' : Loads s' s'') : Loads s s'' where
  quiet := h.quiet.trans h'.quiet
  fieldObjects := List.Subset.trans h.fieldObjects h'.fieldObjects
  assigned := h'.assigned.trans h.assigned
  view c hc := (h'.view c (h.quiet.fields c ▸ hc)).trans (h.view c hc)

omit [DecidableEq Cls] in
instance : Std.Refl (Loads : TypeManager Cls → TypeManager Cls → Prop) := ⟨refl⟩

theorem advances (h : Loads s s') : Advances R p s s' :=
  ⟨h.fieldObjects, h.quiet.dispatches ▸ List.Subset.refl _, h.assigned ▸ List.Subset.refl _,
    fun c _ ↦ h.view c, fun c _ hf ↦ .inl (h.quiet.fields c ▸ hf)⟩

end Loads

end Progress

/-! ### Loading classes -/

section Loading

variable {R} {faults : ℕ → Option JavaError}

omit [DecidableEq Cls] in
instance : IsTrans (TypeManager Cls) Loads := ⟨fun _ _ _ h h' ↦ h.trans h'⟩

/-- What only loads classes, as long as this class has no members when it is begun with. -/
def LoadsFor (c : Cls) (s s' : TypeManager Cls) : Prop :=
  ∀ s₀, s₀.fields c = none → s₀.defined c = [] → Loads s₀ s → Loads s₀ s'

omit [DecidableEq Cls] in
instance (c : Cls) : Std.Refl (LoadsFor c) := ⟨fun _ _ _ _ h ↦ h⟩

omit [DecidableEq Cls] in
instance (c : Cls) : IsTrans (TypeManager Cls) (LoadsFor c) :=
  ⟨fun _ _ _ h h' s₀ hf hd h₀ ↦ h' s₀ hf hd (h s₀ hf hd h₀)⟩

variable {α : Type}

omit [DecidableEq Cls] in
theorem loadsFor_of_loads {x : FaultyM Cls α} (h : Always Loads x) (c : Cls) :
    Always (LoadsFor c) x :=
  fun s _ _ _ h₀ ↦ h₀.trans (h s)

omit [DecidableEq Cls] in
theorem reflect_always {r : TypeManager Cls → TypeManager Cls → Prop} [Std.Refl r] (a : α) :
    Always r (Faulty.reflect faults a : FaultyM Cls α) :=
  Always.call fun s ↦ Std.Refl.refl s

omit [DecidableEq Cls] in
theorem query_always {r : TypeManager Cls → TypeManager Cls → Prop} [Std.Refl r]
    [IsTrans (TypeManager Cls) r] (answer : Option α) :
    Always r (Faulty.query faults answer : FaultyM Cls α) := by
  refine (reflect_always answer).bind fun answer ↦ ?_
  cases answer with
  | none => exact .throw _
  | some a => exact .pure a

omit [DecidableEq Cls] in
theorem allocate_loads : Always Loads (call faults allocate : FaultyM Cls ℕ) :=
  Always.call fun s ↦ ⟨TypeManager.Quiet.allocate s, List.Subset.refl _, rfl, fun _ _ ↦ rfl⟩

omit [DecidableEq Cls] in
theorem defineField_loads (c : Cls) (field : Field Cls) :
    Always Loads (call faults (defineField c field) : FaultyM Cls ℕ) :=
  Always.call fun _ ↦ ⟨⟨rfl, rfl, Nat.le_succ _, fun _ ↦ id, fun _ ↦ rfl, fun _ ↦ rfl⟩,
    List.subset_append_left _ _, rfl, fun _ _ ↦ rfl⟩

/-- The wrapper of the anonymous classes is none of the members. -/
theorem setAnonymous_loads (c : Cls) (ptr : ℕ) :
    Always Loads (step (modify (·.modifyDesc c fun desc ↦ { desc with anonymous := ptr })) :
      FaultyM Cls Unit) := by
  refine Always.step fun s ↦ ⟨TypeManager.quiet_modifyDesc (fun _ ↦ rfl) fun _ ↦ rfl,
    List.Subset.refl _, rfl, fun c' _ ↦ ?_⟩
  show (Function.update s.classMap c _ c').map _ = _
  by_cases hc : c' = c
  · obtain rfl := hc
    rw [Function.update_self, Option.map_map]
    rfl
  · rw [Function.update_of_ne hc]
    rfl

theorem cacheWrapper_loadsFor (c : Cls) :
    Always (LoadsFor c) (Faulty.cacheWrapper faults c) := by
  refine (loadsFor_of_loads allocate_loads c).bind fun classPtr ↦
    Always.bind (.step fun s ↦ ?_) fun _ ↦
    .pure _
  intro s₀ hf hd h₀
  have hf' : s.fields c = none := (h₀.quiet.fields c).trans hf
  have hput : Loads s (s.put c { classPtr }) := by
    refine ⟨TypeManager.quiet_put hf' ((h₀.quiet.defined c).trans hd) classPtr,
      List.Subset.refl _, rfl, ?_⟩
    intro c' hc'
    have hne : c' ≠ c := fun h ↦ hc' (h ▸ hf')
    show (Function.update s.classMap c _ c').map _ = _
    rw [Function.update_of_ne hne, TypeManager.view]
  exact h₀.trans hput

theorem createClass_loadsFor {load : Cls → FaultyM Cls (ClassDescriptor Cls)}
    (hload : ∀ c, Always Loads (load c)) (c : Cls) :
    Always (LoadsFor c) (Faulty.createClass R faults load c) := by
  refine (reflect_always _).bind fun isArray ↦ ?_
  split_ifs
  · refine (reflect_always _).bind fun componentType ↦ ?_
    exact (loadsFor_of_loads (hload componentType) c).bind fun _ ↦ cacheWrapper_loadsFor c
  · refine (query_always _).bind fun _ ↦ (query_always _).bind fun _ ↦ ?_
    refine (reflect_always _).bind fun superClass ↦ (reflect_always _).bind fun interfaces ↦ ?_
    refine (loadsFor_of_loads (Always.mapM hload _) c).bind fun _ ↦ (reflect_always _).bind fun _ ↦
      ?_
    exact cacheWrapper_loadsFor c

/-- Looking up a class loads classes, however it ends. -/
theorem getClass_loads (fuel : ℕ) : ∀ c, Always Loads (Faulty.getClass R faults fuel c) := by
  induction fuel with
  | zero => exact fun c ↦ .throw _
  | succ fuel ih =>
    intro c s
    show Loads s.1 (((step get : FaultyM Cls (TypeManager Cls)) >>= _).exec s).2.1
    rw [Program.exec_bind, exec_step, Program.exec_get]
    dsimp only
    cases hc : s.1.classMap c with
    | some desc => exact .refl s.1
    | none =>
      refine createClass_loadsFor ih c s s.1 ?_ ?_ (.refl s.1)
      · rw [TypeManager.fields, hc]
        rfl
      · rw [TypeManager.defined, hc]
        rfl

theorem createAnonymous_loads (c : Cls) (parent : ClassDescriptor Cls) :
    Always Loads (Faulty.createAnonymous faults c parent) := by
  rw [Faulty.createAnonymous]
  split_ifs
  · exact .pure _
  · refine (reflect_always ()).bind fun _ ↦ allocate_loads.bind fun ptr ↦ ?_
    exact (setAnonymous_loads c ptr).bind fun _ ↦ .pure ptr

/-- `findClass` loads classes, and makes the wrapper of the anonymous ones. -/
theorem findClass_loads (fuel : ℕ) (c : Cls) : Always Loads (Faulty.findClass R faults fuel c) := by
  have hclassPtr : ∀ c, Always Loads (do
      return (← Faulty.getClass R faults fuel c).classPtr : FaultyM Cls ℕ) :=
    fun c ↦ (getClass_loads fuel c).bind fun _ ↦ .pure _
  refine (reflect_always _).bind fun isLambda ↦ ?_
  split_ifs
  · refine (reflect_always _).bind fun interfaces ↦ ?_
    split
    · exact .throw _
    · exact hclassPtr _
  · refine (reflect_always _).bind fun isAnonymousClass ↦ ?_
    split_ifs
    · refine (reflect_always _).bind fun interfaces ↦ ?_
      split
      · refine (reflect_always _).bind fun interfaces ↦ ?_
        split
        · exact .throw _
        · exact hclassPtr _
      · refine (reflect_always _).bind fun superclass ↦ ?_
        split
        · exact .throw _
        · exact (getClass_loads fuel _).bind fun _ ↦ createAnonymous_loads _ _
    · exact hclassPtr c

theorem populateMethod_loads (fuel : ℕ) (m : Executable Cls) :
    Always Loads (Faulty.populateMethod R faults fuel m) :=
  (reflect_always _).bind fun _ ↦ (Always.mapM (getClass_loads fuel) _).bind fun _ ↦ .pure ()

end Loading

/-! ### Populating classes -/

section Populating

variable {R} {faults : ℕ → Option JavaError} {p : Cls → Prop} {s s' : TypeManager Cls} {c : Cls}
  {α : Type}

theorem defineMethod_advances (c : Cls) (m : Executable Cls) (ptrs : List ℕ) :
    OnReturn (Advances R p) (call faults (defineMethod R c m ptrs)) :=
  (Always.call fun _ ↦ .of_view (List.Subset.refl _) (List.Subset.refl _) (List.Subset.refl _)
    fun _ _ ↦ rfl).onReturn

omit [DecidableEq Cls] in
theorem exec_defineMethodDispatch {name : String} {ptrs : List ℕ} {isConstructor : Bool} {ptr : ℕ}
    (h : (defineMethodDispatch c name ptrs isConstructor).exec s = (.ok ptr, s')) :
    ∃ overloads, s' = { s with
      nextPtr := s.nextPtr + 1
      dispatches := s.dispatches ++
        [(ptr, { name, declaringClass := c, overloads, isConstructor })] } := by
  rw [defineMethodDispatch, Program.exec_bind, Program.exec_get] at h
  dsimp only at h
  cases hoverloads : ptrs.mapM s.methodAt with
  | none =>
    rw [hoverloads] at h
    exact absurd h Program.error_ne_ok
  | some overloads =>
    rw [hoverloads] at h
    obtain ⟨hptr, hs'⟩ := Prod.mk.inj h
    obtain rfl := Except.ok.inj hptr
    exact ⟨overloads, hs'.symm⟩

/-- A new dispatch is the dispatch of its name. -/
theorem defineMethodDispatch_return {name : String} {ptrs : List ℕ} {isConstructor : Bool}
    {ptr : ℕ} {t t' : TypeManager Cls × ℕ}
    (h : (call faults (defineMethodDispatch c name ptrs isConstructor)).exec t = (.ok ptr, t')) :
    Advances R p t.1 t'.1 ∧ t'.1.HasDispatch c isConstructor name ptr := by
  obtain ⟨overloads, hs'⟩ := exec_defineMethodDispatch (exec_call_eq_ok h)
  rw [hs']
  refine ⟨.of_view (List.Subset.refl _) (List.subset_append_left _ _) (List.Subset.refl _)
    fun _ _ ↦ rfl, ?_⟩
  exact ⟨_, List.mem_append_right _ (List.mem_singleton.2 rfl), rfl, rfl, rfl, rfl⟩

/-- The descriptor of a class after an update. -/
theorem view_modifyDesc (s : TypeManager Cls) (c : Cls)
    (f : ClassDescriptor Cls → ClassDescriptor Cls) :
    (s.modifyDesc c f).view = Function.update s.view c ((s.classMap c).map fun desc ↦
      (f desc).bare) := by
  funext c'
  show (Function.update s.classMap c _ c').map _ = _
  by_cases hc : c' = c
  · obtain rfl := hc
    rw [Function.update_self, Function.update_self, Option.map_map]
    rfl
  · rw [Function.update_of_ne hc, Function.update_of_ne hc]
    rfl

/-- An update of one class does not touch the others. -/
theorem modifyDesc_advances (s : TypeManager Cls) (c : Cls)
    (f : ClassDescriptor Cls → ClassDescriptor Cls) :
    Advances R (· ≠ c) s (s.modifyDesc c f) :=
  .of_view (List.Subset.refl _) (List.Subset.refl _) (List.Subset.refl _) fun c' hc' ↦ by
    rw [view_modifyDesc, Function.update_of_ne hc']

/-- An update of the arrays of methods. -/
theorem modifyDesc_defined_advances (s : TypeManager Cls) (c : Cls)
    {f : ClassDescriptor Cls → ClassDescriptor Cls}
    (hf : ∀ desc, (f desc).bare = desc.bare) :
    Advances R p s (s.modifyDesc c f) :=
  .of_view (List.Subset.refl _) (List.Subset.refl _) (List.Subset.refl _) fun c' _ ↦ by
    rw [view_modifyDesc, Function.update_apply]
    split_ifs with hc
    · rw [hc, TypeManager.view]
      simp only [hf]
    · rfl

theorem storeMethod_advances (c : Cls) (m : Executable Cls) (ptr : ℕ) :
    OnReturn (Advances R p) (step (storeMethod c m ptr) : FaultyM Cls Unit) := by
  refine OnReturn.step fun s a s' h ↦ ?_
  rw [storeMethod, Program.exec_bind, Program.exec_get] at h
  dsimp only at h
  split at h
  · exact absurd h Program.error_ne_ok
  · split at h
    · exact absurd h Program.error_ne_ok
    · split_ifs at h
      · rw [Program.exec_modify] at h
        obtain rfl := (Prod.mk.inj h).2
        exact modifyDesc_defined_advances s c fun _ ↦ rfl
      · exact absurd h Program.error_ne_ok

theorem createConstructors_advances (c : Cls) (overloads : List (MethodResolution Cls)) :
    ∀ ptrs out, OnReturn (Advances R p)
      (Faulty.createConstructors R faults c overloads ptrs out) := by
  induction overloads with
  | nil => exact fun ptrs out ↦ .pure out
  | cons ov overloads ih =>
    exact fun ptrs out ↦ (defineMethod_advances c _ _).bind fun ptr ↦ ih _ _

variable {populate : Cls → FaultyM Cls Unit}

theorem inheritedMethod_advances (hpopulate : ∀ c, OnReturn (Advances R p) (populate c))
    (m : Executable Cls) : OnReturn (Advances R p) (Faulty.inheritedMethod populate m) := by
  refine (hpopulate _).bind fun _ ↦ OnReturn.bind ?_ fun s ↦ ?_
  · exact (Always.step fun s ↦ Advances.refl p s).onReturn
  · split
    · exact .throw _
    · split
      · exact .throw _
      · split_ifs
        · exact .throw _
        · exact .pure _

theorem createMethods_advances (hpopulate : ∀ c, OnReturn (Advances R p) (populate c)) (c : Cls)
    (overloads : List (MethodResolution Cls)) :
    ∀ ptrs out, OnReturn (Advances R p)
      (Faulty.createMethods R faults populate c overloads ptrs out) := by
  induction overloads with
  | nil => exact fun ptrs out ↦ .pure out
  | cons ov overloads ih =>
    intro ptrs out
    rw [Faulty.createMethods]
    split_ifs
    · exact (inheritedMethod_advances hpopulate _).bind fun ptr ↦ ih _ _
    · refine (reflect_always ()).onReturn.bind fun _ ↦ (defineMethod_advances c _ _).bind fun ptr ↦
      ?_
      exact (storeMethod_advances c _ _).bind fun _ ↦ ih _ _

/-- The dispatch of a name, with the other methods. -/
theorem createMethodDispatch_return (hpopulate : ∀ c, OnReturn (Advances R p) (populate c))
    {fuel : ℕ} {key : String} {candidates rest : List (Executable Cls)} {ptr : ℕ}
    {t t' : TypeManager Cls × ℕ}
    (h : (Faulty.createMethodDispatch R faults populate fuel c key candidates).exec t =
      (.ok (ptr, rest), t')) :
    Advances R p t.1 t'.1 ∧ t'.1.HasDispatch c false key ptr := by
  obtain ⟨_, t₁, ht₁, h⟩ := exec_bind_eq_ok h
  have hreflect := (reflect_always ()).onReturn (r := Advances R p) t _ t₁ ht₁
  cases hsort : MethodResolution.sortMethods R fuel (candidates.filter (·.name = key)) with
  | none =>
    rw [hsort] at h
    exact absurd h Program.error_ne_ok
  | some overloads =>
    rw [hsort] at h
    obtain ⟨ptrs, t₂, ht₂, h⟩ := exec_bind_eq_ok h
    obtain ⟨container, t₃, ht₃, h⟩ := exec_bind_eq_ok h
    obtain ⟨hptr, rfl⟩ := Prod.mk.inj h
    obtain ⟨rfl, rfl⟩ := Prod.mk.inj (Except.ok.inj hptr)
    obtain ⟨hdispatch, hhas⟩ := defineMethodDispatch_return (R := R) (p := p) ht₃
    exact ⟨(hreflect.trans
      (createMethods_advances hpopulate c overloads [] [] t₁ ptrs t₂ ht₂)).trans
      hdispatch, hhas⟩

theorem view_modifyDesc_self {f g : ClassDescriptor Cls → ClassDescriptor Cls}
    (h : ∀ desc, (f desc).bare = g desc.bare) (s : TypeManager Cls) (c : Cls) :
    (s.modifyDesc c f).view c = (s.view c).map g := by
  rw [view_modifyDesc, Function.update_self, TypeManager.view, Option.map_map]
  exact congrArg (Option.map · (s.classMap c)) (funext h)

omit [DecidableEq Cls] in
/-- A call to reflection that has an answer. -/
theorem exec_reflect_bind {β : Type} {a : α} {f : α → FaultyM Cls β} {t t' : TypeManager Cls × ℕ}
    {b : β} (h : (Faulty.reflect faults a >>= f).exec t = (.ok b, t')) :
    ∃ n, (f a).exec (t.1, n) = (.ok b, t') := by
  obtain ⟨a', t₁, ht₁, h⟩ := exec_bind_eq_ok h
  obtain ⟨ha, hs⟩ := Prod.mk.inj (exec_call_eq_ok ht₁)
  obtain rfl := Except.ok.inj ha
  exact ⟨t₁.2, hs ▸ h⟩

omit [DecidableEq Cls] in
theorem exec_query_bind {β : Type} {answer : Option α} {f : α → FaultyM Cls β}
    {t t' : TypeManager Cls × ℕ} {b : β}
    (h : (Faulty.query faults answer >>= f).exec t = (.ok b, t')) :
    ∃ a n, answer = some a ∧ (f a).exec (t.1, n) = (.ok b, t') := by
  rw [Faulty.query, bind_assoc] at h
  obtain ⟨n, h⟩ := exec_reflect_bind h
  cases answer with
  | none => exact absurd h Program.error_ne_ok
  | some a => exact ⟨a, n, rfl, h⟩

omit [DecidableEq Cls] in
theorem exec_step_modify_bind {β : Type} {f : TypeManager Cls → TypeManager Cls}
    {g : Unit → FaultyM Cls β} {t t' : TypeManager Cls × ℕ} {b : β}
    (h : ((step (modify f) : FaultyM Cls Unit) >>= g).exec t = (.ok b, t')) :
    (g ()).exec (f t.1, t.2) = (.ok b, t') := by
  rwa [Program.exec_bind, exec_step, Program.exec_modify] at h

/-! ### The stages -/

theorem createField_loads (fuel : ℕ) (c : Cls) (field : Field Cls) :
    Always Loads (Faulty.createField R faults fuel c field) :=
  (reflect_always _).bind fun type ↦ (getClass_loads fuel type).bind fun _ ↦
    defineField_loads c field

theorem hasField_of_createField {fuel : ℕ} {field : Field Cls} {t t' : TypeManager Cls × ℕ}
    {ptr : ℕ} (h : (Faulty.createField R faults fuel c field).exec t = (.ok ptr, t')) :
    t'.1.HasField c field ptr := by
  obtain ⟨type, t₁, -, h⟩ := exec_bind_eq_ok h
  obtain ⟨_, t₂, -, h⟩ := exec_bind_eq_ok h
  have hdefine : (defineField c field).exec t₂.1 = (.ok ptr, t'.1) := exec_call_eq_ok h
  obtain ⟨hptr, ht'⟩ := Prod.mk.inj hdefine
  obtain rfl := Except.ok.inj hptr
  rw [← ht']
  exact List.mem_append_right _ (List.mem_singleton_self _)

theorem createFields_return {fuel : ℕ} {t t' : TypeManager Cls × ℕ} (hc : t.1.classMap c ≠ none)
    (h : (Faulty.createFields R faults fuel c).exec t = (.ok (), t')) :
    Advances R (· ≠ c) t.1 t'.1 ∧ ∃ declared desc fieldPtr, R.getDeclaredFields c = some declared ∧
      t'.1.view c = some desc ∧ desc.fields = some fieldPtr ∧
      List.Forall₂ (t'.1.HasField c) (declared.filter (·.isPublic)) fieldPtr := by
  obtain ⟨declared, n, hdeclared, h⟩ := exec_query_bind h
  obtain ⟨fieldPtr, t₁, ht₁, h⟩ := exec_bind_eq_ok h
  obtain rfl := (Prod.mk.inj h).2
  have hloads : Loads (t.1, n).1 t₁.1 :=
    (Always.mapM (createField_loads fuel c) _).onReturn _ _ _ ht₁
  have hfields : List.Forall₂ (t₁.1.HasField c) (declared.filter (·.isPublic)) fieldPtr :=
    forall₂_of_exec_mapM (Q := fun s ↦ s.HasField c)
      (fun field ↦ (createField_loads fuel c field).onReturn)
      (fun hloads hfield ↦ hloads.fieldObjects hfield) hasField_of_createField ht₁
  refine ⟨hloads.advances.trans (modifyDesc_advances _ _ _), declared, ?_⟩
  obtain ⟨desc, hdesc⟩ := Option.ne_none_iff_exists'.1 (hloads.quiet.known c hc)
  refine ⟨{ desc.bare with fields := some fieldPtr }, fieldPtr, hdeclared, ?_, rfl, hfields⟩
  refine (view_modifyDesc_self (g := fun desc ↦ { desc with fields := some fieldPtr })
    (by intro _; rfl) t₁.1 c).trans ?_
  rw [TypeManager.view, hdesc]
  rfl

/-- The dispatch of the constructors is stored. -/
theorem createConstructorDispatch_return {fuel : ℕ} {t t' : TypeManager Cls × ℕ}
    {desc : ClassDescriptor Cls} (hview : t.1.view c = some desc) (hfields : desc.fields ≠ none)
    (h : (Faulty.createConstructorDispatch R faults fuel c).exec t = (.ok (), t')) :
    Advances R (· ≠ c) t.1 t'.1 ∧ ∃ ptr,
      t'.1.view c = some { desc with constructorDispatch := ptr } ∧
      (overloadSet R c true "<init>" ≠ [] → t'.1.HasDispatch c true "<init>" ptr) := by
  obtain ⟨declared, n, hdeclared, h⟩ := exec_query_bind h
  have hoverloads := overloadSet_constructors hdeclared
  dsimp only at h
  split_ifs at h with hempty
  · obtain rfl := (Prod.mk.inj h).2
    refine ⟨.refl _ _, desc.constructorDispatch, hview, fun hne ↦ absurd ?_ hne⟩
    rw [hoverloads]
    exact List.isEmpty_iff.1 hempty
  · obtain ⟨n', h⟩ := exec_reflect_bind h
    cases hsort : MethodResolution.sortMethods R fuel (declared.filter (·.isPublic)) with
    | none =>
      rw [hsort] at h
      exact absurd h Program.error_ne_ok
    | some overloads =>
      rw [hsort] at h
      obtain ⟨ptrs, t₁, ht₁, h⟩ := exec_bind_eq_ok h
      have h := exec_step_modify_bind h
      obtain ⟨dispatch, t₂, ht₂, h⟩ := exec_bind_eq_ok h
      obtain rfl := (Prod.mk.inj h).2
      obtain ⟨hdefine, d, hd, hptr, hdispatch⟩ :=
        defineMethodDispatch_return (R := R) (p := fun _ ↦ True) ht₂
      have hadvances : Advances R (fun _ ↦ True) t.1 t₂.1 := by
        refine ((createConstructors_advances c overloads [] [] _ ptrs t₁ ht₁).trans
          (modifyDesc_defined_advances _ c ?_)).trans hdefine
        exact fun _ ↦ rfl
      refine ⟨(hadvances.mono fun _ _ ↦ trivial).trans (modifyDesc_advances _ _ _), dispatch, ?_,
        fun _ ↦ ⟨d, hd, hptr, hdispatch⟩⟩
      refine (view_modifyDesc_self (g := fun desc ↦ { desc with constructorDispatch := dispatch })
        (by intro _; rfl) t₂.1 c).trans ?_
      rw [hadvances.view_of_fields hview hfields]
      rfl

/-- The dispatches of the names are stored in the places from `i` on. -/
theorem dispatchLoop_return (hpopulate : ∀ c, OnReturn (Advances R fun _ ↦ True) (populate c))
    {fuel : ℕ} (names : List String) :
    ∀ {i : ℕ} {candidates : List (Executable Cls)} {t t' : TypeManager Cls × ℕ}
      {desc : ClassDescriptor Cls} {ptrs : List ℕ}, t.1.view c = some desc → desc.fields ≠ none →
      desc.methodDispatch = some ptrs → i + names.length ≤ ptrs.length →
      (Faulty.dispatchLoop R faults populate fuel c i names candidates).exec t = (.ok (), t') →
      Advances R (· ≠ c) t.1 t'.1 ∧ ∃ ptrs',
        t'.1.view c = some { desc with methodDispatch := some ptrs' } ∧
        (∀ j < i, ptrs'[j]? = ptrs[j]?) ∧
        ∀ name ∈ names, ∃ ptr ∈ ptrs', t'.1.HasDispatch c false name ptr := by
  induction names with
  | nil =>
    intro i candidates t t' desc ptrs hview hfields hptrs hlength h
    obtain rfl := (Prod.mk.inj h).2
    refine ⟨.refl _ _, ptrs, ?_, fun _ _ ↦ rfl, List.forall_mem_nil _⟩
    rw [hview, ← hptrs]
  | cons name names ih =>
    intro i candidates t t' desc ptrs hview hfields hptrs hlength h
    rw [List.length_cons] at hlength
    obtain ⟨⟨ptr, rest⟩, t₁, ht₁, h⟩ := exec_bind_eq_ok h
    have h := exec_step_modify_bind h
    obtain ⟨hadvances, hhas⟩ := createMethodDispatch_return hpopulate ht₁
    have hview₁ : (t₁.1.modifyDesc c fun desc ↦
        { desc with methodDispatch := desc.methodDispatch.map (·.set i ptr) }).view c =
        some { desc with methodDispatch := some (ptrs.set i ptr) } := by
      refine (view_modifyDesc_self (g := fun desc ↦
        { desc with methodDispatch := desc.methodDispatch.map (·.set i ptr) })
        (by intro _; rfl) t₁.1 c).trans ?_
      rw [hadvances.view_of_fields hview hfields, Option.map_some, hptrs]
      rfl
    have hlength₁ : i + 1 + names.length ≤ (ptrs.set i ptr).length := by
      rw [List.length_set]
      omega
    obtain ⟨hrest, ptrs', hview', hkept, hall⟩ :=
      ih (t := (_, t₁.2)) hview₁ hfields rfl hlength₁ h
    refine ⟨((hadvances.mono fun _ _ ↦ trivial).trans (modifyDesc_advances _ _ _)).trans hrest,
      ptrs', hview', fun j hj ↦ ?_, List.forall_mem_cons.2 ⟨⟨ptr, ?_, ?_⟩, hall⟩⟩
    · rw [hkept j (by omega), List.getElem?_set_ne (by omega)]
    · refine List.mem_of_getElem? (i := i) ?_
      rw [hkept i (Nat.lt_succ_self i), List.getElem?_set_self (by omega)]
    · exact hhas.mono hrest.dispatches

omit [DecidableEq Cls] in
theorem mem_resolve (methods : List (Executable Cls)) :
    ∀ {names : List String} {name : String}, (name ∈ names ∨ ∃ m ∈ methods, m.name = name) →
      name ∈ methods.foldl (fun names method ↦ treeSetAdd method.name names) names := by
  induction methods with
  | nil => exact fun h ↦ h.resolve_right fun ⟨_, hm, _⟩ ↦ absurd hm List.not_mem_nil
  | cons method methods ih =>
    intro names name h
    refine ih ?_
    rcases h with hmem | ⟨m, hm, hname⟩
    · exact .inl (mem_treeSetAdd.2 (.inr hmem))
    · rcases List.mem_cons.1 hm with rfl | hm
      · exact .inl (mem_treeSetAdd.2 (.inl hname.symm))
      · exact .inr ⟨m, hm, hname⟩

/-- The dispatches of all methods are stored. -/
theorem createMethodDispatches_return
    (hpopulate : ∀ c, OnReturn (Advances R fun _ ↦ True) (populate c)) {fuel : ℕ}
    {t t' : TypeManager Cls × ℕ} {desc : ClassDescriptor Cls} (hview : t.1.view c = some desc)
    (hfields : desc.fields ≠ none)
    (h : (Faulty.createMethodDispatches R faults populate fuel c).exec t = (.ok (), t')) :
    Advances R (· ≠ c) t.1 t'.1 ∧ ∃ ptrs,
      t'.1.view c = some { desc with methodDispatch := some ptrs } ∧
      ∀ m ∈ filterOverridden R c ((R.getMethods c).getD []),
        ∃ ptr ∈ ptrs, t'.1.HasDispatch c false m.name ptr := by
  obtain ⟨all, n, hall, h⟩ := exec_query_bind h
  obtain ⟨n₁, h⟩ := exec_reflect_bind h
  obtain ⟨declared, n₂, hdeclared, h⟩ := exec_query_bind h
  obtain ⟨n₃, h⟩ := exec_reflect_bind h
  have h := exec_step_modify_bind h
  have hresolve : ∀ m ∈ filterOverridden R c all, m.name ∈ (filterOverridden R c all).foldl
      (fun names method ↦ treeSetAdd method.name names) [] :=
    fun m hm ↦ mem_resolve _ (.inr ⟨m, hm, rfl⟩)
  generalize (filterOverridden R c all).foldl
    (fun names method ↦ treeSetAdd method.name names) [] = names at h hresolve
  have hview₁ : (t.1.modifyDesc c fun desc ↦
      { desc with
        capacity := some (filterOverridden R c declared).length
        methodDispatch := some (List.replicate names.length 0) }).view c =
      some { desc with methodDispatch := some (List.replicate names.length 0) } := by
    refine (view_modifyDesc_self
      (g := fun desc ↦ { desc with methodDispatch := some (List.replicate names.length 0) })
      (by intro _; rfl) t.1 c).trans ?_
    rw [hview]
    rfl
  obtain ⟨hloop, ptrs, hview', -, hnames⟩ := dispatchLoop_return hpopulate _ (t := (_, n₃)) hview₁
    hfields rfl (by rw [List.length_replicate, Nat.zero_add]) h
  refine ⟨(modifyDesc_advances _ _ _).trans hloop, ptrs, hview', fun m hm ↦ ?_⟩
  rw [hall] at hm
  exact hnames m.name (hresolve m hm)

/-- The members are those of the descriptor. -/
theorem assignMembers_return {t t' : TypeManager Cls × ℕ} {desc : ClassDescriptor Cls}
    (hview : t.1.view c = some desc)
    (h : (call faults (assignMembers c) : FaultyM Cls Unit).exec t = (.ok (), t')) :
    Advances R p t.1 t'.1 ∧ t'.1.view c = some desc ∧
      (⟨desc.classPtr, desc.constructorDispatch, desc.methodDispatch.getD [],
        desc.fields.getD []⟩ : ClassMembers) ∈ t'.1.assigned := by
  obtain ⟨desc', hdesc', rfl⟩ := Option.map_eq_some_iff.1 hview
  have hassign : (assignMembers c : ManagerM Cls Unit).exec t.1 = (.ok (), t'.1) :=
    exec_call_eq_ok h
  rw [assignMembers, Program.exec_modify] at hassign
  rw [← (Prod.mk.inj hassign).2]
  simp only [hdesc']
  refine ⟨.of_view (List.Subset.refl _) (List.Subset.refl _) (List.subset_append_left _ _)
    fun _ _ ↦ rfl, hview, ?_⟩
  exact List.mem_append_right _ (List.mem_singleton.2 rfl)

/-- A class that had no fields is given all its members. -/
theorem createMembers_return (hpopulate : ∀ c, OnReturn (Advances R fun _ ↦ True) (populate c))
    {fuel : ℕ} {t t' : TypeManager Cls × ℕ} (hc : t.1.classMap c ≠ none)
    (hnone : t.1.fields c = none)
    (h : (Faulty.createMembers R faults populate fuel c).exec t = (.ok (), t')) :
    Advances R (fun _ ↦ True) t.1 t'.1 ∧ Done R t'.1 c := by
  obtain ⟨_, t₁, ht₁, h⟩ := exec_bind_eq_ok h
  obtain ⟨_, t₂, ht₂, h⟩ := exec_bind_eq_ok h
  obtain ⟨_, t₃, ht₃, h⟩ := exec_bind_eq_ok h
  obtain ⟨hfieldsStage, declared, desc, fieldPtr, hdeclared, hview₁, hfields, hall⟩ :=
    createFields_return hc ht₁
  have hne : desc.fields ≠ none := hfields ▸ nofun
  obtain ⟨hctorStage, ctor, hview₂, hctor⟩ := createConstructorDispatch_return hview₁ hne ht₂
  obtain ⟨hmethodStage, ptrs, hview₃, hmethods⟩ :=
    createMethodDispatches_return hpopulate hview₂ hne ht₃
  obtain ⟨hassign, hview, hmem⟩ :=
    assignMembers_return (R := R) (p := (· ≠ c)) hview₃ h
  have hdone : Done R t'.1 c := by
    refine ⟨_, _, hview, hmem, rfl, ⟨declared, hdeclared, ?_⟩, fun hctors ↦ ?_, fun m hm ↦ ?_⟩
    · rw [hfields]
      exact hall.imp fun _ _ hfield ↦ hassign.fieldObjects
        (hmethodStage.fieldObjects (hctorStage.fieldObjects hfield))
    · exact ((hctor hctors).mono hmethodStage.dispatches).mono hassign.dispatches
    · obtain ⟨ptr, hptr, hhas⟩ := hmethods m hm
      exact ⟨ptr, hptr, hhas.mono hassign.dispatches⟩
  have hothers := ((hfieldsStage.trans hctorStage).trans hmethodStage).trans hassign
  refine ⟨⟨hothers.fieldObjects, hothers.dispatches, hothers.assigned, fun c' _ hc' ↦ ?_,
    fun c' _ hc' ↦ ?_⟩, hdone⟩
  · exact hothers.view c' (fun heq ↦ hc' (heq ▸ hnone)) hc'
  · by_cases heq : c' = c
    · exact .inr (heq ▸ hdone)
    · exact hothers.fresh c' heq hc'

/-- A call that returns has populated the class, or has found it populated. -/
theorem populateMembers_return (fuel : ℕ) : ∀ {c : Cls} {t t' : TypeManager Cls × ℕ},
    (Faulty.populateMembers R faults fuel c).exec t = (.ok (), t') →
      Advances R (fun _ ↦ True) t.1 t'.1 ∧ (t.1.fields c ≠ none ∨ Done R t'.1 c) := by
  induction fuel with
  | zero => exact fun h ↦ absurd h Program.error_ne_ok
  | succ fuel ih =>
    intro c t t' h
    obtain ⟨s, t₁, ht₁, h⟩ := exec_bind_eq_ok h
    obtain ⟨hs, rfl⟩ := Prod.mk.inj ht₁
    obtain rfl := Except.ok.inj hs
    cases hdesc : t.1.classMap c with
    | none =>
      rw [hdesc] at h
      exact absurd h Program.error_ne_ok
    | some desc =>
      rw [hdesc] at h
      dsimp only at h
      have hfields : t.1.fields c = desc.fields := by
        rw [TypeManager.fields, hdesc]
        rfl
      split_ifs at h with hsome
      · obtain rfl := (Prod.mk.inj h).2
        exact ⟨.refl _ _, .inl (hfields ▸ Option.isSome_iff_ne_none.1 hsome)⟩
      · have hcreate := createMembers_return (fun c' _ _ _ h ↦ (ih h).1)
          (hdesc ▸ Option.some_ne_none _)
          (hfields.trans (by simpa using hsome)) h
        exact ⟨hcreate.1, .inr hcreate.2⟩

end Populating

/-! ### Runs -/

namespace Faulty

variable (faults : ℕ → Option JavaError)

/-- The state after a call, however it ends. A call that is still running leaves none to go on
from. -/
def settle (x : FaultyM Cls Unit) (s : TypeManager Cls) : TypeManager Cls :=
  match x.exec (s, 0) with
  | (.error .outOfFuel, _) => s
  | (_, s') => s'.1

/-- A call, with the failures of the calls that it makes, and with its fuel. -/
def serve (s : TypeManager Cls) : (ℕ → Option JavaError) × ℕ × ManagerCall Cls → TypeManager Cls
  | (faults, fuel, .findClass cls) => settle (do let _ ← findClass R faults fuel cls) s
  | (faults, fuel, .populateMethod method) => settle (populateMethod R faults fuel method) s
  | (faults, fuel, .populateMembers cls) => settle (populateMembers R faults fuel cls) s

/-- `createMembers` from the point on where the fields are stored. -/
def afterFields (populateMembers : Cls → FaultyM Cls Unit) (fuel : ℕ) (cls : Cls) :
    FaultyM Cls Unit := do
  createConstructorDispatch R faults fuel cls
  createMethodDispatches R faults populateMembers fuel cls
  call faults (assignMembers cls)

/-- Nothing fails once the fields of the class are stored. -/
def FailsEarly (s : TypeManager Cls) : (ℕ → Option JavaError) × ℕ × ManagerCall Cls → Prop
  | (faults, fuel + 1, .populateMembers cls) =>
    s.classMap cls ≠ none → s.fields cls = none →
      ∀ t, (createFields R faults fuel cls).exec (s, 0) = (.ok (), t) →
        ∀ e t', (afterFields R faults (populateMembers R faults fuel) fuel cls).exec t =
          (.error e, t') → e = .outOfFuel
  | _ => True

end Faulty

/-- Every class with fields has been assigned its members. -/
structure AllDone (s : TypeManager Cls) : Prop where
  sound : Sound R s
  done : ∀ c, s.fields c ≠ none → Done R s c

section Runs

variable {R} {faults : ℕ → Option JavaError} {s s' : TypeManager Cls} {c : Cls}

theorem Done.complete (h : Done R s c) (hs : Sound R s) : Complete R s c := by
  obtain ⟨desc, members, hdesc, hmem, hptr, hall⟩ := h
  refine ⟨desc, members, hdesc, hmem, hptr, hall.mono (fun _ _ ↦ id)
    fun isConstructor name ptr hhas ↦ ?_⟩
  obtain ⟨d, hd, hdptr, rfl, rfl, rfl⟩ := hhas
  obtain ⟨es, hes, hoverloads, hperm, -⟩ := hs.dispatches d hd
  exact ⟨d, hd, hdptr, es, hes, hoverloads, hperm⟩

theorem AllDone.advances (h : AllDone R s) (hs' : Sound R s')
    (hadvances : Advances R (fun _ ↦ True) s s') : AllDone R s' where
  sound := hs'
  done c hc := by
    rcases hadvances.fresh c trivial hc with hfields | hdone
    · exact (h.done c hfields).mono (hadvances.view c trivial hfields) hadvances.fieldObjects
        hadvances.dispatches hadvances.assigned
    · exact hdone

theorem AllDone.loads (h : AllDone R s) (hloads : Loads s s') : AllDone R s' :=
  h.advances (h.sound.quiet hloads.quiet) hloads.advances

/-- A call that returns keeps the invariant, and its class is done. -/
theorem AllDone.of_return (h : AllDone R s) {fuel : ℕ} {t : TypeManager Cls × ℕ}
    (hreturn : (Faulty.populateMembers R faults fuel c).exec (s, 0) = (.ok (), t)) :
    AllDone R t.1 ∧ Done R t.1 c := by
  have hsound : Sound R t.1 := by
    have hharmless := populateMembers_harmless (R := R) fuel c s h.sound s rfl
    rw [Faulty.populateMembers_agrees fuel c (s, 0) () t hreturn] at hharmless
    exact hharmless.1
  obtain ⟨hadvances, hc⟩ := populateMembers_return fuel hreturn
  have hall := h.advances hsound hadvances
  refine ⟨hall, hc.elim (fun hfields ↦ hall.done c ?_) id⟩
  rwa [TypeManager.fields_of_view (hadvances.view c trivial hfields)]

/-- Where `createFields` fails, only classes have been loaded. -/
theorem createFields_error {fuel : ℕ} {t t' : TypeManager Cls × ℕ} {e : JavaError}
    (h : (Faulty.createFields R faults fuel c).exec t = (.error e, t')) : Loads t.1 t'.1 := by
  have hquery : Always Loads
      (Faulty.query faults (R.getDeclaredFields c) : FaultyM Cls (List (Field Cls))) :=
    query_always _
  rcases exec_bind_eq_error h with herror | ⟨declared, t₁, ht₁, h⟩
  · have hloads := hquery t
    rwa [herror] at hloads
  · refine (hquery.onReturn _ _ _ ht₁).trans ?_
    have hloop : Always Loads
        ((declared.filter (·.isPublic)).mapM (Faulty.createField R faults fuel c)) :=
      Always.mapM (createField_loads fuel c) _
    rcases exec_bind_eq_error h with herror | ⟨fieldPtr, t₂, -, h⟩
    · have hloads := hloop t₁
      rwa [herror] at hloads
    · exact absurd h Program.error_ne_ok.symm

/-- A call that fails before the fields are stored has only loaded classes. -/
theorem loads_of_failsEarly {fuel : ℕ} {t : TypeManager Cls × ℕ} {e : JavaError}
    (hearly : Faulty.FailsEarly R s (faults, fuel, .populateMembers c)) (he : e ≠ .outOfFuel)
    (h : (Faulty.populateMembers R faults fuel c).exec (s, 0) = (.error e, t)) : Loads s t.1 := by
  cases fuel with
  | zero => exact absurd (Except.error.inj (congrArg Prod.fst h)).symm he
  | succ fuel =>
    rw [Faulty.populateMembers, Program.exec_bind, exec_step, Program.exec_get] at h
    dsimp only at h
    cases hdesc : s.classMap c with
    | none =>
      rw [hdesc] at h
      obtain rfl := (Prod.mk.inj h).2
      exact .refl s
    | some desc =>
      rw [hdesc] at h
      dsimp only at h
      split_ifs at h with hsome
      · exact absurd h Program.error_ne_ok.symm
      · have hknown : s.classMap c ≠ none := hdesc ▸ Option.some_ne_none _
        have hfields : s.fields c = none := by
          rw [TypeManager.fields, hdesc]
          simpa using hsome
        rcases exec_bind_eq_error h with herror | ⟨_, t₁, ht₁, h⟩
        · exact createFields_error herror
        · exact absurd (hearly hknown hfields t₁ ht₁ e t h) he

omit [DecidableEq Cls] in
/-- The state after a call is the one before it, if it is still running, or the one it ends in. -/
theorem Faulty.settle_cases (x : FaultyM Cls Unit) (s : TypeManager Cls) :
    Faulty.settle x s = s ∨ ∃ outcome t, x.exec (s, 0) = (outcome, t) ∧
      outcome ≠ .error .outOfFuel ∧ Faulty.settle x s = t.1 := by
  rw [Faulty.settle]
  obtain ⟨outcome, t⟩ := x.exec (s, 0)
  by_cases h : outcome = .error .outOfFuel
  · rw [h]
    exact .inl rfl
  · refine .inr ⟨outcome, t, rfl, h, ?_⟩
    split
    · next heq => exact absurd (congrArg Prod.fst heq) h
    · next heq => rw [← (Prod.mk.inj heq).2]

theorem AllDone.settle (h : AllDone R s) {x : FaultyM Cls Unit} (hx : Always Loads x) :
    AllDone R (Faulty.settle x s) := by
  rcases Faulty.settle_cases x s with hsame | ⟨outcome, t, ht, -, hend⟩
  · rwa [hsame]
  · have hloads := hx (s, 0)
    rw [ht] at hloads
    exact hend ▸ h.loads hloads

theorem AllDone.serve (h : AllDone R s)
    {call : (ℕ → Option JavaError) × ℕ × ManagerCall Cls} (hearly : Faulty.FailsEarly R s call) :
    AllDone R (Faulty.serve R s call) := by
  obtain ⟨faults, fuel, c | m | c⟩ := call
  · exact h.settle ((findClass_loads fuel c).bind fun _ ↦ .pure _)
  · exact h.settle (populateMethod_loads fuel m)
  · rcases Faulty.settle_cases (Faulty.populateMembers R faults fuel c) s with
      hsame | ⟨outcome, t, ht, hne, hend⟩
    · rwa [Faulty.serve, hsame]
    · rw [Faulty.serve, hend]
      cases outcome with
      | ok => exact (h.of_return ht).1
      | error e => exact h.loads (loads_of_failsEarly hearly (fun he ↦ hne (he ▸ rfl)) ht)

theorem allDone_started (fuel : ℕ) : AllDone R (started R fuel) where
  sound := sound_started fuel
  done c hc := by
    have hquiet : Triple (TypeManager.Quiet TypeManager.new) (init R fuel)
        (fun _ ↦ TypeManager.Quiet TypeManager.new) fun _ ↦ TypeManager.Quiet TypeManager.new :=
      (init_quiet fuel).consequence (fun _ ↦ id) (fun _ _ ↦ id) fun _ _ h ↦ h.2
    exact absurd ((hquiet.exec_snd (TypeManager.Quiet.refl _)).fields c) hc

/-- After calls that fail, if at all, before they have stored the fields of their class, a call
that returns has given its class all members, whatever may fail in it. -/
theorem populateMembers_complete (R : Reflection Cls) (fuel₀ : ℕ)
    {calls : List ((ℕ → Option JavaError) × ℕ × ManagerCall Cls)}
    (hearly : Admissible (Faulty.FailsEarly R) (Faulty.serve R) (started R fuel₀) calls)
    {faults : ℕ → Option JavaError} {fuel : ℕ} {c : Cls} {t : TypeManager Cls × ℕ}
    (hreturn : (Faulty.populateMembers R faults fuel c).exec
      (run (Faulty.serve R) (started R fuel₀) calls, 0) = (.ok (), t)) :
    Complete R t.1 c := by
  have hall : AllDone R (run (Faulty.serve R) (started R fuel₀) calls) :=
    invariant_of_admissible (fun s call hs hcall ↦ hs.serve hcall) calls _ (allDone_started fuel₀)
      hearly
  obtain ⟨hall', hdone⟩ := hall.of_return hreturn
  exact hdone.complete hall'.sound

end Runs

/-! ### A constructor that cannot be asked for -/

namespace ParserClass

/-- The call with this number fails, as it does for want of a class file. -/
def failing (k : ℕ) : ℕ → Option JavaError :=
  fun n ↦ if n = k then some .linkageError else none

/-- `Parser` is found, and populated with a failure of the call with this number. The first call
asks for the fields, and the second one for the constructors. -/
def interrupted (k : ℕ) : List ((ℕ → Option JavaError) × ℕ × ManagerCall ParserClass) :=
  [(fun _ ↦ none, 20, .findClass parser), (failing k, 20, .populateMembers parser)]

/-- `Parser` is populated after that, without a failure. -/
def retried (k : ℕ) : Except JavaError Unit × TypeManager ParserClass × ℕ :=
  (Faulty.populateMembers reflection (fun _ ↦ none) 20 parser).exec
    (run (Faulty.serve reflection) (started reflection 20) (interrupted k), 0)

theorem createFields_failing (s : TypeManager ParserClass) (fuel : ℕ) (c : ParserClass) :
    (Faulty.createFields reflection (failing 0) fuel c).exec (s, 0) =
      (.error .linkageError, (s, 1)) :=
  rfl

theorem retried_complete : Complete reflection (retried 0).2.1 parser := by
  have hearly : Admissible (Faulty.FailsEarly reflection) (Faulty.serve reflection)
      (started reflection 20) (interrupted 0) := by
    rw [interrupted, Admissible, Admissible, Admissible]
    refine ⟨trivial, ?_, trivial⟩
    rw [Faulty.FailsEarly]
    intro _ _ t ht
    rw [createFields_failing] at ht
    exact absurd ht Program.error_ne_ok
  have hok : (retried 0).1 = .ok () := by
    decide +kernel
  have hreturn : retried 0 = (.ok (), (retried 0).2) :=
    Prod.mk.eta.symm.trans (congrArg (Prod.mk · (retried 0).2) hok)
  rw [retried] at hreturn
  exact populateMembers_complete reflection 20 hearly hreturn

/-- After a failure of the second call, `populateMembers` returns, and nothing has been
assigned. -/
theorem not_retried_complete :
    (retried 1).1 = .ok () ∧ ¬ Complete reflection (retried 1).2.1 parser := by
  have hassigned : (retried 1).2.1.assigned.length = 0 := by
    decide +kernel
  refine ⟨by decide +kernel, ?_⟩
  rintro ⟨_, members, -, hmem, -⟩
  rw [List.length_eq_zero_iff.1 hassigned] at hmem
  exact absurd hmem List.not_mem_nil

end ParserClass

end JPype
