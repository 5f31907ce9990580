import JPype.Overload.ManagerInvariant

/-!
# The stored hiding relation

While a class is populated (`Populating`), an overload of its own gets a native object that stores
its children, and an inherited one is looked up with the class that declares it. So the relation
is stored once for each method, and in every state of every run it is the relation of the
executables only as far as the declaring class knows the other one (`hiding_iff`). The order in
which the sort leaves the overloads is that in which the native objects are made and, the other way
round, that of a dispatch (`sorted_consistently`).
-/

namespace JPype

open Foundation TypeManager

variable {Cls : Type} [DecidableEq Cls] (R : Reflection Cls)

/-! ### While a class is populated -/

/-- Class `c` is being populated from state `s₀`: its executables in `todo` have no native object
yet, and `ptrs` are the native objects of the overloads at hand. -/
structure Populating (s₀ : TypeManager Cls) (c : Cls) (todo : List (Executable Cls))
    (ptrs : List (Executable Cls × ℕ)) (s : TypeManager Cls) : Prop where
  sound : Sound R s
  grows : Grows s₀ s
  known : s.classMap c ≠ none
  own : s.fields c ≠ none
  fresh : ∀ m ∈ todo, m.declaringClass = c → ∀ e ∈ s.methods, e.1 ≠ m
  registered : ∀ p ∈ ptrs, s.Registered p.1 p.2

/-- How a call leaves the state when it fails. -/
def Broken (s₀ : TypeManager Cls) (e : JavaError) (s : TypeManager Cls) : Prop :=
  e ≠ .danglingPointer ∧ Sound R s ∧ Grows s₀ s

/-- A call that keeps the invariant and only adds methods. -/
def Harmless (x : ManagerM Cls Unit) : Prop :=
  ∀ s, Sound R s → Triple (· = s) x (fun _ s' ↦ Sound R s' ∧ Grows s s') (Broken R s)

section Populating

open MethodResolution

variable {R} {s s' s₀ : TypeManager Cls} {c : Cls} {m : Executable Cls}
  {todo todo' : List (Executable Cls)} {ptrs ptrs' : List (Executable Cls × ℕ)}

theorem Populating.step (h : Populating R s₀ c todo ptrs s) (hsound : Sound R s')
    (hgrows : Grows s s') : Populating R s₀ c todo ptrs s' where
  sound := hsound
  grows := h.grows.trans hgrows
  known := hgrows.known c h.known
  own := hgrows.fields c h.own
  fresh m hm hc e he := by
    rcases hgrows.added e he with hmem | hnone
    · exact h.fresh m hm hc e hmem
    · rintro rfl
      exact h.own (hc ▸ hnone)
  registered p hp := hgrows.registered (h.registered p hp)

theorem Populating.mono (h : Populating R s₀ c todo ptrs s) (htodo : todo' ⊆ todo)
    (hptrs : ∀ p ∈ ptrs', s.Registered p.1 p.2) : Populating R s₀ c todo' ptrs' s :=
  { h with
    fresh := fun m hm ↦ h.fresh m (htodo hm)
    registered := hptrs }

theorem Populating.broken (h : Populating R s₀ c todo ptrs s) {e : JavaError}
    (he : e ≠ .danglingPointer) : Broken R s₀ e s :=
  ⟨he, h.sound, h.grows⟩

theorem Silent.populating {α : Type} {x : ManagerM Cls α} (hx : Silent x) :
    Triple (Populating R s₀ c todo ptrs) x (fun _ ↦ Populating R s₀ c todo ptrs)
      (Broken R s₀) := by
  refine Triple.of_forall fun s hs ↦ ?_
  refine ((hx s).of_eq (Quiet.refl s)).consequence (fun _ ↦ id) ?_ ?_
  · exact fun _ s' hq ↦ hs.step (hs.sound.quiet hq) (Grows.of_quiet hq)
  · exact fun _ s' hq ↦ ⟨hq.1, hs.sound.quiet hq.2, hs.grows.trans (Grows.of_quiet hq.2)⟩

theorem Harmless.populating {x : ManagerM Cls Unit} (hx : Harmless R x) :
    Triple (Populating R s₀ c todo ptrs) x (fun _ ↦ Populating R s₀ c todo ptrs)
      (Broken R s₀) := by
  refine Triple.of_forall fun s hs ↦ ?_
  refine (hx s hs.sound).consequence (fun _ ↦ id) ?_ ?_
  · exact fun _ s' h ↦ hs.step h.1 h.2
  · exact fun _ s' h ↦ ⟨h.1, h.2.1, hs.grows.trans h.2.2⟩

/-! ### One overload -/

theorem Sound.methodAt (h : Sound R s) {e : Executable Cls × JPMethod Cls} (he : e ∈ s.methods) :
    s.methodAt e.2.ptr = some e.2 := by
  have hsome : (s.methods.find? fun e' ↦ e'.2.ptr = e.2.ptr).isSome := by
    rw [List.find?_isSome]
    exact ⟨e, he, by simp⟩
  obtain ⟨e', he'⟩ := Option.isSome_iff_exists.1 hsome
  have heq : e' = e :=
    h.ptr_inj e' (List.mem_of_find?_eq_some he') e he (by simpa using List.find?_some he')
  rw [TypeManager.methodAt, he', heq]
  rfl

theorem exists_lookup {ch : Executable Cls} (h : ch ∈ ptrs.map (·.1)) :
    ∃ ptr, ptrs.lookup ch = some ptr ∧ (ch, ptr) ∈ ptrs := by
  induction ptrs with
  | nil => exact absurd h List.not_mem_nil
  | cons p ptrs ih =>
    by_cases hp : ch = p.1
    · obtain rfl := hp
      exact ⟨p.2, List.lookup_cons_self, List.mem_cons_self⟩
    · obtain ⟨ptr, hlookup, hmem⟩ := ih ((List.mem_cons.1 h).resolve_left hp)
      refine ⟨ptr, ?_, List.mem_cons_of_mem p hmem⟩
      rw [List.lookup_cons, beq_false_of_ne hp]
      exact hlookup

/-- The addresses of the children are those of their native objects. -/
theorem mem_precedencePtrs {ov : MethodResolution Cls} (hchildren : ov.children ⊆ ptrs.map (·.1))
    (ptr : ℕ) :
    ptr ∈ precedencePtrs ptrs ov ↔
      ∃ ch ∈ ov.children, ptrs.lookup ch = some ptr ∧ (ch, ptr) ∈ ptrs := by
  rw [precedencePtrs, List.mem_map]
  refine exists_congr fun ch ↦ and_congr_right fun hch ↦ ?_
  obtain ⟨ptr', hlookup, hmem⟩ := exists_lookup (hchildren hch)
  rw [hlookup, Option.getD_some]
  constructor
  · rintro rfl
    exact ⟨rfl, hmem⟩
  · exact fun h ↦ Option.some.inj h.1

variable (R) in
/-- An overload of class `c` has as children all that it is strictly more specific than. -/
def ChildrenComplete (c : Cls) (ov : MethodResolution Cls) : Prop :=
  ov.executable.declaringClass = c → ∀ ch, ch ∈ ov.children ↔
    ch ∈ declaredAmong R ov.executable ∧ isStrictlyMoreSpecificThan R ov.executable ch = true

theorem Populating.registered_snoc (h : Populating R s₀ c todo ptrs s) {ptr : ℕ}
    (hm : s.Registered m ptr) : ∀ p ∈ ptrs ++ [(m, ptr)], s.Registered p.1 p.2 := by
  intro p hp
  rcases List.mem_append.1 hp with hmem | hlast
  · exact h.registered p hmem
  · obtain rfl := List.mem_singleton.1 hlast
    exact hm

/-- An overload of its own class gets a native object, which knows its children. -/
theorem defineMethod_populating {ov : MethodResolution Cls} (hs₀ : s₀.fields c = none)
    (hc : ov.executable.declaringClass = c) (hout : ov.children ⊆ ptrs.map (·.1))
    (hov : ChildrenComplete R c ov) (hnew : ov.executable ∉ todo) :
    Triple (Populating R s₀ c (ov.executable :: todo) ptrs)
      (defineMethod R c ov.executable (precedencePtrs ptrs ov))
      (fun ptr ↦ Populating R s₀ c todo (ptrs ++ [(ov.executable, ptr)])) (Broken R s₀) := by
  refine Triple.modifyGet fun s hs ↦ ?_
  have hchild := mem_precedencePtrs hout
  have hsound := hs.sound.define (m := ov.executable)
    (j := ⟨s.nextPtr, R.toString ov.executable, c, ov.executable.kind, ov.executable.isVarArgs,
      ov.executable.parameterTypes, precedencePtrs ptrs ov,
      ov.executable.parameterTypes_ne_nil⟩) rfl
    (hs.fresh _ List.mem_cons_self hc) (hc ▸ hs.own) ?_ ?_
  · refine ⟨hsound, hs.grows.define (hc ▸ hs₀), hs.known, hs.own, ?_, ?_⟩
    · intro m hm hmc e he
      rcases List.mem_append.1 he with hmem | hlast
      · exact hs.fresh m (List.mem_cons_of_mem _ hm) hmc e hmem
      · obtain rfl := List.mem_singleton.1 hlast
        rintro rfl
        exact hnew hm
    · intro p hp
      rcases List.mem_append.1 hp with hmem | hlast
      · obtain ⟨e, he, heq⟩ := hs.registered p hmem
        exact ⟨e, List.mem_append_left _ he, heq⟩
      · obtain rfl := List.mem_singleton.1 hlast
        exact ⟨_, List.mem_append_right _ List.mem_cons_self, rfl, rfl⟩
  · intro ptr hptr
    obtain ⟨ch, hch, -, hmem⟩ := (hchild ptr).1 hptr
    exact ⟨ch, hs.registered _ hmem, (hov hc ch).1 hch⟩
  · intro m' hm' hspec
    have hch := (hov hc m').2 ⟨hm', hspec⟩
    obtain ⟨ptr, hlookup, hmem⟩ := exists_lookup (hout hch)
    exact ⟨ptr, (hchild ptr).2 ⟨m', hch, hlookup, hmem⟩, hs.registered _ hmem⟩

theorem Populating.define_desc (h : Populating R s₀ c todo ptrs s) {desc : ClassDescriptor Cls}
    (hdesc : s.classMap c = some desc) {ptr : ℕ} (hm : s.Registered m ptr) :
    Populating R s₀ c todo ptrs
      (s.modifyDesc c fun desc ↦ { desc with defined := desc.defined ++ [(m, ptr)] }) := by
  have hfields : (s.modifyDesc c fun desc ↦
      { desc with defined := desc.defined ++ [(m, ptr)] }).fields = s.fields := by
    rw [modifyDesc, hdesc]
    refine (fields_update s c _).trans ?_
    rw [Function.update_eq_self_iff, TypeManager.fields, hdesc]
    rfl
  have hknown := known_update s c ((s.classMap c).map fun desc ↦
    { desc with defined := desc.defined ++ [(m, ptr)] })
    fun hc ↦ (Option.map_eq_none_iff.not).2 hc
  refine h.step (h.sound.frame rfl rfl le_rfl (fun c' hc' ↦ hfields.symm ▸ hc') ?_)
    ⟨List.Subset.refl _, fun _ ↦ .inl, hknown, fun c' hc' ↦ hfields.symm ▸ hc'⟩
  intro c' p hp
  show s.Registered p.1 p.2
  rw [modifyDesc, hdesc] at hp
  change p ∈ (s.update c _).defined c' at hp
  rw [defined_update] at hp
  by_cases hc : c' = c
  · obtain rfl := hc
    rw [Function.update_self] at hp
    rcases List.mem_append.1 hp with hold | hlast
    · refine h.sound.defined c' p ?_
      rwa [TypeManager.defined, hdesc]
    · obtain rfl := List.mem_singleton.1 hlast
      exact hm
  · rw [Function.update_of_ne hc] at hp
    exact h.sound.defined c' p hp

/-- The stores into the arrays of the descriptor. -/
theorem storeMethod_populating {ptr : ℕ} (hmem : (m, ptr) ∈ ptrs) :
    Triple (Populating R s₀ c todo ptrs) (storeMethod c m ptr)
      (fun _ ↦ Populating R s₀ c todo ptrs) (Broken R s₀) := by
  refine Triple.get_bind fun s hs ↦ ?_
  cases hdesc : s.classMap c with
  | none => exact absurd hdesc hs.known
  | some desc =>
    cases hcap : desc.capacity with
    | none =>
      simp only [hcap]
      exact Triple.of_eq (Triple.throw fun _ h ↦ h.broken (by decide)) hs
    | some length =>
      simp only [hcap]
      split_ifs with hlen
      · refine Triple.modify fun s' heq ↦ ?_
        obtain rfl : s' = s := heq
        exact hs.define_desc hdesc (hs.registered _ hmem)
      · exact Triple.of_eq (Triple.throw fun _ h ↦ h.broken (by decide)) hs

omit [DecidableEq Cls] in
theorem mem_of_lookup {l : List (Executable Cls × ℕ)} [BEq (Executable Cls)]
    [LawfulBEq (Executable Cls)] {ptr : ℕ} (h : l.lookup m = some ptr) : (m, ptr) ∈ l := by
  induction l with
  | nil => exact absurd h nofun
  | cons p l ih =>
    rw [List.lookup_cons] at h
    split at h
    · rename_i hp
      rw [eq_of_beq hp, ← Option.some.inj h]
      exact List.mem_cons_self
    · exact List.mem_cons_of_mem p (ih h)

theorem mem_of_getMethod {desc : ClassDescriptor Cls} {ptr : ℕ} (h : desc.getMethod m = .ok ptr)
    (hptr : ptr ≠ 0) : (m, ptr) ∈ desc.defined := by
  rw [ClassDescriptor.getMethod] at h
  cases hcap : desc.capacity with
  | none => exact absurd (hcap ▸ h) nofun
  | some length =>
    rw [hcap] at h
    cases hlookup : desc.defined.lookup m with
    | some found =>
      rw [hlookup] at h
      obtain rfl := Except.ok.inj h
      exact mem_of_lookup hlookup
    | none =>
      simp only [hlookup] at h
      split_ifs at h with hlen
      exact absurd (Except.ok.inj h).symm hptr

theorem getMethod_ne_dangling {desc : ClassDescriptor Cls} {e : JavaError}
    (h : desc.getMethod m = .error e) : e ≠ .danglingPointer := by
  rw [ClassDescriptor.getMethod] at h
  split at h
  · exact Except.error.inj h ▸ nofun
  · split at h
    · exact absurd h nofun
    · split_ifs at h
      exact Except.error.inj h ▸ nofun

/-- An inherited overload has a native object already, in the class that declares it. -/
theorem inheritedMethod_populating {populate : Cls → ManagerM Cls Unit}
    (hpopulate : ∀ c', Harmless R (populate c')) :
    Triple (Populating R s₀ c todo ptrs) (inheritedMethod populate m)
      (fun ptr ↦ Populating R s₀ c todo (ptrs ++ [(m, ptr)])) (Broken R s₀) := by
  refine (hpopulate _).populating.bind fun _ ↦ Triple.get_bind fun s hs ↦ ?_
  cases hdesc : s.classMap m.declaringClass with
  | none => exact Triple.of_eq (Triple.throw fun _ h ↦ h.broken (by decide)) hs
  | some desc =>
    cases hget : desc.getMethod m with
    | error e =>
      simp only [hget]
      exact Triple.of_eq (Triple.throw fun _ h ↦ h.broken (getMethod_ne_dangling hget)) hs
    | ok ptr =>
      simp only [hget]
      split_ifs with hptr
      · exact Triple.of_eq (Triple.throw fun _ h ↦ h.broken (by simp)) hs
      · refine Triple.pure fun s' heq ↦ ?_
        obtain rfl : s' = s := heq
        have hdefined : (m, ptr) ∈ s'.defined m.declaringClass := by
          rw [TypeManager.defined, hdesc]
          exact mem_of_getMethod hget hptr
        exact hs.mono (List.Subset.refl _)
          (hs.registered_snoc (hs.sound.defined _ _ hdefined))

/-! ### The overloads of a dispatch -/

variable (R) in
/-- The native objects of the overloads `names` are made, and `out` has them in reverse. -/
def Built (s₀ : TypeManager Cls) (c : Cls) (todo names : List (Executable Cls)) (out : List ℕ)
    (s : TypeManager Cls) : Prop :=
  ∃ ptrs, Populating R s₀ c todo ptrs s ∧ ptrs.map (·.1) = names ∧ out = (ptrs.map (·.2)).reverse

omit [DecidableEq Cls] in
theorem reverse_snoc (ptr : ℕ) :
    ptr :: (ptrs.map (·.2)).reverse = ((ptrs ++ [(m, ptr)]).map (·.2)).reverse := by
  rw [List.map_append, List.reverse_append]
  rfl

theorem createConstructors_built (ptrs : List (Executable Cls × ℕ)) (hs₀ : s₀.fields c = none)
    {overloads : List (MethodResolution Cls)} (hordered : OrderedAfter (ptrs.map (·.1)) overloads)
    (hcomplete : ∀ ov ∈ overloads, ChildrenComplete R c ov)
    (hc : ∀ ov ∈ overloads, ov.executable.declaringClass = c)
    (hnodup : (overloads.map (·.executable) ++ todo).Nodup) :
    Triple (Populating R s₀ c (overloads.map (·.executable) ++ todo) ptrs)
      (createConstructors R c overloads ptrs (ptrs.map (·.2)).reverse)
      (Built R s₀ c todo (ptrs.map (·.1) ++ overloads.map (·.executable))) (Broken R s₀) := by
  induction overloads generalizing ptrs with
  | nil =>
    refine Triple.pure fun s hs ↦ ⟨ptrs, hs, ?_, rfl⟩
    rw [List.map_nil, List.append_nil]
  | cons ov overloads ih =>
    obtain ⟨hnew, hnodup⟩ := List.nodup_cons.1 hnodup
    refine Triple.bind (defineMethod_populating hs₀ (hc ov List.mem_cons_self) hordered.1.subset
      (hcomplete ov List.mem_cons_self) hnew) fun ptr ↦ ?_
    rw [reverse_snoc (m := ov.executable)]
    have hrest := ih (ptrs ++ [(ov.executable, ptr)]) ?_
      (fun ov hov ↦ hcomplete ov (List.mem_cons_of_mem _ hov))
      (fun ov hov ↦ hc ov (List.mem_cons_of_mem _ hov)) hnodup
    · simpa using hrest
    · simpa using hordered.2

theorem createMethods_built (ptrs : List (Executable Cls × ℕ))
    {populate : Cls → ManagerM Cls Unit} (hpopulate : ∀ c', Harmless R (populate c'))
    (hs₀ : s₀.fields c = none)
    {overloads : List (MethodResolution Cls)} (hordered : OrderedAfter (ptrs.map (·.1)) overloads)
    (hcomplete : ∀ ov ∈ overloads, ChildrenComplete R c ov)
    (hnodup : (overloads.map (·.executable) ++ todo).Nodup) :
    Triple (Populating R s₀ c (overloads.map (·.executable) ++ todo) ptrs)
      (createMethods R populate c overloads ptrs (ptrs.map (·.2)).reverse)
      (Built R s₀ c todo (ptrs.map (·.1) ++ overloads.map (·.executable))) (Broken R s₀) := by
  induction overloads generalizing ptrs with
  | nil =>
    refine Triple.pure fun s hs ↦ ⟨ptrs, hs, ?_, rfl⟩
    rw [List.map_nil, List.append_nil]
  | cons ov overloads ih =>
    obtain ⟨hnew, hnodup⟩ := List.nodup_cons.1 hnodup
    have hrest : ∀ ptr, Triple
        (Populating R s₀ c (overloads.map (·.executable) ++ todo)
          (ptrs ++ [(ov.executable, ptr)]))
        (createMethods R populate c overloads (ptrs ++ [(ov.executable, ptr)])
          (ptr :: (ptrs.map (·.2)).reverse))
        (Built R s₀ c todo (ptrs.map (·.1) ++ (ov :: overloads).map (·.executable)))
        (Broken R s₀) := by
      intro ptr
      rw [reverse_snoc (m := ov.executable)]
      have htail := ih (ptrs ++ [(ov.executable, ptr)]) ?_
        (fun ov hov ↦ hcomplete ov (List.mem_cons_of_mem _ hov)) hnodup
      · simpa using htail
      · simpa using hordered.2
    rw [createMethods]
    split_ifs with hdecl
    · refine Triple.bind ?_ hrest
      refine (inheritedMethod_populating hpopulate).weaken_pre fun s hs ↦ ?_
      exact hs.mono (List.subset_cons_self _ _) hs.registered
    · refine Triple.bind (defineMethod_populating hs₀ (not_not.1 hdecl) hordered.1.subset
        (hcomplete ov List.mem_cons_self) hnew) fun ptr ↦ ?_
      refine Triple.bind (storeMethod_populating ?_) fun _ ↦ hrest ptr
      exact List.mem_append_right _ List.mem_cons_self

/-- The addresses of registered overloads lead to their native objects. -/
theorem exists_methodAt (ptrs : List (Executable Cls × ℕ)) (h : Sound R s)
    (hptrs : ∀ p ∈ ptrs, s.Registered p.1 p.2) :
    ∃ es, es ⊆ s.methods ∧ (ptrs.map (·.2)).mapM s.methodAt = some (es.map (·.2)) ∧
      es.map (·.1) = ptrs.map (·.1) := by
  induction ptrs with
  | nil => exact ⟨[], List.nil_subset _, rfl, rfl⟩
  | cons p ptrs ih =>
    obtain ⟨es, hes, hmapM, hnames⟩ := ih fun q hq ↦ hptrs q (List.mem_cons_of_mem p hq)
    obtain ⟨e, he, hm, hptr⟩ := hptrs p List.mem_cons_self
    refine ⟨e :: es, List.cons_subset.2 ⟨he, hes⟩, ?_, ?_⟩
    · rw [List.map_cons, List.mapM_cons, ← hptr, h.methodAt he, hmapM]
      rfl
    · rw [List.map_cons, List.map_cons, hnames, hm]

/-- The dispatch of a name gets its overload set, with the more specific ones in front. -/
theorem defineMethodDispatch_populating {names : List (Executable Cls)} {out : List ℕ}
    {name : String} {isConstructor : Bool}
    (hnames : names.Perm (overloadSet R c isConstructor name))
    (hsorted : names.Pairwise fun m₁ m₂ ↦ isStrictlyMoreSpecificThan R m₁ m₂ = false) :
    Triple (Built R s₀ c todo names out) (defineMethodDispatch c name out isConstructor)
      (fun _ ↦ Populating R s₀ c todo []) (Broken R s₀) := by
  refine Triple.get_bind fun s hs ↦ ?_
  obtain ⟨ptrs, hpop, rfl, rfl⟩ := hs
  obtain ⟨es, hes, hmapM, hmap⟩ := exists_methodAt ptrs.reverse hpop.sound fun p hp ↦
    hpop.registered p (List.mem_reverse.1 hp)
  rw [List.map_reverse] at hmapM hmap
  simp only [hmapM]
  refine Triple.modifyGet fun s' heq ↦ ?_
  obtain rfl : s' = s := heq
  refine (hpop.mono (List.Subset.refl _) fun _ h ↦ absurd h List.not_mem_nil).step
    (hpop.sound.defineDispatch ?_) ?_
  · refine ⟨es, hes, rfl, ?_⟩
    rw [hmap]
    exact ⟨(List.reverse_perm _).trans hnames, List.pairwise_reverse.2 hsorted⟩
  · exact ⟨List.Subset.refl _, fun _ ↦ .inl, fun _ ↦ id, fun _ ↦ id⟩

/-- An update of other parts of the descriptor. -/
theorem modifyDesc_populating {f : ClassDescriptor Cls → ClassDescriptor Cls}
    (hf : ∀ d, (f d).fields = d.fields) (hd : ∀ d, (f d).defined = d.defined) :
    Triple (Populating R s₀ c todo ptrs) (modify (·.modifyDesc c f) : ManagerM Cls Unit)
      (fun _ ↦ Populating R s₀ c todo ptrs) (Broken R s₀) :=
  (Silent.modifyDesc c hf hd).populating

/-- The same while the overloads wait for their dispatch. -/
theorem modifyDesc_built {names : List (Executable Cls)} {out : List ℕ}
    {f : ClassDescriptor Cls → ClassDescriptor Cls} (hf : ∀ d, (f d).fields = d.fields)
    (hd : ∀ d, (f d).defined = d.defined) :
    Triple (Built R s₀ c todo names out) (modify (·.modifyDesc c f) : ManagerM Cls Unit)
      (fun _ ↦ Built R s₀ c todo names out) (Broken R s₀) := by
  refine Triple.of_forall fun s ⟨ptrs, hpop, hrest⟩ ↦ ?_
  refine ((modifyDesc_populating hf hd).of_eq hpop).consequence (fun _ ↦ id) ?_ fun _ _ h ↦ h
  exact fun _ s' hs' ↦ ⟨ptrs, hs', hrest⟩

/-- What the children are, after the sort of an overload set. -/
theorem childrenComplete_of_sorted {fuel : ℕ} {isConstructor : Bool} {name : String}
    {sorted : List (MethodResolution Cls)}
    (hsort : sortMethods R fuel (overloadSet R c isConstructor name) = some sorted)
    (hown : ∀ m ∈ overloadSet R c isConstructor name, m.declaringClass = c →
      declaredAmong R m = overloadSet R c isConstructor name) :
    ∀ ov ∈ sorted, ChildrenComplete R c ov := by
  intro ov hov hc ch
  have hmem : ov.executable ∈ overloadSet R c isConstructor name :=
    (sortMethods_executables hsort).mem_iff.1 (List.mem_map_of_mem hov)
  rw [mem_children_of_sorted hsort hov, hown _ hmem hc]

theorem overloadSet_constructors {declared : List (Executable Cls)}
    (h : R.getDeclaredConstructors c = some declared) (name : String) :
    overloadSet R c true name = declared.filter (·.isPublic) := by
  rw [overloadSet, if_pos rfl, h]
  rfl

theorem overloadSet_methods {all : List (Executable Cls)} (h : R.getMethods c = some all)
    (name : String) :
    overloadSet R c false name = (filterOverridden R c all).filter (·.name = name) := by
  rw [overloadSet, if_neg Bool.false_ne_true, h]
  rfl

theorem createConstructorDispatch_populating {fuel : ℕ} (hs₀ : s₀.fields c = none)
    (hnodup : (overloadSet R c true "<init>" ++ todo).Nodup) :
    Triple (Populating R s₀ c (overloadSet R c true "<init>" ++ todo) [])
      (createConstructorDispatch R fuel c) (fun _ ↦ Populating R s₀ c todo []) (Broken R s₀) := by
  rw [createConstructorDispatch]
  cases hdeclared : R.getDeclaredConstructors c with
  | none => exact Triple.throw fun s hs ↦ hs.broken (by decide)
  | some declared =>
    have hset := overloadSet_constructors hdeclared
    simp only [← hset "<init>"]
    split_ifs with hempty
    · exact Triple.pure fun s hs ↦
        hs.mono (List.subset_append_right _ _) fun _ h ↦ absurd h List.not_mem_nil
    · cases hsort : sortMethods R fuel (overloadSet R c true "<init>") with
      | none => exact Triple.throw fun s hs ↦ hs.broken (by decide)
      | some sorted =>
        have hperm := sortMethods_executables hsort
        have hmem : ∀ m ∈ overloadSet R c true "<init>", m ∈ declared := fun m hm ↦
          List.mem_of_mem_filter (hset "<init>" ▸ hm)
        have hdecl : ∀ m ∈ overloadSet R c true "<init>", m.declaringClass = c := fun m hm ↦
          R.getDeclaredConstructors_declaringClass hdeclared m (hmem m hm)
        have hown : ∀ m ∈ overloadSet R c true "<init>", m.declaringClass = c →
            declaredAmong R m = overloadSet R c true "<init>" := by
          intro m hm hc
          rw [declaredAmong, hc, R.getDeclaredConstructors_kind hdeclared m (hmem m hm),
            hset "<init>"]
          exact hset m.name
        have hloop := createConstructors_built [] hs₀
          (sortMethods_ordered hsort) (childrenComplete_of_sorted hsort hown)
          (fun ov hov ↦ hdecl _ (hperm.mem_iff.1 (List.mem_map_of_mem hov)))
          ((hperm.append_right todo).nodup_iff.2 hnodup)
        refine Triple.bind (hloop.weaken_pre fun s hs ↦ ?_) fun out ↦ ?_
        · exact hs.mono (hperm.append_right todo).subset fun _ h ↦ absurd h List.not_mem_nil
        · refine Triple.bind (modifyDesc_built (fun _ ↦ rfl) fun _ ↦ rfl) fun _ ↦ ?_
          refine Triple.bind (defineMethodDispatch_populating hperm (pairwise_of_sorted hsort))
            fun _ ↦ ?_
          exact modifyDesc_populating (fun _ ↦ rfl) fun _ ↦ rfl

/-- One name: its methods leave the candidates. -/
theorem createMethodDispatch_populating {populate : Cls → ManagerM Cls Unit} {fuel : ℕ}
    {key : String} {all candidates : List (Executable Cls)}
    (hpopulate : ∀ c', Harmless R (populate c')) (hs₀ : s₀.fields c = none)
    (hall : R.getMethods c = some all)
    (hkey : candidates.filter (·.name = key) = overloadSet R c false key)
    (hnodup : candidates.Nodup) :
    Triple (Populating R s₀ c candidates [])
      (createMethodDispatch R populate fuel c key candidates)
      (fun r s ↦ r.2 = candidates.filter (·.name ≠ key) ∧ Populating R s₀ c r.2 [] s)
      (Broken R s₀) := by
  rw [createMethodDispatch, hkey]
  cases hsort : sortMethods R fuel (overloadSet R c false key) with
  | none => exact Triple.throw fun s hs ↦ hs.broken (by decide)
  | some sorted =>
    have hperm := sortMethods_executables hsort
    have hown : ∀ m ∈ overloadSet R c false key, m.declaringClass = c →
        declaredAmong R m = overloadSet R c false key := by
      intro m hm hc
      rw [overloadSet_methods hall] at hm
      obtain ⟨hfiltered, hname⟩ := List.mem_filter.1 hm
      have hkind := R.getMethods_kind hall m (List.mem_of_mem_filter hfiltered)
      rw [declaredAmong, hc, of_decide_eq_true hname, decide_eq_false hkind]
    have hsplit : (sorted.map (·.executable) ++ candidates.filter (·.name ≠ key)).Perm
        candidates := by
      refine (hperm.append_right _).trans ?_
      rw [← hkey]
      simpa only [decide_not] using List.filter_append_perm
        (fun m ↦ decide (m.name = key)) candidates
    have hloop := createMethods_built [] hpopulate hs₀ (sortMethods_ordered hsort)
      (childrenComplete_of_sorted hsort hown) (hsplit.nodup_iff.2 hnodup)
    refine Triple.bind (hloop.weaken_pre fun s hs ↦ ?_) fun out ↦ ?_
    · exact hs.mono hsplit.subset fun _ h ↦ absurd h List.not_mem_nil
    · refine Triple.bind (defineMethodDispatch_populating hperm (pairwise_of_sorted hsort))
        fun ptr ↦ ?_
      exact Triple.pure fun s hs ↦ ⟨rfl, hs⟩

/-- The names are taken one by one, and each finds its overload set among the candidates. -/
theorem dispatchLoop_populating {populate : Cls → ManagerM Cls Unit} {fuel : ℕ}
    {all : List (Executable Cls)} (hpopulate : ∀ c', Harmless R (populate c'))
    (hs₀ : s₀.fields c = none) (hall : R.getMethods c = some all) {names : List String} :
    ∀ {candidates : List (Executable Cls)} (i : ℕ), names.Nodup → candidates.Nodup →
      (∀ key ∈ names, candidates.filter (·.name = key) = overloadSet R c false key) →
      Triple (Populating R s₀ c candidates []) (dispatchLoop R populate fuel c i names candidates)
        (fun _ ↦ Populating R s₀ c [] []) (Broken R s₀) := by
  induction names with
  | nil =>
    intro candidates i _ _ _
    exact Triple.pure fun s hs ↦ hs.mono (List.nil_subset _) fun _ h ↦ absurd h List.not_mem_nil
  | cons name names ih =>
    intro candidates i hnames hcandidates hsets
    obtain ⟨hname, hnames⟩ := List.nodup_cons.1 hnames
    refine Triple.bind (createMethodDispatch_populating hpopulate hs₀ hall
      (hsets name List.mem_cons_self) hcandidates) fun r ↦ ?_
    obtain ⟨ptr, rest⟩ := r
    refine Triple.of_forall fun s ⟨hrest, hs⟩ ↦ ?_
    obtain rfl : rest = candidates.filter (·.name ≠ name) := hrest
    refine Triple.of_eq (Triple.bind (modifyDesc_populating (fun _ ↦ rfl) fun _ ↦ rfl) fun _ ↦
      ih (i + 1) hnames (hcandidates.filter _) fun key hkey ↦ ?_) hs
    rw [List.filter_filter, ← hsets key (List.mem_cons_of_mem name hkey)]
    refine List.filter_congr fun m _ ↦ ?_
    by_cases hm : m.name = key
    · simp [hm, ne_of_mem_of_not_mem hkey hname]
    · simp [hm]

end Populating

/-! ### The names -/

/-- Names in the order of `compareTo`. -/
def NamesSorted (names : List String) : Prop :=
  names.Pairwise fun n n' ↦ ¬treeSetAdd.codeUnits n' < treeSetAdd.codeUnits n

theorem mem_treeSetAdd {name n : String} {names : List String} :
    n ∈ treeSetAdd name names ↔ n = name ∨ n ∈ names := by
  induction names with
  | nil => simp [treeSetAdd]
  | cons first names ih =>
    rw [treeSetAdd]
    split_ifs with heq hlt
    · obtain rfl := heq
      simp
    · simp
    · rw [List.mem_cons, ih, List.mem_cons]
      tauto

theorem namesSorted_treeSetAdd {name : String} {names : List String} (h : NamesSorted names) :
    NamesSorted (treeSetAdd name names) := by
  induction names with
  | nil => exact List.pairwise_singleton _ _
  | cons first names ih =>
    obtain ⟨hfirst, hnames⟩ := List.pairwise_cons.1 h
    rw [treeSetAdd]
    split_ifs with heq hlt
    · exact h
    · refine List.pairwise_cons.2 ⟨fun n hn hless ↦ ?_, h⟩
      rcases List.mem_cons.1 hn with rfl | hmem
      · exact List.lt_asymm hlt hless
      · exact hfirst n hmem (List.lt_trans hless hlt)
    · refine List.pairwise_cons.2 ⟨fun n hn ↦ ?_, ih hnames⟩
      rcases mem_treeSetAdd.1 hn with rfl | hmem
      · exact hlt
      · exact hfirst n hmem

/-- A set has no name twice. -/
theorem nodup_treeSetAdd {name : String} {names : List String} (hsorted : NamesSorted names)
    (hnodup : names.Nodup) : (treeSetAdd name names).Nodup := by
  induction names with
  | nil => exact List.nodup_singleton name
  | cons first names ih =>
    obtain ⟨hfirst, hnames⟩ := List.pairwise_cons.1 hsorted
    obtain ⟨hnotin, hnodup'⟩ := List.nodup_cons.1 hnodup
    rw [treeSetAdd]
    split_ifs with heq hlt
    · exact hnodup
    · refine List.nodup_cons.2 ⟨fun hmem ↦ ?_, hnodup⟩
      exact hfirst name ((List.mem_cons.1 hmem).resolve_left heq) hlt
    · refine List.nodup_cons.2 ⟨fun hmem ↦ ?_, ih hnames hnodup'⟩
      rcases mem_treeSetAdd.1 hmem with hname | hmem
      · exact heq hname.symm
      · exact hnotin hmem

omit [DecidableEq Cls] in
theorem nodup_resolve (methods : List (Executable Cls)) :
    (methods.foldl (fun names method ↦ treeSetAdd method.name names) []).Nodup := by
  suffices h : ∀ names, NamesSorted names ∧ names.Nodup →
      NamesSorted (methods.foldl (fun names method ↦ treeSetAdd method.name names) names) ∧
        (methods.foldl (fun names method ↦ treeSetAdd method.name names) names).Nodup from
    (h [] ⟨List.Pairwise.nil, List.nodup_nil⟩).2
  have hstep : ∀ names (method : Executable Cls), NamesSorted names ∧ names.Nodup →
      NamesSorted (treeSetAdd method.name names) ∧ (treeSetAdd method.name names).Nodup :=
    fun names method h ↦ ⟨namesSorted_treeSetAdd h.1, nodup_treeSetAdd h.1 h.2⟩
  exact fun names ↦ invariant_run hstep methods names

/-! ### The members of a class -/

section Members

variable {R} {s : TypeManager Cls} {c : Cls} {fuel : ℕ}

/-- With its fields a class starts to be populated: it has no native methods yet. -/
theorem setFields_populating {s' : TypeManager Cls} (hs : Sound R s) (hknown : s.classMap c ≠ none)
    (hfields : s.fields c = none) (hq : Quiet s s') (fieldPtr : List ℕ)
    (todo : List (Executable Cls)) :
    Populating R s c todo []
      (s'.modifyDesc c fun desc ↦ { desc with fields := some fieldPtr }) := by
  obtain ⟨desc, hdesc⟩ := Option.ne_none_iff_exists'.1 (hq.known c hknown)
  have hupdate : (s'.modifyDesc c fun desc ↦ { desc with fields := some fieldPtr }) =
      s'.update c (some { desc with fields := some fieldPtr }) := by
    rw [modifyDesc, hdesc]
    rfl
  have hown := fields_update s' c (some { desc with fields := some fieldPtr })
  have hdefined : (s'.update c (some { desc with fields := some fieldPtr })).defined =
      s'.defined := by
    rw [defined_update, Function.update_eq_self_iff, TypeManager.defined, hdesc]
    rfl
  have hkept : ∀ c', s'.fields c' ≠ none →
      (s'.update c (some { desc with fields := some fieldPtr })).fields c' ≠ none := by
    intro c' hc'
    rw [hown]
    by_cases hc : c' = c
    · obtain rfl := hc
      rw [Function.update_self]
      exact Option.some_ne_none _
    · rwa [Function.update_of_ne hc]
  rw [hupdate]
  have hsound : Sound R (s'.update c (some { desc with fields := some fieldPtr })) :=
    (hs.quiet hq).frame rfl rfl le_rfl hkept fun c' p hp ↦
      (hs.quiet hq).defined c' p (by rwa [hdefined] at hp)
  have hgrows : Grows s' (s'.update c (some { desc with fields := some fieldPtr })) :=
    ⟨List.Subset.refl _, fun _ ↦ .inl, known_update s' c _ fun _ ↦ Option.some_ne_none _, hkept⟩
  refine ⟨hsound, (Grows.of_quiet hq).trans hgrows, ?_, ?_, ?_, fun _ h ↦ absurd h List.not_mem_nil⟩
  · exact hgrows.known c (hq.known c hknown)
  · rw [hown, Function.update_self]
    exact Option.some_ne_none _
  · intro m hm hmc e he
    rintro rfl
    exact hs.populated e (hq.methods ▸ he) (hmc ▸ hfields)

theorem createFields_populating (hs : Sound R s) (hknown : s.classMap c ≠ none)
    (hfields : s.fields c = none) (todo : List (Executable Cls)) :
    Triple (· = s) (createFields R fuel c) (fun _ ↦ Populating R s c todo []) (Broken R s) := by
  have hfail : ∀ e s', e ≠ JavaError.danglingPointer ∧ Quiet s s' → Broken R s e s' :=
    fun e s' h ↦ ⟨h.1, hs.quiet h.2, Grows.of_quiet h.2⟩
  rw [createFields]
  cases R.getDeclaredFields c with
  | none => exact Triple.throw fun s' heq ↦ hfail _ s' ⟨by decide, heq ▸ Quiet.refl s⟩
  | some declared =>
    have hloop : ∀ field ∈ declared.filter (·.isPublic),
        Silent (do let _ ← getClass R fuel field.type; defineField c field : ManagerM Cls ℕ) :=
      fun field _ ↦ (getClass_silent fuel field.type).bind fun _ ↦ Silent.defineField c field
    refine Triple.bind (((Silent.mapM hloop s).of_eq (Quiet.refl s)).consequence (fun _ ↦ id)
      (fun _ _ h ↦ h) hfail) fun fieldPtr ↦ Triple.modify fun s' hq ↦ ?_
    exact setFields_populating hs hknown hfields hq fieldPtr todo

theorem createMethodDispatches_populating {populate : Cls → ManagerM Cls Unit}
    (hpopulate : ∀ c', Harmless R (populate c')) (hfields : s.fields c = none) :
    Triple (Populating R s c (filterOverridden R c ((R.getMethods c).getD [])) [])
      (createMethodDispatches R populate fuel c) (fun _ ↦ Populating R s c [] [])
      (Broken R s) := by
  rw [createMethodDispatches]
  cases hall : R.getMethods c with
  | none => exact Triple.throw fun s' hs' ↦ hs'.broken (by decide)
  | some all =>
    cases R.getDeclaredMethods c with
    | none => exact Triple.throw fun s' hs' ↦ hs'.broken (by decide)
    | some declared =>
      refine Triple.bind (modifyDesc_populating (fun _ ↦ rfl) fun _ ↦ rfl) fun _ ↦ ?_
      refine dispatchLoop_populating hpopulate hfields hall 0 (nodup_resolve _)
        ((R.getMethods_nodup hall).filter _) fun key _ ↦ ?_
      exact (overloadSet_methods hall key).symm

/-- The executables of a class, constructors first, are listed once. -/
theorem nodup_executables (c : Cls) :
    (overloadSet R c true "<init>" ++ filterOverridden R c ((R.getMethods c).getD [])).Nodup := by
  have hconstructors : (overloadSet R c true "<init>").Nodup ∧
      ∀ m ∈ overloadSet R c true "<init>", m.kind = .constructor := by
    rw [overloadSet, if_pos rfl]
    cases hdeclared : R.getDeclaredConstructors c with
    | none => exact ⟨List.nodup_nil, fun _ h ↦ absurd h List.not_mem_nil⟩
    | some declared =>
      exact ⟨(R.getDeclaredConstructors_nodup hdeclared).filter _, fun m hm ↦
        R.getDeclaredConstructors_kind hdeclared m (List.mem_of_mem_filter hm)⟩
  have hmethods : (filterOverridden R c ((R.getMethods c).getD [])).Nodup ∧
      ∀ m ∈ filterOverridden R c ((R.getMethods c).getD []), m.kind ≠ .constructor := by
    cases hall : R.getMethods c with
    | none => exact ⟨List.nodup_nil, fun _ h ↦ absurd h List.not_mem_nil⟩
    | some all =>
      exact ⟨(R.getMethods_nodup hall).filter _, fun m hm ↦
        R.getMethods_kind hall m (List.mem_of_mem_filter hm)⟩
  refine hconstructors.1.append hmethods.1 fun m hm hm' ↦ ?_
  exact hmethods.2 m hm' (hconstructors.2 m hm)

omit [DecidableEq Cls] in
theorem assignMembers_quiet (c : Cls) (s : TypeManager Cls) :
    Triple (Quiet s) (assignMembers c) (fun _ ↦ Quiet s)
      fun e s' ↦ e ≠ .danglingPointer ∧ Quiet s s' := by
  refine Triple.modify fun s' hq ↦ hq.trans ?_
  split
  · exact Quiet.refl s'
  · exact ⟨rfl, rfl, le_rfl, fun _ ↦ id, fun _ ↦ rfl, fun _ ↦ rfl⟩

theorem createMembers_sound {populate : Cls → ManagerM Cls Unit}
    (hpopulate : ∀ c', Harmless R (populate c')) (hs : Sound R s) (hknown : s.classMap c ≠ none)
    (hfields : s.fields c = none) :
    Triple (· = s) (createMembers R populate fuel c) (fun _ s' ↦ Sound R s' ∧ Grows s s')
      (Broken R s) := by
  refine Triple.bind (createFields_populating hs hknown hfields (overloadSet R c true "<init>" ++
    filterOverridden R c ((R.getMethods c).getD []))) fun _ ↦ ?_
  refine Triple.bind (createConstructorDispatch_populating hfields (nodup_executables c)) fun _ ↦ ?_
  refine Triple.bind (createMethodDispatches_populating hpopulate hfields) fun _ ↦ ?_
  refine (Silent.populating (assignMembers_quiet c)).consequence (fun _ ↦ id) ?_ fun _ _ ↦ id
  exact fun _ s' hs' ↦ ⟨hs'.sound, hs'.grows⟩

/-- Populating a class, and with it the classes it inherits from, keeps the invariant. -/
theorem populateMembers_harmless (fuel : ℕ) : ∀ c, Harmless R (populateMembers R fuel c) := by
  induction fuel with
  | zero =>
    intro c s hs
    exact Triple.throw fun s' heq ↦ ⟨by decide, heq ▸ hs, heq ▸ Grows.refl s⟩
  | succ fuel ih =>
    intro c s hs
    refine Triple.get_bind fun s' heq ↦ ?_
    obtain rfl : s' = s := heq
    cases hdesc : s'.classMap c with
    | none => exact Triple.throw fun s heq ↦ ⟨by simp, heq ▸ hs, heq ▸ Grows.refl s'⟩
    | some desc =>
      dsimp only
      split_ifs with hfields
      · refine Triple.pure fun s heq ↦ ?_
        obtain rfl : s = s' := heq
        exact ⟨hs, Grows.refl s⟩
      · refine createMembers_sound ih hs (hdesc ▸ nofun) ?_
        rw [TypeManager.fields, hdesc]
        simpa using hfields

end Members

/-! ### Runs of the type manager -/

section Runs

variable {R} {s : TypeManager Cls}

theorem Harmless.settle {x : ManagerM Cls Unit} (hx : Harmless R x) (hs : Sound R s) :
    Sound R (settle x s) := by
  have hsound : Triple (· = s) x (fun _ ↦ Sound R) fun _ ↦ Sound R :=
    (hx s hs).consequence (fun _ ↦ id) (fun _ _ h ↦ h.1) fun _ _ h ↦ h.2.1
  have hexec := hsound.exec_snd rfl
  rw [JPype.settle]
  split
  · exact hs
  · rename_i hnot heq
    rwa [heq] at hexec

theorem Silent.harmless {x : ManagerM Cls Unit} (hx : Silent x) : Harmless R x := by
  intro s hs
  refine ((hx s).of_eq (Quiet.refl s)).consequence (fun _ ↦ id) ?_ ?_
  · exact fun _ s' hq ↦ ⟨hs.quiet hq, Grows.of_quiet hq⟩
  · exact fun _ s' hq ↦ ⟨hq.1, hs.quiet hq.2, Grows.of_quiet hq.2⟩

theorem createAnonymous_silent (c : Cls) (parent : ClassDescriptor Cls) :
    Silent (createAnonymous c parent) := by
  rw [createAnonymous]
  split_ifs
  · exact Silent.pure _
  · refine Silent.allocate.bind fun ptr ↦ Silent.bind ?_ fun _ ↦ Silent.pure _
    exact Silent.modifyDesc c (fun _ ↦ rfl) fun _ ↦ rfl

theorem findClass_silent (fuel : ℕ) (c : Cls) : Silent (findClass R fuel c) := by
  have hclassPtr : ∀ c, Silent (do return (← getClass R fuel c).classPtr : ManagerM Cls ℕ) :=
    fun c ↦ (getClass_silent fuel c).bind fun _ ↦ Silent.pure _
  rw [findClass]
  split_ifs
  · split
    · exact Silent.throw (by decide)
    · exact hclassPtr _
  · split
    · exact hclassPtr _
    · exact Silent.throw (by decide)
    · exact (getClass_silent fuel _).bind fun _ ↦ createAnonymous_silent _ _
  · exact hclassPtr c

theorem populateMethod_silent (fuel : ℕ) (m : Executable Cls) : Silent (populateMethod R fuel m) :=
  (Silent.mapM fun c _ ↦ getClass_silent fuel c).bind fun _ ↦ Silent.pure ()

theorem sound_serve (call : ℕ × ManagerCall Cls) (hs : Sound R s) : Sound R (serve R s call) := by
  obtain ⟨fuel, c | m | c⟩ := call
  · exact ((findClass_silent fuel c).bind fun _ ↦ Silent.pure ()).harmless.settle hs
  · exact (populateMethod_silent fuel m).harmless.settle hs
  · exact (populateMembers_harmless fuel c).settle hs

variable (R) in
theorem sound_new : Sound R (TypeManager.new : TypeManager Cls) where
  nextPtr_pos := Nat.one_pos
  ptr_pos _ he := absurd he List.not_mem_nil
  ptr_lt _ he := absurd he List.not_mem_nil
  ptr_inj _ he := absurd he List.not_mem_nil
  executable_inj _ he := absurd he List.not_mem_nil
  populated _ he := absurd he List.not_mem_nil
  defined _ _ hp := absurd hp List.not_mem_nil
  stored _ he := absurd he List.not_mem_nil
  complete _ he := absurd he List.not_mem_nil
  dispatches _ hd := absurd hd List.not_mem_nil

theorem createPrimitive_quiet (fuel : ℕ) (c boxed : Cls) :
    Triple (Quiet TypeManager.new) (createPrimitive R fuel c boxed) (fun _ ↦ Quiet TypeManager.new)
      fun e s ↦ e ≠ .danglingPointer ∧ Quiet TypeManager.new s :=
  (getClass_silent fuel boxed _).bind fun _ ↦
    (cacheWrapper_quiet rfl rfl).bind fun _ ↦ Triple.pure fun _ hs ↦ hs

theorem init_quiet (fuel : ℕ) :
    Triple (Quiet TypeManager.new) (init R fuel) (fun _ ↦ Quiet TypeManager.new)
      fun e s ↦ e ≠ .danglingPointer ∧ Quiet TypeManager.new s := by
  have hcreate : ∀ c, Triple (Quiet TypeManager.new) (createClass R (getClass R fuel) c)
      (fun _ ↦ Quiet TypeManager.new) fun e s ↦ e ≠ .danglingPointer ∧ Quiet TypeManager.new s :=
    fun c ↦ createClass_quiet (getClass_silent fuel) rfl rfl
  refine (hcreate _).bind fun _ ↦ (Triple.mapM fun c _ ↦ hcreate c).bind fun _ ↦ ?_
  iterate 8 refine (createPrimitive_quiet fuel _ _).bind fun _ ↦ ?_
  exact createPrimitive_quiet fuel _ _

theorem sound_started (fuel : ℕ) : Sound R (started R fuel) := by
  have hquiet : Triple (Quiet TypeManager.new) (init R fuel) (fun _ ↦ Quiet TypeManager.new)
      fun _ ↦ Quiet TypeManager.new :=
    (init_quiet fuel).consequence (fun _ ↦ id) (fun _ _ ↦ id) fun _ _ h ↦ h.2
  exact (sound_new R).quiet (hquiet.exec_snd (Quiet.refl _))

theorem sound_run (fuel : ℕ) (calls : List (ℕ × ManagerCall Cls)) :
    Sound R (run (serve R) (started R fuel) calls) :=
  invariant_run (fun _ call hs ↦ sound_serve call hs) calls _ (sound_started fuel)

end Runs

/-! ### The two relations -/

section Hiding

open MethodResolution

variable {R} {s : TypeManager Cls}

/-- The stored relation is the relation of the executables, as far as the class that declares the
first one knows the second one. -/
theorem Sound.checkMoreSpecificThan_iff (h : Sound R s) {e₁ e₂ : Executable Cls × JPMethod Cls}
    (h₁ : e₁ ∈ s.methods) (h₂ : e₂ ∈ s.methods) :
    e₁.2.checkMoreSpecificThan e₂.2 = true ↔
      isStrictlyMoreSpecificThan R e₁.1 e₂.1 = true ∧ e₂.1 ∈ declaredAmong R e₁.1 := by
  rw [JPMethod.checkMoreSpecificThan, List.contains_iff_mem]
  constructor
  · intro hmem
    obtain ⟨m, ⟨e, he, rfl, hptr⟩, hamong, hspec⟩ := h.stored e₁ h₁ _ hmem
    obtain rfl := h.ptr_inj e he e₂ h₂ hptr
    exact ⟨hspec, hamong⟩
  · rintro ⟨hspec, hamong⟩
    obtain ⟨ptr, hptr, e, he, hm, rfl⟩ := h.complete e₁ h₁ e₂.1 hamong hspec
    obtain rfl := h.executable_inj e he e₂ h₂ hm
    exact hptr

/-- Two overloads of a dispatch compare natively as their executables do, exactly if the first is
not strictly more specific or its declaring class has the second among the overloads, too. -/
theorem hiding_iff (fuel : ℕ) (calls : List (ℕ × ManagerCall Cls)) {d : ℕ × JPMethodDispatch Cls}
    (hd : d ∈ (run (serve R) (started R fuel) calls).dispatches) {j₁ j₂ : JPMethod Cls}
    (h₁ : j₁ ∈ d.2.overloads) (h₂ : j₂ ∈ d.2.overloads) :
    ∃ m₁ m₂, (m₁, j₁) ∈ (run (serve R) (started R fuel) calls).methods ∧
      (m₂, j₂) ∈ (run (serve R) (started R fuel) calls).methods ∧
      (j₁.checkMoreSpecificThan j₂ = isStrictlyMoreSpecificThan R m₁ m₂ ↔
        isStrictlyMoreSpecificThan R m₁ m₂ = false ∨ m₂ ∈ declaredAmong R m₁) := by
  have hsound := sound_run (R := R) fuel calls
  obtain ⟨es, hes, hoverloads, -, -⟩ := hsound.dispatches d hd
  rw [hoverloads] at h₁ h₂
  obtain ⟨e₁, he₁, rfl⟩ := List.mem_map.1 h₁
  obtain ⟨e₂, he₂, rfl⟩ := List.mem_map.1 h₂
  refine ⟨e₁.1, e₂.1, hes he₁, hes he₂, ?_⟩
  have hiff := hsound.checkMoreSpecificThan_iff (hes he₁) (hes he₂)
  cases hspec : isStrictlyMoreSpecificThan R e₁.1 e₂.1 with
  | false =>
    rw [hspec] at hiff
    refine ⟨fun _ ↦ .inl rfl, fun _ ↦ ?_⟩
    exact Bool.eq_false_iff.2 fun htrue ↦ absurd (hiff.1 htrue).1 Bool.false_ne_true
  | true =>
    rw [hspec] at hiff
    rw [hiff]
    constructor
    · exact fun h ↦ .inr h.2
    · exact fun h ↦ ⟨rfl, h.resolve_left nofun⟩

end Hiding

/-! ### The order of the overloads -/

section Order

open MethodResolution

variable {R} {s : TypeManager Cls}

/-- A stored address is that of a native method that wraps a child. -/
theorem Sound.exists_stored (h : Sound R s) {e : Executable Cls × JPMethod Cls}
    (he : e ∈ s.methods) {ptr : ℕ} (hptr : ptr ∈ e.2.moreSpecificOverloads) :
    ptr ≠ 0 ∧ ∃ e' ∈ s.methods, e'.2.ptr = ptr ∧ isStrictlyMoreSpecificThan R e.1 e'.1 = true := by
  obtain ⟨m, ⟨e', he', rfl, rfl⟩, -, hspec⟩ := h.stored e he ptr hptr
  exact ⟨(h.ptr_pos e' he').ne', e', he', rfl, hspec⟩

/-- The native methods of a dispatch, with their executables: one that is strictly more specific
than another comes before it. -/
theorem Sound.exists_overloads (h : Sound R s) {d : ℕ × JPMethodDispatch Cls}
    (hd : d ∈ s.dispatches) :
    ∃ es, es ⊆ s.methods ∧ d.2.overloads = es.map (·.2) ∧
      ∀ (i j : ℕ) e₁ e₂, es[i]? = some e₁ → es[j]? = some e₂ →
        isStrictlyMoreSpecificThan R e₁.1 e₂.1 = true → i < j := by
  obtain ⟨es, hes, hoverloads, -, hsorted⟩ := h.dispatches d hd
  refine ⟨es, hes, hoverloads, fun i j e₁ e₂ hi hj hspec ↦ ?_⟩
  rcases Nat.lt_trichotomy i j with hlt | rfl | hgt
  · exact hlt
  · obtain rfl := Option.some.inj (hi.symm.trans hj)
    exact absurd hspec (by rw [isStrictlyMoreSpecificThan_self]; exact Bool.false_ne_true)
  · obtain ⟨hi', rfl⟩ := List.getElem?_eq_some_iff.1 hi
    obtain ⟨hj', rfl⟩ := List.getElem?_eq_some_iff.1 hj
    have hpair := List.pairwise_iff_getElem.1 (List.pairwise_map.1 hsorted) j i hj' hi' hgt
    exact absurd hspec (by rw [hpair]; exact Bool.false_ne_true)

end Order

/-- The sort puts every overload after its children, which are those that it is strictly more
specific than. So the native methods that are made in this order never store the address zero, and
a dispatch has an overload before those that it is strictly more specific than. -/
theorem sorted_consistently {Cls : Type} [DecidableEq Cls] (R : Reflection Cls) :
    (∀ fuel methods sorted, MethodResolution.sortMethods R fuel methods = some sorted →
      (sorted.map (·.executable)).Perm methods ∧
      ∀ done ov rest, sorted = done ++ ov :: rest →
        ov.children = methods.filter
          (MethodResolution.isStrictlyMoreSpecificThan R ov.executable) ∧
        ov.children.Subperm (done.map (·.executable))) ∧
    ∀ fuel (calls : List (ℕ × ManagerCall Cls)),
      (∀ e ∈ (run (serve R) (started R fuel) calls).methods,
        ∀ ptr ∈ e.2.moreSpecificOverloads, ptr ≠ 0 ∧
          ∃ e' ∈ (run (serve R) (started R fuel) calls).methods, e'.2.ptr = ptr ∧
            MethodResolution.isStrictlyMoreSpecificThan R e.1 e'.1 = true) ∧
      ∀ d ∈ (run (serve R) (started R fuel) calls).dispatches,
        ∃ es, es ⊆ (run (serve R) (started R fuel) calls).methods ∧
          d.2.overloads = es.map (·.2) ∧
          ∀ (i j : ℕ) e₁ e₂, es[i]? = some e₁ → es[j]? = some e₂ →
            MethodResolution.isStrictlyMoreSpecificThan R e₁.1 e₂.1 = true → i < j := by
  refine ⟨fun fuel methods sorted hsort ↦ ?_, fun fuel calls ↦ ?_⟩
  · refine ⟨MethodResolution.sortMethods_executables hsort, ?_⟩
    rintro done ov rest rfl
    have hmem : ov ∈ done ++ ov :: rest := List.mem_append_right done List.mem_cons_self
    have hordered := (MethodResolution.sortMethods_ordered hsort).children_subperm
    rw [List.nil_append] at hordered
    exact ⟨MethodResolution.children_of_sorted hsort hmem, hordered⟩
  · have hsound := sound_run (R := R) fuel calls
    exact ⟨fun e he ptr hptr ↦ hsound.exists_stored he hptr, fun d hd ↦ hsound.exists_overloads hd⟩

/-! ### A static method and a more general one in a subclass -/

/-- `class Parser { public static void parse(String s) }` and
`class LenientParser extends Parser { public static void parse(Object o) }`, with the classes that
these mention. -/
inductive ParserClass where
  | void
  | object
  | string
  | classClass
  | parser
  | lenientParser
  | other
  | primitive (type : PrimitiveType)
  | boxed (type : PrimitiveType)
  deriving DecidableEq

namespace ParserClass

/-- A public method of fixed arity. -/
def method (declaringClass : ParserClass) (kind : MethodKind) (returnType : ParserClass)
    (name : String) (parameterTypes : List ParserClass) : Executable ParserClass where
  name := name
  declaringClass := declaringClass
  parameterTypes := parameterTypes
  returnType := returnType
  kind := kind
  isPublic := true
  isVarArgs := false
  parameterTypes_ne_nil := nofun

/-- The public methods of `java.lang.Object`. -/
def objectMethods : List (Executable ParserClass) :=
  [method object .instanceMethod (primitive .int) "hashCode" [],
    method object .instanceMethod (primitive .boolean) "equals" [object],
    method object .instanceMethod string "toString" [],
    method object .instanceMethod classClass "getClass" [],
    method object .instanceMethod void "wait" [],
    method object .instanceMethod void "wait" [primitive .long],
    method object .instanceMethod void "wait" [primitive .long, primitive .int],
    method object .instanceMethod void "notify" [],
    method object .instanceMethod void "notifyAll" []]

/-- `Parser.parse` -/
def parse : Executable ParserClass := method parser .staticMethod void "parse" [string]

/-- `LenientParser.parse` -/
def parseAny : Executable ParserClass := method lenientParser .staticMethod void "parse" [object]

/-- `getDeclaredMethods` -/
def declaredMethods : ParserClass → List (Executable ParserClass)
  | object => objectMethods
  | parser => [parse]
  | lenientParser => [parseAny]
  | _ => []

/-- `getMethods`; the other classes show no methods here. -/
def methods : ParserClass → List (Executable ParserClass)
  | object => objectMethods
  | parser => parse :: objectMethods
  | lenientParser => parseAny :: parse :: objectMethods
  | _ => []

theorem methods_nodup (c : ParserClass) : (methods c).Nodup := by
  cases c with
  | object => decide +kernel
  | parser => decide +kernel
  | lenientParser => decide +kernel
  | _ => exact List.nodup_nil

theorem methods_kind (c : ParserClass) : ∀ m ∈ methods c, m.kind ≠ .constructor := by
  cases c <;> simp [methods, objectMethods, method, parse, parseAny]

/-- The virtual machine that has these classes. -/
def reflection : Reflection ParserClass where
  isPrimitive c :=
    match c with
    | primitive _ | void => true
    | _ => false
  isArray _ := false
  isSynthetic _ := false
  isAnonymousClass _ := false
  getSimpleName c :=
    match c with
    | object => "Object"
    | string => "String"
    | classClass => "Class"
    | parser => "Parser"
    | lenientParser => "LenientParser"
    | _ => "Other"
  getComponentType c := c
  isAssignableFrom c₁ c₂ :=
    match c₁, c₂ with
    | object, primitive _ | object, void => false
    | object, _ | parser, lenientParser => true
    | c₁, c₂ => c₁ = c₂
  getSuperclass c :=
    match c with
    | object | void | primitive _ => none
    | lenientParser => some parser
    | _ => some object
  getInterfaces _ := []
  getMethods c := some (methods c)
  getDeclaredMethods c := some (declaredMethods c)
  getDeclaredConstructors _ := some []
  getFields _ := some []
  getDeclaredFields _ := some []
  getMethod c name parameterTypes :=
    (methods c).find? fun m ↦ m.name = name && m.parameterTypes = parameterTypes
  toString m := m.name
  TYPE := primitive
  box := boxed
  voidTYPE := void
  literal name :=
    if name = "Object" then object
    else if name = "String" then string
    else if name = "Class" then classClass
    else other
  getMethods_nodup h := Option.some.inj h ▸ methods_nodup _
  getMethods_kind h := Option.some.inj h ▸ methods_kind _
  getDeclaredConstructors_nodup h := Option.some.inj h ▸ List.nodup_nil
  getDeclaredConstructors_kind h _ hm := absurd (Option.some.inj h ▸ hm) List.not_mem_nil
  getDeclaredConstructors_declaringClass h _ hm := absurd (Option.some.inj h ▸ hm) List.not_mem_nil

/-- `LenientParser` is found and its members are populated. -/
def populated : TypeManager ParserClass :=
  run (serve reflection) (started reflection 20)
    [(20, .findClass lenientParser), (20, .populateMembers lenientParser)]

/-- `parse(String)` is strictly more specific than `parse(Object)`, and the dispatch that has both
does not know it. -/
theorem parse_hides_nothing :
    ∃ d ∈ populated.dispatches, d.2.declaringClass = lenientParser ∧
      ∃ e₁ ∈ populated.methods, ∃ e₂ ∈ populated.methods,
        e₁.2 ∈ d.2.overloads ∧ e₂.2 ∈ d.2.overloads ∧ e₁.1 = parse ∧ e₂.1 = parseAny ∧
        MethodResolution.isStrictlyMoreSpecificThan reflection e₁.1 e₂.1 = true ∧
        e₁.2.checkMoreSpecificThan e₂.2 = false := by
  decide +kernel

/-- Two overloads of `parse` there. -/
theorem parse_hiding : ∃ d ∈ populated.dispatches, d.2.name = "parse" ∧
    ∃ j₁ ∈ d.2.overloads, ∃ j₂ ∈ d.2.overloads, j₁ ≠ j₂ ∧ ∃ m₁ m₂,
      (m₁, j₁) ∈ populated.methods ∧ (m₂, j₂) ∈ populated.methods ∧
      (j₁.checkMoreSpecificThan j₂ = MethodResolution.isStrictlyMoreSpecificThan reflection m₁ m₂ ↔
        MethodResolution.isStrictlyMoreSpecificThan reflection m₁ m₂ = false ∨
          m₂ ∈ declaredAmong reflection m₁) := by
  have hd : ∃ d ∈ populated.dispatches, d.2.name = "parse" ∧
      ∃ j₁ ∈ d.2.overloads, ∃ j₂ ∈ d.2.overloads, j₁ ≠ j₂ := by
    decide +kernel
  obtain ⟨d, hd, hname, j₁, h₁, j₂, h₂, hne⟩ := hd
  exact ⟨d, hd, hname, j₁, h₁, j₂, h₂, hne, hiding_iff 20 _ hd h₁ h₂⟩

end ParserClass

end JPype
