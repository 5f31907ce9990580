import JPype.Foundation.Ownership
import JPype.Manager.Destroyer
import JPype.Overload.Completion

/-!
# Who destroys the native objects

The type manager stores the address of every native object that it asks the factory for in the
descriptor of a class, and `shutdown` destroys what the descriptors hold; the wrapper that anonymous
classes share is held by the descriptor of their superclass. Calls into the manager may fail at any
point, and leave objects behind that no descriptor holds; but no address gets into two places.
`Owned` says so of a state, `populateMembers_moves` keeps it, and `shutdown_destroys_once` follows:
nothing is destroyed twice, and nothing that is not an object.
-/

namespace JPype

open Foundation FaultyProgram Ownership

variable {Cls : Type}

/-- In how many places a descriptor holds an address. -/
def ClassDescriptor.holds (desc : ClassDescriptor Cls) (p : ℕ) : ℕ :=
  [desc.constructorDispatch].count p + (desc.constructors.getD []).count p +
    (desc.methodDispatch.getD []).count p + (desc.defined.map (·.2)).count p +
    (desc.fields.getD []).count p + [desc.anonymous].count p + [desc.classPtr].count p

/-- In how many places the descriptor of a class holds an address. -/
def TypeManager.holds (s : TypeManager Cls) (c : Cls) (p : ℕ) : ℕ :=
  (s.classMap c).elim 0 (·.holds p)

/-- The methods of a descriptor lie in its arrays. -/
def ClassDescriptor.Arrayed (desc : ClassDescriptor Cls) : Prop :=
  desc.capacity = none → desc.defined = []

/-- Every address is in one place at most, among those of the descriptors and the list of those that
are still held by a call; and all of them are of objects. -/
structure Owned (loose : List ℕ) (s : TypeManager Cls) : Prop where
  nextPtr_pos : 0 < s.nextPtr
  once : ∀ c p, p ≠ 0 → s.holds c p + loose.count p ≤ 1
  apart : ∀ c c' p, p ≠ 0 → c ≠ c' → s.holds c p + s.holds c' p ≤ 1
  made : ∀ c p, s.nextPtr ≤ p → s.holds c p = 0 ∧ loose.count p = 0
  arrayed : ∀ c desc, s.classMap c = some desc → desc.Arrayed

section State

variable {loose taken : List ℕ} {s s' : TypeManager Cls}

/-- An address that is held by no call any more may be lost. -/
theorem Owned.forget {kept : List ℕ} (hkept : kept.Subperm loose) (h : Owned loose s) :
    Owned kept s where
  nextPtr_pos := h.nextPtr_pos
  once c p hp := by
    have := h.once c p hp
    have := hkept.count_le p
    omega
  apart := h.apart
  made c p hp := by
    obtain ⟨hholds, hloose⟩ := h.made c p hp
    have := hkept.count_le p
    exact ⟨hholds, by omega⟩
  arrayed := h.arrayed

/-- A new object is held by the call that has made it. -/
theorem Owned.allocate (h : Owned loose s) (hmap : s'.classMap = s.classMap)
    (hnext : s'.nextPtr = s.nextPtr + 1) : Owned (loose ++ [s.nextPtr]) s' := by
  have hholds : s'.holds = s.holds := by
    funext c p
    rw [TypeManager.holds, hmap]
    rfl
  refine ⟨by omega, fun c p hp ↦ ?_, hholds ▸ h.apart, fun c p hp ↦ ?_, hmap ▸ h.arrayed⟩
  · rw [hholds, List.count_append, List.count_singleton]
    have honce := h.once c p hp
    have hmade := h.made c p
    rcases Nat.lt_or_ge p s.nextPtr with hlt | hge
    · rw [if_neg (by simpa using Nat.ne_of_gt hlt)]
      exact honce
    · obtain ⟨hc, hl⟩ := hmade hge
      rw [hc, hl]
      split <;> omega
  · obtain ⟨hc, hl⟩ := h.made c p (by omega)
    rw [hholds, List.count_append, List.count_singleton, hl, if_neg (by simp; omega)]
    exact ⟨hc, rfl⟩

variable [DecidableEq Cls]

/-- A descriptor takes addresses that the call holds. -/
theorem Owned.update (h : Owned (loose ++ taken) s) {c : Cls} {desc : ClassDescriptor Cls}
    (hholds : ∀ p, p ≠ 0 → desc.holds p ≤ s.holds c p + taken.count p) (harrayed : desc.Arrayed) :
    Owned loose (s.update c (some desc)) := by
  have hself : ∀ p, (s.update c (some desc)).holds c p = desc.holds p := fun p ↦ by
    rw [TypeManager.holds, TypeManager.classMap_update, Function.update_self]
    rfl
  have hother : ∀ c', c' ≠ c → ∀ p, (s.update c (some desc)).holds c' p = s.holds c' p :=
    fun c' hc' p ↦ by
      rw [TypeManager.holds, TypeManager.classMap_update, Function.update_of_ne hc']
      rfl
  have honce : ∀ c' p, p ≠ 0 → s.holds c' p + (loose.count p + taken.count p) ≤ 1 :=
    fun c' p hp ↦ by
      rw [← List.count_append]
      exact h.once c' p hp
  -- of the three that hold an address no two do
  have hnew : ∀ c' p, p ≠ 0 → c' ≠ c → desc.holds p + s.holds c' p ≤ 1 := fun c' p hp hc' ↦ by
    have := hholds p hp
    have := h.apart c' c p hp hc'
    have := honce c p hp
    have := honce c' p hp
    omega
  refine ⟨h.nextPtr_pos, fun c' p hp ↦ ?_, fun c₁ c₂ p hp hne ↦ ?_, fun c' p hp ↦ ?_,
    fun c' desc' hdesc' ↦ ?_⟩
  · have := honce c' p hp
    by_cases hc' : c' = c
    · obtain rfl := hc'
      have := hholds p hp
      rw [hself]
      omega
    · rw [hother c' hc']
      omega
  · by_cases h₁ : c₁ = c
    · obtain rfl := h₁
      rw [hself, hother c₂ hne.symm]
      exact hnew c₂ p hp hne.symm
    · rw [hother c₁ h₁]
      by_cases h₂ : c₂ = c
      · obtain rfl := h₂
        rw [hself, Nat.add_comm]
        exact hnew c₁ p hp h₁
      · rw [hother c₂ h₂]
        exact h.apart c₁ c₂ p hp hne
  · have hpos := h.nextPtr_pos
    have hp : s.nextPtr ≤ p := hp
    obtain ⟨hzero, hcount⟩ := h.made c' p hp
    rw [List.count_append] at hcount
    refine ⟨?_, by omega⟩
    by_cases hc' : c' = c
    · obtain rfl := hc'
      have := hholds p (by omega)
      rw [hself]
      omega
    · rw [hother c' hc', hzero]
  · by_cases hc' : c' = c
    · obtain rfl := hc'
      rw [TypeManager.classMap_update, Function.update_self] at hdesc'
      obtain rfl := Option.some.inj hdesc'
      exact harrayed
    · rw [TypeManager.classMap_update, Function.update_of_ne hc'] at hdesc'
      exact h.arrayed c' desc' hdesc'

/-- The same of a descriptor that is changed, if there is one. -/
theorem Owned.modifyDesc (h : Owned (loose ++ taken) s) (c : Cls)
    {f : ClassDescriptor Cls → ClassDescriptor Cls}
    (hholds : ∀ desc p, p ≠ 0 → (f desc).holds p ≤ desc.holds p + taken.count p)
    (harrayed : ∀ desc, s.classMap c = some desc → desc.Arrayed → (f desc).Arrayed) :
    Owned loose (s.modifyDesc c f) := by
  cases hdesc : s.classMap c with
  | none =>
    have hsame : s.modifyDesc c f = s := by
      rw [TypeManager.modifyDesc, hdesc, Option.map_none, ← hdesc, Function.update_eq_self]
    rw [hsame]
    exact h.forget (List.sublist_append_left loose taken).subperm
  | some desc =>
    rw [TypeManager.modifyDesc, hdesc]
    refine h.update (fun p hp ↦ ?_) (harrayed desc hdesc (h.arrayed c desc hdesc))
    rw [TypeManager.holds, hdesc]
    exact hholds desc p hp

end State

/-- The addresses that a call into the type manager holds. -/
def owned : Ownership (TypeManager Cls) ℕ where
  Owns := Owned
  forget := Owned.forget

/-! ### The type factory and the descriptors -/

section Steps

variable {taken : List ℕ}

/-- A new object has an address that nothing holds. -/
theorem allocate_moves : Moves owned [] (allocate : ManagerM Cls ℕ) fun ptr ↦ [ptr] :=
  fun _ ↦ Triple.modifyGet fun s h ↦ by
    rw [List.append_nil] at h
    exact Owned.allocate h rfl rfl

/-- The factory makes an object for a field. -/
theorem defineField_moves (cls : Cls) (field : Field Cls) :
    Moves owned [] (defineField cls field : ManagerM Cls ℕ) fun ptr ↦ [ptr] :=
  fun _ ↦ Triple.modifyGet fun s h ↦ by
    rw [List.append_nil] at h
    exact Owned.allocate h rfl rfl

/-- The factory makes an object for a method or a constructor. -/
theorem defineMethod_moves [DecidableEq Cls] (R : Reflection Cls) (cls : Cls)
    (executable : Executable Cls) (precedencePtrs : List ℕ) :
    Moves owned [] (defineMethod R cls executable precedencePtrs) fun ptr ↦ [ptr] :=
  fun _ ↦ Triple.modifyGet fun s h ↦ by
    rw [List.append_nil] at h
    exact Owned.allocate h rfl rfl

/-- The factory makes an object for a dispatch, of methods that there are. -/
theorem defineMethodDispatch_moves [DecidableEq Cls] (cls : Cls) (name : String)
    (overloadPtrs : List ℕ) (isConstructor : Bool) :
    Moves owned [] (defineMethodDispatch cls name overloadPtrs isConstructor : ManagerM Cls ℕ)
      fun ptr ↦ [ptr] := by
  refine Moves.get.bind fun s ↦ ?_
  cases overloadPtrs.mapM s.methodAt with
  | none => exact .throw _
  | some overloads =>
    exact fun _ ↦ Triple.modifyGet fun s h ↦ by
      rw [List.append_nil] at h
      exact Owned.allocate h rfl rfl

/-- The members of a class are assigned, and no address moves. -/
theorem assignMembers_moves (c : Cls) :
    Moves owned [] (assignMembers c : ManagerM Cls Unit) fun _ ↦ [] :=
  fun _ ↦ Triple.modify fun s h ↦ by
    dsimp only
    split
    · exact h
    · exact ⟨h.nextPtr_pos, h.once, h.apart, h.made, h.arrayed⟩

variable [DecidableEq Cls]

/-- A change of a descriptor that adds no address but those that are taken. -/
theorem modifyDesc_moves (c : Cls) {f : ClassDescriptor Cls → ClassDescriptor Cls}
    (hholds : ∀ desc p, p ≠ 0 → (f desc).holds p ≤ desc.holds p + taken.count p)
    (harrayed : ∀ desc : ClassDescriptor Cls, desc.Arrayed → (f desc).Arrayed) :
    Moves owned taken (modify (·.modifyDesc c f) : ManagerM Cls Unit) fun _ ↦ [] :=
  fun _ ↦ Triple.modify fun s h ↦ by
    rw [List.append_nil]
    exact Owned.modifyDesc h c hholds fun desc _ ↦ harrayed desc

/-- The bare descriptor of a new class takes the place of another, if there is one. -/
theorem put_moves (c : Cls) (classPtr : ℕ) :
    Moves owned [classPtr] (modify (·.put c { classPtr }) : ManagerM Cls Unit) fun _ ↦ [] :=
  fun _ ↦ Triple.modify fun s h ↦ by
    rw [List.append_nil]
    refine Owned.update h (fun p hp ↦ ?_) fun _ ↦ rfl
    have hzero : [0].count p = 0 := List.count_eq_zero.2 (by simpa using hp)
    simp [ClassDescriptor.holds, hzero]

theorem cacheWrapper_moves (c : Cls) :
    Moves owned [] (cacheWrapper c : ManagerM Cls (ClassDescriptor Cls)) fun _ ↦ [] :=
  allocate_moves.bind fun classPtr ↦ (put_moves c classPtr).bind fun _ ↦ .pure _ rfl

/-- The address of a method goes into the array of methods. -/
theorem storeMethod_moves (c : Cls) (method : Executable Cls) (ptr : ℕ) :
    Moves owned [ptr] (storeMethod c method ptr : ManagerM Cls Unit) fun _ ↦ [] := by
  have hthrow : ∀ e, Moves owned [ptr] (throw e : ManagerM Cls Unit) fun _ ↦ [] := fun e ↦ .throw e
  refine fun loose ↦ Triple.get_bind fun s hs ↦ ?_
  cases hdesc : s.classMap c with
  | none => exact (hthrow _ loose).of_eq hs
  | some desc =>
    cases hcapacity : desc.capacity with
    | none =>
      dsimp only
      rw [hcapacity]
      exact (hthrow _ loose).of_eq hs
    | some length =>
      dsimp only
      rw [hcapacity]
      dsimp only
      split
      · refine Triple.modify fun s' heq ↦ ?_
        obtain rfl : s' = s := heq
        rw [List.append_nil]
        refine Owned.modifyDesc hs c (fun desc p _ ↦ ?_) fun desc' hdesc' _ hnone ↦ ?_
        · simp only [ClassDescriptor.holds, List.map_append, List.map_singleton,
            List.count_append]
          omega
        · obtain rfl := Option.some.inj (hdesc.symm.trans hdesc')
          exact absurd (hcapacity.symm.trans hnone) (Option.some_ne_none _)
      · exact (hthrow _ loose).of_eq hs

end Steps

/-! ### The start -/

section Start

variable [DecidableEq Cls] {R : Reflection Cls}

/-- A class is created after the classes that it needs, if they can be loaded. -/
theorem createClass_moves {load : Cls → ManagerM Cls (ClassDescriptor Cls)}
    (hload : ∀ c, Moves owned [] (load c) fun _ ↦ []) (c : Cls) :
    Moves owned [] (createClass R load c) fun _ ↦ [] := by
  rw [createClass]
  split_ifs
  · exact (hload _).bind fun _ ↦ cacheWrapper_moves c
  · rw [createOrdinaryClass]
    split_ifs
    · exact .throw _
    · exact (Moves.mapM_nil hload _).bind fun _ ↦ cacheWrapper_moves c

theorem getClass_moves (fuel : ℕ) : ∀ c, Moves owned [] (getClass R fuel c) fun _ ↦ [] := by
  induction fuel with
  | zero => exact fun _ ↦ .throw _
  | succ fuel ih =>
    intro c
    refine Moves.get.bind fun s ↦ ?_
    cases s.classMap c with
    | none => exact createClass_moves ih c
    | some desc => exact .pure desc rfl

theorem createPrimitive_moves (fuel : ℕ) (c boxed : Cls) :
    Moves owned [] (createPrimitive R fuel c boxed) fun _ ↦ [] :=
  (getClass_moves fuel boxed).bind fun _ ↦ (cacheWrapper_moves c).bind fun _ ↦ .pure _ rfl

/-- The first classes are created one after the other. -/
theorem init_moves (fuel : ℕ) : Moves owned [] (init R fuel) fun _ ↦ [] := by
  have hcreate : ∀ c, Moves owned [] (createClass R (getClass R fuel) c) fun _ ↦ [] :=
    createClass_moves (getClass_moves fuel)
  refine (hcreate _).bind fun _ ↦ (Moves.mapM_nil hcreate _).bind fun _ ↦ ?_
  iterate 8 refine (createPrimitive_moves fuel _ _).bind fun _ ↦ ?_
  exact createPrimitive_moves fuel _ _

omit [DecidableEq Cls] in
/-- A manager that is new holds nothing. -/
theorem owned_new : Owned [] (TypeManager.new : TypeManager Cls) where
  nextPtr_pos := Nat.one_pos
  once _ _ _ := Nat.zero_le _
  apart _ _ _ _ _ := Nat.zero_le _
  made _ _ _ := ⟨rfl, rfl⟩
  arrayed _ _ h := absurd h (Option.some_ne_none _).symm

/-- Nor does one that has been started hold anything twice. -/
theorem owned_started (fuel : ℕ) : Owned [] (started R fuel) :=
  (init_moves fuel).exec_snd owned_new

end Start

/-! ### Calls that fail -/

namespace Faulty

variable [DecidableEq Cls] {R : Reflection Cls} {faults : ℕ → Option JavaError} {α : Type}

omit [DecidableEq Cls] in
theorem reflect_moves (a : α) :
    Moves owned.counted [] (reflect faults a : FaultyM Cls α) fun _ ↦ [] := by
  refine Moves.call ?_ faults
  exact .pure a rfl

omit [DecidableEq Cls] in
/-- A question to reflection moves nothing, also where it fails. -/
theorem query_moves (answer : Option α) :
    Moves owned.counted [] (query faults answer : FaultyM Cls α) fun _ ↦ [] := by
  refine (reflect_moves answer).bind fun answer ↦ ?_
  cases answer with
  | none => exact .throw _
  | some a => exact .pure a rfl

theorem cacheWrapper_moves (c : Cls) :
    Moves owned.counted [] (cacheWrapper faults c) fun _ ↦ [] :=
  (Moves.call allocate_moves faults).bind fun classPtr ↦
    (Moves.step (put_moves c classPtr)).bind fun _ ↦ .pure _ rfl

theorem getClass_moves (fuel : ℕ) :
    ∀ c, Moves owned.counted [] (getClass R faults fuel c) fun _ ↦ [] := by
  induction fuel with
  | zero => exact fun _ ↦ .throw _
  | succ fuel ih =>
    intro c
    refine (Moves.step Moves.get).bind fun s ↦ ?_
    cases s.classMap c with
    | some desc => exact .pure desc rfl
    | none =>
      refine (reflect_moves _).bind fun harray ↦ ?_
      split_ifs
      · exact (reflect_moves _).bind fun _ ↦ (ih _).bind fun _ ↦ cacheWrapper_moves c
      · refine (query_moves _).bind fun _ ↦ (query_moves _).bind fun _ ↦ ?_
        refine (reflect_moves _).bind fun superClass ↦ (reflect_moves _).bind fun interfaces ↦ ?_
        refine (Moves.mapM_nil ih _).bind fun _ ↦ ?_
        exact (reflect_moves _).bind fun _ ↦ cacheWrapper_moves c

/-- The wrapper of anonymous classes goes into the descriptor of the superclass. -/
theorem createAnonymous_moves (c : Cls) (parent : ClassDescriptor Cls) :
    Moves owned.counted [] (createAnonymous faults c parent) fun _ ↦ [] := by
  rw [createAnonymous]
  split_ifs
  · exact .pure _ rfl
  · refine (reflect_moves ()).bind fun _ ↦ (Moves.call allocate_moves faults).bind fun ptr ↦ ?_
    have hset : Moves owned [ptr] (modify (·.modifyDesc c fun desc ↦
        { desc with anonymous := ptr }) : ManagerM Cls Unit) fun _ ↦ [] := by
      refine modifyDesc_moves c (fun desc p _ ↦ ?_) fun desc ↦ id
      simp only [ClassDescriptor.holds]
      omega
    exact (Moves.step hset).bind fun _ ↦ .pure ptr rfl

/-- The only object that `findClass` makes, but for those of classes, is kept by the descriptor of a
superclass. -/
theorem findClass_moves (fuel : ℕ) (c : Cls) :
    Moves owned.counted [] (findClass R faults fuel c) fun _ ↦ [] := by
  have hclassPtr : ∀ c, Moves owned.counted []
      (do return (← getClass R faults fuel c).classPtr : FaultyM Cls ℕ) fun _ ↦ [] :=
    fun c ↦ (getClass_moves fuel c).bind fun _ ↦ .pure _ rfl
  refine (reflect_moves _).bind fun isLambda ↦ ?_
  split_ifs
  · refine (reflect_moves _).bind fun interfaces ↦ ?_
    split
    · exact .throw _
    · exact hclassPtr _
  · refine (reflect_moves _).bind fun isAnonymousClass ↦ ?_
    split_ifs
    · refine (reflect_moves _).bind fun interfaces ↦ ?_
      split
      · refine (reflect_moves _).bind fun interfaces ↦ ?_
        split
        · exact .throw _
        · exact hclassPtr _
      · refine (reflect_moves _).bind fun superclass ↦ ?_
        split
        · exact .throw _
        · exact (getClass_moves fuel _).bind fun _ ↦ createAnonymous_moves _ _
    · exact hclassPtr c

/-- The classes of a signature are looked up, and no address moves. -/
theorem populateMethod_moves (fuel : ℕ) (m : Executable Cls) :
    Moves owned.counted [] (populateMethod R faults fuel m) fun _ ↦ [] :=
  (reflect_moves _).bind fun _ ↦ (Moves.mapM_nil (getClass_moves fuel) _).bind fun _ ↦ .pure () rfl

/-- The objects of the fields are taken by the descriptor all at once. -/
theorem createFields_moves (fuel : ℕ) (c : Cls) :
    Moves owned.counted [] (createFields R faults fuel c) fun _ ↦ [] := by
  refine (query_moves _).bind fun declared ↦ ?_
  have hturn : ∀ field, Moves owned.counted [] (createField R faults fuel c field)
      fun ptr ↦ [ptr] := fun field ↦
    (reflect_moves _).bind fun type ↦ (getClass_moves fuel type).bind fun _ ↦
      Moves.call (defineField_moves c field) faults
  refine (Moves.mapM hturn _).bind fun fieldPtr ↦ Moves.step ?_
  rw [List.flatMap_singleton']
  refine modifyDesc_moves c (fun desc p _ ↦ ?_) fun desc ↦ id
  simp only [ClassDescriptor.holds, Option.getD_some]
  omega

/-- The constructors are held by the call until they are stored. -/
theorem createConstructors_moves (c : Cls) (overloads : List (MethodResolution Cls)) :
    ∀ ptrs out, Moves owned.counted out (createConstructors R faults c overloads ptrs out) id := by
  induction overloads with
  | nil => exact fun ptrs out ↦ .pure out rfl
  | cons ov overloads ih =>
    intro ptrs out
    have hdefine := (Moves.call (defineMethod_moves R c ov.executable (precedencePtrs ptrs ov))
      faults).frame out
    exact hdefine.bind fun ptr ↦
      (ih _ _).of_subperm (List.perm_append_singleton ptr out).symm.subperm

/-- They are stored together, and so is their dispatch. -/
theorem createConstructorDispatch_moves (fuel : ℕ) (c : Cls) :
    Moves owned.counted [] (createConstructorDispatch R faults fuel c) fun _ ↦ [] := by
  refine (query_moves _).bind fun declared ↦ ?_
  dsimp only
  split_ifs
  · exact .pure () rfl
  · refine (reflect_moves _).bind fun _ ↦ ?_
    cases MethodResolution.sortMethods R fuel (declared.filter (·.isPublic)) with
    | none => exact .throw _
    | some overloads =>
      refine (createConstructors_moves c overloads [] []).bind fun ptrs ↦ ?_
      refine (Moves.step (modifyDesc_moves c ?_ ?_)).bind fun _ ↦
        (Moves.call (defineMethodDispatch_moves c "<init>" ptrs true) faults).bind fun dispatch ↦
          Moves.step (modifyDesc_moves c ?_ ?_)
      · intro desc p _
        simp only [ClassDescriptor.holds, Option.getD_some, id]
        omega
      · exact fun desc ↦ id
      · intro desc p _
        simp only [ClassDescriptor.holds]
        omega
      · exact fun desc ↦ id

/-! ### Methods -/

variable {populate : Cls → FaultyM Cls Unit}

/-- The method of another class stays with that class. -/
theorem inheritedMethod_moves (hpopulate : ∀ c, Moves owned.counted [] (populate c) fun _ ↦ [])
    (method : Executable Cls) :
    Moves owned.counted [] (inheritedMethod populate method) fun _ ↦ [] := by
  refine (hpopulate _).bind fun _ ↦ (Moves.step Moves.get).bind fun s ↦ ?_
  cases s.classMap method.declaringClass with
  | none => exact .throw _
  | some desc =>
    dsimp only
    cases desc.getMethod method with
    | error e => exact .throw _
    | ok ptr =>
      dsimp only
      split_ifs
      · exact .throw _
      · exact .pure ptr rfl

/-- A method is stored as soon as it is made. -/
theorem createMethods_moves (hpopulate : ∀ c, Moves owned.counted [] (populate c) fun _ ↦ [])
    (c : Cls) (overloads : List (MethodResolution Cls)) :
    ∀ ptrs out, Moves owned.counted [] (createMethods R faults populate c overloads ptrs out)
      fun _ ↦ [] := by
  induction overloads with
  | nil => exact fun ptrs out ↦ .pure out rfl
  | cons ov overloads ih =>
    intro ptrs out
    rw [createMethods]
    split_ifs
    · exact (inheritedMethod_moves hpopulate _).bind fun ptr ↦ ih _ _
    · refine (reflect_moves _).bind fun _ ↦ ?_
      refine (Moves.call (defineMethod_moves R c ov.executable (precedencePtrs ptrs ov))
        faults).bind fun ptr ↦ ?_
      exact (Moves.step (storeMethod_moves c ov.executable ptr)).bind fun _ ↦ ih _ _

/-- A dispatch is held by the call that makes it. -/
theorem createMethodDispatch_moves
    (hpopulate : ∀ c, Moves owned.counted [] (populate c) fun _ ↦ []) (fuel : ℕ) (c : Cls)
    (key : String) (candidates : List (Executable Cls)) :
    Moves owned.counted [] (createMethodDispatch R faults populate fuel c key candidates)
      fun dispatch ↦ [dispatch.1] := by
  refine (reflect_moves _).bind fun _ ↦ ?_
  cases MethodResolution.sortMethods R fuel (candidates.filter (·.name = key)) with
  | none => exact .throw _
  | some overloads =>
    refine (createMethods_moves hpopulate c overloads [] []).bind fun ptrs ↦ ?_
    exact (Moves.call (defineMethodDispatch_moves c key ptrs false) faults).bind
      fun container ↦ .pure _ rfl

/-- A place of an array takes an address, and gives up the one it had. -/
theorem count_set_le (l : List ℕ) (i p ptr : ℕ) :
    (l.set i ptr).count p ≤ l.count p + [ptr].count p := by
  induction l generalizing i with
  | nil => exact Nat.zero_le _
  | cons a l ih =>
    cases i with
    | zero => simp only [List.set_cons_zero, List.count_cons, List.count_nil]; omega
    | succ i =>
      have := ih i
      simp only [List.set_cons_succ, List.count_cons] at this ⊢
      omega

/-- Each dispatch is stored before the next one is made. -/
theorem dispatchLoop_moves (hpopulate : ∀ c, Moves owned.counted [] (populate c) fun _ ↦ [])
    (fuel : ℕ) (c : Cls) (names : List String) :
    ∀ i candidates, Moves owned.counted []
      (dispatchLoop R faults populate fuel c i names candidates) fun _ ↦ [] := by
  induction names with
  | nil => exact fun i candidates ↦ .pure () rfl
  | cons name names ih =>
    intro i candidates
    refine (createMethodDispatch_moves hpopulate fuel c name candidates).bind fun dispatch ↦ ?_
    obtain ⟨ptr, candidates⟩ := dispatch
    refine (Moves.step (modifyDesc_moves c ?_ ?_)).bind fun _ ↦ ih _ _
    · intro desc p _
      simp only [ClassDescriptor.holds]
      cases desc.methodDispatch with
      | none =>
        simp only [Option.map_none]
        omega
      | some ptrs =>
        have := count_set_le ptrs i p ptr
        simp only [Option.map_some, Option.getD_some]
        omega
    · exact fun desc ↦ id

theorem createMethodDispatches_moves
    (hpopulate : ∀ c, Moves owned.counted [] (populate c) fun _ ↦ []) (fuel : ℕ) (c : Cls) :
    Moves owned.counted [] (createMethodDispatches R faults populate fuel c) fun _ ↦ [] := by
  refine (query_moves _).bind fun all ↦ (reflect_moves _).bind fun _ ↦ ?_
  refine (query_moves _).bind fun declared ↦ (reflect_moves _).bind fun _ ↦ ?_
  refine (Moves.step (modifyDesc_moves c (fun desc p hp ↦ ?_) fun desc _ hnone ↦ ?_)).bind
    fun _ ↦ dispatchLoop_moves hpopulate fuel c _ _ _
  · -- the places of the new array are null
    have hzero : ∀ n, (List.replicate n 0).count p = 0 := fun n ↦
      List.count_eq_zero.2 fun hmem ↦ hp (List.eq_of_mem_replicate hmem)
    simp only [ClassDescriptor.holds, Option.getD_some, hzero]
    omega
  · exact absurd hnone (Option.some_ne_none _)

/-- No call gets an address into two places, however it ends. -/
theorem populateMembers_moves (fuel : ℕ) :
    ∀ c, Moves owned.counted [] (populateMembers R faults fuel c) fun _ ↦ [] := by
  induction fuel with
  | zero => exact fun c ↦ .throw _
  | succ fuel ih =>
    intro c
    refine (Moves.step Moves.get).bind fun s ↦ ?_
    cases s.classMap c with
    | none => exact .throw _
    | some desc =>
      dsimp only
      split_ifs
      · exact .pure () rfl
      · refine (createFields_moves fuel c).bind fun _ ↦ ?_
        refine (createConstructorDispatch_moves fuel c).bind fun _ ↦ ?_
        refine (createMethodDispatches_moves ih fuel c).bind fun _ ↦ ?_
        exact Moves.call (assignMembers_moves c) faults

omit [DecidableEq Cls] in
/-- A call that is broken off loses what it held. -/
theorem owned_settle {x : FaultyM Cls Unit} (hx : Moves owned.counted [] x fun _ ↦ [])
    {s : TypeManager Cls} (hs : Owned [] s) : Owned [] (settle x s) := by
  rcases settle_cases x s with hsame | ⟨outcome, t, hexec, -, hend⟩
  · rwa [hsame]
  · have hsnd := hx.exec_snd (s := (s, 0)) hs
    rw [hexec] at hsnd
    rwa [hend]

/-- So every call leaves each address in one place. -/
theorem owned_serve {s : TypeManager Cls} (hs : Owned [] s)
    (call : (ℕ → Option JavaError) × ℕ × ManagerCall Cls) : Owned [] (serve R s call) := by
  obtain ⟨faults, fuel, c | m | c⟩ := call
  · exact owned_settle ((findClass_moves fuel c).bind fun _ ↦ .pure _ rfl) hs
  · exact owned_settle (populateMethod_moves fuel m) hs
  · exact owned_settle (populateMembers_moves fuel c) hs

end Faulty

/-! ### Shutdown -/

/-- The descriptor with its arrays of pointers; the places of `methods` that are not filled are
null. -/
def ClassDescriptor.native (desc : ClassDescriptor Cls) : Manager.ClassDescriptor where
  constructorDispatch := Int64.ofNat desc.constructorDispatch
  constructors := desc.constructors.map (·.map Int64.ofNat)
  methodDispatch := desc.methodDispatch.map (·.map Int64.ofNat)
  methods := desc.capacity.map fun length ↦
    (desc.defined.map (·.2)).map Int64.ofNat ++ List.replicate (length - desc.defined.length) 0
  fields := desc.fields.map (·.map Int64.ofNat)
  anonymous := Int64.ofNat desc.anonymous
  classPtr := Int64.ofNat desc.classPtr

/-- The descriptors of these classes, by their number. -/
def TypeManager.descriptors (s : TypeManager Cls) (classes : List Cls) (i : ℕ) :
    Manager.ClassDescriptor :=
  ((classes[i]?.bind s.classMap).map (·.native)).getD .blank

/-- `shutdown`, where `classMap.values()` comes in the order of these classes. -/
def TypeManager.shutdown (s : TypeManager Cls) (classes : List Cls) :
    Manager.Destroyer.DestroyerProgram :=
  Manager.shutdown (s.descriptors classes) (List.range classes.length)

section Shutdown

/-- An address of 64 bits is told apart as a `long`. -/
theorem ofNat_inj {a p : ℕ} (ha : a < 2 ^ 64) (hp : p < 2 ^ 64) :
    Int64.ofNat a = Int64.ofNat p ↔ a = p := by
  refine ⟨fun h ↦ ?_, fun h ↦ h ▸ rfl⟩
  have hbits : BitVec.ofNat 64 a = BitVec.ofNat 64 p := congrArg Int64.toBitVec h
  have htoNat := congrArg BitVec.toNat hbits
  rwa [BitVec.toNat_ofNat, BitVec.toNat_ofNat, Nat.mod_eq_of_lt ha, Nat.mod_eq_of_lt hp] at htoNat

theorem ofNat_ne_zero {p : ℕ} (hp : p ≠ 0) (hlt : p < 2 ^ 64) : Int64.ofNat p ≠ 0 := fun h ↦
  hp ((ofNat_inj hlt (Nat.two_pow_pos 64)).1 h)

theorem count_map_ofNat {l : List ℕ} (hl : ∀ a, 2 ^ 64 ≤ a → l.count a = 0) {p : ℕ}
    (hp : p < 2 ^ 64) : (l.map Int64.ofNat).count (Int64.ofNat p) = l.count p := by
  induction l with
  | nil => rfl
  | cons a l ih =>
    have ha : a < 2 ^ 64 := Nat.lt_of_not_le fun hle ↦
      absurd (hl a hle) (List.count_pos_iff.2 List.mem_cons_self).ne'
    have hrest : ∀ b, 2 ^ 64 ≤ b → l.count b = 0 := fun b hb ↦
      Nat.eq_zero_of_le_zero ((List.sublist_cons_self a l).count_le b |>.trans (hl b hb).le)
    rw [List.map_cons, List.count_cons, List.count_cons, ih hrest]
    simp only [beq_iff_eq, ofNat_inj ha hp]

/-- How often the arrays and members of a descriptor have a pointer. -/
theorem descriptorCount_eq (entry : Manager.ClassDescriptor) (q : Manager.Pointer) : entry.count q =
    [entry.constructorDispatch].count q + (entry.constructors.getD []).count q +
      (entry.methodDispatch.getD []).count q + (entry.methods.getD []).count q +
      (entry.fields.getD []).count q + [entry.anonymous].count q + [entry.classPtr].count q := by
  simp only [Manager.ClassDescriptor.count, Manager.ClassDescriptor.ops, List.flatMap_cons,
    List.flatMap_nil, Manager.Destroyer.Op.pointers, List.count_append, List.append_nil]
  omega

/-- The pointers of the arrays are the addresses that the descriptor holds. -/
theorem ClassDescriptor.count_native {desc : ClassDescriptor Cls}
    (hholds : ∀ a, 2 ^ 64 ≤ a → desc.holds a = 0) (harrayed : desc.Arrayed) {p : ℕ} (hp : p ≠ 0)
    (hlt : p < 2 ^ 64) : desc.native.count (Int64.ofNat p) = desc.holds p := by
  have hnull := ofNat_ne_zero hp hlt
  simp only [holds, Nat.add_eq_zero_iff] at hholds
  have hsingle : ∀ a, (∀ b, 2 ^ 64 ≤ b → [a].count b = 0) →
      [Int64.ofNat a].count (Int64.ofNat p) = [a].count p :=
    fun a ha ↦ count_map_ofNat ha hlt
  have harray : ∀ array : Option (List ℕ), (∀ b, 2 ^ 64 ≤ b → (array.getD []).count b = 0) →
      ((array.map (·.map Int64.ofNat)).getD []).count (Int64.ofNat p) =
        (array.getD []).count p := by
    intro array harray
    cases array with
    | none => rfl
    | some l => exact count_map_ofNat harray hlt
  have hmethods : (desc.native.methods.getD []).count (Int64.ofNat p) =
      (desc.defined.map (·.2)).count p := by
    rw [native]
    cases hcapacity : desc.capacity with
    | none =>
      rw [harrayed hcapacity]
      rfl
    | some length =>
      have hzero : ∀ n, (List.replicate n (0 : Manager.Pointer)).count (Int64.ofNat p) = 0 :=
        fun n ↦ List.count_eq_zero.2 fun hmem ↦ hnull (List.eq_of_mem_replicate hmem)
      dsimp only [Option.map_some, Option.getD_some]
      rw [List.count_append, hzero, Nat.add_zero]
      exact count_map_ofNat (fun a ha ↦ (hholds a ha).1.1.1.2) hlt
  rw [descriptorCount_eq, hmethods]
  dsimp only [native]
  rw [hsingle _ fun a ha ↦ (hholds a ha).1.1.1.1.1.1,
    harray _ fun a ha ↦ (hholds a ha).1.1.1.1.1.2, harray _ fun a ha ↦ (hholds a ha).1.1.1.1.2,
    harray _ fun a ha ↦ (hholds a ha).1.1.2, hsingle _ fun a ha ↦ (hholds a ha).1.2,
    hsingle _ fun a ha ↦ (hholds a ha).2]
  rfl

variable {s : TypeManager Cls} {classes : List Cls}

/-- The descriptors that are not there hold nothing. -/
theorem count_descriptors (hs : Owned [] s) (hnext : s.nextPtr ≤ 2 ^ 64) {p : ℕ} (hp : p ≠ 0)
    (hlt : p < 2 ^ 64) (i : ℕ) : (s.descriptors classes i).count (Int64.ofNat p) =
      (classes[i]?.elim 0 fun c ↦ s.holds c p) := by
  rw [TypeManager.descriptors]
  cases hc : classes[i]? with
  | none => exact Manager.ClassDescriptor.count_blank (ofNat_ne_zero hp hlt)
  | some c =>
    rw [Option.bind_some, Option.elim_some, TypeManager.holds]
    cases hdesc : s.classMap c with
    | none => exact Manager.ClassDescriptor.count_blank (ofNat_ne_zero hp hlt)
    | some desc =>
      refine ClassDescriptor.count_native (fun a ha ↦ ?_) (hs.arrayed c desc hdesc) hp hlt
      have hmade := (hs.made c a (hnext.trans ha)).1
      rwa [TypeManager.holds, hdesc] at hmade

/-- Of an address in the descriptors, one class has it, and once. -/
theorem sum_holds (hs : Owned [] s) (hnodup : classes.Nodup) {p : ℕ} (hp : p ≠ 0) :
    (∑ i ∈ (List.range classes.length).toFinset, classes[i]?.elim 0 fun c ↦ s.holds c p) =
      if ∃ c ∈ classes, s.holds c p ≠ 0 then 1 else 0 := by
  split_ifs with hheld
  · obtain ⟨c, hc, hholds⟩ := hheld
    obtain ⟨k, hk, rfl⟩ := List.getElem_of_mem hc
    have hone : s.holds classes[k] p = 1 := by
      have := hs.once classes[k] p hp
      omega
    rw [Finset.sum_eq_single k]
    · rw [List.getElem?_eq_getElem hk, Option.elim_some, hone]
    · intro i hi hne
      have hlt : i < classes.length := by simpa using hi
      have hdiffer : classes[i] ≠ classes[k] := fun heq ↦ hne ((hnodup.getElem_inj_iff).1 heq)
      have := hs.apart classes[i] classes[k] p hp hdiffer
      rw [List.getElem?_eq_getElem hlt, Option.elim_some]
      omega
    · exact fun h ↦ absurd (by simpa using hk) h
  · refine Finset.sum_eq_zero fun i hi ↦ ?_
    have hlt : i < classes.length := by simpa using hi
    rw [List.getElem?_eq_getElem hlt, Option.elim_some]
    exact Classical.not_not.1 fun hne ↦ hheld ⟨_, List.getElem_mem hlt, hne⟩

/-- After every run of calls into the type manager, wherever calls failed, the shutdown destroys
each object that is held by a descriptor exactly once, and nothing else; and what it destroys are
objects that the factory has made. -/
theorem shutdown_destroys_once [DecidableEq Cls] (R : Reflection Cls) (fuel₀ : ℕ)
    (calls : List ((ℕ → Option JavaError) × ℕ × ManagerCall Cls))
    (hnodup : classes.Nodup)
    (hclasses : ∀ c, (run (Faulty.serve R) (started R fuel₀) calls).classMap c ≠ none ↔
      c ∈ classes)
    (hnext : (run (Faulty.serve R) (started R fuel₀) calls).nextPtr ≤ 2 ^ 64) :
    ∃ d, ((run (Faulty.serve R) (started R fuel₀) calls).shutdown classes).exec
        Manager.Destroyer.new = (.ok ⟨⟩, d) ∧
      ∀ p, p ≠ 0 → p < 2 ^ 64 →
        d.destroyed.count (Int64.ofNat p) ≤ 1 ∧
        (Int64.ofNat p ∈ d.destroyed ↔
          ∃ c, (run (Faulty.serve R) (started R fuel₀) calls).holds c p ≠ 0) ∧
        (Int64.ofNat p ∈ d.destroyed →
          p < (run (Faulty.serve R) (started R fuel₀) calls).nextPtr) := by
  have hs := invariant_run (fun s call (hs : Owned [] s) ↦ Faulty.owned_serve (R := R) hs call)
    calls (started R fuel₀) (owned_started fuel₀)
  generalize run (Faulty.serve R) (started R fuel₀) calls = s at hclasses hnext hs ⊢
  obtain ⟨d, hexec, hdestroyed⟩ := Manager.shutdown_destroys (s.descriptors classes)
    (List.range classes.length)
  refine ⟨d, hexec, fun p hp hlt ↦ ?_⟩
  have hcount : d.destroyed.count (Int64.ofNat p) =
      if ∃ c ∈ classes, s.holds c p ≠ 0 then 1 else 0 := by
    rw [hdestroyed _ (ofNat_ne_zero hp hlt), ← sum_holds hs hnodup hp]
    exact Finset.sum_congr rfl fun i _ ↦ count_descriptors hs hnext hp hlt i
  have hheld : (∃ c ∈ classes, s.holds c p ≠ 0) ↔ ∃ c, s.holds c p ≠ 0 := by
    refine ⟨fun ⟨c, _, h⟩ ↦ ⟨c, h⟩, fun ⟨c, h⟩ ↦ ⟨c, (hclasses c).1 fun hnone ↦ h ?_, h⟩⟩
    rw [TypeManager.holds, hnone]
    rfl
  have hmem : Int64.ofNat p ∈ d.destroyed ↔ ∃ c, s.holds c p ≠ 0 := by
    rw [← hheld, ← List.count_pos_iff, hcount]
    split_ifs with h <;> simp [h]
  refine ⟨?_, hmem, fun hp' ↦ ?_⟩
  · rw [hcount]
    split_ifs <;> simp
  · obtain ⟨c, hc⟩ := hmem.1 hp'
    exact Nat.lt_of_not_le fun hle ↦ hc (hs.made c p hle).1

end Shutdown

namespace ParserClass

/-- The classes, in an order of a hash map. -/
def all : List ParserClass :=
  [void, object, string, classClass, parser, lenientParser, other] ++
    [.boolean, .byte, .char, .short, .int, .long, .float, .double].flatMap fun type ↦
      [primitive type, boxed type]

/-- The manager after a population that the failure of a call broke off, with the classes that it
knows. -/
def brokenOff : TypeManager ParserClass :=
  run (Faulty.serve reflection) (started reflection 20) (interrupted 30)

theorem mem_all (c : ParserClass) : c ∈ all := by
  cases c with
  | primitive type => cases type <;> decide
  | boxed type => cases type <;> decide
  | _ => decide

/-- The known classes, in the order of `all`. -/
def known : List ParserClass :=
  all.filter fun c ↦ (brokenOff.classMap c).isSome

theorem known_nodup : known.Nodup :=
  List.Nodup.filter _ (by decide)

theorem mem_known (c : ParserClass) : brokenOff.classMap c ≠ none ↔ c ∈ known := by
  rw [known, List.mem_filter, Option.isSome_iff_ne_none]
  exact ⟨fun h ↦ ⟨mem_all c, h⟩, And.right⟩

/-- There are few objects. -/
theorem nextPtr_brokenOff : brokenOff.nextPtr ≤ 2 ^ 64 := by
  decide +kernel

/-- The shutdown after the population that was broken off. -/
theorem shutdown_destroys_brokenOff : ∃ d, (brokenOff.shutdown known).exec
    Manager.Destroyer.new = (.ok ⟨⟩, d) ∧ ∀ p, p ≠ 0 → p < 2 ^ 64 →
      d.destroyed.count (Int64.ofNat p) ≤ 1 ∧
      (Int64.ofNat p ∈ d.destroyed ↔ ∃ c, brokenOff.holds c p ≠ 0) ∧
      (Int64.ofNat p ∈ d.destroyed → p < brokenOff.nextPtr) := by
  have hshutdown := shutdown_destroys_once reflection 20 (interrupted 30) known_nodup
  rw [← brokenOff] at hshutdown
  exact hshutdown mem_known nextPtr_brokenOff

end ParserClass

end JPype
