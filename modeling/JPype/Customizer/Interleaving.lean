import JPype.Customizer.ClassHints
import JPype.Foundation.Operations
import JPype.Foundation.Runs
import Mathlib.Algebra.BigOperators.Group.Finset.Basic

/-!
# Registrations before and after the creation of classes

With all registrations made first, the dictionary of a class is the result of a sequence of
operations (`tableOps`): the members of its prototypes, then for each base, the most basic first,
its hooks and its sticky methods, and at the end the inner classes. A prototype that is registered
for a class that exists already performs its operations now, after all the others, and its sticky
methods not at all. `CommutesInto` says that it might as well have been in its place, and
`dict_eq_of_commutes` that if all late registrations commute so, the order of registrations and
creations does not matter.
-/

namespace JPype

open Foundation

variable {Cls Py Hook : Type}

/-! ### The parts of a prototype -/

/-- The sticky methods of a prototype. -/
def Prototype.sticky (proto : Prototype Py Hook) : List (ProtoMember Py) :=
  proto.members.filter fun member ↦ (member.joverride.map (·.sticky)).getD false

/-- What the other members of a prototype do to a table. -/
def Prototype.applyPlain (proto : Prototype Py Hook) (dict : AttributeTable Py) :
    AttributeTable Py :=
  proto.members.foldl (fun dict member ↦ (applyMember (dict, []) member).1) dict

theorem applyMember_eq (dict : AttributeTable Py) (sticky : List (ProtoMember Py))
    (member : ProtoMember Py) :
    applyMember (dict, sticky) member = ((applyMember (dict, []) member).1,
      sticky ++ if (member.joverride.map (·.sticky)).getD false then [member] else []) := by
  rw [applyMember, applyMember]
  cases member.joverride with
  | none => simp
  | some override => cases hsticky : override.sticky <;> simp [hsticky]

theorem foldl_applyMember (members : List (ProtoMember Py)) (dict : AttributeTable Py)
    (sticky : List (ProtoMember Py)) :
    members.foldl applyMember (dict, sticky) =
      (members.foldl (fun dict member ↦ (applyMember (dict, []) member).1) dict,
        sticky ++ members.filter fun member ↦ (member.joverride.map (·.sticky)).getD false) := by
  induction members generalizing dict sticky with
  | nil => simp
  | cons member members ih =>
    rw [List.foldl_cons, applyMember_eq, ih, List.foldl_cons, List.filter_cons]
    split <;> simp

theorem applyCustomizerImpl_eq (dict : AttributeTable Py) (proto : Prototype Py Hook)
    (sticky : List (ProtoMember Py)) (inits : List Hook) :
    applyCustomizerImpl dict proto sticky inits =
      (proto.applyPlain dict, sticky ++ proto.sticky, inits ++ proto.jclassInit.toList) := by
  rw [applyCustomizerImpl, foldl_applyMember]
  rfl

namespace Hierarchy

variable (H : Hierarchy Cls Py Hook)

/-! ### Operations -/

/-- The hooks registered for a class, with the prototypes in order. -/
def hooks (protos : List (Prototype Py Hook)) : List Hook :=
  protos.flatMap fun proto ↦ proto.jclassInit.toList

/-- The sticky methods registered for a class, with the prototypes in order. -/
def stickyMethods (protos : List (Prototype Py Hook)) : List (ProtoMember Py) :=
  protos.flatMap Prototype.sticky

/-- What the prototypes of a base do to a class. -/
def baseOps (protos : List (Prototype Py Hook)) (c : Cls) :
    List (AttributeTable Py → AttributeTable Py) :=
  (hooks protos).map (H.callHook · c) ++ (stickyMethods protos).map applyStickyMethod

/-- What the prototypes of the bases do to a class, the most basic first. -/
def initOps (implementations : Cls → List (Prototype Py Hook)) (c : Cls) :
    List (AttributeTable Py → AttributeTable Py) :=
  (H.mro c).reverse.flatMap fun base ↦ H.baseOps (implementations base) c

/-- The attachment of the inner classes. -/
def attachOps (c : Cls) : List (AttributeTable Py → AttributeTable Py) :=
  (H.innerClasses c).map fun (name, wrapper) ↦ setAttribute name wrapper

/-- All that happens to a class when everything is registered before it is created. -/
def tableOps (implementations : Cls → List (Prototype Py Hook)) (c : Cls) :
    List (AttributeTable Py → AttributeTable Py) :=
  (implementations c).map Prototype.applyPlain ++ (H.initOps implementations c ++ H.attachOps c)

/-- An `init` function does what some prototypes do. -/
def Installs (jclassInit : Option (InitFunction Py Hook)) (protos : List (Prototype Py Hook))
    (c : Cls) : Prop :=
  ∀ d, c ∈ H.mro d → ∀ dict,
    jclassInit.toList.foldl (fun dict func ↦ H.callInit func d dict) dict =
      perform (H.baseOps protos d) dict

theorem applyStickyMethods_eq (sticky : List (ProtoMember Py)) (dict : AttributeTable Py) :
    applyStickyMethods sticky dict = perform (sticky.map applyStickyMethod) dict := by
  rw [applyStickyMethods, perform, List.foldl_map]

theorem foldl_callHook (inits : List Hook) (c : Cls) (dict : AttributeTable Py) :
    inits.foldl (fun dict m ↦ H.callHook m c dict) dict =
      perform (inits.map (H.callHook · c)) dict := by
  rw [perform, List.foldl_map]

theorem applyCustomizers_eq (members : AttributeTable Py) (protos : List (Prototype Py Hook)) :
    applyCustomizers members protos =
      ⟨perform (protos.map Prototype.applyPlain) members,
        if 0 < (stickyMethods protos).length ∨ 0 < (hooks protos).length then
          some (.init (hooks protos) (stickyMethods protos)) else none⟩ := by
  have hfold : ∀ (members : AttributeTable Py) (sticky : List (ProtoMember Py)) (inits : List Hook),
      protos.foldl (fun found proto ↦ applyCustomizerImpl found.1 proto found.2.1 found.2.2)
          (members, sticky, inits) =
        (perform (protos.map Prototype.applyPlain) members, sticky ++ stickyMethods protos,
          inits ++ hooks protos) := by
    induction protos with
    | nil => simp [stickyMethods, hooks]
    | cons proto protos ih =>
      intro members sticky inits
      rw [List.foldl_cons, applyCustomizerImpl_eq, ih]
      simp [stickyMethods, hooks]
  have happly : applyCustomizers members protos =
      let found := protos.foldl
        (fun found proto ↦ applyCustomizerImpl found.1 proto found.2.1 found.2.2) (members, [], [])
      ⟨found.1, if 0 < found.2.1.length ∨ 0 < found.2.2.length then
        some (.init found.2.2 found.2.1) else none⟩ := rfl
  rw [happly, hfold]
  simp

/-- What `applyCustomizers` installs. -/
theorem installs_applyCustomizers (members : AttributeTable Py)
    (protos : List (Prototype Py Hook)) (c : Cls) :
    H.Installs (applyCustomizers members protos).jclassInit protos c := by
  intro d _ dict
  rw [applyCustomizers_eq, baseOps, perform_append]
  dsimp only
  split_ifs with h
  · rw [Option.toList_some, List.foldl_cons, List.foldl_nil, callInit, foldl_callHook,
      applyStickyMethods_eq]
  · obtain ⟨hsticky, hhooks⟩ := not_or.1 h
    rw [List.eq_nil_of_length_eq_zero (Nat.eq_zero_of_not_pos hsticky),
      List.eq_nil_of_length_eq_zero (Nat.eq_zero_of_not_pos hhooks)]
    rfl

/-! ### Which classes derive from which -/

theorem self_mem_mro (c : Cls) : c ∈ H.mro c :=
  (H.mem_mro c c).2 Relation.ReflTransGen.refl

/-- The bases of the bases. -/
theorem mem_mro_cases {c d : Cls} (h : d ∈ H.mro c) : d = c ∨ ∃ b ∈ H.bases c, d ∈ H.mro b := by
  rcases ((H.mem_mro c d).1 h).cases_head with rfl | ⟨b, hb, hd⟩
  · exact .inl rfl
  · exact .inr ⟨b, hb, (H.mem_mro b d).2 hd⟩

/-- The classes that have been created are closed under bases. -/
def BasesFirst (classes : List Cls) : Prop :=
  ∀ c ∈ classes, ∀ b ∈ H.bases c, b ∈ classes

variable {H}

theorem BasesFirst.mem_of_mem_mro {classes : List Cls} (h : H.BasesFirst classes) {c d : Cls}
    (hc : c ∈ classes) (hd : d ∈ H.mro c) : d ∈ classes := by
  have hreach := (H.mem_mro c d).1 hd
  induction hreach using Relation.ReflTransGen.head_induction_on with
  | refl => exact hc
  | @head a b hb hbd ih => exact ih (h _ hc _ hb) ((H.mem_mro _ _).2 hbd)

variable [DecidableEq Cls]

theorem mem_subclasses {classes : List Cls} {c d : Cls} :
    d ∈ H.subclasses classes c ↔ d ∈ classes ∧ c ∈ H.bases d := by
  rw [subclasses, List.mem_filter, decide_eq_true_iff]

/-- The subclasses of subclasses are the classes that have the class in their `mro`. -/
theorem BasesFirst.reaches_iff {classes : List Cls} (h : H.BasesFirst classes) {target c : Cls}
    (htarget : target ∈ classes) :
    Reaches (H.subclasses classes) target c ↔ c ∈ classes ∧ target ∈ H.mro c := by
  constructor
  · intro hreach
    induction hreach with
    | refl => exact ⟨htarget, H.self_mem_mro target⟩
    | tail _ hstep ih =>
      obtain ⟨hmem, hbase⟩ := mem_subclasses.1 hstep
      exact ⟨hmem, (H.mem_mro _ _).2 (((H.mem_mro _ _).1 ih.2).head hbase)⟩
  · rintro ⟨hc, hmro⟩
    have hreach := (H.mem_mro c target).1 hmro
    induction hreach using Relation.ReflTransGen.head_induction_on with
    | refl => exact Relation.ReflTransGen.refl
    | @head a b hb hbt ih =>
      have hbmem := h _ hc _ hb
      exact (ih hbmem ((H.mem_mro _ _).2 hbt)).tail (mem_subclasses.2 ⟨hc, hb⟩)

/-- `_applyAll` visits the class and those that derive from it, each once. -/
theorem BasesFirst.derived_spec {classes : List Cls} (h : H.BasesFirst classes)
    (hnodup : classes.Nodup) {target : Cls} (htarget : target ∈ classes) :
    (H.derived classes target).Nodup ∧
      ∀ c, c ∈ H.derived classes target ↔ c ∈ classes ∧ target ∈ H.mro c := by
  have hnext : ∀ c ∈ classes.toFinset, ∀ d ∈ H.subclasses classes c, d ∈ classes.toFinset :=
    fun _ _ d hd ↦ List.mem_toFinset.2 (mem_subclasses.1 hd).1
  have hfuel : 1 + ∑ c ∈ classes.toFinset, (H.subclasses classes c).length <
      (classes.map fun c ↦ (H.subclasses classes c).length).sum + 2 := by
    rw [List.sum_toFinset _ hnodup]
    omega
  obtain ⟨visited, hvisited⟩ := exists_visited hnext (List.mem_toFinset.2 htarget) hfuel
  obtain ⟨hnd, hmem⟩ := visited_spec ⟨_, hvisited⟩
  rw [derived, hvisited, Option.getD_some]
  exact ⟨hnd, fun c ↦ (hmem c).trans (h.reaches_iff htarget)⟩

/-- Setting dictionaries one after the other. -/
theorem foldl_setDict {l : List Cls} (hl : l.Nodup)
    (f : Cls → AttributeTable Py → AttributeTable Py)
    (s : Customization Cls Py Hook) :
    l.foldl (fun s c ↦ setDict s c (f c (s.object c).dict)) s =
      { s with object := fun c ↦
          if c ∈ l then { s.object c with dict := f c (s.object c).dict } else s.object c } := by
  induction l generalizing s with
  | nil => simp
  | cons c l ih =>
    obtain ⟨hc, hl⟩ := List.nodup_cons.1 hl
    rw [List.foldl_cons, ih hl, setDict]
    congr 1
    funext d
    by_cases hd : d = c
    · subst hd
      simp [hc]
    · simp [hd]

/-! ### What a registration or a creation does -/

omit [DecidableEq Cls] in
theorem applyInitializer_eq {object : Cls → ClassObject Py Hook}
    {implementations : Cls → List (Prototype Py Hook)} {c : Cls}
    (h : ∀ b ∈ H.mro c, H.Installs (object b).jclassInit (implementations b) b) :
    H.applyInitializer object c = perform (H.initOps implementations c) (object c).dict := by
  have hfuncs : (H.mro c).foldl (fun init base ↦ (object base).jclassInit.toList ++ init) [] =
      (H.mro c).reverse.flatMap fun base ↦ (object base).jclassInit.toList := by
    have hgen : ∀ (l : List Cls) (init : List (InitFunction Py Hook)),
        l.foldl (fun init base ↦ (object base).jclassInit.toList ++ init) init =
          (l.reverse.flatMap fun base ↦ (object base).jclassInit.toList) ++ init := by
      intro l
      induction l with
      | nil => exact fun _ ↦ rfl
      | cons b l ih =>
        intro init
        rw [List.foldl_cons, ih, List.reverse_cons, List.flatMap_append, List.flatMap_singleton,
          List.append_assoc]
    rw [hgen, List.append_nil]
  rw [applyInitializer, hfuncs, List.foldl_flatMap, initOps, ← foldl_perform]
  refine List.foldl_ext _ _ _ fun dict b hb ↦ ?_
  exact h b (List.mem_reverse.1 hb) c (List.mem_reverse.1 hb) dict

omit [DecidableEq Cls] in
theorem tableOps_congr {implementations implementations' : Cls → List (Prototype Py Hook)} {c : Cls}
    (h : ∀ b ∈ H.mro c, implementations b = implementations' b) :
    H.tableOps implementations c = H.tableOps implementations' c := by
  rw [tableOps, tableOps, h c (H.self_mem_mro c), initOps, initOps, List.flatMap_congr]
  exact fun b hb ↦ by rw [h b (List.mem_reverse.1 hb)]

/-- The classes are as they would be if everything had been registered before. -/
structure UpToDate (H : Hierarchy Cls Py Hook) (s : Customization Cls Py Hook) : Prop where
  nodup : s.classes.Nodup
  basesFirst : H.BasesFirst s.classes
  installs : ∀ c ∈ s.classes, H.Installs (s.object c).jclassInit (s.implementations c) c
  dict_eq : ∀ c ∈ s.classes,
    (s.object c).dict = perform (H.tableOps s.implementations c) (H.javaMembers c)

omit [DecidableEq Cls] in
theorem foldl_innerClasses (c : Cls) (dict : AttributeTable Py) :
    (H.innerClasses c).foldl (fun dict (name, wrapper) ↦ setAttribute name wrapper dict) dict =
      perform (H.attachOps c) dict := by
  rw [attachOps, perform, List.foldl_map]

theorem UpToDate.create {s : Customization Cls Py Hook} (h : H.UpToDate s) {c : Cls}
    (hc : c ∉ s.classes) (hbases : ∀ b ∈ H.bases c, b ∈ s.classes) :
    H.UpToDate (H.create s c) := by
  -- The bases are there, so the functions of all of them are found.
  have hinstalls : ∀ b ∈ H.mro c, H.Installs (Function.update s.object c
      (applyCustomizers (H.javaMembers c) (s.implementations c)) b).jclassInit
        (s.implementations b) b := by
    intro b hb
    by_cases hbc : b = c
    · subst hbc
      rw [Function.update_self]
      exact H.installs_applyCustomizers _ _ b
    · rw [Function.update_of_ne hbc]
      obtain ⟨b', hb', hmro⟩ := (H.mem_mro_cases hb).resolve_left hbc
      exact h.installs b (h.basesFirst.mem_of_mem_mro (hbases b' hb') hmro)
  have hobject : ∀ d, d ≠ c → (H.create s c).object d = s.object d := fun d hd ↦ by
    simp only [Hierarchy.create, setDict, Function.update_of_ne hd]
  have hself : (H.create s c).object c =
      ⟨perform (H.tableOps s.implementations c) (H.javaMembers c),
        (applyCustomizers (H.javaMembers c) (s.implementations c)).jclassInit⟩ := by
    simp only [Hierarchy.create, setDict, Function.update_self, foldl_innerClasses,
      applyInitializer_eq hinstalls, tableOps, perform_append]
    rw [applyCustomizers_eq]
  refine ⟨List.nodup_append.2 ⟨h.nodup, List.nodup_singleton c, ?_⟩, ?_, ?_, ?_⟩
  · rintro a ha b hb rfl
    exact hc (List.mem_singleton.1 hb ▸ ha)
  · intro d hd b hb
    rcases List.mem_append.1 hd with hmem | hmem
    · exact List.mem_append_left _ (h.basesFirst d hmem b hb)
    · obtain rfl := List.mem_singleton.1 hmem
      exact List.mem_append_left _ (hbases b hb)
  · intro d hd
    by_cases hdc : d = c
    · subst hdc
      rw [hself]
      exact H.installs_applyCustomizers _ _ d
    · rw [hobject d hdc]
      exact h.installs d ((List.mem_append.1 hd).resolve_right
        fun hmem ↦ hdc (List.mem_singleton.1 hmem))
  · intro d hd
    by_cases hdc : d = c
    · subst hdc
      rw [hself]
      rfl
    · rw [hobject d hdc]
      exact h.dict_eq d ((List.mem_append.1 hd).resolve_right
        fun hmem ↦ hdc (List.mem_singleton.1 hmem))

/-- A registration for a class that does not exist yet changes no class. -/
theorem UpToDate.register_early {s : Customization Cls Py Hook} (h : H.UpToDate s) {target : Cls}
    (htarget : target ∉ s.classes) (proto : Prototype Py Hook) :
    H.UpToDate (H.registerClassImplementation s target proto) := by
  have hsame : ∀ c ∈ s.classes, ∀ b ∈ H.mro c, Function.update s.implementations target
      (s.implementations target ++ [proto]) b = s.implementations b := by
    rintro c hc b hb
    refine Function.update_of_ne ?_ _ _
    rintro rfl
    exact htarget (h.basesFirst.mem_of_mem_mro hc hb)
  rw [registerClassImplementation, if_neg htarget]
  refine ⟨h.nodup, h.basesFirst, fun c hc ↦ ?_, fun c hc ↦ ?_⟩
  · dsimp only
    rw [hsame c hc c (H.self_mem_mro c)]
    exact h.installs c hc
  · dsimp only
    rw [tableOps_congr (hsame c hc)]
    exact h.dict_eq c hc

/-! ### Late registrations -/

/-- What the hook of a prototype does to a class. -/
def hookOps (H : Hierarchy Cls Py Hook) (proto : Prototype Py Hook) (c : Cls) :
    List (AttributeTable Py → AttributeTable Py) :=
  proto.jclassInit.toList.map (H.callHook · c)

/-- Registered for a class that exists, a prototype does what it would have done in its place: it
has no sticky methods, its members may as well be set after the hooks and sticky methods that have
been applied to the class, and its hook may as well run after the sticky methods registered for the
class and, in classes that exist, after what belongs to the bases that come after it. -/
structure CommutesInto (H : Hierarchy Cls Py Hook) (s : Customization Cls Py Hook) (target : Cls)
    (proto : Prototype Py Hook) : Prop where
  sticky_eq : proto.sticky = []
  plain : ∀ op ∈ H.initOps s.implementations target ++ H.attachOps target,
    Function.Commute proto.applyPlain op
  hook_sticky : ∀ hook ∈ proto.jclassInit, ∀ d, target ∈ H.mro d →
    ∀ method ∈ stickyMethods (s.implementations target),
      Function.Commute (H.callHook hook d) (applyStickyMethod method)
  hook_later : ∀ hook ∈ proto.jclassInit, ∀ d ∈ s.classes, ∀ pre post,
    H.mro d = pre ++ target :: post →
      ∀ op ∈ (pre.reverse.flatMap fun b ↦ H.baseOps (s.implementations b) d) ++ H.attachOps d,
        Function.Commute (H.callHook hook d) op

theorem applyCustomizerPost_object {s : Customization Cls Py Hook} (hnodup : s.classes.Nodup)
    (hbases : H.BasesFirst s.classes) {target : Cls} (htarget : target ∈ s.classes)
    {proto : Prototype Py Hook} (hsticky : proto.sticky = []) (c : Cls) :
    ((H.applyCustomizerPost s target proto).object c).dict =
        (if c ∈ s.classes ∧ target ∈ H.mro c then
          perform (H.hookOps proto c)
            (if c = target then proto.applyPlain (s.object c).dict else (s.object c).dict)
        else (s.object c).dict) ∧
      ((H.applyCustomizerPost s target proto).object c).jclassInit =
        if c = target then
          match proto.jclassInit, (s.object c).jclassInit with
          | none, jclassInit => jclassInit
          | some hook, none => some (.init [hook] [])
          | some hook, some prev => some (.chain prev [hook] [])
        else (s.object c).jclassInit := by
  obtain ⟨hnd, hmem⟩ := hbases.derived_spec hnodup htarget
  have hself : target ∈ s.classes ∧ target ∈ H.mro target := ⟨htarget, H.self_mem_mro target⟩
  rw [applyCustomizerPost, applyCustomizerImpl_eq, hsticky, hookOps]
  cases hhook : proto.jclassInit with
  | none =>
    by_cases hc : c = target
    · subst hc
      simp [hself]
    · simp [hc]
  | some hook =>
    simp only [applyAll, foldl_setDict hnd fun c dict ↦ H.callHook hook c dict, hmem]
    by_cases hc : c = target
    · subst hc
      simp only [Function.update_self, if_pos hself, if_true]
      cases (s.object c).jclassInit <;> simp
    · simp only [Function.update_of_ne hc, if_neg hc]
      split <;> simp

omit [DecidableEq Cls] in
/-- The operations of a base with one prototype more: its hook comes before the sticky methods. -/
theorem baseOps_concat (protos : List (Prototype Py Hook)) {proto : Prototype Py Hook}
    (hsticky : proto.sticky = []) (c : Cls) :
    H.baseOps (protos ++ [proto]) c =
      (hooks protos).map (H.callHook · c) ++
        (H.hookOps proto c ++ (stickyMethods protos).map applyStickyMethod) := by
  simp [baseOps, hooks, stickyMethods, hookOps, hsticky]

omit [DecidableEq Cls] in
theorem perform_hookOps {proto : Prototype Py Hook} {c : Cls}
    {ops' : List (AttributeTable Py → AttributeTable Py)}
    (h : ∀ hook ∈ proto.jclassInit, ∀ op ∈ ops', Function.Commute (H.callHook hook c) op)
    (ops : List (AttributeTable Py → AttributeTable Py)) (dict : AttributeTable Py) :
    perform (ops ++ (H.hookOps proto c ++ ops')) dict =
      perform (H.hookOps proto c) (perform (ops ++ ops') dict) := by
  rw [hookOps]
  cases hhook : proto.jclassInit with
  | none => rfl
  | some hook => exact perform_insert (h hook hhook) ops dict

theorem CommutesInto.installs {s : Customization Cls Py Hook} (h : H.UpToDate s) {target : Cls}
    (htarget : target ∈ s.classes) {proto : Prototype Py Hook}
    (hcommutes : H.CommutesInto s target proto) :
    H.Installs ((H.applyCustomizerPost s target proto).object target).jclassInit
      (s.implementations target ++ [proto]) target := by
  intro d hd dict
  have hinstalls := h.installs target htarget d hd
  obtain ⟨-, hinit⟩ :=
    applyCustomizerPost_object h.nodup h.basesFirst htarget hcommutes.sticky_eq target
  have hlater : ∀ hook ∈ proto.jclassInit,
      ∀ op ∈ (stickyMethods (s.implementations target)).map applyStickyMethod,
        Function.Commute (H.callHook hook d) op := by
    intro hook hhook op hop
    obtain ⟨method, hmethod, rfl⟩ := List.mem_map.1 hop
    exact hcommutes.hook_sticky hook hhook d hd method hmethod
  rw [baseOps_concat _ hcommutes.sticky_eq, perform_hookOps hlater, ← baseOps, ← hinstalls, hinit,
    if_pos rfl, hookOps]
  cases proto.jclassInit with
  | none => rfl
  | some hook => cases (s.object target).jclassInit <;> rfl

theorem CommutesInto.dict_eq {s : Customization Cls Py Hook} (h : H.UpToDate s) {target : Cls}
    (htarget : target ∈ s.classes) {proto : Prototype Py Hook}
    (hcommutes : H.CommutesInto s target proto) {c : Cls} (hc : c ∈ s.classes) :
    ((H.applyCustomizerPost s target proto).object c).dict =
      perform (H.tableOps (Function.update s.implementations target
        (s.implementations target ++ [proto])) c) (H.javaMembers c) := by
  obtain ⟨hdict, -⟩ :=
    applyCustomizerPost_object h.nodup h.basesFirst htarget hcommutes.sticky_eq c
  have hother : ∀ b, b ≠ target → Function.update s.implementations target
      (s.implementations target ++ [proto]) b = s.implementations b :=
    fun b hb ↦ Function.update_of_ne hb _ _
  rw [hdict]
  by_cases hmro : target ∈ H.mro c
  · rw [if_pos ⟨hc, hmro⟩]
    -- The bases after the target in the `mro` come before it here, and those before it after.
    obtain ⟨pre, post, hsplit⟩ := List.append_of_mem hmro
    have hnodup := H.nodup_mro c
    rw [hsplit, List.nodup_append, List.nodup_cons] at hnodup
    obtain ⟨-, ⟨hpost, -⟩, hpre⟩ := hnodup
    have hflat : ∀ l : List Cls, target ∉ l →
        (l.flatMap fun b ↦ H.baseOps (Function.update s.implementations target
          (s.implementations target ++ [proto]) b) c) =
            l.flatMap fun b ↦ H.baseOps (s.implementations b) c :=
      fun l hl ↦ List.flatMap_congr fun b hb ↦ by rw [hother b fun heq ↦ hl (heq ▸ hb)]
    have hpre' : target ∉ pre.reverse :=
      fun hmem ↦ hpre target (List.mem_reverse.1 hmem) target List.mem_cons_self rfl
    have hpost' : target ∉ post.reverse := fun hmem ↦ hpost (List.mem_reverse.1 hmem)
    have hold : H.initOps s.implementations c =
        ((post.reverse.flatMap fun b ↦ H.baseOps (s.implementations b) c) ++
          (hooks (s.implementations target)).map (H.callHook · c)) ++
        ((stickyMethods (s.implementations target)).map applyStickyMethod ++
          pre.reverse.flatMap fun b ↦ H.baseOps (s.implementations b) c) := by
      simp [initOps, hsplit, baseOps]
    have hnew : H.initOps (Function.update s.implementations target
          (s.implementations target ++ [proto])) c =
        ((post.reverse.flatMap fun b ↦ H.baseOps (s.implementations b) c) ++
          (hooks (s.implementations target)).map (H.callHook · c)) ++
        (H.hookOps proto c ++ ((stickyMethods (s.implementations target)).map applyStickyMethod ++
          pre.reverse.flatMap fun b ↦ H.baseOps (s.implementations b) c)) := by
      rw [initOps, hsplit, List.reverse_append, List.reverse_cons, List.flatMap_append,
        List.flatMap_append, List.flatMap_singleton, Function.update_self,
        baseOps_concat _ hcommutes.sticky_eq, hflat _ hpre', hflat _ hpost']
      simp
    have hlater : ∀ hook ∈ proto.jclassInit,
        ∀ op ∈ ((stickyMethods (s.implementations target)).map applyStickyMethod ++
            pre.reverse.flatMap fun b ↦ H.baseOps (s.implementations b) c) ++ H.attachOps c,
          Function.Commute (H.callHook hook c) op := by
      intro hook hhook op hop
      rw [List.append_assoc] at hop
      rcases List.mem_append.1 hop with hmem | hmem
      · obtain ⟨method, hmethod, rfl⟩ := List.mem_map.1 hmem
        exact hcommutes.hook_sticky hook hhook c hmro method hmethod
      · exact hcommutes.hook_later hook hhook c hc pre post hsplit op hmem
    have hmove : ∀ (ops : List (AttributeTable Py → AttributeTable Py)),
        perform (ops ++ (H.initOps (Function.update s.implementations target
          (s.implementations target ++ [proto])) c ++ H.attachOps c)) (H.javaMembers c) =
        perform (H.hookOps proto c)
          (perform (ops ++ (H.initOps s.implementations c ++ H.attachOps c))
            (H.javaMembers c)) := by
      intro ops
      have hinsert := perform_hookOps hlater (ops ++
        ((post.reverse.flatMap fun b ↦ H.baseOps (s.implementations b) c) ++
          (hooks (s.implementations target)).map (H.callHook · c))) (H.javaMembers c)
      simpa only [hold, hnew, List.append_assoc] using hinsert
    rw [tableOps, hmove]
    by_cases hct : c = target
    · subst hct
      rw [if_pos rfl, Function.update_self, List.map_append, List.map_singleton,
        List.append_assoc, List.singleton_append, perform_insert hcommutes.plain, ← tableOps,
        ← h.dict_eq c hc]
    · rw [if_neg hct, hother c hct, ← tableOps, ← h.dict_eq c hc]
  · rw [if_neg fun hmem ↦ hmro hmem.2, h.dict_eq c hc]
    rw [tableOps_congr fun b hb ↦ hother b fun heq ↦ hmro (heq ▸ hb)]

/-- A late registration, apart from the new list of prototypes, changes nothing but the classes, and
these independently of the list. -/
theorem registerClassImplementation_late {s : Customization Cls Py Hook}
    (hnodup : s.classes.Nodup) (hbases : H.BasesFirst s.classes) {target : Cls}
    (htarget : target ∈ s.classes) (proto : Prototype Py Hook) :
    H.registerClassImplementation s target proto =
      { s with
        implementations := Function.update s.implementations target
          (s.implementations target ++ [proto])
        object := (H.applyCustomizerPost s target proto).object } := by
  obtain ⟨hnd, -⟩ := hbases.derived_spec hnodup htarget
  rw [registerClassImplementation, if_pos htarget, applyCustomizerPost, applyCustomizerPost,
    applyCustomizerImpl_eq]
  cases proto.jclassInit with
  | none => rfl
  | some hook => simp only [applyAll, foldl_setDict hnd fun c dict ↦ H.callHook hook c dict]

/-- A late registration that commutes keeps the classes up to date. -/
theorem UpToDate.register_late {s : Customization Cls Py Hook} (h : H.UpToDate s) {target : Cls}
    (htarget : target ∈ s.classes) {proto : Prototype Py Hook}
    (hcommutes : H.CommutesInto s target proto) :
    H.UpToDate (H.registerClassImplementation s target proto) := by
  rw [registerClassImplementation_late h.nodup h.basesFirst htarget]
  refine ⟨h.nodup, h.basesFirst, fun c hc ↦ ?_, fun c hc ↦ ?_⟩
  · by_cases hct : c = target
    · subst hct
      dsimp only
      rw [Function.update_self]
      exact hcommutes.installs h htarget
    · obtain ⟨-, hinit⟩ :=
        applyCustomizerPost_object h.nodup h.basesFirst htarget hcommutes.sticky_eq c
      dsimp only
      rw [Function.update_of_ne hct, hinit, if_neg hct]
      exact h.installs c hc
  · exact hcommutes.dict_eq h htarget hc

/-! ### Runs -/

/-- Events in order: the bases of a class are created before it, each class is created once, and
what is registered late commutes into its place. -/
def Allowed (H : Hierarchy Cls Py Hook) (s : Customization Cls Py Hook) :
    CustomizerEvent Cls Py Hook → Prop
  | .register target proto => target ∈ s.classes → H.CommutesInto s target proto
  | .create c => c ∉ s.classes ∧ ∀ b ∈ H.bases c, b ∈ s.classes

theorem UpToDate.step {s : Customization Cls Py Hook} (h : H.UpToDate s)
    {event : CustomizerEvent Cls Py Hook} (hallowed : H.Allowed s event) :
    H.UpToDate (H.step s event) := by
  cases event with
  | create c => exact h.create hallowed.1 hallowed.2
  | register target proto =>
    by_cases htarget : target ∈ s.classes
    · exact h.register_late htarget (hallowed htarget)
    · exact h.register_early htarget proto

omit [DecidableEq Cls] in
theorem upToDate_initial : H.UpToDate Customization.initial where
  nodup := List.nodup_nil
  basesFirst _ hc := absurd hc List.not_mem_nil
  installs _ hc := absurd hc List.not_mem_nil
  dict_eq _ hc := absurd hc List.not_mem_nil

/-- The registrations of a run, in order. -/
def registrations (events : List (CustomizerEvent Cls Py Hook)) :
    List (CustomizerEvent Cls Py Hook) :=
  events.filter fun
    | .register _ _ => true
    | .create _ => false

/-- The creations of a run, in order. -/
def creations (events : List (CustomizerEvent Cls Py Hook)) :
    List (CustomizerEvent Cls Py Hook) :=
  events.filter fun
    | .register _ _ => false
    | .create _ => true

/-- What an event does to the lists of prototypes. -/
def addPrototype (implementations : Cls → List (Prototype Py Hook)) :
    CustomizerEvent Cls Py Hook → Cls → List (Prototype Py Hook)
  | .register target proto =>
    Function.update implementations target (implementations target ++ [proto])
  | .create _ => implementations

/-- What an event does to the list of classes. -/
def addClass (classes : List Cls) : CustomizerEvent Cls Py Hook → List Cls
  | .register _ _ => classes
  | .create c => classes ++ [c]

theorem foldl_setDict_frame (l : List Cls) (f : Cls → AttributeTable Py → AttributeTable Py)
    (s : Customization Cls Py Hook) :
    (l.foldl (fun s c ↦ setDict s c (f c (s.object c).dict)) s).implementations =
        s.implementations ∧
      (l.foldl (fun s c ↦ setDict s c (f c (s.object c).dict)) s).classes = s.classes := by
  induction l generalizing s with
  | nil => exact ⟨rfl, rfl⟩
  | cons c l ih => exact ih _

theorem step_frame (s : Customization Cls Py Hook) (event : CustomizerEvent Cls Py Hook) :
    (H.step s event).implementations = addPrototype s.implementations event ∧
      (H.step s event).classes = addClass s.classes event := by
  cases event with
  | create c => exact ⟨rfl, rfl⟩
  | register target proto =>
    rw [Hierarchy.step, registerClassImplementation]
    split_ifs with htarget
    · rw [applyCustomizerPost]
      cases proto.jclassInit with
      | none => exact ⟨rfl, rfl⟩
      | some hook => exact foldl_setDict_frame _ (fun c dict ↦ H.callHook hook c dict) _
    · exact ⟨rfl, rfl⟩

theorem run_implementations (s : Customization Cls Py Hook)
    (events : List (CustomizerEvent Cls Py Hook)) :
    (run H.step s events).implementations = run addPrototype s.implementations events :=
  run_projection (fun s event ↦ (H.step_frame s event).1) events s

theorem run_classes (s : Customization Cls Py Hook)
    (events : List (CustomizerEvent Cls Py Hook)) :
    (run H.step s events).classes = run addClass s.classes events :=
  run_projection (fun s event ↦ (H.step_frame s event).2) events s

theorem run_addPrototype (implementations : Cls → List (Prototype Py Hook))
    (events : List (CustomizerEvent Cls Py Hook)) :
    run addPrototype implementations (registrations events ++ creations events) =
      run addPrototype implementations events := by
  have hcreations : ∀ event ∈ creations events, ∀ implementations : Cls → List (Prototype Py Hook),
      addPrototype implementations event = implementations := by
    rintro (_ | _) hevent
    · cases (List.mem_filter.1 hevent).2
    · exact fun _ ↦ rfl
  rw [run_append, run_eq_self hcreations, registrations, run_filter]
  rintro (_ | _) hevent
  · cases hevent
  · exact fun _ ↦ rfl

omit [DecidableEq Cls] in
theorem run_addClass_registrations (classes : List Cls)
    (events : List (CustomizerEvent Cls Py Hook)) :
    run addClass classes (registrations events) = classes := by
  refine run_eq_self ?_ classes
  rintro (_ | _) hevent
  · exact fun _ ↦ rfl
  · cases (List.mem_filter.1 hevent).2

omit [DecidableEq Cls] in
theorem run_addClass (classes : List Cls) (events : List (CustomizerEvent Cls Py Hook)) :
    run addClass classes (registrations events ++ creations events) =
      run addClass classes events := by
  rw [run_append, run_addClass_registrations, creations, run_filter]
  rintro (_ | _) hevent
  · exact fun _ ↦ rfl
  · cases hevent

theorem admissible_registrations (events : List (CustomizerEvent Cls Py Hook)) :
    ∀ s : Customization Cls Py Hook, s.classes = [] →
      Admissible H.Allowed H.step s (registrations events) := by
  induction events with
  | nil => exact fun _ _ ↦ trivial
  | cons event events ih =>
    intro s hs
    cases event with
    | create c => exact ih s hs
    | register target proto =>
      refine ⟨fun hmem ↦ absurd (hs ▸ hmem) List.not_mem_nil, ih _ ?_⟩
      exact (H.step_frame s (.register target proto)).2.trans hs

theorem admissible_creations (events : List (CustomizerEvent Cls Py Hook)) :
    ∀ s s' : Customization Cls Py Hook, s'.classes = s.classes →
      Admissible H.Allowed H.step s events → Admissible H.Allowed H.step s' (creations events) := by
  induction events with
  | nil => exact fun _ _ _ _ ↦ trivial
  | cons event events ih =>
    intro s s' hs hadm
    cases event with
    | create c =>
      refine ⟨?_, ih _ _ ?_ hadm.2⟩
      · obtain ⟨hc, hbases⟩ := hadm.1
        exact ⟨hs ▸ hc, hs ▸ hbases⟩
      · rw [(H.step_frame s (.create c)).2, (H.step_frame s' (.create c)).2, hs]
    | register target proto =>
      refine ih _ s' ?_ hadm.2
      rw [(H.step_frame s (.register target proto)).2]
      exact hs

/-- If every late registration commutes into its place, the classes have in the end the
dictionaries that they have when all registrations are made first. -/
theorem dict_eq_of_commutes (H : Hierarchy Cls Py Hook)
    (events : List (CustomizerEvent Cls Py Hook))
    (h : Admissible H.Allowed H.step Customization.initial events) :
    (run H.step Customization.initial (registrations events ++ creations events)).classes =
        (run H.step Customization.initial events).classes ∧
      ∀ c ∈ (run H.step Customization.initial events).classes,
        ((run H.step Customization.initial
          (registrations events ++ creations events)).object c).dict =
          ((run H.step Customization.initial events).object c).dict := by
  have hclasses :
      (run H.step Customization.initial (registrations events ++ creations events)).classes =
        (run H.step Customization.initial events).classes := by
    rw [run_classes, run_classes, run_addClass]
  have hearly : Admissible H.Allowed H.step Customization.initial
      (registrations events ++ creations events) := by
    rw [admissible_append]
    refine ⟨admissible_registrations events _ rfl, admissible_creations events _ _ ?_ h⟩
    rw [run_classes, run_addClass_registrations]
  have hstep : ∀ s event, H.UpToDate s → H.Allowed s event → H.UpToDate (H.step s event) :=
    fun s event hs hallowed ↦ hs.step hallowed
  have hinv := invariant_of_admissible hstep events _ upToDate_initial h
  have hinv' := invariant_of_admissible hstep _ _ upToDate_initial hearly
  refine ⟨hclasses, fun c hc ↦ ?_⟩
  rw [hinv.dict_eq c hc, hinv'.dict_eq c (hclasses ▸ hc), run_implementations, run_implementations,
    run_addPrototype]

end Hierarchy

/-! ### A class and one that derives from it -/

/-- Two classes, `true` derived from `false`. A hook sets the attribute of its name. -/
def twoClasses : Hierarchy Bool String String where
  bases c := if c then [false] else []
  mro c := if c then [true, false] else [false]
  mem_mro c d := by
    constructor
    · intro h
      cases c <;> cases d
      · exact Relation.ReflTransGen.refl
      · exact absurd h (by decide)
      · exact Relation.ReflTransGen.single (by decide)
      · exact Relation.ReflTransGen.refl
    · intro h
      induction h using Relation.ReflTransGen.head_induction_on with
      | refl => cases d <;> decide
      | @head a b hab _ ih => cases a <;> cases b <;> cases d <;> simp_all
  nodup_mro c := by cases c <;> decide
  javaMembers _ name := if name = "remove" then some (.jMethod "remove") else none
  innerClasses _ := []
  callHook hook _ dict := setAttribute hook (.python "hook") dict

/-- A hook, and after the first class a member. -/
def lateMember : List (CustomizerEvent Bool String String) :=
  [.register false ⟨[], some "seen"⟩, .create false,
    .register false ⟨[⟨"size", "wrapper", none⟩], none⟩, .create true]

/-- The member does not touch the attribute that the hook has set. -/
theorem lateMember_admissible :
    Admissible twoClasses.Allowed twoClasses.step Customization.initial lateMember := by
  refine ⟨fun h ↦ absurd h List.not_mem_nil, ⟨List.not_mem_nil, by decide⟩, fun _ ↦ ?_,
    ⟨by decide, by decide⟩, trivial⟩
  refine ⟨rfl, fun op hop dict ↦ ?_, fun _ h ↦ absurd h (Option.not_mem_none _),
    fun _ h ↦ absurd h (Option.not_mem_none _)⟩
  have hops : op = setAttribute "seen" (.python "hook") := List.mem_singleton.1 hop
  rw [hops]
  exact Function.update_comm (by decide) _ _ dict

theorem lateMember_dict_eq :
    (run twoClasses.step Customization.initial
        (Hierarchy.registrations lateMember ++ Hierarchy.creations lateMember)).classes =
        (run twoClasses.step Customization.initial lateMember).classes ∧
      ∀ c ∈ (run twoClasses.step Customization.initial lateMember).classes,
        ((run twoClasses.step Customization.initial
          (Hierarchy.registrations lateMember ++ Hierarchy.creations lateMember)).object c).dict =
          ((run twoClasses.step Customization.initial lateMember).object c).dict :=
  Hierarchy.dict_eq_of_commutes twoClasses lateMember lateMember_admissible

/-- A sticky method, after the class. -/
def lateSticky : List (CustomizerEvent Bool String String) :=
  [.create false, .register false ⟨[⟨"remove", "wrapper", some ⟨true, some "remove_"⟩⟩], none⟩]

/-- The sticky method is applied only if it is registered before. -/
theorem lateSticky_lost :
    ((run twoClasses.step Customization.initial lateSticky).object false).dict "remove" =
        some (.jMethod "remove") ∧
      ((run twoClasses.step Customization.initial
        (Hierarchy.registrations lateSticky ++ Hierarchy.creations lateSticky)).object false).dict
          "remove" = some (.python "wrapper") ∧
      ¬∀ c ∈ (run twoClasses.step Customization.initial lateSticky).classes,
        ((run twoClasses.step Customization.initial
          (Hierarchy.registrations lateSticky ++ Hierarchy.creations lateSticky)).object c).dict =
          ((run twoClasses.step Customization.initial lateSticky).object c).dict := by
  refine ⟨by decide, by decide, fun h ↦ ?_⟩
  have heq := congrFun (h false (by decide)) "remove"
  exact absurd heq (by decide)

end JPype
