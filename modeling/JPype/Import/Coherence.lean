import JPype.Import.Packages

/-!
# The caches of the importer agree

The modules that are registered, and the attributes that are kept in the dictionaries of packages,
are what the lookup in Java gives, wherever no keyword is involved (`Inv`). What an access to an
attribute can do is said once (`Accessed`); every action keeps the invariant, and so it holds after
every history that leaves the keys of the loader alone (`inv_run`).
-/

namespace JPype.Import

open Foundation (Triple)

/-! ### Unwrapping -/

theorem keywordUnwrap_of_ne {attr : Attr} (h : keywordUnwrap attr ≠ attr) :
    keywordUnwrap attr ∈ keywords ∧ attr = keywordUnwrap attr ++ ['_'] := by
  unfold keywordUnwrap at h ⊢
  split_ifs with hkeyword
  · refine ⟨hkeyword.2, ?_⟩
    exact (List.dropLast_append_getLast? _ hkeyword.1).symm
  · rw [if_neg hkeyword] at h
    exact absurd rfl h

/-- No keyword ends in an underscore, so that nothing is unwrapped twice. -/
theorem keywordUnwrap_keywordUnwrap (attr : Attr) :
    keywordUnwrap (keywordUnwrap attr) = keywordUnwrap attr := by
  by_cases h : keywordUnwrap attr = attr
  · rw [h, h]
  · have hfix : ∀ keyword ∈ keywords, keywordUnwrap keyword = keyword := by decide +kernel
    exact hfix _ (keywordUnwrap_of_ne h).1

theorem keywordUnwrap_of_notMem {attr : Attr} (h : '_' ∉ attr) : keywordUnwrap attr = attr := by
  by_contra hne
  rw [(keywordUnwrap_of_ne hne).2] at h
  exact h (by simp)

/-- The names are unwrapped component by component. -/
theorem unwrap_eq_map (name : Dotted) : unwrap name = name.map keywordUnwrap := by
  rw [unwrap]
  split_ifs with h
  · rfl
  · push Not at h
    rw [List.map_congr_left fun attr hattr ↦ keywordUnwrap_of_notMem (h attr hattr), List.map_id']

theorem unwrap_cons (attr : Attr) (name : Dotted) :
    unwrap (attr :: name) = keywordUnwrap attr :: unwrap name := by
  rw [unwrap_eq_map, unwrap_eq_map, List.map_cons]

theorem unwrap_unwrap (name : Dotted) : unwrap (unwrap name) = unwrap name := by
  simp only [unwrap_eq_map, List.map_map]
  exact List.map_congr_left fun attr _ ↦ keywordUnwrap_keywordUnwrap attr

@[simp]
theorem unwrap_eq_nil_iff {name : Dotted} : unwrap name = [] ↔ name = [] := by
  rw [unwrap_eq_map, List.map_eq_nil_iff]

/-- An attribute that is not a keyword with an underscore is no different after unwrapping, and no
keyword is a key of the loader or private. -/
theorem keywordUnwrap_eq_of_reserved {attr : Attr}
    (h : keywordUnwrap attr = handlerKey ∨ keywordUnwrap attr = jpackageKey ∨
      IsPrivate (keywordUnwrap attr)) : keywordUnwrap attr = attr := by
  by_contra hne
  have hfree : ∀ keyword ∈ keywords,
      ¬(keyword = handlerKey ∨ keyword = jpackageKey ∨ IsPrivate keyword) := by decide +kernel
  exact hfree _ (keywordUnwrap_of_ne hne).1 h

theorem keywordUnwrap_of_private {attr : Attr} (h : IsPrivate attr) :
    keywordUnwrap attr = attr := by
  by_contra hne
  obtain ⟨hmem, heq⟩ := keywordUnwrap_of_ne hne
  have hfree : ∀ keyword ∈ keywords, ¬IsPrivate (keyword ++ ['_']) := by decide +kernel
  exact hfree _ hmem (heq ▸ h)

/-! ### What is kept -/

/-- The attribute is not one that a module has on its own. -/
def Ordinary (attr : Attr) : Prop :=
  attr ≠ handlerKey ∧ ¬IsPrivate attr

namespace World

variable (w : World)

/-- The object for a Java name. -/
def object (name : Dotted) : Obj :=
  if w.isPackage name then .package name else .javaClass name

/-- What is registered under a name with dots: the name is unwrapped, the components between are
ordinary, and so the object is that of the name if the last component is. -/
structure Registered (child : Attr) (parent : Dotted) (o : Obj) : Prop where
  unwrapped : unwrap (child :: parent) = child :: parent
  between : ∀ attr ∈ parent.dropLast, Ordinary attr
  ordinary : Ordinary child → o = w.object (child :: parent)
  handler : child = handlerKey → o = .handler
  private' : IsPrivate child → ¬o.IsJava

/-- The caches are coherent. -/
structure Inv (s : State) : Prop where
  nil : s.modules [] = none
  top : ∀ {top o}, s.modules [top] = some o → o = .package [top] ∧ w.isPackage (unwrap [top])
  dotted : ∀ {child parent o}, parent ≠ [] → s.modules (child :: parent) = some o →
    w.Registered child parent o
  hasHandler : ∀ {name self}, s.modules name = some (.package self) →
    s.dict self handlerKey = some .handler
  capsule : ∀ {self o}, s.dict self jpackageKey = some o → o = .capsule
  ordinary : ∀ {self attr o}, self ≠ [] → unwrap self = self → keywordUnwrap attr = attr →
    Ordinary attr → attr ≠ jpackageKey → s.dict self attr = some o → o = w.object (attr :: self)
  private' : ∀ {self attr o}, IsPrivate attr → s.dict self attr = some o → ¬o.IsJava

theorem inv_initial : w.Inv .initial where
  nil := rfl
  top := by rintro _ _ ⟨⟩
  dotted := by rintro _ _ _ _ ⟨⟩
  hasHandler := by rintro _ _ ⟨⟩
  capsule := by rintro _ _ ⟨⟩
  ordinary := by rintro _ _ _ _ _ _ _ _ ⟨⟩
  private' := by rintro _ _ _ _ ⟨⟩

/-- An item that a dictionary may have. -/
structure Fitting (s : State) (pkg : Dotted) (attr : Attr) (o : Obj) : Prop where
  capsule : attr = jpackageKey → o = .capsule
  handler : ∀ {name}, attr = handlerKey → s.modules name = some (.package pkg) → o = .handler
  ordinary : pkg ≠ [] → unwrap pkg = pkg → keywordUnwrap attr = attr → Ordinary attr →
    attr ≠ jpackageKey → o = w.object (attr :: pkg)
  private' : IsPrivate attr → ¬o.IsJava

/-! ### An access -/

/-- What an access to an attribute of a package comes to. -/
inductive Accessed (s : State) (self : Dotted) (attr : Attr) :
    Except PyError Obj → State → Prop where
  | cached {o : Obj} (h : s.dict self attr = some o) : Accessed s self attr (.ok o) s
  | ofType (h : IsPrivate attr) : Accessed s self attr (.ok (.typeAttribute attr)) s
  | failed (e : PyError) {s' : State} (h : s' = s ∨ s' = s.setItem self jpackageKey .capsule) :
      Accessed s self attr (.error e) s'
  | found {o : Obj} {s' : State} (hnew : s.dict self attr = none) (hprivate : ¬IsPrivate attr)
      (ho : w.getObject self attr = some o)
      (h : s' = s ∨ s' = s.setItem self jpackageKey .capsule) :
      Accessed s self attr (.ok o) (s'.setItem self attr o)

theorem exec_getPackage (s : State) (self : Dotted) :
    (w.getPackage self).exec s =
      match s.dict self jpackageKey with
      | some .capsule => (.ok (), s)
      | some _ => (.error .valueError, s)
      | none =>
        if w.isPackage (unwrap self) then (.ok (), s.setItem self jpackageKey .capsule)
        else (.error .attributeError, s) := by
  rw [getPackage, Foundation.Program.exec_bind, Foundation.Program.exec_get]
  dsimp only
  rcases s.dict self jpackageKey with - | (name | name | - | - | attr)
  · dsimp only
    split_ifs <;> rfl
  all_goals rfl

theorem accessed_getattro (s : State) (self : Dotted) (attr : Attr) :
    w.Accessed s self attr ((w.getattro self attr).exec s).1 ((w.getattro self attr).exec s).2 := by
  rw [getattro, Foundation.Program.exec_bind, Foundation.Program.exec_get]
  dsimp only
  rcases hdict : s.dict self attr with - | out
  · dsimp only
    split_ifs with hprivate htype
    · exact .ofType hprivate
    · exact .failed _ (Or.inl rfl)
    · obtain ⟨r, s', hexec, hs'⟩ : ∃ r s', (w.getPackage self).exec s = (r, s') ∧
          (s' = s ∨ s' = s.setItem self jpackageKey .capsule) := by
        rw [exec_getPackage]
        rcases s.dict self jpackageKey with - | (name | name | - | - | attr)
        · dsimp only
          split_ifs
          · exact ⟨_, _, rfl, Or.inr rfl⟩
          · exact ⟨_, _, rfl, Or.inl rfl⟩
        all_goals exact ⟨_, _, rfl, Or.inl rfl⟩
      rw [Foundation.Program.exec_bind, hexec]
      rcases r with e | ⟨⟩
      · exact .failed e hs'
      · dsimp only
        rcases hobject : w.getObject self attr with - | out
        · exact .failed _ hs'
        · exact .found hdict hprivate hobject hs'
  · exact .cached hdict

variable {w}

theorem Accessed.modules_eq {s s' : State} {self : Dotted} {attr : Attr} {r : Except PyError Obj}
    (h : w.Accessed s self attr r s') : s'.modules = s.modules := by
  rcases h with h | h | ⟨-, rfl | rfl⟩ | ⟨-, -, -, rfl | rfl⟩ <;> rfl

/-! ### What keeps the invariant -/

theorem Inv.setItem {s : State} (h : w.Inv s) {self : Dotted} {attr : Attr} {o : Obj}
    (hfits : w.Fitting s self attr o) : w.Inv (s.setItem self attr o) where
  nil := h.nil
  top := h.top
  dotted := h.dotted
  hasHandler := by
    intro name self' hname
    show (if self' = self ∧ handlerKey = attr then some o else s.dict self' handlerKey) = _
    split_ifs with heq
    · obtain ⟨rfl, hattr⟩ := heq
      rw [hfits.handler hattr.symm hname]
    · exact h.hasHandler hname
  capsule := by
    intro self' o' hitem
    change (if self' = self ∧ jpackageKey = attr then some o else s.dict self' jpackageKey) = _
      at hitem
    split_ifs at hitem with heq
    · obtain rfl : o = o' := by injection hitem
      exact hfits.capsule heq.2.symm
    · exact h.capsule hitem
  ordinary := by
    intro self' attr' o' hne hself hattr hord hkey hitem
    change (if self' = self ∧ attr' = attr then some o else s.dict self' attr') = _ at hitem
    split_ifs at hitem with heq
    · obtain ⟨rfl, rfl⟩ := heq
      obtain rfl : o = o' := by injection hitem
      exact hfits.ordinary hne hself hattr hord hkey
    · exact h.ordinary hne hself hattr hord hkey hitem
  private' := by
    intro self' attr' o' hprivate hitem
    change (if self' = self ∧ attr' = attr then some o else s.dict self' attr') = _ at hitem
    split_ifs at hitem with heq
    · obtain ⟨rfl, rfl⟩ := heq
      obtain rfl : o = o' := by injection hitem
      exact hfits.private' hprivate
    · exact h.private' hprivate hitem

theorem fitting_capsule (s : State) (self : Dotted) :
    w.Fitting s self jpackageKey .capsule where
  capsule := fun _ ↦ rfl
  handler := fun h ↦ absurd h (by decide)
  ordinary := fun _ _ _ _ h ↦ absurd rfl h
  private' := fun h ↦ absurd h (by decide)

theorem fitting_handler (s : State) (self : Dotted) :
    w.Fitting s self handlerKey .handler where
  capsule := fun h ↦ absurd h (by decide)
  handler := fun _ _ ↦ rfl
  ordinary := fun _ _ _ h _ ↦ absurd rfl h.1
  private' := fun _ h ↦ h

theorem Inv.capsuled {s s' : State} (h : w.Inv s) {self : Dotted}
    (hs' : s' = s ∨ s' = s.setItem self jpackageKey .capsule) : w.Inv s' := by
  rcases hs' with rfl | rfl
  · exact h
  · exact h.setItem (fitting_capsule s self)

/-- The object that Java gives for a name without keywords. -/
theorem getObject_eq {self : Dotted} {attr : Attr} {o : Obj} (hself : unwrap self = self)
    (hattr : keywordUnwrap attr = attr) (h : w.getObject self attr = some o) :
    o = w.object (attr :: self) := by
  rw [getObject, hself, hattr] at h
  rw [object]
  split_ifs at h ⊢
  · exact (Option.some.inj h).symm
  · exact (Option.some.inj h).symm

theorem Inv.accessed {s s' : State} (h : w.Inv s) {self : Dotted} {attr : Attr}
    {r : Except PyError Obj} (hkey : attr ≠ jpackageKey) (hacc : w.Accessed s self attr r s') :
    w.Inv s' := by
  rcases hacc with hc | ht | ⟨-, hs'⟩ | ⟨hnew, hprivate, ho, hs'⟩
  · exact h
  · exact h
  · exact h.capsuled hs'
  · refine (h.capsuled hs').setItem ⟨fun hk ↦ absurd hk hkey, ?_, ?_, fun hp ↦ absurd hp hprivate⟩
    · rintro name rfl hname
      have hmodules : s.modules name = some (.package self) := by
        rcases hs' with rfl | rfl <;> exact hname
      rw [h.hasHandler hmodules] at hnew
      cases hnew
    · exact fun _ hself hattr _ _ ↦ getObject_eq hself hattr ho

/-- The object of an attribute, in the package of a name without keywords. -/
theorem Inv.of_accessed {s s' : State} (h : w.Inv s) {self : Dotted} {attr : Attr} {o : Obj}
    (hkey : attr ≠ jpackageKey) (hne : self ≠ []) (hself : unwrap self = self)
    (hattr : keywordUnwrap attr = attr) (hacc : w.Accessed s self attr (.ok o) s') :
    (Ordinary attr → o = w.object (attr :: self)) ∧ (IsPrivate attr → ¬o.IsJava) := by
  rcases hacc with hc | ht | - | ⟨hnew, hprivate, ho, hs'⟩
  · exact ⟨fun hord ↦ h.ordinary hne hself hattr hord hkey hc, fun hp ↦ h.private' hp hc⟩
  · exact ⟨fun hord ↦ absurd ht hord.2, fun _ hjava ↦ hjava⟩
  · exact ⟨fun _ ↦ getObject_eq hself hattr ho, fun hp ↦ absurd hp hprivate⟩

/-- A package that is registered is that of the name, and the name is one without keywords, unless
it is a single component. -/
theorem Inv.of_package {s : State} (h : w.Inv s) {name pkg : Dotted}
    (hname : s.modules name = some (.package pkg)) :
    pkg = name ∧ name ≠ [] ∧ (∀ attr ∈ name.dropLast, Ordinary attr) ∧
      (name.tail ≠ [] → unwrap name = name) := by
  rcases name with - | ⟨child, - | ⟨second, parent⟩⟩
  · rw [h.nil] at hname
    cases hname
  · obtain ⟨heq, -⟩ := h.top hname
    obtain rfl : pkg = [child] := by injection heq
    exact ⟨rfl, List.cons_ne_nil _ _, List.forall_mem_nil _, fun hne ↦ absurd rfl hne⟩
  · have hreg := h.dotted (List.cons_ne_nil second parent) hname
    have hord : Ordinary child :=
      ⟨fun hk ↦ Obj.noConfusion (hreg.handler hk), fun hp ↦ hreg.private' hp trivial⟩
    have heq := hreg.ordinary hord
    rw [object] at heq
    split_ifs at heq
    · obtain rfl : pkg = child :: second :: parent := by injection heq
      refine ⟨rfl, List.cons_ne_nil _ _, ?_, fun _ ↦ hreg.unwrapped⟩
      rw [List.dropLast_cons_of_ne_nil (List.cons_ne_nil second parent)]
      exact List.forall_mem_cons.mpr ⟨hord, hreg.between⟩

/-- What is registered under the unwrapped name of a parent. -/
theorem Inv.of_parent {s : State} (h : w.Inv s) {parent pkg : Dotted} {o : Obj}
    (hparent : s.modules parent = some (.package pkg)) (ho : s.modules (unwrap parent) = some o) :
    o = .package (unwrap parent) ∧ ∀ attr ∈ (unwrap parent).dropLast, Ordinary attr := by
  obtain ⟨rfl, hne, hbetween, hunwrap⟩ := h.of_package hparent
  rcases pkg with - | ⟨child, - | ⟨second, parent⟩⟩
  · exact absurd rfl hne
  · have hsingle : unwrap [child] = [keywordUnwrap child] := unwrap_eq_map _
    rw [hsingle] at ho ⊢
    exact ⟨(h.top ho).1, List.forall_mem_nil _⟩
  · rw [hunwrap (List.cons_ne_nil second parent)] at ho ⊢
    rw [hparent] at ho
    exact ⟨(Option.some.inj ho).symm, hbetween⟩

/-! ### The loader -/

variable {m : Dotted → Option Obj}

theorem triple_getattro {self : Dotted} {attr : Attr} (hkey : attr ≠ jpackageKey) :
    Triple (fun s ↦ w.Inv s ∧ s.modules = m) (w.getattro self attr)
      (fun o s ↦ (w.Inv s ∧ s.modules = m) ∧
        (self ≠ [] → unwrap self = self → keywordUnwrap attr = attr →
          (Ordinary attr → o = w.object (attr :: self)) ∧ (IsPrivate attr → ¬o.IsJava)) ∧
        (attr = handlerKey → ∀ name, m name = some (.package self) → o = .handler))
      fun _ s ↦ w.Inv s ∧ s.modules = m := by
  rintro s ⟨h, rfl⟩
  have hacc := w.accessed_getattro s self attr
  generalize (w.getattro self attr).exec s = outcome at hacc ⊢
  obtain ⟨e | o, s'⟩ := outcome
  · exact ⟨h.accessed hkey hacc, hacc.modules_eq⟩
  · refine ⟨⟨h.accessed hkey hacc, hacc.modules_eq⟩, fun hne hself hattr ↦
      h.of_accessed hkey hne hself hattr hacc, ?_⟩
    rintro rfl name hname
    have hdict := h.hasHandler hname
    rcases hacc with hc | ht | - | ⟨hnew, -, -, -⟩
    · exact Option.some.inj (hc.symm.trans hdict)
    · exact absurd ht (by decide)
    · rw [hdict] at hnew
      cases hnew

theorem triple_hasattr {self : Dotted} {attr : Attr} (hkey : attr ≠ jpackageKey) :
    Triple (fun s ↦ w.Inv s ∧ s.modules = m) (w.hasattr self attr)
      (fun _ s ↦ w.Inv s ∧ s.modules = m) fun _ s ↦ w.Inv s ∧ s.modules = m := by
  refine .tryCatch (.bind (triple_getattro hkey) fun _ ↦ .pure fun s hs ↦ hs.1) fun e ↦ ?_
  split_ifs
  · exact .pure fun s hs ↦ hs
  · exact .throw fun s hs ↦ hs

/-- The names of specs: a top level package, or the unwrapped name of an attribute of a package that
is registered. -/
def Specified (w : World) (m : Dotted → Option Obj) (name : Dotted) (spec : Dotted) : Prop :=
  (∃ top, name = [top] ∧ spec = [top] ∧ w.isPackage (unwrap [top])) ∨
  ∃ child parent pkg, name = child :: parent ∧ parent ≠ [] ∧ spec = unwrap (child :: parent) ∧
    m parent = some (.package pkg)

theorem triple_findSpec {name : Dotted} (hkey : jpackageKey ∉ name) :
    Triple (fun s ↦ w.Inv s ∧ s.modules = m) (w.findSpec name)
      (fun spec s ↦ (w.Inv s ∧ s.modules = m) ∧ ∀ sp, spec = some sp → Specified w m name sp)
      fun _ s ↦ w.Inv s ∧ s.modules = m := by
  rcases name with - | ⟨child, - | ⟨second, parent⟩⟩
  · exact .pure fun s hs ↦ ⟨hs, by rintro _ ⟨⟩⟩
  · rw [findSpec]
    split_ifs with hpackage
    · refine .pure fun s hs ↦ ⟨hs, ?_⟩
      rintro _ ⟨⟩
      exact Or.inl ⟨child, rfl, rfl, hpackage⟩
    · exact .throw fun s hs ↦ hs
    · exact .pure fun s hs ↦ ⟨hs, by rintro _ ⟨⟩⟩
  · refine .get_bind ?_
    rintro s ⟨h, rfl⟩
    have hnone : Triple (· = s) (Pure.pure none : PyProgram (Option Dotted))
        (fun spec s' ↦ (w.Inv s' ∧ s'.modules = s.modules) ∧ ∀ sp, spec = some sp →
          Specified w s.modules (child :: second :: parent) sp)
        fun _ s' ↦ w.Inv s' ∧ s'.modules = s.modules := by
      refine .pure ?_
      rintro _ rfl
      exact ⟨⟨h, rfl⟩, by rintro _ ⟨⟩⟩
    rcases hbase : s.modules (second :: parent) with - | (base | name | - | - | attr)
    · exact hnone
    · refine .bind (.of_eq (triple_hasattr fun heq ↦ hkey (heq ▸ List.mem_cons_self)) ⟨h, rfl⟩)
        fun has ↦ ?_
      split_ifs
      · refine .pure fun s' hs' ↦ ⟨hs', ?_⟩
        rintro _ ⟨⟩
        exact Or.inr ⟨child, second :: parent, base, rfl, List.cons_ne_nil _ _, rfl, hbase⟩
      · exact .throw fun s' hs' ↦ hs'
    all_goals exact hnone

/-- The object for a spec is one that may be registered under its name. -/
def Registrable (w : World) : Dotted → Obj → Prop
  | [], _ => False
  | [top], o => o = .package [top] ∧ w.isPackage (unwrap [top])
  | child :: parent, o => w.Registered child parent o

theorem registrable_iff {child : Attr} {parent : Dotted} (hne : parent ≠ []) {o : Obj} :
    Registrable w (child :: parent) o ↔ w.Registered child parent o := by
  obtain ⟨second, parent, rfl⟩ := List.exists_cons_of_ne_nil hne
  rfl

theorem Inv.setModule {s : State} (h : w.Inv s) {name : Dotted} {o : Obj}
    (hreg : Registrable w name o)
    (hhandler : ∀ {pkg}, o = .package pkg → s.dict pkg handlerKey = some .handler) :
    w.Inv (s.setModule name o) where
  nil := by
    show (if [] = name then some o else s.modules []) = none
    split_ifs with heq
    · exact absurd hreg (heq ▸ id)
    · exact h.nil
  top := by
    intro top o' htop
    change (if [top] = name then some o else s.modules [top]) = _ at htop
    split_ifs at htop with heq
    · obtain rfl : o = o' := by injection htop
      rw [← heq] at hreg
      exact hreg
    · exact h.top htop
  dotted := by
    intro child parent o' hne hname
    change (if child :: parent = name then some o else s.modules (child :: parent)) = _ at hname
    split_ifs at hname with heq
    · obtain rfl : o = o' := by injection hname
      rw [← heq] at hreg
      exact (registrable_iff hne).mp hreg
    · exact h.dotted hne hname
  hasHandler := by
    intro name' pkg hname
    change (if name' = name then some o else s.modules name') = _ at hname
    split_ifs at hname with heq
    · exact hhandler (by injection hname)
    · exact h.hasHandler hname
  capsule := h.capsule
  ordinary := h.ordinary
  private' := h.private'

theorem triple_specObject {name spec : Dotted} (hkey : jpackageKey ∉ name)
    (hspec : Specified w m name spec) :
    Triple (fun s ↦ w.Inv s ∧ s.modules = m) (specObject w spec)
      (fun o s ↦ w.Inv s ∧ s.modules = m ∧ Registrable w spec o)
      fun _ s ↦ w.Inv s := by
  rcases hspec with ⟨top, rfl, rfl, hpackage⟩ | ⟨child, parent, pkg, rfl, hne, rfl, hparent⟩
  · exact .pure fun s hs ↦ ⟨hs.1, hs.2, rfl, hpackage⟩
  · have hne' : unwrap parent ≠ [] := fun heq ↦ hne (unwrap_eq_nil_iff.mp heq)
    have hchild : keywordUnwrap child ≠ jpackageKey := fun heq ↦ by
      rw [keywordUnwrap_eq_of_reserved (Or.inr (Or.inl heq))] at heq
      exact hkey (heq ▸ List.mem_cons_self)
    obtain ⟨second, rest, heq⟩ := List.exists_cons_of_ne_nil hne'
    rw [unwrap_cons, heq]
    -- The parent is looked up under its unwrapped name.
    refine .get_bind ?_
    rw [← heq]
    rintro s ⟨h, rfl⟩
    rcases ho : s.modules (unwrap parent) with - | o
    · refine .throw ?_
      rintro _ rfl
      exact h
    · obtain ⟨rfl, hbetween⟩ := h.of_parent hparent ho
      refine .of_eq (.consequence (triple_getattro hchild) (fun _ hs ↦ hs) ?_ fun _ _ hs ↦ hs.1)
        ⟨h, rfl⟩
      rintro o s' ⟨⟨h', hm⟩, hfacts, hhandler⟩
      obtain ⟨hord, hprivate⟩ :=
        hfacts hne' (unwrap_unwrap parent) (keywordUnwrap_keywordUnwrap child)
      refine ⟨h', hm, (registrable_iff hne').mpr ⟨?_, hbetween, hord, ?_, hprivate⟩⟩
      · rw [unwrap_cons, keywordUnwrap_keywordUnwrap, unwrap_unwrap]
      · exact fun hk ↦ hhandler hk (unwrap parent) ho

theorem triple_load {name spec : Dotted} (hkey : jpackageKey ∉ name)
    (hspec : Specified w m name spec) :
    Triple (fun s ↦ w.Inv s ∧ s.modules = m) (w.load spec)
      (fun o s ↦ w.Inv s ∧ s.modules spec = some o) fun _ s ↦ w.Inv s := by
  have hset : ∀ o, Triple (fun s ↦ w.Inv s ∧ s.modules = m ∧ Registrable w spec o)
      (w.setHandler o)
      (fun _ s ↦ w.Inv s ∧ Registrable w spec o ∧
        ∀ {pkg}, o = .package pkg → s.dict pkg handlerKey = some .handler)
      fun _ s ↦ w.Inv s := by
    rintro (pkg | pkg | - | - | attr)
    · refine .modify fun s hs ↦ ⟨hs.1.setItem (fitting_handler s pkg), hs.2.2, ?_⟩
      rintro _ ⟨⟩
      exact State.dict_setItem_self s pkg handlerKey .handler
    · exact .pure fun s hs ↦ ⟨hs.1, hs.2.2, by rintro _ ⟨⟩⟩
    · exact .pure fun s hs ↦ ⟨hs.1, hs.2.2, by rintro _ ⟨⟩⟩
    · exact .throw fun s hs ↦ hs.1
    · rw [setHandler]
      split_ifs
      · exact .pure fun s hs ↦ ⟨hs.1, hs.2.2, by rintro _ ⟨⟩⟩
      · exact .throw fun s hs ↦ hs.1
  have hcreate : Triple (fun s ↦ w.Inv s ∧ s.modules = m) (w.createModule spec)
      (fun o s ↦ w.Inv s ∧ Registrable w spec o ∧
        ∀ {pkg}, o = .package pkg → s.dict pkg handlerKey = some .handler)
      fun _ s ↦ w.Inv s :=
    .bind (triple_specObject hkey hspec) fun o ↦ .bind (hset o) fun _ ↦ .pure fun s hs ↦ hs
  exact .bind hcreate fun o ↦ .bind (.modify fun s hs ↦ ⟨hs.1.setModule hs.2.1 hs.2.2,
    State.modules_setModule_self s spec o⟩) fun _ ↦ .pure fun s hs ↦ hs

/-- What is registered under the unwrapped name fits in the dictionary of the parent. -/
theorem Inv.fitting_child {s : State} (h : w.Inv s) {child : Attr} {parent pkg : Dotted} {o : Obj}
    (hkey : child ≠ jpackageKey) (hparent : s.modules parent = some (.package pkg))
    (ho : s.modules (unwrap (child :: parent)) = some o) : w.Fitting s pkg child o := by
  obtain ⟨rfl, hne, -, -⟩ := h.of_package hparent
  rw [unwrap_cons] at ho
  have hreg := h.dotted (fun heq ↦ hne (unwrap_eq_nil_iff.mp heq)) ho
  refine ⟨fun hk ↦ absurd hk hkey, fun hk _ ↦ hreg.handler ?_, fun _ hself hattr hord _ ↦ ?_,
    fun hp ↦ hreg.private' ?_⟩
  · rw [hk]
    decide
  · rw [hattr, hself] at hreg
    exact hreg.ordinary hord
  · rwa [keywordUnwrap_of_private hp]

theorem triple_bindInParent {child : Attr} {parent spec : Dotted} {o : Obj}
    (hkey : child ≠ jpackageKey) (hspec : spec = unwrap (child :: parent)) :
    Triple (fun s ↦ w.Inv s ∧ s.modules spec = some o) (bindInParent child parent o)
      (fun _ s ↦ w.Inv s ∧ s.modules spec = some o) fun _ s ↦ w.Inv s := by
  refine .get_bind ?_
  rintro s ⟨h, ho⟩
  rcases hparent : s.modules parent with - | (pkg | name | - | - | attr)
  · exact .of_eq (.pure fun s hs ↦ hs) ⟨h, ho⟩
  · refine .of_eq (.modify ?_) rfl
    rintro _ rfl
    exact ⟨h.setItem (h.fitting_child hkey hparent (hspec ▸ ho)), ho⟩
  all_goals exact .of_eq (.pure fun s hs ↦ hs) ⟨h, ho⟩

theorem triple_importChild {child : Attr} {parent : Dotted}
    (hkey : jpackageKey ∉ child :: parent) (hne : parent ≠ []) :
    Triple w.Inv (w.importChild child parent) (fun _ ↦ w.Inv) fun _ ↦ w.Inv := by
  refine .get_bind fun s h ↦ ?_
  rcases s.modules (child :: parent) with - | module
  · refine .get_bind ?_
    rintro s rfl
    have hthrow : ∀ e, Triple (· = s) (throw e : PyProgram Obj) (fun _ ↦ w.Inv) fun _ ↦ w.Inv :=
      fun e ↦ .throw fun _ hs ↦ hs ▸ h
    rcases s.modules parent with - | (pkg | name | - | - | attr)
    · exact hthrow _
    · refine .bind (.of_eq (.consequence (triple_findSpec hkey) (fun _ hs ↦ hs) (fun _ _ hs ↦ hs)
        fun _ _ hs ↦ hs.1) ⟨h, rfl⟩) fun spec ↦ ?_
      rcases spec with - | spec
      · exact .throw fun s' hs' ↦ hs'.1.1
      · refine .of_forall fun s' hs' ↦ ?_
        have hspec := hs'.2 spec rfl
        have hname : spec = unwrap (child :: parent) := by
          rcases hspec with ⟨top, heq, -, -⟩ | ⟨_, _, _, heq, -, rfl, -⟩
          · exact absurd (List.cons_eq_cons.mp heq).2 hne
          · rw [heq]
        refine .of_eq (.bind (triple_load hkey hspec) fun module ↦ ?_) hs'.1
        exact .bind (triple_bindInParent (fun heq ↦ hkey (heq ▸ List.mem_cons_self)) hname)
          fun _ ↦ .pure fun s hs ↦ hs.1
    all_goals exact hthrow _
  · exact .of_eq (.pure fun s hs ↦ hs) h

/-- An import keeps the caches coherent, whether it succeeds or not. -/
theorem triple_importName {name : Dotted} (hkey : jpackageKey ∉ name) :
    Triple w.Inv (w.importName name) (fun _ ↦ w.Inv) fun _ ↦ w.Inv := by
  induction name with
  | nil => exact .throw fun s hs ↦ hs
  | cons child parent ih =>
    rcases parent with - | ⟨second, parent⟩
    · refine .get_bind fun s h ↦ ?_
      rcases s.modules [child] with - | module
      · refine .bind (.of_eq (.consequence (triple_findSpec hkey) (fun _ hs ↦ hs)
          (fun _ _ hs ↦ hs) fun _ _ hs ↦ hs.1) ⟨h, rfl⟩) fun spec ↦ ?_
        rcases spec with - | spec
        · exact .throw fun s' hs' ↦ hs'.1.1
        · refine .of_forall fun s' hs' ↦ .of_eq (.consequence (triple_load hkey (hs'.2 spec rfl))
            (fun _ hs ↦ hs) (fun _ _ hs ↦ hs.1) fun _ _ hs ↦ hs) hs'.1
      · exact .of_eq (.pure fun s hs ↦ hs) h
    · refine .get_bind fun s h ↦ ?_
      rcases s.modules (child :: second :: parent) with - | module
      · refine .of_eq (.bind (ih fun hmem ↦ hkey (List.mem_cons_of_mem _ hmem)) fun _ ↦ ?_) h
        exact triple_importChild hkey (List.cons_ne_nil _ _)
      · exact .of_eq (.pure fun s hs ↦ hs) h

end World

/-- The action leaves the key of the Java object alone. -/
def Action.Avoids : Action → Prop
  | .importName name => jpackageKey ∉ name
  | .access _ attr => attr ≠ jpackageKey

namespace World

variable {w : World}

theorem Inv.step {s : State} (h : w.Inv s) {a : Action} (ha : a.Avoids) : w.Inv (w.step s a) := by
  rcases a with name | ⟨self, attr⟩
  · exact (triple_importName ha).exec_snd h
  · exact h.accessed ha (w.accessed_getattro s self attr)

/-- The caches are coherent after every history. -/
theorem inv_run {actions : List Action} (h : ∀ a ∈ actions, a.Avoids) : w.Inv (w.run actions) := by
  suffices hfold : ∀ s, w.Inv s → w.Inv (actions.foldl w.step s) from hfold _ w.inv_initial
  induction actions with
  | nil => exact fun s hs ↦ hs
  | cons a actions ih =>
    obtain ⟨ha, hrest⟩ := List.forall_mem_cons.mp h
    exact fun s hs ↦ ih hrest _ (hs.step ha)

end World

end JPype.Import
