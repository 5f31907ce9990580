import JPype.Import.Coherence

/-!
# Importing and navigating

The import of a Java name should come to the object that is reached by attributes, and register it
under the name that is asked for. After every history this is so exactly for the names that are
plain (`agrees_iff`): no component after the first is a keyword with an underscore, nor is the first
one if there are others, because `find_spec` unwraps the name that `importlib` uses; and no
component after the first is private or the key of the handler.
-/

namespace JPype.Import

open Foundation (Triple)
open scoped Foundation.Membership

namespace World

variable (w : World)

/-- The unwrapped components are packages, and the last one is a package or a public class. -/
structure Admissible (name : Dotted) : Prop where
  packages : ∀ pkg ∈ name.tail.tails, pkg ≠ [] → w.isPackage (unwrap pkg)
  last : w.isPackage (unwrap name) ∨ w.isPublicClass (unwrap name)
  ne_nil : name ≠ []

/-- The object is that of the unwrapped Java name: a package, or else a class. -/
def Denotes (name : Dotted) (o : Obj) : Prop :=
  if w.isPackage (unwrap name) then ∃ pkg, o = .package pkg ∧ unwrap pkg = unwrap name
  else o = .javaClass (unwrap name)

/-- The import succeeds, the module is registered under the name, and it is the object of the Java
name, which is reached by attributes before and after the import. -/
def Agrees (s : State) (name : Dotted) : Prop :=
  ∃ o s', (w.importName name).exec s = (.ok o, s') ∧ s'.modules name = some o ∧
    w.Denotes name o ∧ ((w.navigate name).exec s).1 = .ok o ∧
    ((w.navigate name).exec s').1 = .ok o

/-- A top level package, or a name without keywords in which every component but the first is
ordinary. -/
def Plain : Dotted → Prop
  | [] => False
  | [top] => w.isPackage (unwrap [top])
  | name => unwrap name = name ∧ ∀ attr ∈ name.dropLast, Ordinary attr

/-- The object of a plain name. -/
def objectOf (name : Dotted) : Obj :=
  if w.isPackage (unwrap name) then .package name else .javaClass name

variable {w}

theorem Denotes.isJava {name : Dotted} {o : Obj} (h : w.Denotes name o) : o.IsJava := by
  rw [Denotes] at h
  split_ifs at h
  · obtain ⟨pkg, rfl, -⟩ := h
    trivial
  · rw [h]
    trivial

theorem plain_cons {child : Attr} {parent : Dotted} (hne : parent ≠ []) :
    w.Plain (child :: parent) ↔ unwrap (child :: parent) = child :: parent ∧
      Ordinary child ∧ ∀ attr ∈ parent.dropLast, Ordinary attr := by
  obtain ⟨second, parent, rfl⟩ := List.exists_cons_of_ne_nil hne
  show (unwrap _ = _ ∧ ∀ attr ∈ (child :: second :: parent).dropLast, Ordinary attr) ↔ _
  rw [List.dropLast_cons_of_ne_nil hne, List.forall_mem_cons]

theorem unwrap_parent {child : Attr} {parent : Dotted}
    (h : unwrap (child :: parent) = child :: parent) :
    keywordUnwrap child = child ∧ unwrap parent = parent := by
  rw [unwrap_cons] at h
  exact List.cons_eq_cons.mp h

theorem Plain.parent {child : Attr} {parent : Dotted} (h : w.Plain (child :: parent))
    (hne : parent ≠ []) (hpackage : w.isPackage (unwrap parent)) : w.Plain parent := by
  obtain ⟨hunwrap, -, hbetween⟩ := (plain_cons hne).mp h
  rcases parent with - | ⟨second, - | ⟨third, parent⟩⟩
  · exact absurd rfl hne
  · exact hpackage
  · exact ⟨(unwrap_parent hunwrap).2, hbetween⟩

theorem Admissible.package {child : Attr} {parent : Dotted} (h : w.Admissible (child :: parent))
    (hne : parent ≠ []) : w.isPackage (unwrap parent) :=
  h.packages parent ((List.mem_tails _ _).mpr List.suffix_rfl) hne

theorem Admissible.parent {child : Attr} {parent : Dotted} (h : w.Admissible (child :: parent))
    (hne : parent ≠ []) : w.Admissible parent where
  packages := fun pkg hpkg ↦ h.packages pkg <| (List.mem_tails _ _).mpr <|
    ((List.mem_tails _ _).mp hpkg).trans (List.tail_suffix parent)
  last := Or.inl (h.package hne)
  ne_nil := hne

theorem Plain.denotes {name : Dotted} (h : w.Plain name) : w.Denotes name (w.objectOf name) := by
  rw [Denotes, objectOf]
  split_ifs with hpackage
  · exact ⟨name, rfl, rfl⟩
  · rcases name with - | ⟨child, - | ⟨second, parent⟩⟩
    · exact absurd h id
    · exact absurd h hpackage
    · rw [h.1]

/-- A name is plain if a module is registered under it that is the object of the Java name. -/
theorem Inv.plain {s : State} (h : w.Inv s) {name : Dotted} {o : Obj}
    (ho : s.modules name = some o) (hdenotes : w.Denotes name o) : w.Plain name := by
  rcases name with - | ⟨child, - | ⟨second, parent⟩⟩
  · rw [h.nil] at ho
    cases ho
  · exact (h.top ho).2
  · have hne : second :: parent ≠ [] := List.cons_ne_nil _ _
    have hreg := h.dotted hne ho
    refine (plain_cons hne).mpr ⟨hreg.unwrapped, ⟨fun hk ↦ ?_, fun hp ↦ ?_⟩, hreg.between⟩
    · have hjava := hdenotes.isJava
      rw [hreg.handler hk] at hjava
      exact hjava
    · exact hreg.private' hp hdenotes.isJava

/-- What is registered under a plain name is its object. -/
theorem Inv.eq_objectOf {s : State} (h : w.Inv s) {name : Dotted} {o : Obj} (hplain : w.Plain name)
    (ho : s.modules name = some o) : o = w.objectOf name := by
  rcases name with - | ⟨child, - | ⟨second, parent⟩⟩
  · exact absurd hplain id
  · obtain ⟨rfl, hpackage⟩ := h.top ho
    rw [objectOf, if_pos hpackage]
  · have hne : second :: parent ≠ [] := List.cons_ne_nil _ _
    obtain ⟨hunwrap, hord, -⟩ := (plain_cons hne).mp hplain
    rw [(h.dotted hne ho).ordinary hord, objectOf, object, hunwrap]

/-! ### Plain names are reached -/

section Reached

variable {child : Attr} {parent : Dotted} {m : Dotted → Option Obj}

/-- The lookup of a plain name comes to an object. -/
theorem exists_getattro {s : State} (h : w.Inv s) (hadm : w.Admissible (child :: parent))
    (hne : parent ≠ []) (hplain : w.Plain (child :: parent)) :
    ∃ o s', (w.getattro parent child).exec s = (.ok o, s') := by
  obtain ⟨hunwrap, hord, -⟩ := (plain_cons hne).mp hplain
  obtain ⟨o, hobject⟩ : ∃ o, w.getObject parent child = some o := by
    have hlast := hadm.last
    rw [unwrap_cons] at hlast
    rw [getObject]
    split_ifs with hpackage hclass
    · exact ⟨_, rfl⟩
    · exact ⟨_, rfl⟩
    · exact absurd hlast (not_or.mpr ⟨hpackage, hclass⟩)
  obtain ⟨s', hgetPackage⟩ : ∃ s', (w.getPackage parent).exec s = (.ok (), s') := by
    rw [exec_getPackage]
    rcases hitem : s.dict parent jpackageKey with - | item
    · exact ⟨_, by rw [if_pos (hadm.package hne)]⟩
    · rw [h.capsule hitem]
      exact ⟨s, rfl⟩
  rw [getattro, Foundation.Program.exec_bind, Foundation.Program.exec_get]
  dsimp only
  rcases s.dict parent child with - | out
  · dsimp only
    rw [if_neg hord.2, Foundation.Program.exec_bind, hgetPackage]
    dsimp only
    rw [hobject]
    exact ⟨_, _, rfl⟩
  · exact ⟨_, _, rfl⟩

theorem total_getattro (hadm : w.Admissible (child :: parent)) (hkey : child ≠ jpackageKey)
    (hne : parent ≠ []) (hplain : w.Plain (child :: parent)) :
    Triple (fun s ↦ w.Inv s ∧ s.modules = m) (w.getattro parent child)
      (fun o s ↦ (w.Inv s ∧ s.modules = m) ∧ o = w.objectOf (child :: parent))
      fun _ _ ↦ False := by
  obtain ⟨hunwrap, hord, -⟩ := (plain_cons hne).mp hplain
  obtain ⟨hchild, hparent⟩ := unwrap_parent hunwrap
  refine Triple.total (.consequence (triple_getattro hkey) (fun _ hs ↦ hs) ?_ fun _ _ hs ↦ hs) ?_
  · intro o s hs
    refine ⟨hs.1, ?_⟩
    rw [(hs.2.1 hne hparent hchild).1 hord, objectOf, object, hunwrap]
  · rintro s ⟨h, -⟩
    obtain ⟨o, s', hexec⟩ := exists_getattro h hadm hne hplain
    rw [hexec]
    trivial

theorem total_hasattr (hadm : w.Admissible (child :: parent)) (hkey : child ≠ jpackageKey)
    (hne : parent ≠ []) (hplain : w.Plain (child :: parent)) :
    Triple (fun s ↦ w.Inv s ∧ s.modules = m) (w.hasattr parent child)
      (fun b s ↦ (w.Inv s ∧ s.modules = m) ∧ b = true) fun _ _ ↦ False := by
  refine .tryCatch (.bind (total_getattro hadm hkey hne hplain) fun _ ↦ .pure fun s hs ↦
    ⟨hs.1, rfl⟩) fun e s hs ↦ ?_
  exact absurd hs id

theorem total_findSpec (hadm : w.Admissible (child :: parent)) (hkey : child ≠ jpackageKey)
    (hne : parent ≠ []) (hplain : w.Plain (child :: parent))
    (hparent : m parent = some (.package parent)) :
    Triple (fun s ↦ w.Inv s ∧ s.modules = m) (w.findSpec (child :: parent))
      (fun spec s ↦ (w.Inv s ∧ s.modules = m) ∧ spec = some (child :: parent))
      fun _ _ ↦ False := by
  obtain ⟨hunwrap, -, -⟩ := (plain_cons hne).mp hplain
  obtain ⟨second, rest, rfl⟩ := List.exists_cons_of_ne_nil hne
  refine .get_bind ?_
  rintro s ⟨h, rfl⟩
  rw [hparent]
  refine .bind (.of_eq (total_hasattr hadm hkey hne hplain) ⟨h, rfl⟩) fun b ↦ ?_
  refine .of_forall fun s' hs' ↦ ?_
  obtain ⟨hs', rfl⟩ := hs'
  rw [if_pos rfl, hunwrap]
  exact .of_eq (.pure fun _ hs ↦ ⟨hs, rfl⟩) hs'

/-- The module of a plain name is created. -/
theorem total_load (hadm : w.Admissible (child :: parent)) (hkey : child ≠ jpackageKey)
    (hne : parent ≠ []) (hplain : w.Plain (child :: parent))
    (hparent : m parent = some (.package parent)) :
    Triple (fun s ↦ w.Inv s ∧ s.modules = m) (w.load (child :: parent)) (fun _ _ ↦ True)
      fun _ _ ↦ False := by
  obtain ⟨second, rest, rfl⟩ := List.exists_cons_of_ne_nil hne
  have hobject : Triple (fun s ↦ w.Inv s ∧ s.modules = m)
      (w.specObject (child :: second :: rest))
      (fun o _ ↦ o = w.objectOf (child :: second :: rest)) fun _ _ ↦ False := by
    refine .get_bind ?_
    rintro s ⟨h, rfl⟩
    rw [hparent]
    exact .of_eq (.consequence (total_getattro hadm hkey hne hplain) (fun _ hs ↦ hs)
      (fun _ _ hs ↦ hs.2) fun _ _ hs ↦ hs) ⟨h, rfl⟩
  have hhandler : Triple (fun _ ↦ True) (w.setHandler (w.objectOf (child :: second :: rest)))
      (fun _ _ ↦ True) fun _ _ ↦ False := by
    rw [objectOf]
    split_ifs
    · exact .modify fun _ _ ↦ trivial
    · exact .pure fun _ _ ↦ trivial
  refine .bind (.bind hobject fun o ↦ ?_) fun o ↦ .bind (.modify fun _ hs ↦ hs) fun _ ↦
    .pure fun _ hs ↦ hs
  refine .of_forall ?_
  rintro s rfl
  exact .of_eq (.bind hhandler fun _ ↦ .pure fun _ hs ↦ hs) trivial

end Reached

theorem total_importChild {child : Attr} {parent : Dotted}
    (hadm : w.Admissible (child :: parent)) (hkey : jpackageKey ∉ child :: parent)
    (hne : parent ≠ []) (hplain : w.Plain (child :: parent)) {o : Obj} :
    Triple (fun s ↦ w.Inv s ∧ s.modules parent = some o) (w.importChild child parent)
      (fun o s ↦ w.Inv s ∧ s.modules (child :: parent) = some o) fun _ _ ↦ False := by
  have hpackage := hadm.package hne
  have hkey' : child ≠ jpackageKey := fun heq ↦ hkey (heq ▸ List.mem_cons_self)
  have hunwrap := ((plain_cons hne).mp hplain).1
  refine .get_bind ?_
  rintro s ⟨h, ho⟩
  obtain rfl := h.eq_objectOf (hplain.parent hne hpackage) ho
  rw [objectOf, if_pos hpackage] at ho
  rcases hmodule : s.modules (child :: parent) with - | module
  · refine .get_bind ?_
    rintro s rfl
    rw [ho]
    refine .bind (.of_eq (total_findSpec hadm hkey' hne hplain ho) ⟨h, rfl⟩) fun spec ↦ ?_
    refine .of_forall ?_
    rintro s' ⟨hs', rfl⟩
    have hspec : Specified w s.modules (child :: parent) (child :: parent) :=
      Or.inr ⟨child, parent, parent, rfl, hne, hunwrap.symm, ho⟩
    refine .of_eq (.bind ((triple_load hkey hspec).total
      (total_load hadm hkey' hne hplain ho)) fun module ↦ ?_) hs'
    refine .bind ((triple_bindInParent hkey' hunwrap.symm).total ?_) fun _ ↦ .pure fun _ hs ↦ hs
    refine .get_bind ?_
    rintro t -
    rcases t.modules parent with - | (pkg | name | - | - | attr)
    · exact .pure fun _ _ ↦ trivial
    · exact .modify fun _ _ ↦ trivial
    all_goals exact .pure fun _ _ ↦ trivial
  · exact .of_eq (.pure fun _ hs ↦ hs) ⟨h, hmodule⟩

/-- The import of a plain name succeeds, and registers the module under the name. -/
theorem total_importName {name : Dotted} (hadm : w.Admissible name) (hkey : jpackageKey ∉ name)
    (hplain : w.Plain name) :
    Triple w.Inv (w.importName name) (fun o s ↦ w.Inv s ∧ s.modules name = some o)
      fun _ _ ↦ False := by
  induction name with
  | nil => exact absurd hplain id
  | cons child parent ih =>
    rcases parent with - | ⟨second, parent⟩
    · refine .get_bind fun s h ↦ ?_
      rcases hmodule : s.modules [child] with - | module
      · have hpackage : w.isPackage (unwrap [child]) := hplain
        have hspec : Specified w s.modules [child] [child] := Or.inl ⟨child, rfl, rfl, hpackage⟩
        rw [findSpec, if_pos hpackage]
        refine .of_eq ((triple_load hkey hspec).total ?_) ⟨h, rfl⟩
        -- Nothing is looked up for a single component.
        exact fun _ _ ↦ trivial
      · exact .of_eq (.pure fun _ hs ↦ hs) ⟨h, hmodule⟩
    · have hne : second :: parent ≠ [] := List.cons_ne_nil _ _
      refine .get_bind fun s h ↦ ?_
      rcases hmodule : s.modules (child :: second :: parent) with - | module
      · refine .of_eq (.bind (ih (hadm.parent hne)
          (fun hmem ↦ hkey (List.mem_cons_of_mem _ hmem))
          (hplain.parent hne (hadm.package hne))) fun o ↦ ?_) h
        exact total_importChild hadm hkey hne hplain
      · exact .of_eq (.pure fun _ hs ↦ hs) ⟨h, hmodule⟩

/-- The attributes along a plain name lead to its object. -/
theorem total_navigate {name : Dotted} (hadm : w.Admissible name) (hkey : jpackageKey ∉ name)
    (hplain : w.Plain name) :
    Triple w.Inv (w.navigate name) (fun o s ↦ w.Inv s ∧ o = w.objectOf name) fun _ _ ↦ False := by
  induction name with
  | nil => exact absurd hplain id
  | cons child parent ih =>
    rcases parent with - | ⟨second, parent⟩
    · have hpackage : w.isPackage (unwrap [child]) := hplain
      refine .pure fun s h ↦ ⟨h, ?_⟩
      rw [objectOf, if_pos hpackage]
    · have hne : second :: parent ≠ [] := List.cons_ne_nil _ _
      have hpackage := hadm.package hne
      refine .bind (ih (hadm.parent hne) (fun hmem ↦ hkey (List.mem_cons_of_mem _ hmem))
        (hplain.parent hne hpackage)) fun o ↦ ?_
      refine .of_forall ?_
      rintro s ⟨h, rfl⟩
      rw [objectOf, if_pos hpackage]
      exact .of_eq (.consequence (total_getattro hadm (fun heq ↦ hkey (heq ▸ List.mem_cons_self))
        hne hplain) (fun _ hs ↦ hs) (fun _ _ hs ↦ ⟨hs.1.1, hs.2⟩) fun _ _ hs ↦ hs) ⟨h, rfl⟩

theorem navigate_fst {s : State} (h : w.Inv s) {name : Dotted} (hadm : w.Admissible name)
    (hkey : jpackageKey ∉ name) (hplain : w.Plain name) :
    ((w.navigate name).exec s).1 = .ok (w.objectOf name) := by
  have hnavigate := total_navigate hadm hkey hplain s h
  generalize (w.navigate name).exec s = outcome at hnavigate ⊢
  obtain ⟨e | o, s'⟩ := outcome
  · exact absurd hnavigate id
  · rw [hnavigate.2]

/-- After every history that leaves the key of the Java object alone, an import agrees with
navigating to the name exactly if the name is plain. -/
theorem agrees_iff {actions : List Action} (hactions : ∀ a ∈ actions, a.Avoids) {name : Dotted}
    (hadm : w.Admissible name) (hkey : jpackageKey ∉ name) :
    w.Agrees (w.run actions) name ↔ w.Plain name := by
  have h : w.Inv (w.run actions) := inv_run hactions
  constructor
  · rintro ⟨o, s', himport, ho, hdenotes, -, -⟩
    have h' := triple_importName hkey (w.run actions) h
    rw [himport] at h'
    exact h'.plain ho hdenotes
  · intro hplain
    have himport := total_importName hadm hkey hplain (w.run actions) h
    rcases hexec : (w.importName name).exec (w.run actions) with ⟨e | o, s'⟩
    · rw [hexec] at himport
      exact absurd himport id
    · rw [hexec] at himport
      obtain ⟨h', ho⟩ := himport
      obtain rfl := h'.eq_objectOf hplain ho
      exact ⟨_, s', hexec, ho, hplain.denotes, navigate_fst h hadm hkey hplain,
        navigate_fst h' hadm hkey hplain⟩

/-- The name with the given components, from the first one on. -/
def nameOf (attrs : List String) : Dotted :=
  (attrs.map String.toList).reverse

/-- Some packages, one of which has the name of a keyword, and a class. -/
def sample : World where
  isPackage := fun name ↦ decide (name ∈ [nameOf ["java"], nameOf ["java", "lang"], nameOf ["org"],
    nameOf ["org", "in"]])
  isPublicClass := fun name ↦ decide (name = nameOf ["java", "lang", "String"])
  typeAttribute := fun _ ↦ false
  takesAttributes := fun _ ↦ false

/-- The import of a class whose package has been navigated to and imported before. -/
theorem agrees_sample :
    sample.Agrees (sample.run [.access (nameOf ["java"]) "lang".toList,
      .importName (nameOf ["java", "lang"])]) (nameOf ["java", "lang", "String"]) := by
  have hadm : sample.Admissible (nameOf ["java", "lang", "String"]) :=
    ⟨by decide +kernel, Or.inr (by decide +kernel), by decide⟩
  refine (agrees_iff ?_ hadm (by decide)).mpr ⟨by decide +kernel, ?_⟩
  · intro a ha
    simp only [List.mem_cons, List.not_mem_nil, or_false] at ha
    rcases ha with rfl | rfl
    · show "lang".toList ≠ jpackageKey
      decide
    · show jpackageKey ∉ nameOf ["java", "lang"]
      decide
  · intro attr hattr
    have hall : ∀ attr ∈ (nameOf ["java", "lang", "String"]).dropLast,
        attr ≠ handlerKey ∧ ¬IsPrivate attr := by
      decide +kernel
    exact hall attr hattr

/-- The package `org.in` is imported as `org.in_`, but it is not registered under this name. -/
theorem not_agrees_keyword :
    sample.Admissible (nameOf ["org", "in_"]) ∧
      ¬sample.Agrees (sample.run []) (nameOf ["org", "in_"]) := by
  have hregistered : ((sample.importName (nameOf ["org", "in_"])).exec .initial).2.modules
      (nameOf ["org", "in_"]) = none := by
    decide +kernel
  refine ⟨⟨by decide +kernel, Or.inl (by decide +kernel), by decide⟩, ?_⟩
  rintro ⟨o, s', himport, ho, -⟩
  change (sample.importName (nameOf ["org", "in_"])).exec .initial = _ at himport
  rw [himport, ho] at hregistered
  cases hregistered

end World

end JPype.Import
