import JPype.Foundation.Traces
import Mathlib.Data.Finset.Basic
import Mathlib.Data.Finset.Dedup

/-!
# Deferred and immediate declarations

A class with `@JImplements` checks its interfaces when it is declared or, with `deferred=True`, when
an instance is made. The deferred form keeps the interfaces in an attribute of the class that is
called, which its subclasses inherit; the immediate form calls `__init__` in `__new__`, and Python
calls it again. So the two forms give the same answers exactly on the runs in which every proxy is
refused (`declarationsAgree_iff`). The interfaces and the refusals alone agree where no decorated
class derives from another one (`made_eq_of_unnested`), whatever the order.
-/

open Foundation

namespace JPype

/-- The Java classes, with what `JClass` makes of a name and the methods of a class: their names
and modifiers. -/
structure JavaClasses (J : Type*) where
  forName : String → Option J
  isInterface : J → Bool
  getMethods : J → List (String × ℕ)

/-- An item of the interface list: a class, a name, or something else. -/
inductive InterfaceEntry (J : Type*) where
  | jclass (c : J)
  | name (s : String)
  | other
  deriving DecidableEq

/-- An argument of `@JImplements`. -/
inductive InterfaceItem (J : Type*) where
  | single (e : InterfaceEntry J)
  | many (es : List (InterfaceEntry J))
  deriving DecidableEq

/-- A decoration, with the names of the class's own attributes that have `__joverride__`. -/
structure Decoration (J : Type*) where
  intf : List (InterfaceItem J)
  overrides : List String

/-- What a declaration or a construction raises. -/
inductive Refusal where
  | typeError
  | notImplementedError
  deriving DecidableEq, Repr

namespace JavaClasses

variable {J : Type*} [DecidableEq J] (java : JavaClasses J)

/-- The class of an item, if it is an interface. -/
def toInterface : InterfaceEntry J → Except Refusal J
  | .jclass c => if java.isInterface c then .ok c else .error .typeError
  | .name s =>
    match java.forName s with
    | none => .error .typeError
    | some c => if java.isInterface c then .ok c else .error .typeError
  | .other => .error .typeError

/-- `_convertInterfaces`. All of its exceptions are of one type, so their order is left out. -/
def convertInterfaces (intf : List (InterfaceItem J)) : Except Refusal (Finset J) :=
  let intflist := intf.flatMap fun
    | .single e => [e]
    | .many es => es
  match intflist.mapM java.toInterface with
  | .error e => .error e
  | .ok [] => .error .typeError
  | .ok (c :: cs) => .ok (c :: cs).toFinset

/-- `_checkInterfaceOverrides` -/
def checkInterfaceOverrides (interfaces : Finset J) (overrides : List String) :
    Except Refusal Unit :=
  if ∀ interface ∈ interfaces, ∀ method ∈ java.getMethods interface,
      method.2 &&& 1024 = 0 ∨ method.1 ∈ overrides then .ok ()
  else .error .notImplementedError

/-- `_prepareInterfaces` -/
def prepareInterfaces (d : Decoration J) : Except Refusal (Finset J) :=
  match java.convertInterfaces d.intf with
  | .error e => .error e
  | .ok actualIntf =>
    match java.checkInterfaceOverrides actualIntf d.overrides with
    | .error e => .error e
    | .ok () => .ok actualIntf

end JavaClasses

/-- The classes of a program, in the order of their declarations. A decoration is one of the class
that the decorator returns. The classes have no `__new__` of their own. -/
structure ClassHierarchy (Cls J : Type*) where
  java : JavaClasses J
  mro : Cls → List Cls
  decoration : Cls → Option (Decoration J)
  declared : List Cls
  mro_head : ∀ c, (mro c).head? = some c
  mro_subset : ∀ a, ∀ b ∈ mro a, mro b ⊆ mro a
  mem_declared : ∀ c, c ∈ declared

/-- What the call of a class gives: the interfaces of the new object, or none if it is no proxy, and
how often `__init__` has been run. -/
structure Construction (J : Type*) where
  made : Except Refusal (Option (Finset J))
  inits : ℕ

/-- `type.__call__`: `__init__` is run on what `__new__` returns. -/
def Construction.call {J : Type*} (new : Construction J) : Construction J :=
  match new.made with
  | .error _ => new
  | .ok _ => { new with inits := new.inits + 1 }

namespace ClassHierarchy

variable {Cls J : Type*} [DecidableEq Cls] [DecidableEq J] (h : ClassHierarchy Cls J)

/-- The decoration of the class in the mro whose `__new__` is called. -/
def nearest (tp : Cls) : Option (Decoration J) :=
  (h.mro tp).findSome? h.decoration

/-- The values of `__jpype_interfaces__` in the dictionaries of the classes. -/
abbrev Attributes (Cls J : Type*) := Cls → Option (Finset J)

/-- `getattr(tp, "__jpype_interfaces__", None)` -/
def getInterfaces (attrs : Attributes Cls J) (tp : Cls) : Option (Finset J) :=
  (h.mro tp).findSome? attrs

/-- `new` of `_createJProxyDeferred` -/
def newDeferred (d : Decoration J) (attrs : Attributes Cls J) (tp : Cls) :
    Construction J × Attributes Cls J :=
  match h.getInterfaces attrs tp with
  | some actualIntf => (⟨.ok (some actualIntf), 0⟩, attrs)
  | none =>
    match h.java.prepareInterfaces d with
    | .error e => (⟨.error e, 0⟩, attrs)
    | .ok actualIntf => (⟨.ok (some actualIntf), 0⟩, Function.update attrs tp (some actualIntf))

/-- The call of a class, where the decorations are deferred. -/
def construct (attrs : Attributes Cls J) (tp : Cls) : Construction J × Attributes Cls J :=
  match h.nearest tp with
  | none => (Construction.call ⟨.ok none, 0⟩, attrs)
  | some d =>
    match h.newDeferred d attrs tp with
    | (new, attrs) => (new.call, attrs)

/-- The constructions of a run, where the decorations are deferred. -/
def deferred (run : List Cls) : List (Construction J) :=
  (trace h.construct (fun _ ↦ none) run).map Prod.fst

/-- The exception of a class that is decorated and fails. -/
def failure (c : Cls) : Option Refusal :=
  match h.decoration c with
  | none => none
  | some d =>
    match h.java.prepareInterfaces d with
    | .error e => some e
    | .ok _ => none

/-- The first exception in the declarations of a class and those it derives from. -/
def firstFailure (tp : Cls) : Option Refusal :=
  (h.declared.filter (· ∈ h.mro tp)).findSome? h.failure

/-- `new` of `_createJProxy`, which calls `__init__`. -/
def newImmediate (actualIntf : Finset J) : Construction J :=
  ⟨.ok (some actualIntf), 1⟩

/-- The call of a class, where the decorations are immediate. There is no class to call if its
declaration, or one before it, has raised an exception. -/
def immediate (tp : Cls) : Construction J :=
  match h.firstFailure tp with
  | some e => ⟨.error e, 0⟩
  | none =>
    match h.nearest tp with
    | none => Construction.call ⟨.ok none, 0⟩
    | some d =>
      match h.java.prepareInterfaces d with
      | .error e => ⟨.error e, 0⟩
      | .ok actualIntf => (newImmediate actualIntf).call

/-- What the two forms are to have in common. -/
structure DeclarationsAgree (run : List Cls) : Prop where
  constructions_eq : h.deferred run = run.map h.immediate
  inits_eq : ∀ c ∈ h.deferred run, ∀ interfaces, c.made = .ok interfaces → c.inits = 1

/-- The class is no proxy, or it is refused on account of its nearest decoration, and the first
exception in its declarations is of the same type. -/
def IsRefused (tp : Cls) : Prop :=
  ∀ d, h.nearest tp = some d →
    ∃ e, h.java.prepareInterfaces d = .error e ∧ h.firstFailure tp = some e

variable {h}

omit [DecidableEq Cls] [DecidableEq J] in
theorem mem_mro (tp : Cls) : tp ∈ h.mro tp :=
  List.mem_of_head? (h.mro_head tp)

omit [DecidableEq Cls] [DecidableEq J] in
theorem exists_of_nearest {tp : Cls} {d : Decoration J} (hd : h.nearest tp = some d) :
    ∃ c ∈ h.mro tp, h.decoration c = some d :=
  List.exists_of_findSome?_eq_some hd

theorem construct_of_nearest_none {tp : Cls} (hd : h.nearest tp = none)
    (attrs : Attributes Cls J) : h.construct attrs tp = (⟨.ok none, 1⟩, attrs) := by
  rw [construct, hd]
  rfl

/-- The attribute of a class decides, also for the classes that derive from it, whatever their own
decorations are. -/
theorem construct_of_attribute {tp : Cls} {d : Decoration J} {attrs : Attributes Cls J}
    {actualIntf : Finset J} (hd : h.nearest tp = some d)
    (hattr : h.getInterfaces attrs tp = some actualIntf) :
    h.construct attrs tp = (⟨.ok (some actualIntf), 1⟩, attrs) := by
  rw [construct, hd]
  dsimp only
  rw [newDeferred, hattr]
  rfl

theorem construct_of_error {tp : Cls} {d : Decoration J} {attrs : Attributes Cls J} {e : Refusal}
    (hd : h.nearest tp = some d) (hattr : h.getInterfaces attrs tp = none)
    (he : h.java.prepareInterfaces d = .error e) :
    h.construct attrs tp = (⟨.error e, 0⟩, attrs) := by
  rw [construct, hd]
  dsimp only
  rw [newDeferred, hattr, he]
  rfl

theorem construct_of_ok {tp : Cls} {d : Decoration J} {attrs : Attributes Cls J}
    {actualIntf : Finset J} (hd : h.nearest tp = some d) (hattr : h.getInterfaces attrs tp = none)
    (hok : h.java.prepareInterfaces d = .ok actualIntf) :
    h.construct attrs tp =
      (⟨.ok (some actualIntf), 1⟩, Function.update attrs tp (some actualIntf)) := by
  rw [construct, hd]
  dsimp only
  rw [newDeferred, hattr, hok]
  rfl

/-- A deferred class runs `__init__` once. -/
theorem construct_inits {attrs : Attributes Cls J} {tp : Cls} {interfaces : Option (Finset J)}
    (hmade : (h.construct attrs tp).1.made = .ok interfaces) :
    (h.construct attrs tp).1.inits = 1 := by
  cases hd : h.nearest tp with
  | none => rw [construct_of_nearest_none hd]
  | some d =>
    cases hattr : h.getInterfaces attrs tp with
    | some actualIntf => rw [construct_of_attribute hd hattr]
    | none =>
      cases hprep : h.java.prepareInterfaces d with
      | ok actualIntf => rw [construct_of_ok hd hattr hprep]
      | error e =>
        rw [construct_of_error hd hattr hprep] at hmade
        cases hmade

/-- The exceptions of the declarations, in terms of the classes that a class derives from. -/
theorem firstFailure_eq_none {tp : Cls} :
    h.firstFailure tp = none ↔ ∀ c ∈ h.mro tp, h.failure c = none := by
  rw [firstFailure, List.findSome?_eq_none_iff]
  refine forall_congr' fun c ↦ ?_
  rw [List.mem_filter, decide_eq_true_iff, and_iff_right (h.mem_declared c)]

theorem immediate_of_nearest_none {tp : Cls} (hd : h.nearest tp = none) :
    h.immediate tp = ⟨.ok none, 1⟩ := by
  have hfail : h.firstFailure tp = none := firstFailure_eq_none.2 fun c hc ↦ by
    rw [failure, List.findSome?_eq_none_iff.1 hd c hc]
  rw [immediate, hfail, hd]
  rfl

/-- A class with a nearest decoration that fails is refused in the immediate form as well. -/
theorem firstFailure_ne_none {tp : Cls} {d : Decoration J} {e : Refusal}
    (hd : h.nearest tp = some d) (he : h.java.prepareInterfaces d = .error e) :
    h.firstFailure tp ≠ none := fun hnone ↦ by
  obtain ⟨c, hc, hdec⟩ := exists_of_nearest hd
  have hfail : h.failure c = some e := by
    rw [failure, hdec]
    dsimp only
    rw [he]
  rw [firstFailure_eq_none.1 hnone c hc] at hfail
  cases hfail

/-- An immediate proxy runs `__init__` twice. -/
theorem immediate_of_ok {tp : Cls} {d : Decoration J} {actualIntf : Finset J}
    (hd : h.nearest tp = some d) (hok : h.java.prepareInterfaces d = .ok actualIntf)
    (hfirst : h.firstFailure tp = none) : h.immediate tp = ⟨.ok (some actualIntf), 2⟩ := by
  rw [immediate, hfirst, hd]
  dsimp only
  rw [hok]
  rfl

theorem immediate_of_firstFailure {tp : Cls} {e : Refusal} (he : h.firstFailure tp = some e) :
    h.immediate tp = ⟨.error e, 0⟩ := by
  rw [immediate, he]

/-- As long as no class has the attribute, a construction is the same in both forms exactly if the
class is no proxy, or is refused. -/
theorem construct_eq_immediate_iff {tp : Cls} :
    (h.construct (fun _ ↦ none) tp).1 = h.immediate tp ↔ h.IsRefused tp := by
  cases hd : h.nearest tp with
  | none =>
    rw [construct_of_nearest_none hd, immediate_of_nearest_none hd, IsRefused, hd]
    exact iff_of_true rfl fun d hd' ↦ nomatch hd'
  | some d =>
    have hattr : h.getInterfaces (fun _ ↦ none) tp = none :=
      List.findSome?_eq_none_iff.2 fun _ _ ↦ rfl
    rw [IsRefused, hd]
    cases hprep : h.java.prepareInterfaces d with
    | ok actualIntf =>
      rw [construct_of_ok hd hattr hprep]
      refine iff_of_false (fun heq ↦ ?_) fun href ↦ ?_
      · -- `__init__` has been run once, twice or not at all
        cases hfirst : h.firstFailure tp with
        | none =>
          rw [immediate_of_ok hd hprep hfirst] at heq
          cases heq
        | some e =>
          rw [immediate_of_firstFailure hfirst] at heq
          cases heq
      · obtain ⟨e, he, -⟩ := href d rfl
        rw [hprep] at he
        cases he
    | error e =>
      obtain ⟨e', he'⟩ := Option.ne_none_iff_exists'.1 (firstFailure_ne_none hd hprep)
      rw [construct_of_error hd hattr hprep, immediate_of_firstFailure he']
      constructor
      · rintro ⟨⟩
        rintro _ ⟨⟩
        exact ⟨e, hprep, he'⟩
      · intro href
        obtain ⟨e'', he, hfirst⟩ := href d rfl
        cases he.symm.trans hprep
        cases he'.symm.trans hfirst
        rfl

/-- A refused construction leaves no attribute. -/
theorem construct_attributes {tp : Cls} (href : h.IsRefused tp) :
    (h.construct (fun _ ↦ none) tp).2 = fun _ ↦ none := by
  cases hd : h.nearest tp with
  | none => rw [construct_of_nearest_none hd]
  | some d =>
    obtain ⟨e, he, -⟩ := href d hd
    rw [construct_of_error hd (List.findSome?_eq_none_iff.2 fun _ _ ↦ rfl) he]

/-- Every instance that a deferred class makes has run `__init__` once. -/
theorem deferred_inits {run : List Cls} {c : Construction J} (hc : c ∈ h.deferred run)
    {interfaces : Option (Finset J)} (hmade : c.made = .ok interfaces) : c.inits = 1 := by
  suffices hall : ∀ attrs, ∀ a ∈ trace h.construct attrs run, ∀ interfaces,
      a.1.made = .ok interfaces → a.1.inits = 1 by
    obtain ⟨a, ha, rfl⟩ := List.mem_map.1 hc
    exact hall _ a ha interfaces hmade
  clear hc hmade
  induction run with
  | nil => exact fun _ a ha ↦ absurd ha List.not_mem_nil
  | cons tp run ih =>
    intro attrs a ha interfaces hmade
    obtain rfl | ha := List.mem_cons.1 ha
    · exact construct_inits hmade
    · exact ih _ a ha interfaces hmade

/-- A map of the constructions, compared in the two forms step by step. -/
theorem map_deferred_eq_iff {β : Type*} (f : Construction J → β) {run : List Cls} :
    (h.deferred run).map f = run.map (fun tp ↦ f (h.immediate tp)) ↔
      List.Forall₂ (fun a b ↦ f a.1 = f b.1) (trace h.construct (fun _ ↦ none) run)
        (trace (fun (s : Unit) tp ↦ (h.immediate tp, s)) () run) := by
  have himmediate : run.map (fun tp ↦ f (h.immediate tp)) =
      ((trace (fun (s : Unit) tp ↦ (h.immediate tp, s)) () run).map Prod.fst).map f := by
    rw [map_trace_stateless, List.map_map]
    rfl
  rw [deferred, himmediate, List.map_map, List.map_map, ← List.forall₂_eq_eq_eq,
    List.forall₂_map_left_iff, List.forall₂_map_right_iff]
  rfl

/-- **Deferred and immediate declarations** agree exactly on the runs in which each class is no
proxy, or fails the check of its nearest decoration as the first of its declarations fails. -/
theorem declarationsAgree_iff (h : ClassHierarchy Cls J) (run : List Cls) :
    h.DeclarationsAgree run ↔ ∀ tp ∈ run, h.IsRefused tp := by
  have hrun : List.Forall₂ (fun a b ↦ a.1 = b.1) (trace h.construct (fun _ ↦ none) run)
      (trace (fun (s : Unit) tp ↦ (h.immediate tp, s)) () run) ↔
      Admissible (fun _ tp ↦ h.IsRefused tp) (fun attrs tp ↦ (h.construct attrs tp).2)
        (fun _ ↦ none) run := by
    refine forall₂_trace_iff (fun attrs _ ↦ attrs = fun _ ↦ none) ?_ ?_ run _ () rfl
    · rintro _ _ tp rfl
      exact construct_eq_immediate_iff
    · rintro _ _ tp rfl href
      exact construct_attributes href
  have hdeferred := @map_deferred_eq_iff _ _ _ _ h _ id run
  rw [List.map_id] at hdeferred
  rw [admissible_iff_forall] at hrun
  exact ⟨fun hagree ↦ hrun.1 (hdeferred.1 hagree.constructions_eq), fun href ↦
    ⟨hdeferred.2 (hrun.2 href), fun c hc _ hmade ↦ deferred_inits hc hmade⟩⟩

/-! ### Decorated classes that do not derive from each other -/

/-- No decorated class derives from another one, and no class from two of them. -/
def Unnested (h : ClassHierarchy Cls J) : Prop :=
  ∀ tp, ∀ c ∈ h.mro tp, ∀ c' ∈ h.mro tp,
    h.decoration c ≠ none → h.decoration c' ≠ none → c = c'

omit [DecidableEq Cls] [DecidableEq J] in
theorem nearest_eq_of_mem (hu : h.Unnested) {tp c : Cls} {d : Decoration J} (hc : c ∈ h.mro tp)
    (hd : h.decoration c = some d) : h.nearest tp = some d := by
  have hne : h.nearest tp ≠ none := fun hnone ↦ by
    rw [List.findSome?_eq_none_iff.1 hnone c hc] at hd
    cases hd
  obtain ⟨d', hd'⟩ := Option.ne_none_iff_exists'.1 hne
  obtain ⟨c', hc', hdec⟩ := exists_of_nearest hd'
  obtain rfl := hu tp c hc c' hc' (hd ▸ nofun) (hdec ▸ nofun)
  rw [hd', ← hdec, hd]

omit [DecidableEq Cls] [DecidableEq J] in
/-- A class has the nearest decoration of the classes that it derives from. -/
theorem nearest_of_base (hu : h.Unnested) {tp b : Cls} {d : Decoration J} (hb : b ∈ h.mro tp)
    (hd : h.nearest b = some d) : h.nearest tp = some d := by
  obtain ⟨c, hc, hdec⟩ := exists_of_nearest hd
  exact nearest_eq_of_mem hu (h.mro_subset tp b hb hc) hdec

theorem immediate_made (hu : h.Unnested) {tp : Cls} {d : Decoration J}
    (hd : h.nearest tp = some d) :
    (h.immediate tp).made = (h.java.prepareInterfaces d).map some := by
  have hfailure : ∀ c ∈ h.mro tp, ∀ e, h.failure c = some e →
      h.java.prepareInterfaces d = .error e := by
    intro c hc e he
    cases hdec : h.decoration c with
    | none =>
      rw [failure, hdec] at he
      cases he
    | some d' =>
      have hd' := nearest_eq_of_mem hu hc hdec
      cases hd.symm.trans hd'
      rw [failure, hdec] at he
      dsimp only at he
      cases hprep : h.java.prepareInterfaces d <;> rw [hprep] at he <;> cases he
      rfl
  cases hfirst : h.firstFailure tp with
  | none =>
    cases hprep : h.java.prepareInterfaces d with
    | ok actualIntf => rw [immediate_of_ok hd hprep hfirst, Except.map]
    | error e => exact absurd hfirst (firstFailure_ne_none hd hprep)
  | some e =>
    obtain ⟨c, hc, he⟩ := List.exists_of_findSome?_eq_some hfirst
    have hmem : c ∈ h.mro tp := of_decide_eq_true (List.mem_filter.1 hc).2
    rw [immediate_of_firstFailure hfirst, hfailure c hmem e he, Except.map]

/-- What the attributes hold: the interfaces of the nearest decoration. -/
def AttributesOfNearest (h : ClassHierarchy Cls J) (attrs : Attributes Cls J) : Prop :=
  ∀ c i, attrs c = some i → ∃ d, h.nearest c = some d ∧ h.java.prepareInterfaces d = .ok i

theorem construct_made (hu : h.Unnested) {attrs : Attributes Cls J}
    (hattrs : h.AttributesOfNearest attrs) (tp : Cls) :
    (h.construct attrs tp).1.made = (h.immediate tp).made ∧
      h.AttributesOfNearest (h.construct attrs tp).2 := by
  cases hd : h.nearest tp with
  | none =>
    rw [construct_of_nearest_none hd, immediate_of_nearest_none hd]
    exact ⟨rfl, hattrs⟩
  | some d =>
    rw [immediate_made hu hd]
    cases hattr : h.getInterfaces attrs tp with
    | some actualIntf =>
      obtain ⟨c, hc, hi⟩ := List.exists_of_findSome?_eq_some hattr
      obtain ⟨d', hd', hok⟩ := hattrs c actualIntf hi
      cases hd.symm.trans (nearest_of_base hu hc hd')
      rw [construct_of_attribute hd hattr, hok]
      exact ⟨rfl, hattrs⟩
    | none =>
      cases hprep : h.java.prepareInterfaces d with
      | error e =>
        rw [construct_of_error hd hattr hprep]
        exact ⟨rfl, hattrs⟩
      | ok actualIntf =>
        rw [construct_of_ok hd hattr hprep]
        refine ⟨rfl, fun c i hi ↦ ?_⟩
        dsimp only at hi
        obtain rfl | hne := eq_or_ne c tp
        · rw [Function.update_self] at hi
          cases hi
          exact ⟨d, hd, hprep⟩
        · rw [Function.update_of_ne hne] at hi
          exact hattrs c i hi

/-- **Interfaces and refusals** are the same in both forms, in any order of the instances, where no
decorated class derives from another one. -/
theorem made_eq_of_unnested (hu : h.Unnested) (run : List Cls) :
    (h.deferred run).map Construction.made = run.map fun tp ↦ (h.immediate tp).made := by
  refine (map_deferred_eq_iff Construction.made).2 ?_
  have hinit : h.AttributesOfNearest fun _ ↦ none := fun c i hi ↦ nomatch hi
  exact forall₂_trace (fun attrs _ ↦ h.AttributesOfNearest attrs)
    (fun attrs _ tp hattrs ↦ (construct_made hu hattrs tp).1)
    (fun attrs _ tp hattrs ↦ (construct_made hu hattrs tp).2) run _ () hinit

/-! ### A derived class that is decorated -/

/-- Two decorated classes: the class `true` derives from the class `false`. The interface `false`
has the method `run`, the interface `true` the method `call`. -/
def runnableAndCallable : ClassHierarchy Bool Bool where
  java :=
    { forName := fun _ ↦ none
      isInterface := fun _ ↦ true
      getMethods := fun c ↦ [(if c then "call" else "run", 1025)] }
  mro c := if c then [true, false] else [false]
  decoration c := some ⟨[.single (.jclass c)], [if c then "call" else "run"]⟩
  declared := [false, true]
  mro_head := by decide
  mro_subset := by decide
  mem_declared := by decide

/-- The class `true` takes the interfaces of the class `false`, if that is called first, and not
otherwise; and the numbers of runs of `__init__` differ. -/
theorem runnableAndCallable_disagree :
    (runnableAndCallable.deferred [false, true] =
        [⟨.ok (some {false}), 1⟩, ⟨.ok (some {false}), 1⟩]) ∧
      (runnableAndCallable.deferred [true, false] =
        [⟨.ok (some {true}), 1⟩, ⟨.ok (some {false}), 1⟩]) ∧
      [false, true].map runnableAndCallable.immediate =
        [⟨.ok (some {false}), 2⟩, ⟨.ok (some {true}), 2⟩] ∧
      ¬runnableAndCallable.DeclarationsAgree [false, true] := by
  have hdeferred : runnableAndCallable.deferred [false, true] =
      [⟨.ok (some {false}), 1⟩, ⟨.ok (some {false}), 1⟩] := by rfl
  have himmediate : [false, true].map runnableAndCallable.immediate =
      [⟨.ok (some {false}), 2⟩, ⟨.ok (some {true}), 2⟩] := by rfl
  refine ⟨hdeferred, by rfl, himmediate, fun h ↦ ?_⟩
  have heq := h.constructions_eq
  rw [hdeferred, himmediate] at heq
  cases heq

end ClassHierarchy

end JPype
