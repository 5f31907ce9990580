import JPype.Foundation.Forest
import Mathlib.Data.List.Perm.Basic

/-!
# The class loader of a proxy

A proxy class is defined by a class loader that has to see all its interfaces. `newProxy` goes
through the interfaces and keeps each loader that it meets, so the last one wins. Where one of the
interfaces has a loader that sees all of them, the choice is right exactly if that loader comes last
(`seesAll_newProxy_iff`), and it is right in every order exactly if there is no other loader
(`seesAll_of_perm_iff`).
-/

open Foundation

namespace JPype

/-- The class loaders of a virtual machine. The bootstrap loader is null and not one of them. -/
structure ClassLoaders (Cl Cls : Type) extends Forest Cl where
  /-- `ClassLoader.getSystemClassLoader` -/
  system : Cl
  /-- `Class.getClassLoader`; null for a class of the bootstrap loader -/
  getClassLoader : Cls → Option Cl

namespace ClassLoaders

variable {Cl Cls : Type} (java : ClassLoaders Cl Cls)

/-- A loader sees the classes that it or one of its ancestors defines, and those of the bootstrap
loader. -/
def Sees (cl : Cl) (cls : Cls) : Prop :=
  java.BelowRoot (some cl) (java.getClassLoader cls)

/-- The loader `cl` sees all interfaces. -/
def SeesAll (cl : Cl) (interfaces : List Cls) : Prop :=
  ∀ cls ∈ interfaces, java.Sees cl cls

/-- The loader that `JPypeProxy.newProxy` leaves in the proxy. -/
def newProxy [DecidableEq Cl] (interfaces : List Cls) : Cl :=
  interfaces.foldl (fun cl cls ↦
    match java.getClassLoader cls with
    | none => cl
    | some icl => if icl ≠ cl then icl else cl) java.system

/-- The loader of the last interface that has one. -/
def lastLoader (interfaces : List Cls) : Option Cl :=
  (interfaces.filterMap java.getClassLoader).getLast?

variable {java} {interfaces : List Cls}

theorem newProxy_eq [DecidableEq Cl] (java : ClassLoaders Cl Cls) (interfaces : List Cls) :
    java.newProxy interfaces = (java.lastLoader interfaces).getD java.system := by
  rw [newProxy, lastLoader]
  generalize java.system = cl
  induction interfaces generalizing cl with
  | nil => rfl
  | cons cls interfaces ih =>
    rw [List.foldl_cons, ih]
    cases h : java.getClassLoader cls with
    | none => rw [List.filterMap_cons_none h]
    | some icl =>
      have hkeep : (if icl ≠ cl then icl else cl) = icl := by
        split_ifs with hne
        · rfl
        · exact (not_not.1 hne).symm
      rw [List.filterMap_cons_some h, List.getLast?_cons, Option.getD_some]
      exact congrArg _ hkeep

/-- A last loader is the loader of one of the interfaces. -/
theorem exists_of_lastLoader {cl : Cl} (h : java.lastLoader interfaces = some cl) :
    ∃ cls ∈ interfaces, java.getClassLoader cls = some cl :=
  List.mem_filterMap.1 (List.mem_of_getLast? h)

theorem lastLoader_eq_none (h : java.lastLoader interfaces = none) {cls : Cls}
    (hcls : cls ∈ interfaces) : java.getClassLoader cls = none :=
  List.filterMap_eq_nil_iff.1 (List.getLast?_eq_none_iff.1 h) cls hcls

/-- If the loader of `i` sees all interfaces, the choice is right exactly if it is that one. -/
theorem seesAll_newProxy_iff [DecidableEq Cl] (java : ClassLoaders Cl Cls) {interfaces : List Cls}
    {i : Cls} (hi : i ∈ interfaces)
    (hall : ∀ j ∈ interfaces, java.BelowRoot (java.getClassLoader i) (java.getClassLoader j)) :
    java.SeesAll (java.newProxy interfaces) interfaces ↔
      java.lastLoader interfaces = java.getClassLoader i := by
  rw [newProxy_eq]
  cases hlast : java.lastLoader interfaces with
  | none =>
    -- everything comes from the bootstrap loader
    refine iff_of_true (fun cls hcls ↦ ?_) (lastLoader_eq_none hlast hi).symm
    rw [Sees, lastLoader_eq_none hlast hcls]
    trivial
  | some cl =>
    obtain ⟨j, hj, hcl⟩ := exists_of_lastLoader hlast
    rw [Option.getD_some]
    constructor
    · intro hsees
      exact Forest.BelowRoot.antisymm (hsees i hi) (hcl ▸ hall j hj)
    · intro heq cls hcls
      rw [Sees, heq]
      exact hall cls hcls

/-- The system loader `false` and a custom loader `true` below it, with one class each, and a class
of the bootstrap loader. -/
def oneCustom : ClassLoaders Bool (Option Bool) where
  parent cl := if cl then some false else none
  wellFounded := by
    refine Subrelation.wf (fun {p a} h ↦ ?_) (measure Bool.toNat).wf
    show p.toNat < a.toNat
    cases a <;> cases p <;> first | exact absurd h (by decide) | decide
  system := false
  getClassLoader := id

theorem oneCustom_belowRoot (j : Option Bool) : oneCustom.BelowRoot (some true) j := by
  match j with
  | none => trivial
  | some true => exact Forest.Below.refl true
  | some false => exact Relation.ReflTransGen.single rfl

theorem seesAll_sample : oneCustom.SeesAll (oneCustom.newProxy [some false, none, some true])
    [some false, none, some true] :=
  (seesAll_newProxy_iff oneCustom (i := some true) (by decide) fun j _ ↦
    oneCustom_belowRoot j).2 rfl

theorem not_seesAll : (∀ j ∈ [some true, some false],
      oneCustom.BelowRoot (oneCustom.getClassLoader (some true)) (oneCustom.getClassLoader j)) ∧
    ¬ oneCustom.SeesAll (oneCustom.newProxy [some true, some false]) [some true, some false] := by
  refine ⟨fun j _ ↦ oneCustom_belowRoot j, fun h ↦ ?_⟩
  -- the system loader is chosen, and it does not see the class of the custom one
  have hsees : oneCustom.Below false true := h (some true) List.mem_cons_self
  exact absurd (hsees.antisymm (oneCustom_belowRoot (some false))) (by decide)

/-- The choice is right in every order exactly if the interfaces have one loader, apart from the
bootstrap loader. -/
theorem seesAll_of_perm_iff [DecidableEq Cl] [DecidableEq Cls] {i : Cls} (hi : i ∈ interfaces)
    (hall : ∀ j ∈ interfaces, java.BelowRoot (java.getClassLoader i) (java.getClassLoader j)) :
    (∀ order : List Cls, order.Perm interfaces → java.SeesAll (java.newProxy order) order) ↔
      ∀ j ∈ interfaces, ∀ cl, java.getClassLoader j = some cl →
        java.getClassLoader i = some cl := by
  have hone (order : List Cls) (hperm : order.Perm interfaces) :
      java.SeesAll (java.newProxy order) order ↔
        java.lastLoader order = java.getClassLoader i :=
    seesAll_newProxy_iff java (hperm.mem_iff.2 hi) fun j hj ↦ hall j (hperm.mem_iff.1 hj)
  constructor
  · -- put `j` last
    intro h j hj cl hcl
    have hperm : (interfaces.erase j ++ [j]).Perm interfaces :=
      List.perm_append_singleton j _ |>.trans (List.perm_cons_erase hj).symm
    rw [← (hone _ hperm).1 (h _ hperm), lastLoader, List.filterMap_append,
      List.filterMap_cons_some hcl, List.filterMap_nil, List.getLast?_concat]
  · intro h order hperm
    refine (hone order hperm).2 ?_
    cases hlast : java.lastLoader order with
    | none => exact (lastLoader_eq_none hlast (hperm.mem_iff.2 hi)).symm
    | some cl =>
      obtain ⟨j, hj, hcl⟩ := exists_of_lastLoader hlast
      exact (h j (hperm.mem_iff.1 hj) cl hcl).symm

end ClassLoaders
end JPype
