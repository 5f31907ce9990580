import JPype.Foundation.Runs
import Mathlib.Data.Int.Basic
import Mathlib.Data.List.Induction

/-!
# Abstract and concrete wrapper types

The Java value of an instance stands at a fixed offset. A family with a value in its C structure
declares the offset. The other types are abstract: each of them has a concrete companion, a hidden
subclass with room for the value behind the fields that it inherits, and both have the offset of
that room. `PyJPClass_init` classifies a new type by its bases and builds the companion by itself.

Types are numbered in the order of their creation.
-/

open Foundation

namespace JPype

/-- A member of a tuple of bases: a type of Python's own, or one with the metaclass `_JClass`. -/
inductive Base where
  | python
  | java (t : ℕ)
  deriving DecidableEq, Repr

/-- The argument `offset` of `PyJPClass_FromSpecWithBases`: `-1`, the offset of a trailing field, or
an offset at which a family without a field stores nothing. -/
inductive SpecOffset where
  | abstract
  | field (offset : ℕ)
  | sentinel (offset : ℕ)
  deriving DecidableEq, Repr

def SpecOffset.value : SpecOffset → ℤ
  | abstract => -1
  | field offset => offset
  | sentinel offset => offset


/-- A type object, with its slots of `PyJPClass`. `tp_mro` lists the type and its ancestors, in any
order; `isBaseType` is `Py_TPFLAGS_BASETYPE`, and `spec` is the offset that was declared. -/
structure TypeObject where
  bases : List Base
  tpMro : List ℕ
  tpBasicsize : ℕ
  offset : ℤ
  tpConcrete : Option ℕ
  tpAbstract : Option ℕ
  isBaseType : Bool
  spec : Option SpecOffset
  deriving DecidableEq, Repr

/-- The types there are. -/
abbrev Types := List TypeObject

/-- `alignof (jvalue)` -/
def alignofJValue : ℕ := 8

/-- `sizeof (jvalue)` -/
def sizeofJValue : ℕ := 8

/-- `PyJPClass_alignUp`; the alignment is a power of two, and its mask clears the remainder. -/
def alignUp (value alignment : ℕ) : ℕ :=
  (value + alignment - 1) - (value + alignment - 1) % alignment

/-- What the scan of the bases finds. -/
structure Scan where
  anyLegacy : Bool
  concreteOffset : ℤ
  anyAbstract : Bool
  deriving DecidableEq, Repr

namespace Types

/-- The types that the bases derive from, themselves included. -/
def ancestors (w : Types) (bases : List Base) : List ℕ :=
  bases.flatMap fun
    | .python => []
    | .java b => (w[b]?.map TypeObject.tpMro).getD []

/-- A base that CPython accepts. -/
def accepts (w : Types) : Base → Bool
  | .python => true
  | .java b => (w[b]?.map TypeObject.isBaseType).getD false

/-- A new type object, with the basic size that it inherits or declares. -/
def newType (w : Types) (bases : List Base) (basicsize : ℕ) : TypeObject where
  bases := bases
  tpMro := w.length :: w.ancestors bases
  tpBasicsize := basicsize
  offset := 0
  tpConcrete := none
  tpAbstract := none
  isBaseType := true
  spec := none

/-- The creation of a type in CPython. -/
def typeNew (w : Types) (bases : List Base) (basicsize : ℕ) : Option Types :=
  if bases.all w.accepts then some (w ++ [w.newType bases basicsize]) else none

/-- One base in the scan of `PyJPClass_init`. -/
def scanBase (w : Types) (s : Scan) : Base → Scan
  | .python => s
  | .java b =>
    match w[b]? with
    | none => s
    | some x =>
      if x.tpConcrete ≠ none then { s with anyAbstract := true }
      else if x.offset = 0 then { s with anyLegacy := true }
      else if 0 < x.offset then
        if s.concreteOffset = 0 then { s with concreteOffset := x.offset } else s
      else { s with anyAbstract := true }

/-- The scan of the bases. -/
def scan (w : Types) (bases : List Base) : Scan :=
  bases.foldl w.scanBase ⟨false, 0, false⟩

/-- `PyJPClass_init` on the type `self`, which CPython has made. The call with which it starts the
companion is a parameter; without a result, an exception is raised. -/
def init (concrete : Types → ℕ → Option Types) (concreteCall : Bool) (w : Types) (self : ℕ)
    (bases : List Base) : Option Types :=
  let s := w.scan bases
  if s.anyLegacy ∨ (¬0 < s.concreteOffset ∧ ¬s.anyAbstract) then none
  else
    let resolvedOffset := if 0 < s.concreteOffset then s.concreteOffset else -1
    let w : Types := w.modify self fun x ↦
      { x with offset := resolvedOffset, tpConcrete := none, tpAbstract := none }
    if concreteCall then
      match bases with
      | .java abstractBase :: _ =>
        let off := alignUp ((w[self]?.map TypeObject.tpBasicsize).getD 0) alignofJValue
        let w : Types := w.modify self fun x ↦
          { x with tpBasicsize := off + sizeofJValue, offset := off,
                   tpAbstract := some abstractBase, isBaseType := false }
        some (w.modify abstractBase fun x ↦ { x with offset := off, tpConcrete := some self })
      | _ => none
    else if resolvedOffset = -1 then concrete w self
    else some w

/-- `PyJPClass_concrete`. A companion that does not come about is an exception; else it has the
basic size of the abstract type, or more. -/
def concrete (companion : Option ℕ) (w : Types) (abstractType : ℕ) : Option Types := do
  let basicsize ← companion
  let w' ← w.typeNew [.java abstractType] basicsize
  w'.init (fun _ _ ↦ none) true w.length [.java abstractType]

/-- `PyJPClass_FromSpecWithBases` -/
def fromSpecWithBases (companion : Option ℕ) (w : Types) (bases : List Base) (basicsize : ℕ)
    (offset : SpecOffset) : Option Types := do
  let w' ← w.typeNew bases basicsize
  if offset.value = 0 then none
  else
    let w'' : Types := w'.modify w.length fun x ↦
      { x with offset := offset.value, spec := some offset }
    if offset.value = -1 then w''.concrete companion w.length else some w''

/-- The call of `_JClass` with a name, bases and members. -/
def callJClass (companion : Option ℕ) (w : Types) (bases : List Base) (basicsize : ℕ) :
    Option Types := do
  let w' ← w.typeNew bases basicsize
  w'.init (concrete companion) false w.length bases

end Types

/-- The creation of a type, by `PyJPClass_FromSpecWithBases` if an offset is declared and by the
call of `_JClass` if not. Of CPython it has the basic sizes of the type and of its companion, and
whether these come about. -/
structure Creation where
  spec : Option SpecOffset
  bases : List Base
  basicsize : ℕ
  companion : Option ℕ
  succeeds : Bool
  deriving DecidableEq, Repr

namespace Types

/-- The types after a creation, unless it raises an exception. -/
def create (w : Types) (c : Creation) : Option Types :=
  if c.succeeds then
    match c.spec with
    | some offset => w.fromSpecWithBases c.companion c.bases c.basicsize offset
    | none => w.callJClass c.companion c.bases c.basicsize
  else none

/-- The types after a creation; what an exception leaves is released. -/
def step (w : Types) (c : Creation) : Types :=
  (w.create c).getD w

/-- A type without a companion. -/
def IsConcrete (w : Types) (a : ℕ) : Prop :=
  ∃ x ∈ w[a]?, x.tpConcrete = none

/-- The offset of a type. -/
def offsetOf (w : Types) (a : ℕ) : ℤ :=
  (w[a]?.map TypeObject.offset).getD 0

end Types

/-- A declared offset that goes with the size of the instances. -/
def SpecOffset.Fits (basicsize : ℕ) : SpecOffset → Prop
  | abstract => True
  | field offset => 0 < offset ∧ offset + sizeofJValue ≤ basicsize
  | sentinel offset => 0 < offset

/-- The type declares a field for the value. -/
def TypeObject.HasField (x : TypeObject) : Prop :=
  match x.spec with
  | some (.field _) => True
  | _ => False

/-- What a creation may ask for, and what CPython does with it: all concrete ancestors are of one
family, and a declared offset is the one of this family, if there is one; a declared field lies
within the instances. The base that CPython chooses has the fields that the ancestors declare, and
the sizes are inherited from it. -/
structure Creation.Sound (w : Types) (c : Creation) : Prop where
  basicsize_pos : 0 < c.basicsize
  spec_fits : ∀ offset ∈ c.spec, offset.Fits c.basicsize
  family : ∀ a ∈ w.ancestors c.bases, w.IsConcrete a → ∀ a' ∈ w.ancestors c.bases,
    w.IsConcrete a' → w.offsetOf a = w.offsetOf a'
  spec_family : ∀ offset ∈ c.spec, ∀ a ∈ w.ancestors c.bases, w.IsConcrete a →
    w.offsetOf a = offset.value
  solid : ∀ a ∈ w.ancestors c.bases, ∀ x ∈ w[a]?, x.HasField → x.tpBasicsize ≤ c.basicsize
  companion_le : ∀ size ∈ c.companion, c.basicsize ≤ size

instance (basicsize : ℕ) : DecidablePred (SpecOffset.Fits basicsize)
  | .abstract => isTrue trivial
  | .field _ => inferInstanceAs (Decidable (_ ∧ _))
  | .sentinel _ => inferInstanceAs (Decidable (_ < _))

instance (x : TypeObject) : Decidable x.HasField :=
  match h : x.spec with
  | some (.field _) => isTrue (by rw [TypeObject.HasField, h]; trivial)
  | some .abstract => isFalse (by rw [TypeObject.HasField, h]; exact id)
  | some (.sentinel _) => isFalse (by rw [TypeObject.HasField, h]; exact id)
  | none => isFalse (by rw [TypeObject.HasField, h]; exact id)

instance (w : Types) (a : ℕ) : Decidable (w.IsConcrete a) :=
  inferInstanceAs (Decidable (∃ x ∈ w[a]?, x.tpConcrete = none))

instance (w : Types) (c : Creation) : Decidable (c.Sound w) :=
  decidable_of_iff
    (0 < c.basicsize ∧ (∀ offset ∈ c.spec, offset.Fits c.basicsize) ∧
      (∀ a ∈ w.ancestors c.bases, w.IsConcrete a → ∀ a' ∈ w.ancestors c.bases,
        w.IsConcrete a' → w.offsetOf a = w.offsetOf a') ∧
      (∀ offset ∈ c.spec, ∀ a ∈ w.ancestors c.bases, w.IsConcrete a →
        w.offsetOf a = offset.value) ∧
      (∀ a ∈ w.ancestors c.bases, ∀ x ∈ w[a]?, x.HasField → x.tpBasicsize ≤ c.basicsize) ∧
      ∀ size ∈ c.companion, c.basicsize ≤ size)
    ⟨fun ⟨h₁, h₂, h₃, h₄, h₅, h₆⟩ ↦ ⟨h₁, h₂, h₃, h₄, h₅, h₆⟩,
      fun ⟨h₁, h₂, h₃, h₄, h₅, h₆⟩ ↦ ⟨h₁, h₂, h₃, h₄, h₅, h₆⟩⟩

/-- What is to hold of a type that has been completed. -/
structure TypeObject.Paired (w : Types) (t : ℕ) (x : TypeObject) : Prop where
  offset_pos : 0 < x.offset
  companion : ∀ c, x.tpConcrete = some c → ∃ y ∈ w[c]?, y.tpAbstract = some t ∧
    y.offset = x.offset ∧ x.tpBasicsize ≤ x.offset ∧
    x.offset + sizeofJValue ≤ y.tpBasicsize ∧ y.isBaseType = false
  family : x.tpConcrete = none → ∀ a ∈ x.tpMro, w.IsConcrete a → w.offsetOf a = x.offset
  stored : x.tpConcrete = none → x.offset + sizeofJValue ≤ x.tpBasicsize ∨
    ∃ r ∈ x.tpMro, ∃ z ∈ w[r]?, ∃ off, z.spec = some (.sentinel off) ∧ x.offset = off
  exclusive : x.tpConcrete = none ∨ x.tpAbstract = none

theorem le_alignUp {value alignment : ℕ} (h : 0 < alignment) : value ≤ alignUp value alignment := by
  have hmod := Nat.mod_lt (value + alignment - 1) h
  rw [alignUp]
  omega

namespace Types

theorem modify_snoc (w : Types) (x : TypeObject) (f : TypeObject → TypeObject) :
    (w ++ [x]).modify w.length f = w ++ [f x] := by
  induction w with
  | nil => rfl
  | cons y w ih => exact congrArg (y :: ·) ih

theorem modify_pair (w : Types) (x y : TypeObject) (f : TypeObject → TypeObject) :
    (w ++ [x] ++ [y]).modify w.length f = w ++ [f x] ++ [y] := by
  induction w with
  | nil => rfl
  | cons z w ih => exact congrArg (z :: ·) ih

theorem getElem?_length (w : Types) (x : TypeObject) : (w ++ [x])[w.length]? = some x := by
  rw [List.getElem?_append_right le_rfl, Nat.sub_self]
  rfl

theorem scan_append {w : Types} {bases : List Base} (h : ∀ b, .java b ∈ bases → b < w.length)
    (l : Types) : scan (w ++ l) bases = w.scan bases := by
  refine List.foldl_ext _ _ _ fun s base hbase ↦ ?_
  cases base with
  | python => rfl
  | java b => rw [scanBase, scanBase, List.getElem?_append_left (h b hbase)]

/-- The companion of an abstract type, in its final form. -/
def companionOf (t : ℕ) (x : TypeObject) (off : ℕ) : TypeObject where
  bases := [.java t]
  tpMro := (t + 1) :: x.tpMro
  tpBasicsize := off + sizeofJValue
  offset := off
  tpConcrete := none
  tpAbstract := some t
  isBaseType := false
  spec := none

/-- `PyJPClass_concrete` on a type that is being made: the companion is appended, and the two have
one offset. -/
theorem concrete_snoc {w : Types} {x : TypeObject} (hoffset : x.offset = -1)
    (hconcrete : x.tpConcrete = none) (hbase : x.isBaseType = true) (size : ℕ) :
    concrete (some size) (w ++ [x]) w.length =
      some (w ++ [{ x with offset := alignUp size alignofJValue,
                           tpConcrete := some (w.length + 1) }] ++
        [companionOf w.length x (alignUp size alignofJValue)]) := by
  have hlen : (w ++ [x]).length = w.length + 1 := List.length_append
  have hnew : typeNew (w ++ [x]) [.java w.length] size =
      some (w ++ [x] ++ [newType (w ++ [x]) [.java w.length] size]) := by
    rw [typeNew, if_pos]
    simp [accepts, hbase]
  have hscan : scan (w ++ [x] ++ [newType (w ++ [x]) [.java w.length] size]) [.java w.length] =
      ⟨false, 0, true⟩ := by
    rw [scan_append (by simp)]
    simp [scan, scanBase, hoffset, hconcrete]
  have hancestors : ancestors (w ++ [x]) [.java w.length] = x.tpMro := by
    simp [ancestors]
  rw [concrete]
  dsimp only [Option.bind_eq_bind, Option.bind_some]
  rw [hnew, Option.bind_some, init, hscan]
  dsimp only
  rw [if_neg (by simp), if_pos rfl, ← hlen]
  simp only [modify_snoc, getElem?_length]
  rw [hlen, modify_pair]
  simp [companionOf, newType, hancestors]

/-- What the scan finds where every type is abstract or has an offset: the offset of a concrete
base, or that there is none. -/
structure Scanned (w : Types) (bases : List Base) (s : Scan) : Prop where
  anyLegacy_eq : s.anyLegacy = false
  nonneg : 0 ≤ s.concreteOffset
  of_zero : s.concreteOffset = 0 → ∀ b, .java b ∈ bases → ¬w.IsConcrete b
  of_pos : 0 < s.concreteOffset →
    ∃ b, .java b ∈ bases ∧ w.IsConcrete b ∧ w.offsetOf b = s.concreteOffset

theorem scanned_scan {w : Types} (hw : ∀ (b : ℕ) x, w[b]? = some x → 0 < x.offset)
    (bases : List Base) : Scanned w bases (w.scan bases) := by
  induction bases using List.reverseRecOn with
  | nil =>
    exact ⟨rfl, Int.le_refl 0, fun _ b hb ↦ absurd hb List.not_mem_nil, fun h ↦
      absurd h (Int.lt_irrefl 0)⟩
  | append_singleton bases base ih =>
    have hscan : w.scan (bases ++ [base]) = w.scanBase (w.scan bases) base := by
      rw [scan, List.foldl_append]
      rfl
    rw [hscan]
    obtain ⟨hlegacy, hnonneg, hzero, hpos⟩ := ih
    -- a base that changes nothing, or sets `anyAbstract` only
    have hsame : ∀ s : Scan, s.anyLegacy = false →
        s.concreteOffset = (w.scan bases).concreteOffset →
        (∀ b, base = .java b → (w.scan bases).concreteOffset = 0 → ¬w.IsConcrete b) →
        Scanned w (bases ++ [base]) s := by
      intro s hs heq hbase
      refine ⟨hs, heq ▸ hnonneg, fun h0 b hb ↦ ?_, fun hlt ↦ ?_⟩
      · rw [heq] at h0
        obtain hb | hb := List.mem_append.1 hb
        · exact hzero h0 b hb
        · exact hbase b (List.mem_singleton.1 hb).symm h0
      · rw [heq] at hlt ⊢
        obtain ⟨b, hb, hconcrete⟩ := hpos hlt
        exact ⟨b, List.mem_append_left _ hb, hconcrete⟩
    cases base with
    | python => exact hsame _ hlegacy rfl fun b hb ↦ nomatch hb
    | java b =>
      rw [scanBase]
      cases hx : w[b]? with
      | none =>
        refine hsame _ hlegacy rfl fun b' hb' _ ⟨x, hx', _⟩ ↦ ?_
        cases hb'
        rw [hx] at hx'
        cases hx'
      | some x =>
        dsimp only
        by_cases hconcrete : x.tpConcrete = none
        · have hlt := hw b x hx
          have hne : x.offset ≠ 0 := by omega
          rw [if_neg (not_not.2 hconcrete), if_neg hne, if_pos hlt]
          have hb : w.IsConcrete b := ⟨x, hx, hconcrete⟩
          have hoffset : w.offsetOf b = x.offset := by
            rw [offsetOf, hx]
            rfl
          by_cases h0 : (w.scan bases).concreteOffset = 0
          · rw [if_pos h0]
            exact ⟨hlegacy, Int.le_of_lt hlt, fun h ↦ absurd h hne, fun _ ↦
              ⟨b, by simp, hb, hoffset⟩⟩
          · rw [if_neg h0]
            exact hsame _ hlegacy rfl fun _ _ h ↦ absurd h h0
        · rw [if_pos hconcrete]
          refine hsame _ hlegacy rfl fun b' hb' _ ⟨y, hy, hnone⟩ ↦ hconcrete ?_
          cases hb'
          rw [hx] at hy
          cases hy
          exact hnone

/-- A creation succeeds only with bases that allow subclasses. -/
theorem accepts_of_create {w w' : Types} {c : Creation} (h : w.create c = some w') {b : ℕ}
    (hb : .java b ∈ c.bases) : ∃ x, w[b]? = some x ∧ x.isBaseType = true := by
  have hnew : ∀ w₁, w.typeNew c.bases c.basicsize = some w₁ →
      ∃ x, w[b]? = some x ∧ x.isBaseType = true := fun w₁ h₁ ↦ by
    rw [typeNew] at h₁
    split_ifs at h₁ with hall
    have haccepts := List.all_eq_true.1 hall _ hb
    rw [accepts] at haccepts
    cases hx : w[b]? with
    | none =>
      rw [hx] at haccepts
      cases haccepts
    | some x =>
      rw [hx] at haccepts
      exact ⟨x, rfl, haccepts⟩
  rw [create] at h
  split_ifs at h
  cases hspec : c.spec with
  | some s =>
    rw [hspec] at h
    obtain ⟨w₁, hw₁, -⟩ := Option.bind_eq_some_iff.1 h
    exact hnew w₁ hw₁
  | none =>
    rw [hspec] at h
    obtain ⟨w₁, hw₁, -⟩ := Option.bind_eq_some_iff.1 h
    exact hnew w₁ hw₁

/-- What a creation does to the types: it appends a concrete type, or an abstract one and its
companion. The offset of a concrete type is declared or that of a concrete base, and an abstract
type that is not declared has no concrete base. -/
theorem create_cases {w w' : Types} {c : Creation}
    (hw : ∀ (b : ℕ) x, w[b]? = some x → 0 < x.offset) (h : w.create c = some w') :
    (∃ off, w' = w ++ [{ w.newType c.bases c.basicsize with offset := off, spec := c.spec }] ∧
      ((∃ s, c.spec = some s ∧ s.value = off ∧ off ≠ -1 ∧ off ≠ 0) ∨
        (c.spec = none ∧ 0 < off ∧
          ∃ b, .java b ∈ c.bases ∧ w.IsConcrete b ∧ w.offsetOf b = off))) ∨
    ∃ size, c.companion = some size ∧
      w' = w ++ [{ w.newType c.bases c.basicsize with
                   offset := alignUp size alignofJValue, spec := c.spec,
                   tpConcrete := some (w.length + 1) }] ++
        [companionOf w.length (w.newType c.bases c.basicsize) (alignUp size alignofJValue)] ∧
      ((∃ s, c.spec = some s ∧ s.value = -1) ∨
        (c.spec = none ∧ ∀ b, .java b ∈ c.bases → ¬w.IsConcrete b)) := by
  have hlt : ∀ b, .java b ∈ c.bases → b < w.length := fun b hb ↦ by
    obtain ⟨x, hx, -⟩ := accepts_of_create h hb
    exact (List.getElem?_eq_some_iff.1 hx).1
  rw [create] at h
  split_ifs at h
  have hnew : ∀ {w₁ : Types}, w.typeNew c.bases c.basicsize = some w₁ →
      w₁ = w ++ [w.newType c.bases c.basicsize] := fun h₁ ↦ by
    rw [typeNew] at h₁
    split_ifs at h₁
    exact (Option.some.inj h₁).symm
  -- A type that is declared has its offset from the declaration, another one from its bases.
  cases hspec : c.spec with
  | some s =>
    rw [hspec] at h
    dsimp only [fromSpecWithBases] at h
    obtain ⟨w₁, hw₁, h⟩ := Option.bind_eq_some_iff.1 h
    obtain rfl := hnew hw₁
    split_ifs at h with h0 habstract
    · rw [modify_snoc] at h
      cases hcomp : c.companion with
      | none =>
        rw [hcomp] at h
        cases h
      | some size =>
        rw [hcomp, concrete_snoc habstract rfl rfl] at h
        exact .inr ⟨size, rfl, (Option.some.inj h).symm, .inl ⟨s, rfl, habstract⟩⟩
    · rw [modify_snoc] at h
      exact .inl ⟨s.value, (Option.some.inj h).symm, .inl ⟨s, rfl, rfl, habstract, h0⟩⟩
  | none =>
    rw [hspec] at h
    dsimp only [callJClass] at h
    obtain ⟨w₁, hw₁, h⟩ := Option.bind_eq_some_iff.1 h
    obtain rfl := hnew hw₁
    obtain ⟨hlegacy, hnonneg, hzero, hpos⟩ := scanned_scan hw c.bases
    rw [init, scan_append hlt] at h
    dsimp only at h
    rw [modify_snoc] at h
    -- A concrete base decides; without one there has to be an abstract one.
    by_cases hoff : 0 < (w.scan c.bases).concreteOffset
    · rw [if_neg (by simp [hlegacy, hoff]), if_neg Bool.false_ne_true, if_pos hoff,
        if_neg (by omega)] at h
      exact .inl ⟨_, (Option.some.inj h).symm, .inr ⟨rfl, hoff, hpos hoff⟩⟩
    · by_cases hfails : (w.scan c.bases).anyLegacy ∨
          (¬0 < (w.scan c.bases).concreteOffset ∧ ¬(w.scan c.bases).anyAbstract)
      · rw [if_pos hfails] at h
        cases h
      · rw [if_neg hfails, if_neg Bool.false_ne_true, if_neg hoff, if_pos rfl] at h
        cases hcomp : c.companion with
        | none =>
          rw [hcomp] at h
          cases h
        | some size =>
          rw [hcomp, concrete_snoc rfl rfl rfl] at h
          exact .inr ⟨size, rfl, (Option.some.inj h).symm, .inr ⟨rfl, hzero (by omega)⟩⟩

/-! ### The three kinds of types -/

/-- A type is abstract and has a companion, or is a companion, or is concrete: then its offset is
declared by one of its ancestors, or by itself. -/
inductive Kind (w : Types) (t : ℕ) (x : TypeObject) : Prop where
  | abstract (c : ℕ) (y : TypeObject) (concrete_eq : x.tpConcrete = some c)
      (abstract_eq : x.tpAbstract = none) (offset_pos : 0 < x.offset) (get_eq : w[c]? = some y)
      (back : y.tpAbstract = some t) (offset_eq : y.offset = x.offset)
      (size_le : x.tpBasicsize ≤ x.offset) (room : x.offset + sizeofJValue ≤ y.tpBasicsize)
      (flag : y.isBaseType = false) (lineage : ∀ a ∈ x.tpMro, ¬w.IsConcrete a)
  | companion (concrete_eq : x.tpConcrete = none) (offset_pos : 0 < x.offset)
      (flag : x.isBaseType = false) (room : x.offset + sizeofJValue ≤ x.tpBasicsize)
      (lineage : ∀ a ∈ x.tpMro, a ≠ t → ¬w.IsConcrete a)
  | concrete (concrete_eq : x.tpConcrete = none) (abstract_eq : x.tpAbstract = none)
      (offset_pos : 0 < x.offset) (r : ℕ) (mem : r ∈ x.tpMro) (z : TypeObject)
      (get_eq : w[r]? = some z) (s : SpecOffset) (spec_eq : z.spec = some s)
      (value_eq : s.value = x.offset)
      (room : ∀ off, s = .field off →
        off + sizeofJValue ≤ z.tpBasicsize ∧ z.tpBasicsize ≤ x.tpBasicsize)
      (lineage : ∀ a ∈ x.tpMro, w.IsConcrete a → w.offsetOf a = x.offset)

/-- What holds of the types between two creations. -/
structure Inv (w : Types) : Prop where
  mro_le : ∀ (t : ℕ) x, w[t]? = some x → ∀ a ∈ x.tpMro, a ≤ t
  self_mem : ∀ (t : ℕ) x, w[t]? = some x → t ∈ x.tpMro
  kind : ∀ (t : ℕ) x, w[t]? = some x → Kind w t x

theorem Kind.offset_pos {w : Types} {t : ℕ} {x : TypeObject} (h : Kind w t x) : 0 < x.offset := by
  cases h with
  | abstract c y _ _ hpos => exact hpos
  | companion _ hpos => exact hpos
  | concrete _ _ hpos => exact hpos

theorem offsetOf_eq {w : Types} {t : ℕ} {x : TypeObject} (h : w[t]? = some x) :
    w.offsetOf t = x.offset := by
  rw [offsetOf, h]
  rfl

theorem Kind.paired {w : Types} {t : ℕ} {x : TypeObject} (h : Kind w t x) (hx : w[t]? = some x) :
    x.Paired w t := by
  cases h with
  | abstract c y hconcrete habstract hpos hget hback heq hsize hroom hflag _ =>
    have hne : x.tpConcrete ≠ none := by rw [hconcrete]; exact Option.some_ne_none c
    refine ⟨hpos, fun c' hc' ↦ ?_, fun h ↦ absurd h hne, fun h ↦ absurd h hne, .inr habstract⟩
    obtain rfl := Option.some.inj (hconcrete.symm.trans hc')
    exact ⟨y, hget, hback, heq, hsize, hroom, hflag⟩
  | companion hconcrete hpos _ hroom hlineage =>
    refine ⟨hpos, fun c hc ↦ ?_, fun _ a ha hcon ↦ ?_, fun _ ↦ .inl hroom, .inl hconcrete⟩
    · rw [hconcrete] at hc
      cases hc
    · obtain rfl | hne := eq_or_ne a t
      · exact offsetOf_eq hx
      · exact absurd hcon (hlineage a ha hne)
  | concrete hconcrete _ hpos r hmem z hget s hspec hvalue hroom hlineage =>
    refine ⟨hpos, fun c hc ↦ ?_, fun _ ↦ hlineage, fun _ ↦ ?_, .inl hconcrete⟩
    · rw [hconcrete] at hc
      cases hc
    · cases s with
      | abstract =>
        rw [← hvalue] at hpos
        cases hpos
      | field off =>
        obtain ⟨hle, hle'⟩ := hroom off rfl
        rw [SpecOffset.value] at hvalue
        exact .inl (by omega)
      | sentinel off => exact .inr ⟨r, hmem, z, hget, off, hspec, hvalue.symm⟩

theorem isConcrete_append {w : Types} {a : ℕ} (ha : a < w.length) (l : Types) :
    IsConcrete (w ++ l) a ↔ w.IsConcrete a := by
  rw [IsConcrete, IsConcrete, List.getElem?_append_left ha]

theorem offsetOf_append {w : Types} {a : ℕ} (ha : a < w.length) (l : Types) :
    offsetOf (w ++ l) a = w.offsetOf a := by
  rw [offsetOf, offsetOf, List.getElem?_append_left ha]

theorem getElem?_append_of_some {w : Types} {t : ℕ} {x : TypeObject} (h : w[t]? = some x)
    (l : Types) : (w ++ l)[t]? = some x := by
  rw [List.getElem?_append_left (List.getElem?_eq_some_iff.1 h).1, h]

/-- New types leave the kinds of the old ones as they are. -/
theorem Kind.append {w : Types} {t : ℕ} {x : TypeObject} (h : Kind w t x)
    (hmro : ∀ a ∈ x.tpMro, a < w.length) (l : Types) : Kind (w ++ l) t x := by
  cases h with
  | abstract c y hconcrete habstract hpos hget hback heq hsize hroom hflag hlineage =>
    exact .abstract c y hconcrete habstract hpos (getElem?_append_of_some hget l) hback heq hsize
      hroom hflag fun a ha ↦ mt (isConcrete_append (hmro a ha) l).1 (hlineage a ha)
  | companion hconcrete hpos hflag hroom hlineage =>
    exact .companion hconcrete hpos hflag hroom fun a ha hne ↦
      mt (isConcrete_append (hmro a ha) l).1 (hlineage a ha hne)
  | concrete hconcrete habstract hpos r hmem z hget s hspec hvalue hroom hlineage =>
    refine .concrete hconcrete habstract hpos r hmem z (getElem?_append_of_some hget l) s hspec
      hvalue hroom fun a ha hcon ↦ ?_
    rw [offsetOf_append (hmro a ha)]
    exact hlineage a ha ((isConcrete_append (hmro a ha) l).1 hcon)

theorem Inv.mro_lt {w : Types} (h : Inv w) {t : ℕ} {x : TypeObject} (hx : w[t]? = some x) {a : ℕ}
    (ha : a ∈ x.tpMro) : a < w.length :=
  Nat.lt_of_le_of_lt (h.mro_le t x hx a ha) (List.getElem?_eq_some_iff.1 hx).1

theorem mem_ancestors {w : Types} {bases : List Base} {a : ℕ} :
    a ∈ w.ancestors bases ↔ ∃ b, .java b ∈ bases ∧ ∃ x, w[b]? = some x ∧ a ∈ x.tpMro := by
  rw [ancestors, List.mem_flatMap]
  constructor
  · rintro ⟨base, hbase, ha⟩
    cases base with
    | python => exact absurd ha List.not_mem_nil
    | java b =>
      dsimp only at ha
      cases hx : w[b]? with
      | none =>
        rw [hx] at ha
        exact absurd ha List.not_mem_nil
      | some x =>
        rw [hx] at ha
        exact ⟨b, hbase, x, hx, ha⟩
  · rintro ⟨b, hb, x, hx, ha⟩
    refine ⟨.java b, hb, ?_⟩
    dsimp only
    rw [hx]
    exact ha

theorem Inv.ancestors_lt {w : Types} (h : Inv w) {bases : List Base} {a : ℕ}
    (ha : a ∈ w.ancestors bases) : a < w.length := by
  obtain ⟨b, -, x, hx, hmem⟩ := mem_ancestors.1 ha
  exact h.mro_lt hx hmem

/-- The invariant with more types, each of one of the kinds. -/
theorem Inv.append {w : Types} (h : Inv w) {l : Types}
    (hl : ∀ (i : ℕ) x, l[i]? = some x → Kind (w ++ l) (w.length + i) x ∧
      w.length + i ∈ x.tpMro ∧ ∀ a ∈ x.tpMro, a ≤ w.length + i) : Inv (w ++ l) := by
  have hcases : ∀ (t : ℕ) y, (w ++ l)[t]? = some y →
      w[t]? = some y ∨ ∃ i, t = w.length + i ∧ l[i]? = some y := by
    intro t y hy
    obtain hlt | hge := Nat.lt_or_ge t w.length
    · exact .inl (by rwa [List.getElem?_append_left hlt] at hy)
    · rw [List.getElem?_append_right hge] at hy
      exact .inr ⟨t - w.length, by omega, hy⟩
  refine ⟨fun t y hy ↦ ?_, fun t y hy ↦ ?_, fun t y hy ↦ ?_⟩ <;>
    obtain hy | ⟨i, rfl, hi⟩ := hcases t y hy
  · exact h.mro_le t y hy
  · exact (hl i y hi).2.2
  · exact h.self_mem t y hy
  · exact (hl i y hi).2.1
  · exact (h.kind t y hy).append (fun a ha ↦ h.mro_lt hy ha) l
  · exact (hl i y hi).1

theorem Inv.snoc {w : Types} (h : Inv w) {x : TypeObject} (hkind : Kind (w ++ [x]) w.length x)
    (hself : w.length ∈ x.tpMro) (hmro : ∀ a ∈ x.tpMro, a ≤ w.length) : Inv (w ++ [x]) := by
  refine h.append fun i y hy ↦ ?_
  obtain ⟨hi, rfl⟩ := List.getElem?_eq_some_iff.1 hy
  obtain rfl : i = 0 := by simpa using hi
  exact ⟨hkind, hself, hmro⟩

/-- A concrete type: its offset is declared, or inherited along with the declaration. -/
theorem Inv.create_concrete {w : Types} (h : Inv w) {c : Creation} (hs : c.Sound w) {off : ℤ}
    (hflag : ∀ b, .java b ∈ c.bases → ∃ x, w[b]? = some x ∧ x.isBaseType = true)
    (hoff : (∃ s, c.spec = some s ∧ s.value = off ∧ off ≠ -1 ∧ off ≠ 0) ∨
      (c.spec = none ∧ 0 < off ∧ ∃ b, .java b ∈ c.bases ∧ w.IsConcrete b ∧ w.offsetOf b = off)) :
    Inv (w ++ [{ w.newType c.bases c.basicsize with offset := off, spec := c.spec }]) := by
  generalize hx : ({ w.newType c.bases c.basicsize with offset := off, spec := c.spec } :
    TypeObject) = x
  have hmro : x.tpMro = w.length :: w.ancestors c.bases := by rw [← hx]; rfl
  have hlt : ∀ a ∈ w.ancestors c.bases, a < w.length := fun a ha ↦ h.ancestors_lt ha
  refine h.snoc ?_ (by rw [hmro]; exact List.mem_cons_self) fun a ha ↦ ?_
  · -- the family of the ancestors, and the type itself
    have hlineage : (∀ a ∈ w.ancestors c.bases, w.IsConcrete a → w.offsetOf a = off) →
        ∀ a ∈ x.tpMro, IsConcrete (w ++ [x]) a → offsetOf (w ++ [x]) a = x.offset := by
      intro hfamily a ha hcon
      rw [hmro] at ha
      obtain rfl | ha := List.mem_cons.1 ha
      · rw [offsetOf_eq (getElem?_length w x)]
      · rw [offsetOf_append (hlt a ha),
          hfamily a ha ((isConcrete_append (hlt a ha) _).1 hcon), ← hx]
    obtain ⟨s, hspec, hvalue, hne, hne'⟩ | ⟨-, hpos, b, hb, hcon, hoffset⟩ := hoff
    · have hpos : 0 < off := by
        cases s with
        | abstract => exact absurd hvalue.symm hne
        | field n => rw [SpecOffset.value] at hvalue; omega
        | sentinel n => rw [SpecOffset.value] at hvalue; omega
      refine .concrete (by rw [← hx]; rfl) (by rw [← hx]; rfl) (by rw [← hx]; exact hpos) w.length
        (by rw [hmro]; exact List.mem_cons_self) x (getElem?_length w x) s
          (by rw [← hx]; exact hspec)
        (by rw [← hx]; exact hvalue) (fun n hn ↦ ⟨?_, le_rfl⟩) (hlineage fun a ha hcon ↦ ?_)
      · rw [← hx]
        exact (hn ▸ hs.spec_fits s hspec : SpecOffset.Fits _ (.field n)).2
      · rw [hs.spec_family s hspec a ha hcon, hvalue]
    · -- the base has an ancestor that declares its offset
      obtain ⟨y, hy, hbase⟩ := hflag b hb
      have hancestor : ∀ r ∈ y.tpMro, r ∈ w.ancestors c.bases := fun r hr ↦
        mem_ancestors.2 ⟨b, hb, y, hy, hr⟩
      obtain ⟨y', hy', hnone⟩ := hcon
      rw [hy] at hy'
      cases hy'
      cases h.kind b y hy with
      | abstract c' y' hconcrete =>
        rw [hconcrete] at hnone
        cases hnone
      | companion _ _ hfinal =>
        rw [hfinal] at hbase
        cases hbase
      | concrete _ _ hpos' r hmem z hget s hspec hvalue hroom _ =>
        rw [offsetOf_eq hy] at hoffset
        refine .concrete (by rw [← hx]; rfl) (by rw [← hx]; rfl) (by rw [← hx]; exact hpos) r
          (by rw [hmro]; exact List.mem_cons_of_mem _ (hancestor r hmem)) z
          (getElem?_append_of_some hget _) s hspec (by rw [← hx]; exact hvalue.trans hoffset)
          (fun n hn ↦ ⟨(hroom n hn).1, ?_⟩) (hlineage fun a ha hcon ↦ ?_)
        · rw [← hx]
          refine hs.solid r (hancestor r hmem) z hget ?_
          rw [TypeObject.HasField, hspec, hn]
          trivial
        · rw [← hoffset, ← offsetOf_eq hy]
          exact hs.family a ha hcon b (hancestor b (h.self_mem b y hy)) ⟨y, hy, hnone⟩
  · rw [hmro] at ha
    obtain rfl | ha := List.mem_cons.1 ha
    · exact le_rfl
    · exact Nat.le_of_lt (hlt a ha)

/-- An abstract type and its companion. -/
theorem Inv.create_abstract {w : Types} (h : Inv w) {c : Creation} (hs : c.Sound w) {size : ℕ}
    (hflag : ∀ b, .java b ∈ c.bases → ∃ x, w[b]? = some x ∧ x.isBaseType = true)
    (hsize : c.companion = some size)
    (habstract : (∃ s, c.spec = some s ∧ s.value = -1) ∨
      (c.spec = none ∧ ∀ b, .java b ∈ c.bases → ¬w.IsConcrete b)) :
    Inv (w ++ [{ w.newType c.bases c.basicsize with
                 offset := alignUp size alignofJValue, spec := c.spec,
                 tpConcrete := some (w.length + 1) }] ++
      [companionOf w.length (w.newType c.bases c.basicsize) (alignUp size alignofJValue)]) := by
  have hlt : ∀ a ∈ w.ancestors c.bases, a < w.length := fun a ha ↦ h.ancestors_lt ha
  have hoff : c.basicsize ≤ alignUp size alignofJValue :=
    Nat.le_trans (hs.companion_le size hsize) (le_alignUp (by decide))
  have hpos := hs.basicsize_pos
  generalize alignUp size alignofJValue = off at hoff
  -- no ancestor is concrete
  have hlineage : ∀ a ∈ w.ancestors c.bases, ¬w.IsConcrete a := by
    obtain ⟨s, hspec, hvalue⟩ | ⟨-, hnone⟩ := habstract
    · rintro a ha ⟨x, hx, hcon⟩
      have heq := hs.spec_family s hspec a ha ⟨x, hx, hcon⟩
      rw [offsetOf_eq hx, hvalue] at heq
      have hxpos := (h.kind a x hx).offset_pos
      omega
    · intro a ha
      obtain ⟨b, hb, x, hx, hmem⟩ := mem_ancestors.1 ha
      obtain ⟨y, hy, hbase⟩ := hflag b hb
      rw [hx] at hy
      cases hy
      cases h.kind b x hx with
      | abstract _ _ _ _ _ _ _ _ _ _ _ hnone => exact hnone a hmem
      | companion _ _ hfinal =>
        rw [hfinal] at hbase
        cases hbase
      | concrete hconcrete => exact absurd ⟨x, hx, hconcrete⟩ (hnone b hb)
  rw [List.append_assoc, List.singleton_append]
  generalize hx : ({ w.newType c.bases c.basicsize with
    offset := off, spec := c.spec, tpConcrete := some (w.length + 1) } : TypeObject) = x
  generalize hy : companionOf w.length (w.newType c.bases c.basicsize) off = y
  have hxmro : x.tpMro = w.length :: w.ancestors c.bases := by rw [← hx]; rfl
  have hymro : y.tpMro = (w.length + 1) :: x.tpMro := by rw [← hy, ← hx]; rfl
  have hgetx : (w ++ [x, y])[w.length]? = some x := by simp
  have hgety : (w ++ [x, y])[w.length + 1]? = some y := by simp
  have hxlineage : ∀ a ∈ x.tpMro, ¬IsConcrete (w ++ [x, y]) a := by
    intro a ha
    rw [hxmro] at ha
    obtain rfl | ha := List.mem_cons.1 ha
    · rintro ⟨z, hz, hcon⟩
      rw [hgetx] at hz
      cases hz
      rw [← hx] at hcon
      cases hcon
    · exact mt (isConcrete_append (hlt a ha) _).1 (hlineage a ha)
  have hxle : ∀ a ∈ x.tpMro, a ≤ w.length := by
    intro a ha
    rw [hxmro] at ha
    obtain rfl | ha := List.mem_cons.1 ha
    · exact le_rfl
    · exact Nat.le_of_lt (hlt a ha)
  refine h.append fun i z hz ↦ ?_
  obtain _ | _ | i := i
  · cases hz
    refine ⟨.abstract (w.length + 1) y (by rw [← hx]) (by rw [← hx]; rfl) ?_ hgety
      (by rw [← hy]; rfl)
      (by rw [← hx, ← hy]; rfl) ?_ ?_ (by rw [← hy]; rfl) hxlineage,
      by rw [hxmro]; exact List.mem_cons_self, hxle⟩
    · rw [← hx]
      exact Int.natCast_pos.2 (by omega)
    · rw [← hx]
      exact Int.ofNat_le.2 hoff
    · rw [← hx, ← hy]
      exact Int.le_of_eq (Int.natCast_add off sizeofJValue).symm
  · cases hz
    refine ⟨.companion (by rw [← hy]; rfl) ?_ (by rw [← hy]; rfl)
      (by rw [← hy]; exact Int.le_of_eq (Int.natCast_add off sizeofJValue).symm)
      fun a ha hne ↦ ?_, by rw [hymro]; exact List.mem_cons_self, fun a ha ↦ ?_⟩
    · rw [← hy]
      exact Int.natCast_pos.2 (by omega)
    · rw [hymro] at ha
      exact hxlineage a (List.mem_of_ne_of_mem hne ha)
    · rw [hymro] at ha
      obtain rfl | ha := List.mem_cons.1 ha
      · exact le_rfl
      · exact Nat.le_trans (hxle a ha) (Nat.le_add_right _ _)
  · cases hz

/-- A creation keeps the invariant. -/
theorem Inv.step {w : Types} (h : Inv w) {c : Creation} (hs : c.Sound w) : Inv (w.step c) := by
  rw [Types.step]
  cases hcreate : w.create c with
  | none => exact h
  | some w' =>
    have hflag : ∀ b, .java b ∈ c.bases → ∃ x, w[b]? = some x ∧ x.isBaseType = true :=
      fun b hb ↦ accepts_of_create hcreate hb
    obtain ⟨off, rfl, hoff⟩ | ⟨size, hsize, rfl, habstract⟩ :=
      create_cases (fun b x hx ↦ (h.kind b x hx).offset_pos) hcreate
    · exact h.create_concrete hs hflag hoff
    · exact h.create_abstract hs hflag hsize habstract

theorem inv_nil : Inv [] :=
  ⟨fun _ _ hx ↦ (Option.some_ne_none _ hx.symm).elim,
    fun _ _ hx ↦ (Option.some_ne_none _ hx.symm).elim,
    fun _ _ hx ↦ (Option.some_ne_none _ hx.symm).elim⟩

end Types

/-- A sequence of creations, each of which is sound when it is made. -/
structure Script where
  creations : List Creation
  sound : Admissible Creation.Sound Types.step [] creations

/-- The types after a sequence of creations. -/
def Script.types (script : Script) : Types :=
  run Types.step [] script.creations

/-- **Abstract and concrete types stay paired.** After every sequence of creations each type has its
layout, a companion among the bases of a new type is refused, and a companion is built without
starting another one. -/
theorem types_paired (script : Script) :
    (∀ (t : ℕ) x, script.types[t]? = some x → x.Paired script.types t) ∧
      (∀ (t : ℕ) x, script.types[t]? = some x → x.tpAbstract ≠ none →
        ∀ c : Creation, .java t ∈ c.bases → script.types.create c = none) ∧
      ∀ concrete concrete' w self bases,
        Types.init concrete true w self bases = Types.init concrete' true w self bases := by
  have hinv : Types.Inv script.types :=
    invariant_of_admissible (fun _ _ h hs ↦ h.step hs) script.creations []
      Types.inv_nil script.sound
  refine ⟨fun t x hx ↦ (hinv.kind t x hx).paired hx, fun t x hx habstract c hc ↦ ?_,
    fun concrete concrete' w self bases ↦ rfl⟩
  cases hcreate : script.types.create c with
  | none => rfl
  | some w' =>
    obtain ⟨y, hy, hbase⟩ := Types.accepts_of_create hcreate hc
    rw [hx] at hy
    cases hy
    cases hinv.kind t x hx with
    | abstract _ _ _ hnone => exact absurd hnone habstract
    | companion _ _ hfinal =>
      rw [hfinal] at hbase
      cases hbase
    | concrete _ hnone => exact absurd hnone habstract

/-- `_JObject`, `_JException`, a class that derives from each of them, and an interface. -/
def bootstrap : Script where
  creations :=
    [⟨some .abstract, [.python], 16, some 32, true⟩,
      ⟨some (.field 72), [.python, .java 0], 80, none, true⟩,
      ⟨none, [.java 2], 96, none, true⟩, ⟨none, [.java 0], 32, some 32, true⟩,
      ⟨none, [.java 3, .java 4], 96, none, true⟩]
  sound := by decide

example : bootstrap.types.map TypeObject.offset = [32, 32, 72, 72, 32, 32, 72] := by decide

end JPype
