import Mathlib.Data.Rat.Defs
import Mathlib.Tactic.Common
import Mathlib.Tactic.NormNum.Basic

/-!
# Equality and hashing of wrapped values

Five functions are installed as `tp_richcompare`, and Python decides from the types of the two
operands which of them is asked first. Here they are asked for `==` and `!=` only, and both
operands are `None` or values with a Java class. Where the wrapper of a Java class has been given
an `__eq__` or a `__hash__` of its own, that one is asked instead, and nothing is said about it.

`Coherent` is what Python expects of the two operators and of `hash`, and `coherent_iff` says for
which pairs of operands it has been achieved.
-/

namespace JPype

/-- The values of a Python float. A NaN is hashed by its address. -/
inductive PyFloat where
  | finite (value : ℚ)
  | infinity (negative : Bool)
  | nan (address : ℕ)
  deriving DecidableEq, Repr

/-- The Java types that are wrapped as a Python int. -/
inductive LongType where
  | boolean
  | byte
  | short
  | int
  | long
  deriving DecidableEq, Repr

/-- The Java types that are wrapped as a Python float. -/
inductive FloatType where
  | float
  | double
  deriving DecidableEq, Repr

/-- A Java primitive type that has a boxed class. -/
inductive BoxedType where
  | long (type : LongType)
  | float (type : FloatType)
  | char
  deriving DecidableEq, Repr

/-- The value of a Java primitive. -/
inductive JContent where
  | long (type : LongType) (value : ℤ)
  | float (type : FloatType) (value : PyFloat)
  | char (code : ℕ)
  deriving DecidableEq, Repr

/-- The type of a primitive value. -/
def JContent.type : JContent → BoxedType
  | .long type _ => .long type
  | .float type _ => .float type
  | .char _ => .char

/-- `None` and what the bridge hands to Python. The null of a boxed class is a Python int, float
or str that has been made with the value zero. -/
inductive Wrapped (Cls Obj : Type) where
  | none
  | object (cls : Cls) (obj : Option Obj)
  | primitive (content : JContent)
  | boxed (content : JContent)
  | nullBoxed (type : BoxedType)
  deriving DecidableEq, Repr

/-- The operators of `tp_richcompare` that are of interest here. -/
inductive CompareOp where
  | eq
  | ne
  deriving DecidableEq, Repr

/-- The Java classes with their `equals` and `hashCode`, and the hash functions of Python. -/
structure ObjectModel (Cls Obj : Type) where
  /-- The Python class of the first is properly derived from the one of the second. -/
  derived : Cls → Cls → Bool
  boxedDerived : BoxedType → Cls → Bool
  comparable : Cls → Bool
  /-- The class has been given one of the methods that `PyNumber_Check` asks for. -/
  isNumber : Cls → Bool
  equals : Obj → Option Obj → Bool
  hashCode : Obj → ℤ
  box : JContent → Obj
  equals_refl : ∀ x, equals x (some x) = true
  equals_symm : ∀ x y, equals x (some y) = equals y (some x)
  equals_trans : ∀ x y z, equals x (some y) = true → equals y (some z) = true →
    equals x (some z) = true
  equals_null : ∀ x, equals x none = false
  hashCode_eq : ∀ x y, equals x (some y) = true → hashCode x = hashCode y
  noneHash : ℤ
  numberHash : ℚ → ℤ
  infinityHash : Bool → ℤ
  addressHash : ℕ → ℤ
  unicodeHash : ℕ → ℤ
  noneHash_ne : noneHash ≠ -1
  numberHash_ne : ∀ q, numberHash q ≠ -1
  infinityHash_ne : ∀ s, infinityHash s ≠ -1
  addressHash_ne : ∀ p, addressHash p ≠ -1
  unicodeHash_ne : ∀ c, unicodeHash c ≠ -1

namespace Wrapped

variable {Cls Obj : Type}

/-- `PyJPValue_getJPClass` finds a class. -/
def hasJPClass : Wrapped Cls Obj → Bool
  | none => false
  | _ => true

/-- The class of the value is a primitive one. -/
def isPrimitive : Wrapped Cls Obj → Bool
  | primitive _ => true
  | _ => false

/-- `other == Py_None`. -/
def isNone : Wrapped Cls Obj → Bool
  | none => true
  | _ => false

/-- The value wraps a Java null. -/
def isNull : Wrapped Cls Obj → Bool
  | object _ Option.none => true
  | nullBoxed _ => true
  | _ => false

/-- The digits of a value that passes `PyLong_Check`. -/
def asLong : Wrapped Cls Obj → Option ℤ
  | primitive (.long _ n) => some n
  | boxed (.long _ n) => some n
  | nullBoxed (.long _) => some 0
  | _ => Option.none

/-- The content of a value that passes `PyFloat_Check`. -/
def asFloat : Wrapped Cls Obj → Option PyFloat
  | primitive (.float _ f) => some f
  | boxed (.float _ f) => some f
  | nullBoxed (.float _) => some (.finite 0)
  | _ => Option.none

/-- The only character of a value that passes `PyUnicode_Check`. -/
def asUnicode : Wrapped Cls Obj → Option ℕ
  | primitive (.char c) => some c
  | boxed (.char c) => some c
  | nullBoxed .char => some 0
  | _ => Option.none

end Wrapped

/-! ### The comparisons of Python -/

/-- The answer to `op` when the operands are equal or not. -/
def CompareOp.answer (op : CompareOp) (equal : Bool) : Bool :=
  match op with
  | .eq => equal
  | .ne => !equal

/-- The equality of two floats. -/
def PyFloat.equal : PyFloat → PyFloat → Bool
  | .finite p, .finite q => p = q
  | .infinity s, .infinity t => s = t
  | _, _ => false

theorem PyFloat.equal_comm (f g : PyFloat) : f.equal g = g.equal f := by
  cases f <;> cases g <;> simp [PyFloat.equal, eq_comm]

/-- The equal floats are the same, and are no NaN. -/
theorem PyFloat.equal_iff {f g : PyFloat} : f.equal g = true ↔ f = g ∧ ∀ p, f ≠ .nan p := by
  cases f <;> cases g <;> simp [PyFloat.equal]

/-- The `tp_richcompare` of `PyLong_Type`, where `self` is an int. -/
def PyLong.richcompare {Cls Obj : Type} (self : ℤ) (other : Wrapped Cls Obj) (op : CompareOp) :
    Option Bool :=
  other.asLong.map fun n ↦ op.answer (self = n)

/-- The `tp_richcompare` of `PyFloat_Type`, where `self` is a float. -/
def PyFloat.richcompare {Cls Obj : Type} (self : PyFloat) (other : Wrapped Cls Obj)
    (op : CompareOp) : Option Bool :=
  match other.asFloat, other.asLong with
  | some f, _ => some (op.answer (self.equal f))
  | Option.none, some n => some (op.answer (self.equal (.finite n)))
  | Option.none, Option.none => Option.none

namespace ObjectModel

variable {Cls Obj : Type} (om : ObjectModel Cls Obj)

/-- `PyNumber_Check`. A char is a number for the sake of its `nb_index`. -/
def numberCheck : Wrapped Cls Obj → Bool
  | .none => false
  | .object cls _ => om.isNumber cls
  | _ => true

/-- The object in the Java slot of a value that is not primitive. A boxed value is boxed again
each time. -/
def javaObject : Wrapped Cls Obj → Option Obj
  | .object _ obj => obj
  | .boxed content => some (om.box content)
  | _ => none

/-! ### The functions in `tp_richcompare` -/

/-- What `PyJPObject_compare` answers to `==`. -/
def objectEqual (self other : Wrapped Cls Obj) : Bool :=
  match om.javaObject self with
  | none =>
    if !other.hasJPClass then other.isNone
    else if other.isPrimitive then false
    else (om.javaObject other).isNone
  | some obj0 =>
    if other.isNone then false
    else if other.isPrimitive then false
    else match om.javaObject other with
      | none => false
      | some obj1 => om.equals obj0 (some obj1)

/-- `PyJPObject_compare`, where `self` has a class that is not primitive. -/
def objectCompare (self other : Wrapped Cls Obj) (op : CompareOp) : Option Bool :=
  match op with
  | .ne => some (!om.objectEqual self other)
  | .eq => some (om.objectEqual self other)

/-- `PyJPComparable_compare`, where `self` has a class that is not primitive. -/
def comparableCompare (self other : Wrapped Cls Obj) (op : CompareOp) : Option Bool :=
  let null0 := (om.javaObject self).isNone
  let null1 := other.isNone ||
    (other.hasJPClass && !other.isPrimitive && (om.javaObject other).isNone)
  let obj1 := if !null1 && other.hasJPClass && !other.isPrimitive then om.javaObject other
    else none
  match op with
  | .eq =>
    if null0 && null1 then some true
    else match om.javaObject self with
      | none => some false
      | some obj0 => if null1 then some false else some (om.equals obj0 obj1)
  | .ne =>
    if null0 && null1 then some false
    else match om.javaObject self with
      | none => some true
      | some obj0 => if null1 then some true else some (!om.equals obj0 obj1)

/-- `PyJPNumberLong_compare`. -/
def numberLongCompare (self : Wrapped Cls Obj) (digits : ℤ) (other : Wrapped Cls Obj)
    (op : CompareOp) : Option Bool :=
  if self.isNull then some (op.answer other.isNone)
  else if !om.numberCheck other then none
  else PyLong.richcompare digits other op

/-- `PyJPNumberFloat_compare`. -/
def numberFloatCompare (self : Wrapped Cls Obj) (value : PyFloat) (other : Wrapped Cls Obj)
    (op : CompareOp) : Option Bool :=
  if self.isNull then some (op.answer other.isNone)
  else if !om.numberCheck other then none
  else value.richcompare other op

/-- `PyJPJChar_compare`. -/
def charCompare (self : Wrapped Cls Obj) (code : ℕ) (other : Wrapped Cls Obj) (op : CompareOp) :
    Option Bool :=
  let has1 := other.hasJPClass
  if self.isNull then
    some (op.answer (other.isNone || (has1 && other.isNull)))
  else if has1 && other.isNull then some (op = .ne)
  else match other.asUnicode, other.asFloat with
    | some c, _ => some (op.answer (code = c))
    | none, some f => some (op.answer (f.equal (.finite code)))
    | none, none =>
      if om.numberCheck other then PyLong.richcompare code other op
      else if has1 then some (op = .ne)
      else none

/-- The function in `tp_richcompare` of the type of `self`; for `None` it is the one that every
type has from `object`. -/
def richcompareSlot (self other : Wrapped Cls Obj) (op : CompareOp) : Option Bool :=
  match self with
  | .none => if other.isNone then some (op.answer true) else none
  | .object cls _ =>
    if om.comparable cls then om.comparableCompare self other op
    else om.objectCompare self other op
  | .primitive (.long _ n) | .boxed (.long _ n) => om.numberLongCompare self n other op
  | .nullBoxed (.long _) => om.numberLongCompare self 0 other op
  | .primitive (.float _ f) | .boxed (.float _ f) => om.numberFloatCompare self f other op
  | .nullBoxed (.float _) => om.numberFloatCompare self (.finite 0) other op
  | .primitive (.char c) | .boxed (.char c) => om.charCompare self c other op
  | .nullBoxed .char => om.charCompare self 0 other op

/-- The type of `w` is a proper subtype of the type of `v`. -/
def subtype (w v : Wrapped Cls Obj) : Bool :=
  match w, v with
  | .object d _, .object c _ => om.derived d c
  | .boxed content, .object c _ => om.boxedDerived content.type c
  | .nullBoxed type, .object c _ => om.boxedDerived type c
  | _, _ => false

/-- `do_richcompare`: the reflected operand is asked first when its type is the more special
one, and identity decides when neither answers. -/
def richcompare (v w : Wrapped Cls Obj) (op : CompareOp) : Bool :=
  let answer :=
    if om.subtype w v then om.richcompareSlot w v op <|> om.richcompareSlot v w op
    else om.richcompareSlot v w op <|> om.richcompareSlot w v op
  answer.getD (op.answer (v.isNone && w.isNone))

/-- The operator `==`. -/
def eq (v w : Wrapped Cls Obj) : Bool := om.richcompare v w .eq

/-- The operator `!=`. -/
def ne (v w : Wrapped Cls Obj) : Bool := om.richcompare v w .ne

/-! ### The functions in `tp_hash` -/

/-- The hash of a float. -/
def floatHash : PyFloat → ℤ
  | .finite q => om.numberHash q
  | .infinity s => om.infinityHash s
  | .nan p => om.addressHash p

/-- The hash that a primitive value has as the Python value that it is. -/
def contentHash : JContent → ℤ
  | .long _ n => om.numberHash n
  | .float _ f => om.floatHash f
  | .char c => om.unicodeHash c

/-- The function in `tp_hash`: `PyJPObject_hash`, `PyJPNumberLong_hash`, `PyJPNumberFloat_hash`
or `PyJPChar_hash`. -/
def hashSlot : Wrapped Cls Obj → ℤ
  | .none => om.noneHash
  | .object _ none => om.noneHash
  | .object _ (some obj) => om.hashCode obj
  | .primitive content => om.contentHash content
  | .boxed content => om.contentHash content
  | .nullBoxed _ => om.noneHash

/-- The function `hash`. A slot that returns `-1` has failed. -/
def hash (v : Wrapped Cls Obj) : Option ℤ :=
  if om.hashSlot v = -1 then none else some (om.hashSlot v)

/-! ### Coherence -/

/-- What Python expects of `==`, `!=` and `hash` at two operands. -/
structure Coherent (a b : Wrapped Cls Obj) : Prop where
  symmetric : om.eq a b = om.eq b a
  negated : om.ne a b = !om.eq a b
  null : a.isNull = true → (om.eq a b = true ↔ b.isNone = true ∨ b.isNull = true)
  hash_eq : om.eq a b = true → om.hash a = om.hash b
  hashable : (om.hash a).isSome = true

end ObjectModel

/-- The null of a boxed number or boolean. -/
def Wrapped.isNullNumber {Cls Obj : Type} : Wrapped Cls Obj → Bool
  | .nullBoxed (.long _) => true
  | .nullBoxed (.float _) => true
  | _ => false

/-- The value of a primitive, or of a box that is not null. -/
def Wrapped.content? {Cls Obj : Type} : Wrapped Cls Obj → Option JContent
  | .primitive content => some content
  | .boxed content => some content
  | _ => .none

/-- The number that a primitive value stands for. -/
def JContent.number : JContent → PyFloat
  | .long _ n => .finite n
  | .float _ f => f
  | .char code => .finite code

/-- The null of a boxed type is taken for the zero that it has been made with, when it is the right
operand of this value. -/
def JContent.MeetsNull : JContent → BoxedType → Prop
  | .long _ n, .long _ => n = 0
  | .float _ f, .long _ => f = .finite 0
  | .float _ f, .float _ => f = .finite 0
  | _, _ => False

theorem Wrapped.isNull_of_content {Cls Obj : Type} {v : Wrapped Cls Obj} {c : JContent}
    (hv : v.content? = some c) : v.isNull = false := by
  cases v <;> first | rfl | cases hv

/-- A value with a content is no null. -/
theorem Wrapped.not_isNull_of_content {Cls Obj : Type} {v : Wrapped Cls Obj} {c : JContent}
    (hv : v.content? = some c) (hnull : v.isNull = true) : False := by
  rw [isNull_of_content hv] at hnull
  cases hnull

theorem Wrapped.asLong_of_content {Cls Obj : Type} {v : Wrapped Cls Obj} {c : JContent}
    (hv : v.content? = some c) :
    v.asLong = match c with
      | .long _ n => some n
      | _ => .none := by
  cases v <;> cases hv <;> cases c <;> rfl

theorem Wrapped.asFloat_of_content {Cls Obj : Type} {v : Wrapped Cls Obj} {c : JContent}
    (hv : v.content? = some c) :
    v.asFloat = match c with
      | .float _ f => some f
      | _ => .none := by
  cases v <;> cases hv <;> cases c <;> rfl

theorem Wrapped.isNone_of_content {Cls Obj : Type} {v : Wrapped Cls Obj} {c : JContent}
    (hv : v.content? = some c) : v.isNone = false := by
  cases v <;> first | rfl | cases hv

namespace ObjectModel

variable {Cls Obj : Type} (om : ObjectModel Cls Obj)

/-- The first is a char, the second the number that is its code, and Python hashes the two
differently. -/
def CharClash (a b : JContent) : Prop :=
  ∃ code, a = .char code ∧ b.type ≠ .char ∧ b.number = .finite code ∧
    om.unicodeHash code ≠ om.numberHash code

/-- The object is equal to the box of the value, and no answer would do: the value has the
other hash, or is a char that denies the equality when it is asked. -/
def BoxClash (cls : Cls) (x : Obj) (content : JContent) : Prop :=
  om.equals x (some (om.box content)) = true ∧
    match content with
    | .char code =>
      if om.isNumber cls then om.hashCode x ≠ om.unicodeHash code
      else om.boxedDerived .char cls = false
    | _ => om.hashCode x ≠ om.contentHash content

/-- The first operand does not go together with the second. -/
inductive Clash : Wrapped Cls Obj → Wrapped Cls Obj → Prop
  | null {a b : Wrapped Cls Obj} (ha : a.isNullNumber = true) (hb : b.isNull = true) : Clash a b
  | zero {content : JContent} {type : BoxedType} {b : Wrapped Cls Obj}
      (hb : b.content? = some content) (h : content.MeetsNull type) : Clash (.nullBoxed type) b
  | char {a b : Wrapped Cls Obj} {c d : JContent} (ha : a.content? = some c)
      (hb : b.content? = some d) (h : om.CharClash c d) : Clash a b
  | box {cls : Cls} {x : Obj} {content : JContent} (h : om.BoxClash cls x content) :
      Clash (.object cls (some x)) (.boxed content)

/-- The operands are not a clash, and the first is not an object whose hash code is `-1`. -/
structure Regular (a b : Wrapped Cls Obj) : Prop where
  hashCode_ne : ∀ cls x, a = .object cls (some x) → om.hashCode x ≠ -1
  left : ¬om.Clash a b
  right : ¬om.Clash b a

/-! ### What the slots answer -/

theorem numberLongCompare_ne (v w : Wrapped Cls Obj) (n : ℤ) :
    om.numberLongCompare v n w .ne = (om.numberLongCompare v n w .eq).map not := by
  unfold numberLongCompare PyLong.richcompare
  split_ifs
  · rfl
  · rfl
  · cases w.asLong <;> rfl

theorem numberFloatCompare_ne (v w : Wrapped Cls Obj) (f : PyFloat) :
    om.numberFloatCompare v f w .ne = (om.numberFloatCompare v f w .eq).map not := by
  unfold numberFloatCompare PyFloat.richcompare
  split_ifs
  · rfl
  · rfl
  · cases w.asFloat <;> cases w.asLong <;> rfl

theorem charCompare_ne (v w : Wrapped Cls Obj) (c : ℕ) :
    om.charCompare v c w .ne = (om.charCompare v c w .eq).map not := by
  simp only [charCompare, PyLong.richcompare]
  split_ifs
  · rfl
  · rfl
  all_goals cases w.asUnicode <;> cases w.asFloat <;> cases w.asLong <;> rfl

theorem comparableCompare_ne (v w : Wrapped Cls Obj) :
    om.comparableCompare v w .ne = (om.comparableCompare v w .eq).map not := by
  simp only [comparableCompare]
  split_ifs
  · rfl
  all_goals cases om.javaObject v <;> rfl

/-- Every function in `tp_richcompare` answers `!=` with the negation of its answer to `==`. -/
theorem richcompareSlot_ne (v w : Wrapped Cls Obj) :
    om.richcompareSlot v w .ne = (om.richcompareSlot v w .eq).map not := by
  unfold richcompareSlot
  split
  · split_ifs <;> rfl
  · split_ifs
    · exact om.comparableCompare_ne _ _
    · rfl
  all_goals
    first
      | exact om.numberLongCompare_ne _ _ _
      | exact om.numberFloatCompare_ne _ _ _
      | exact om.charCompare_ne _ _ _

theorem ne_eq_not (v w : Wrapped Cls Obj) : om.ne v w = !om.eq v w := by
  simp only [ne, eq, richcompare, richcompareSlot_ne]
  split_ifs
  all_goals
    cases om.richcompareSlot v w .eq <;> cases om.richcompareSlot w v .eq <;>
      simp [CompareOp.answer]

/-- A null object equals what has no object: `None` and the nulls. -/
theorem slot_nullObject (cls : Cls) (w : Wrapped Cls Obj) :
    om.richcompareSlot (.object cls none) w .eq = some (w.isNone || w.isNull) := by
  rcases w with _ | ⟨d, _ | y⟩ | c | c | t <;>
    cases h : om.comparable cls <;>
    simp [richcompareSlot, h, comparableCompare, objectCompare, objectEqual, javaObject,
      Wrapped.isNone, Wrapped.isNull, Wrapped.hasJPClass, Wrapped.isPrimitive]

/-- An object that is not null is compared with the object of the other side. -/
theorem slot_object (cls : Cls) (x : Obj) (w : Wrapped Cls Obj) :
    om.richcompareSlot (.object cls (some x)) w .eq =
      some ((om.javaObject w).any fun y ↦ om.equals x (some y)) := by
  rcases w with _ | ⟨d, _ | y⟩ | c | c | t <;>
    cases h : om.comparable cls <;>
    simp [richcompareSlot, h, comparableCompare, objectCompare, objectEqual, javaObject,
      Wrapped.isNone, Wrapped.hasJPClass, Wrapped.isPrimitive, om.equals_null]

/-- The null of a boxed number knows `None` only. -/
theorem slot_nullNumber {v : Wrapped Cls Obj} (hv : v.isNullNumber = true)
    (w : Wrapped Cls Obj) : om.richcompareSlot v w .eq = some w.isNone := by
  cases v with
  | nullBoxed t =>
    cases t with
    | long t => rfl
    | float t => rfl
    | char => cases hv
  | _ => cases hv

/-- The null of `Character` recognises every null. -/
theorem slot_nullChar (w : Wrapped Cls Obj) :
    om.richcompareSlot (.nullBoxed .char) w .eq = some (w.isNone || w.isNull) := by
  rcases w with _ | ⟨d, _ | y⟩ | c | c | t <;>
    simp [richcompareSlot, charCompare, Wrapped.isNone, Wrapped.isNull, Wrapped.hasJPClass,
      CompareOp.answer]

/-- An int is compared with ints. -/
theorem slot_long {v : Wrapped Cls Obj} {t : LongType} {n : ℤ}
    (hv : v.content? = some (.long t n)) (w : Wrapped Cls Obj) :
    om.richcompareSlot v w .eq = w.asLong.map fun m ↦ decide (n = m) := by
  have hslot : om.richcompareSlot v w .eq = om.numberLongCompare v n w .eq := by
    cases v <;> cases hv <;> rfl
  rw [hslot, numberLongCompare, Wrapped.isNull_of_content hv]
  rcases w with _ | ⟨d, y⟩ | c | c | t <;>
    simp [numberCheck, PyLong.richcompare, CompareOp.answer, Wrapped.asLong]

/-- A float is compared with floats and ints. -/
theorem slot_float {v : Wrapped Cls Obj} {t : FloatType} {f : PyFloat}
    (hv : v.content? = some (.float t f)) (w : Wrapped Cls Obj) :
    om.richcompareSlot v w .eq = f.richcompare w .eq := by
  have hslot : om.richcompareSlot v w .eq = om.numberFloatCompare v f w .eq := by
    cases v <;> cases hv <;> rfl
  rw [hslot, numberFloatCompare, Wrapped.isNull_of_content hv]
  rcases w with _ | ⟨d, y⟩ | c | c | t <;>
    simp [numberCheck, PyFloat.richcompare, Wrapped.asLong, Wrapped.asFloat]

theorem slot_eq_charCompare {v : Wrapped Cls Obj} {code : ℕ}
    (hv : v.content? = some (.char code)) (w : Wrapped Cls Obj) (op : CompareOp) :
    om.richcompareSlot v w op = om.charCompare v code w op := by
  cases v <;> cases hv <;> rfl

/-- A char is compared with chars and, by its code, with numbers. -/
theorem slot_char {v w : Wrapped Cls Obj} {code : ℕ} {d : JContent}
    (hv : v.content? = some (.char code)) (hw : w.content? = some d) :
    om.richcompareSlot v w .eq = some (d.number.equal (.finite code)) := by
  have hcode : ∀ n : ℤ, (decide ((code : ℤ) = n)) = decide ((n : ℚ) = (code : ℚ)) := by
    intro n
    exact decide_eq_decide.mpr ⟨fun h ↦ by rw [← h]; rfl, fun h ↦ by exact_mod_cast h.symm⟩
  rw [slot_eq_charCompare om hv, charCompare, Wrapped.isNull_of_content hv,
    Wrapped.isNull_of_content hw]
  cases w <;> cases hw <;> cases d <;>
    simp [Wrapped.asUnicode, Wrapped.asFloat, Wrapped.asLong, numberCheck,
      PyLong.richcompare, CompareOp.answer, JContent.number, PyFloat.equal, hcode,
      @eq_comm ℕ code]

/-- A char does not equal a null. -/
theorem slot_char_null {v w : Wrapped Cls Obj} {code : ℕ}
    (hv : v.content? = some (.char code)) (hw : w.isNull = true) :
    om.richcompareSlot v w .eq = some false := by
  have hclass : w.hasJPClass = true := by
    cases w <;> first | rfl | cases hw
  rw [slot_eq_charCompare om hv, charCompare, Wrapped.isNull_of_content hv, hw, hclass]
  rfl

/-- A number leaves an object to the other side, and so does a char when the object passes
for a number. -/
theorem slot_content_object {v : Wrapped Cls Obj} {c : JContent} (hv : v.content? = some c)
    (cls : Cls) (obj : Option Obj) (hobj : c.type = .char → obj.isSome = true) :
    om.richcompareSlot v (.object cls obj) .eq =
      if c.type = .char ∧ om.isNumber cls = false then some false else none := by
  cases c with
  | long t n => rw [om.slot_long hv]; rfl
  | float t f => rw [om.slot_float hv]; rfl
  | char code =>
    obtain ⟨x, rfl⟩ := Option.isSome_iff_exists.mp (hobj rfl)
    rw [slot_eq_charCompare om hv, charCompare, Wrapped.isNull_of_content hv]
    cases h : om.isNumber cls <;>
      simp [Wrapped.hasJPClass, Wrapped.isNull, Wrapped.asUnicode, Wrapped.asFloat,
        Wrapped.asLong, numberCheck, PyLong.richcompare, JContent.type, h]

/-! ### The operator `==` -/

/-- The order of the two slots does not matter when both give the same answer, or the second
of them none. -/
theorem eq_of_slots {v w : Wrapped Cls Obj} {r : Bool}
    (hv : om.richcompareSlot v w .eq = some r)
    (hw : om.richcompareSlot w v .eq = some r ∨ om.richcompareSlot w v .eq = none) :
    om.eq v w = r ∧ om.eq w v = r := by
  unfold eq richcompare
  rcases hw with hw | hw <;> simp [hv, hw]

/-- Types are derived from the types of objects only. -/
theorem subtype_eq_false {v : Wrapped Cls Obj} (w : Wrapped Cls Obj)
    (h : ∀ cls obj, v ≠ .object cls obj) : om.subtype w v = false := by
  cases v with
  | object cls obj => exact absurd rfl (h cls obj)
  | _ => cases w <;> rfl

theorem subtype_content {v : Wrapped Cls Obj} {c : JContent} (hv : v.content? = some c)
    (w : Wrapped Cls Obj) : om.subtype w v = false := by
  refine om.subtype_eq_false w fun cls obj h ↦ ?_
  rw [h] at hv
  cases hv

/-- The left operand is asked first unless the type of the other is derived from its own. -/
theorem eq_of_slot_left {v w : Wrapped Cls Obj} {r : Bool} (h : om.subtype w v = false)
    (hv : om.richcompareSlot v w .eq = some r) : om.eq v w = r := by
  simp [eq, richcompare, h, hv]

/-- What the left operand leaves to the other is answered by that one alone. -/
theorem eq_of_slot_right {v w : Wrapped Cls Obj} {r : Bool}
    (hv : om.richcompareSlot v w .eq = none) (hw : om.richcompareSlot w v .eq = some r) :
    om.eq v w = r ∧ om.eq w v = r :=
  (om.eq_of_slots hw (.inr hv)).symm

theorem slot_content_none {v : Wrapped Cls Obj} {c : JContent} (hv : v.content? = some c) :
    om.richcompareSlot v .none .eq = none := by
  cases c with
  | long t n => rw [om.slot_long hv]; rfl
  | float t f => rw [om.slot_float hv]; rfl
  | char code =>
    rw [slot_eq_charCompare om hv, charCompare, Wrapped.isNull_of_content hv]
    rfl

theorem eq_none (w : Wrapped Cls Obj) :
    om.eq .none w = (w.isNone || w.isNull) ∧ om.eq w .none = (w.isNone || w.isNull) := by
  have hcontent : ∀ {w : Wrapped Cls Obj} {c}, w.content? = some c →
      om.eq .none w = (w.isNone || w.isNull) ∧ om.eq w .none = (w.isNone || w.isNull) := by
    intro w c hw
    have hnone : om.richcompareSlot .none w .eq = none := by
      simp [richcompareSlot, Wrapped.isNone_of_content hw]
    simp [eq, richcompare, hnone, om.slot_content_none hw, Wrapped.isNone_of_content hw,
      Wrapped.isNull_of_content hw, CompareOp.answer]
  match w with
  | .none => exact ⟨rfl, rfl⟩
  | .object cls none => exact om.eq_of_slot_right rfl (om.slot_nullObject cls .none)
  | .object cls (some x) => exact om.eq_of_slot_right rfl (om.slot_object cls x .none)
  | .primitive c => exact hcontent rfl
  | .boxed c => exact hcontent rfl
  | .nullBoxed (.long t) => exact om.eq_of_slot_right rfl (om.slot_nullNumber rfl .none)
  | .nullBoxed (.float t) => exact om.eq_of_slot_right rfl (om.slot_nullNumber rfl .none)
  | .nullBoxed .char => exact om.eq_of_slot_right rfl (om.slot_nullChar .none)

/-- The null of a boxed number, as the left operand, equals `None` only. -/
theorem eq_nullNumber {v : Wrapped Cls Obj} (hv : v.isNullNumber = true)
    (w : Wrapped Cls Obj) : om.eq v w = w.isNone := by
  refine om.eq_of_slot_left (om.subtype_eq_false w fun cls obj h ↦ ?_) (om.slot_nullNumber hv w)
  rw [h] at hv
  cases hv

/-- A null that is not the null of a boxed number recognises the nulls. -/
theorem slot_null {v : Wrapped Cls Obj} (hv : v.isNull = true) (hn : v.isNullNumber = false)
    (w : Wrapped Cls Obj) : om.richcompareSlot v w .eq = some (w.isNone || w.isNull) := by
  match v with
  | .object cls none => exact om.slot_nullObject cls w
  | .nullBoxed .char => exact om.slot_nullChar w

theorem eq_null_null {v w : Wrapped Cls Obj} (hv : v.isNull = true) (hw : w.isNull = true)
    (hvn : v.isNullNumber = false) (hwn : w.isNullNumber = false) :
    om.eq v w = true := by
  have hl := om.slot_null hv hvn w
  have hr := om.slot_null hw hwn v
  rw [hw, Bool.or_true] at hl
  rw [hv, Bool.or_true] at hr
  exact (om.eq_of_slots hl (.inl hr)).1

/-- Two values that are not null are compared as numbers. -/
theorem eq_content {v w : Wrapped Cls Obj} {c d : JContent} (hv : v.content? = some c)
    (hw : w.content? = some d) : om.eq v w = c.number.equal d.number := by
  have hsub := om.subtype_content hv w
  cases c with
  | char code =>
    rw [PyFloat.equal_comm]
    exact om.eq_of_slot_left hsub (om.slot_char hv hw)
  | long t n =>
    have hl := om.slot_long hv w
    rw [Wrapped.asLong_of_content hw] at hl
    cases d with
    | long t' m =>
      rw [om.eq_of_slot_left hsub hl]
      simp [JContent.number, PyFloat.equal]
    | float t' f =>
      have hr := om.slot_float hw v
      rw [PyFloat.richcompare, Wrapped.asFloat_of_content hv, Wrapped.asLong_of_content hv] at hr
      rw [PyFloat.equal_comm]
      exact (om.eq_of_slot_right hl hr).1
    | char code => exact (om.eq_of_slot_right hl (om.slot_char hw hv)).1
  | float t f =>
    have hl := om.slot_float hv w
    rw [PyFloat.richcompare, Wrapped.asFloat_of_content hw, Wrapped.asLong_of_content hw] at hl
    cases d with
    | long t' m => exact om.eq_of_slot_left hsub hl
    | float t' g => exact om.eq_of_slot_left hsub hl
    | char code => exact (om.eq_of_slot_right hl (om.slot_char hw hv)).1

/-- A null, as the left operand, does not equal a value that is not null. -/
theorem eq_null_content {v w : Wrapped Cls Obj} {c : JContent} (hv : v.isNull = true)
    (hw : w.content? = some c) : om.eq v w = false := by
  have hnone := Wrapped.isNone_of_content hw
  by_cases hn : v.isNullNumber = true
  · rw [om.eq_nullNumber hn, hnone]
  · have hl := om.slot_null hv (by simpa using hn) w
    rw [hnone, Wrapped.isNull_of_content hw, Bool.or_false] at hl
    refine (om.eq_of_slots hl ?_).1
    cases c with
    | char code => exact .inl (om.slot_char_null hw hv)
    | long t n =>
      refine .inr ?_
      rw [om.slot_long hw]
      match v with
      | .object _ _ => rfl
      | .nullBoxed .char => rfl
    | float t f =>
      refine .inr ?_
      rw [om.slot_float hw]
      match v with
      | .object _ _ => rfl
      | .nullBoxed .char => rfl

/-- As the right operand, the null of a boxed number equals the value that it has been made
with. -/
theorem eq_content_null {v w : Wrapped Cls Obj} {c : JContent} (hv : v.content? = some c)
    (hw : w.isNull = true) : om.eq v w = true ↔ ∃ t, w = .nullBoxed t ∧ c.MeetsNull t := by
  have hsub := om.subtype_content hv w
  -- what the value leaves to the null is denied by it
  have hdenied : om.richcompareSlot v w .eq = none → om.eq v w = false := by
    intro hnone
    refine (om.eq_of_slot_right hnone ?_).1
    by_cases hn : w.isNullNumber = true
    · rw [om.slot_nullNumber hn, Wrapped.isNone_of_content hv]
    · rw [om.slot_null hw (by simpa using hn), Wrapped.isNone_of_content hv,
        Wrapped.isNull_of_content hv]
      rfl
  cases c with
  | char code => simp [om.eq_of_slot_left hsub (om.slot_char_null hv hw), JContent.MeetsNull]
  | long t n =>
    have hl := om.slot_long hv w
    match w with
    | .nullBoxed (.long _) => simp [om.eq_of_slot_left hsub hl, JContent.MeetsNull]
    | .nullBoxed (.float _) => simp [hdenied hl, JContent.MeetsNull]
    | .nullBoxed .char => simp [hdenied hl, JContent.MeetsNull]
    | .object _ _ => simp [hdenied hl]
  | float t f =>
    have hzero : f.equal (.finite 0) = true ↔ f = .finite 0 := by
      rw [PyFloat.equal_iff, and_iff_left_iff_imp]
      rintro rfl p ⟨⟩
    have hl := om.slot_float hv w
    match w with
    | .nullBoxed (.long _) =>
      rw [om.eq_of_slot_left hsub (r := f.equal (.finite (0 : ℤ))) hl]
      simpa [JContent.MeetsNull] using hzero
    | .nullBoxed (.float _) =>
      rw [om.eq_of_slot_left hsub (r := f.equal (.finite 0)) hl]
      simpa [JContent.MeetsNull] using hzero
    | .nullBoxed .char => simp [hdenied hl, JContent.MeetsNull]
    | .object _ _ => simp [hdenied hl]

/-- An object does not equal a null. -/
theorem eq_object_null (cls : Cls) (x : Obj) {w : Wrapped Cls Obj} (hw : w.isNull = true) :
    om.eq (.object cls (some x)) w = false ∧ om.eq w (.object cls (some x)) = false := by
  have hl : om.richcompareSlot (.object cls (some x)) w .eq = some false := by
    rw [om.slot_object]
    match w with
    | .object _ none => rfl
    | .nullBoxed _ => rfl
  refine om.eq_of_slots hl (.inl ?_)
  by_cases hn : w.isNullNumber = true
  · exact om.slot_nullNumber hn _
  · exact om.slot_null hw (by simpa using hn) _

theorem eq_object_object (c d : Cls) (x y : Obj) :
    om.eq (.object c (some x)) (.object d (some y)) = om.equals x (some y) := by
  have hr := om.slot_object d y (.object c (some x))
  rw [javaObject, Option.any_some, om.equals_symm] at hr
  exact (om.eq_of_slots (om.slot_object c x (.object d (some y))) (.inl hr)).1

/-- An object does not equal a primitive value. -/
theorem eq_object_primitive (cls : Cls) (x : Obj) (c : JContent) :
    om.eq (.object cls (some x)) (.primitive c) = false ∧
      om.eq (.primitive c) (.object cls (some x)) = false := by
  refine om.eq_of_slots (om.slot_object cls x (.primitive c)) ?_
  rw [om.slot_content_object rfl cls (some x) fun _ ↦ rfl]
  split_ifs
  · exact .inl rfl
  · exact .inr rfl

/-- An object is compared with a box by `equals`, unless the box is a `Character` that denies the
equality. -/
theorem eq_object_boxed (cls : Cls) (x : Obj) {c : JContent}
    (h : ¬(c.type = .char ∧ om.isNumber cls = false)) :
    om.eq (.object cls (some x)) (.boxed c) = om.equals x (some (om.box c)) ∧
      om.eq (.boxed c) (.object cls (some x)) = om.equals x (some (om.box c)) := by
  refine om.eq_of_slots (om.slot_object cls x (.boxed c)) (.inr ?_)
  rw [om.slot_content_object rfl cls (some x) fun _ ↦ rfl, if_neg h]

theorem eq_object_character (cls : Cls) (x : Obj) (code : ℕ) (h : om.isNumber cls = false) :
    om.eq (.object cls (some x)) (.boxed (.char code)) =
        (!om.boxedDerived .char cls && om.equals x (some (om.box (.char code)))) ∧
      om.eq (.boxed (.char code)) (.object cls (some x)) = false := by
  have hchar : om.richcompareSlot (.boxed (.char code)) (.object cls (some x)) .eq =
      some false := by
    rw [om.slot_content_object rfl cls (some x) fun _ ↦ rfl, if_pos ⟨rfl, h⟩]
  refine ⟨?_, om.eq_of_slot_left rfl hchar⟩
  have hobject := om.slot_object cls x (.boxed (.char code))
  rw [eq, richcompare]
  cases hd : om.boxedDerived .char cls with
  | true => simp [subtype, JContent.type, hd, hchar]
  | false => simp [subtype, JContent.type, hd, hobject, javaObject]

/-! ### Agreement -/

theorem floatHash_eq_of_equal {f g : PyFloat} (h : f.equal g = true) :
    om.floatHash f = om.floatHash g := by
  rw [(PyFloat.equal_iff.mp h).1]

theorem floatHash_ne (f : PyFloat) : om.floatHash f ≠ -1 := by
  cases f with
  | finite q => exact om.numberHash_ne q
  | infinity s => exact om.infinityHash_ne s
  | nan p => exact om.addressHash_ne p

theorem contentHash_ne (c : JContent) : om.contentHash c ≠ -1 := by
  cases c with
  | long t n => exact om.numberHash_ne n
  | float t f => exact om.floatHash_ne f
  | char code => exact om.unicodeHash_ne code

/-- Only the hash code of an object can be taken for a failure. -/
theorem hashSlot_ne_iff (v : Wrapped Cls Obj) :
    om.hashSlot v ≠ -1 ↔ ∀ cls x, v = .object cls (some x) → om.hashCode x ≠ -1 := by
  match v with
  | .none => simp [hashSlot, om.noneHash_ne]
  | .object _ none => simp [hashSlot, om.noneHash_ne]
  | .object _ (some x) => simp [hashSlot]
  | .primitive c => simp [hashSlot, om.contentHash_ne]
  | .boxed c => simp [hashSlot, om.contentHash_ne]
  | .nullBoxed _ => simp [hashSlot, om.noneHash_ne]

theorem hashSlot_of_null {v : Wrapped Cls Obj} (hv : v.isNull = true) :
    om.hashSlot v = om.noneHash := by
  match v with
  | .object _ none => rfl
  | .nullBoxed _ => rfl

theorem hashSlot_of_content {v : Wrapped Cls Obj} {c : JContent} (hv : v.content? = some c) :
    om.hashSlot v = om.contentHash c := by
  cases v <;> cases hv <;> rfl

/-- `==` is symmetric and respected by the hashes. -/
structure Agree (a b : Wrapped Cls Obj) : Prop where
  symmetric : om.eq a b = om.eq b a
  hash_eq : om.eq a b = true → om.hashSlot a = om.hashSlot b

/-- A null as the left operand is recognised by `None` and the nulls only. -/
def NullAgree (a b : Wrapped Cls Obj) : Prop :=
  a.isNull = true → (om.eq a b = true ↔ b.isNone = true ∨ b.isNull = true)

theorem coherent_iff_agree (a b : Wrapped Cls Obj) :
    om.Coherent a b ↔ om.hashSlot a ≠ -1 ∧ om.Agree a b ∧ om.NullAgree a b := by
  constructor
  · rintro ⟨hsymm, -, hnull, hhash, hok⟩
    have hne : om.hashSlot a ≠ -1 := by
      intro h
      simp [hash, h] at hok
    refine ⟨hne, ⟨hsymm, fun h ↦ ?_⟩, hnull⟩
    have hab := hhash h
    unfold hash at hab
    rw [if_neg hne] at hab
    split_ifs at hab
    exact Option.some.inj hab
  · rintro ⟨hne, ⟨hsymm, hhash⟩, hnull⟩
    refine ⟨hsymm, om.ne_eq_not a b, hnull, fun h ↦ ?_, ?_⟩
    · unfold hash
      rw [hhash h]
    · simp [hash, hne]

/-- The operands agree just when they are no clash. -/
def Decided (a b : Wrapped Cls Obj) : Prop :=
  om.Agree a b ↔ ¬om.Clash a b ∧ ¬om.Clash b a

theorem Agree.symm {a b : Wrapped Cls Obj} (h : om.Agree a b) : om.Agree b a :=
  ⟨h.symmetric.symm, fun hba ↦ (h.hash_eq (h.symmetric.trans hba)).symm⟩

theorem Decided.symm {a b : Wrapped Cls Obj} (h : om.Decided a b) : om.Decided b a :=
  ⟨fun hba ↦ (h.mp hba.symm).symm, fun hba ↦ (h.mpr hba.symm).symm⟩

/-- Operands that agree and do not clash. -/
theorem Decided.of_agree {a b : Wrapped Cls Obj} (h : om.Agree a b) (hab : ¬om.Clash a b)
    (hba : ¬om.Clash b a) : om.Decided a b :=
  ⟨fun _ ↦ ⟨hab, hba⟩, fun _ ↦ h⟩

theorem agree_of_false {a b : Wrapped Cls Obj}
    (h : om.eq a b = false ∧ om.eq b a = false) : om.Agree a b := by
  refine ⟨h.1.trans h.2.symm, fun hab ↦ ?_⟩
  rw [h.1] at hab
  cases hab

theorem decided_none (b : Wrapped Cls Obj) : om.Decided .none b := by
  obtain ⟨hl, hr⟩ := om.eq_none b
  refine .of_agree om ⟨hl.trans hr.symm, fun h ↦ ?_⟩ ?_ ?_
  · rw [hl, Bool.or_eq_true] at h
    rcases h with h | h
    · cases b <;> first | rfl | cases h
    · exact (om.hashSlot_of_null h).symm
  · rintro (⟨ha, -⟩ | ⟨-, -⟩ | ⟨ha, -, -⟩ | -) <;> cases ha
  · rintro (⟨-, hb⟩ | ⟨hb, -⟩ | ⟨-, hb, -⟩ | -) <;> cases hb

theorem decided_null_content {a b : Wrapped Cls Obj} {c : JContent} (ha : a.isNull = true)
    (hb : b.content? = some c) : om.Decided a b := by
  have hab := om.eq_null_content ha hb
  have hba := om.eq_content_null hb ha
  have hnull := Wrapped.isNull_of_content hb
  have hright : ¬om.Clash b a := by
    rintro (⟨hn, -⟩ | ⟨hc, -⟩ | ⟨-, hc, -⟩ | -)
    · cases b <;> first | cases hn | cases hnull
    · cases hnull
    · exact (Wrapped.not_isNull_of_content hc ha).elim
    · cases hb
  refine ⟨fun h ↦ ⟨?_, hright⟩, fun h ↦ ?_⟩
  · rintro (⟨-, hn⟩ | ⟨hc, hmeet⟩ | ⟨hc, -, -⟩ | -)
    · exact (Wrapped.not_isNull_of_content hb hn).elim
    · cases hb.symm.trans hc
      have := h.symmetric.symm.trans hab
      rw [hba.mpr ⟨_, rfl, hmeet⟩] at this
      cases this
    · exact (Wrapped.not_isNull_of_content hc ha).elim
    · cases ha
  · have hba' : om.eq b a = false := by
      by_contra hne
      obtain ⟨t, rfl, hmeet⟩ := hba.mp (by simpa using hne)
      exact h.1 (.zero hb hmeet)
    exact om.agree_of_false ⟨hab, hba'⟩

theorem contentHash_of_type_ne {c : JContent} (h : c.type ≠ .char) :
    om.contentHash c = om.floatHash c.number := by
  cases c with
  | long t n => rfl
  | float t f => rfl
  | char code => exact absurd rfl h

theorem charClash_char_iff {code : ℕ} {d : JContent} (h : d.number = .finite code)
    (hd : d.type ≠ .char) :
    om.CharClash (.char code) d ↔ om.contentHash (.char code) ≠ om.contentHash d := by
  rw [om.contentHash_of_type_ne hd, h]
  constructor
  · rintro ⟨code', hcode, -, -, hne⟩
    cases hcode
    exact hne
  · intro hne
    exact ⟨code, rfl, hd, h, hne⟩

/-- Values that are equal as numbers have one hash, unless one of them is a char. -/
theorem contentHash_eq_iff {c d : JContent} (h : c.number.equal d.number = true) :
    om.contentHash c = om.contentHash d ↔ ¬om.CharClash c d ∧ ¬om.CharClash d c := by
  obtain ⟨hnum, -⟩ := PyFloat.equal_iff.mp h
  have hnot : ∀ {c d : JContent}, c.type ≠ .char → ¬om.CharClash c d := by
    rintro c d hc ⟨code, rfl, -⟩
    exact hc rfl
  by_cases hc : c.type = .char <;> by_cases hd : d.type = .char
  · have hcd : c = d := by
      cases c <;> cases hc
      cases d <;> cases hd
      rw [JContent.char.injEq]
      exact_mod_cast PyFloat.finite.inj hnum
    subst hcd
    simp [CharClash, hc]
  · cases c <;> cases hc
    rw [om.charClash_char_iff hnum.symm hd, not_not, and_iff_left (hnot hd)]
  · cases d <;> cases hd
    rw [om.charClash_char_iff hnum hc, not_not, and_iff_right (hnot hc), eq_comm]
  · rw [om.contentHash_of_type_ne hc, om.contentHash_of_type_ne hd]
    exact iff_of_true (om.floatHash_eq_of_equal h) ⟨hnot hc, hnot hd⟩

theorem decided_content_content {a b : Wrapped Cls Obj} {c d : JContent}
    (ha : a.content? = some c) (hb : b.content? = some d) : om.Decided a b := by
  have hab := om.eq_content ha hb
  have hba := om.eq_content hb ha
  have hclash : ∀ {a b : Wrapped Cls Obj} {c d : JContent}, a.content? = some c →
      b.content? = some d → (om.Clash a b ↔ om.CharClash c d) := by
    intro a b c d ha hb
    refine ⟨?_, .char ha hb⟩
    rintro (⟨-, hn⟩ | ⟨-, -⟩ | ⟨hc, hd, h⟩ | -)
    · exact (Wrapped.not_isNull_of_content hb hn).elim
    · cases ha
    · cases ha.symm.trans hc
      cases hb.symm.trans hd
      exact h
    · cases ha
  rw [Decided, hclash ha hb, hclash hb ha]
  constructor
  · intro h
    by_cases heq : c.number.equal d.number = true
    · have hhash := h.hash_eq (hab.trans heq)
      rw [om.hashSlot_of_content ha, om.hashSlot_of_content hb] at hhash
      exact (om.contentHash_eq_iff heq).mp hhash
    · refine ⟨fun ⟨code, hc, _, hnum, _⟩ ↦ heq ?_, fun ⟨code, hd, _, hnum, _⟩ ↦ heq ?_⟩
      · rw [hc, hnum]
        exact PyFloat.equal_iff.mpr ⟨rfl, fun p hp ↦ by cases hp⟩
      · rw [hd, hnum]
        exact PyFloat.equal_iff.mpr ⟨rfl, fun p hp ↦ by cases hp⟩
  · intro h
    refine ⟨by rw [hab, hba, PyFloat.equal_comm], fun heq ↦ ?_⟩
    rw [om.hashSlot_of_content ha, om.hashSlot_of_content hb]
    exact (om.contentHash_eq_iff (hab.symm.trans heq)).mpr h

/-- An object clashes with the boxes that `BoxClash` names. -/
theorem clash_object_iff (cls : Cls) (x : Obj) (b : Wrapped Cls Obj) :
    om.Clash (.object cls (some x)) b ↔ ∃ c, b = .boxed c ∧ om.BoxClash cls x c := by
  constructor
  · rintro (⟨ha, -⟩ | ⟨-, -⟩ | ⟨ha, -, -⟩ | h)
    · cases ha
    · cases ha
    · exact ⟨_, rfl, h⟩
  · rintro ⟨c, rfl, h⟩
    exact .box h

theorem not_clash_object (cls : Cls) (x : Obj) {a : Wrapped Cls Obj}
    (ha : ∀ cls x, a ≠ .object cls (some x)) : ¬om.Clash a (.object cls (some x)) := by
  rintro (⟨-, hb⟩ | ⟨hb, -⟩ | ⟨-, hb, -⟩)
  · cases hb
  · cases hb
  · cases hb

theorem decided_object_null (cls : Cls) (x : Obj) {b : Wrapped Cls Obj}
    (hb : b.isNull = true) : om.Decided (.object cls (some x)) b := by
  refine .of_agree om (om.agree_of_false (om.eq_object_null cls x hb)) ?_ ?_
  · rw [om.clash_object_iff]
    rintro ⟨c, rfl, -⟩
    cases hb
  · refine om.not_clash_object cls x fun d y h ↦ ?_
    rw [h] at hb
    cases hb

theorem decided_object_object (c d : Cls) (x y : Obj) :
    om.Decided (.object c (some x)) (.object d (some y)) := by
  have hab := om.eq_object_object c d x y
  have hba := om.eq_object_object d c y x
  have hclash : ∀ (c d : Cls) (x y : Obj),
      ¬om.Clash (.object c (some x)) (.object d (some y)) := by
    intro c d x y
    rw [om.clash_object_iff]
    rintro ⟨_, h, -⟩
    cases h
  refine .of_agree om ⟨?_, fun h ↦ ?_⟩ (hclash c d x y) (hclash d c y x)
  · rw [hab, hba, om.equals_symm]
  · exact om.hashCode_eq x y (hab.symm.trans h)

theorem decided_object_primitive (cls : Cls) (x : Obj) (c : JContent) :
    om.Decided (.object cls (some x)) (.primitive c) := by
  refine .of_agree om (om.agree_of_false (om.eq_object_primitive cls x c)) ?_ ?_
  · rw [om.clash_object_iff]
    rintro ⟨_, h, -⟩
    cases h
  · exact om.not_clash_object cls x fun d y h ↦ by cases h

theorem decided_object_boxed (cls : Cls) (x : Obj) (c : JContent) :
    om.Decided (.object cls (some x)) (.boxed c) := by
  have hright : ¬om.Clash (.boxed c) (.object cls (some x)) :=
    om.not_clash_object cls x fun d y h ↦ by cases h
  have hleft : om.Clash (.object cls (some x)) (.boxed c) ↔ om.BoxClash cls x c := by
    rw [om.clash_object_iff]
    exact ⟨fun ⟨_, h, hclash⟩ ↦ by cases h; exact hclash, fun h ↦ ⟨c, rfl, h⟩⟩
  rw [Decided, and_iff_left hright, hleft]
  by_cases hc : c.type = .char ∧ om.isNumber cls = false
  · obtain ⟨hchar, hnum⟩ := hc
    cases c <;> cases hchar
    obtain ⟨hab, hba⟩ := om.eq_object_character cls x _ hnum
    rw [BoxClash, hnum]
    constructor
    · rintro h ⟨hequals, hderived⟩
      have := h.symmetric
      rw [hab, hba, hequals, hderived] at this
      cases this
    · intro h
      refine om.agree_of_false ⟨?_, hba⟩
      rw [hab]
      simpa [not_and, and_comm] using h
  · obtain ⟨hab, hba⟩ := om.eq_object_boxed cls x hc
    have hclash : om.BoxClash cls x c ↔
        om.equals x (some (om.box c)) = true ∧ om.hashCode x ≠ om.contentHash c := by
      cases c with
      | long t n => rfl
      | float t f => rfl
      | char code =>
        have hnum : om.isNumber cls = true := by simpa [JContent.type] using hc
        simp [BoxClash, hnum, contentHash]
    rw [hclash, not_and, not_not]
    constructor
    · intro h hequals
      exact h.hash_eq (hab.trans hequals)
    · exact fun h ↦ ⟨hab.trans hba.symm, fun heq ↦ h (hab.symm.trans heq)⟩

/-! ### Which operands are coherent -/

theorem decided_null_null {a b : Wrapped Cls Obj} (ha : a.isNull = true) (hb : b.isNull = true) :
    om.Agree a b ∧ om.NullAgree a b ↔ ¬om.Clash a b ∧ ¬om.Clash b a := by
  have hclash : ∀ {a b : Wrapped Cls Obj}, a.isNull = true → b.isNull = true →
      (om.Clash a b ↔ a.isNullNumber = true) := by
    intro a b ha hb
    refine ⟨?_, fun h ↦ .null h hb⟩
    rintro (⟨h, -⟩ | ⟨hc, -⟩ | ⟨hc, -, -⟩ | -)
    · exact h
    · exact (Wrapped.not_isNull_of_content hc hb).elim
    · exact (Wrapped.not_isNull_of_content hc ha).elim
    · cases ha
  have hnone : ∀ {a : Wrapped Cls Obj}, a.isNull = true → a.isNone = false := by
    intro a ha
    cases a <;> first | rfl | cases ha
  rw [hclash ha hb, hclash hb ha]
  constructor
  · rintro ⟨hagree, hnull⟩
    have hab : om.eq a b = true := (hnull ha).mpr (.inr hb)
    have hba : om.eq b a = true := hagree.symmetric.symm.trans hab
    refine ⟨fun h ↦ ?_, fun h ↦ ?_⟩
    · rw [om.eq_nullNumber h, hnone hb] at hab
      cases hab
    · rw [om.eq_nullNumber h, hnone ha] at hba
      cases hba
  · rintro ⟨hna, hnb⟩
    have hna : a.isNullNumber = false := by simpa using hna
    have hnb : b.isNullNumber = false := by simpa using hnb
    have hab := om.eq_null_null ha hb hna hnb
    refine ⟨⟨hab.trans (om.eq_null_null hb ha hnb hna).symm, fun _ ↦ ?_⟩, fun _ ↦ ?_⟩
    · rw [om.hashSlot_of_null ha, om.hashSlot_of_null hb]
    · exact iff_of_true hab (.inr hb)

/-- An operand is `None`, a null, an object, or has a content. -/
theorem kind (v : Wrapped Cls Obj) :
    v = .none ∨ v.isNull = true ∨ (∃ cls x, v = .object cls (some x)) ∨
      ∃ c, v.content? = some c := by
  match v with
  | .none => exact .inl rfl
  | .object cls none => exact .inr (.inl rfl)
  | .object cls (some x) => exact .inr (.inr (.inl ⟨cls, x, rfl⟩))
  | .primitive c => exact .inr (.inr (.inr ⟨c, rfl⟩))
  | .boxed c => exact .inr (.inr (.inr ⟨c, rfl⟩))
  | .nullBoxed t => exact .inr (.inl rfl)

theorem decided_object_content (cls : Cls) (x : Obj) {b : Wrapped Cls Obj} {c : JContent}
    (hb : b.content? = some c) : om.Decided (.object cls (some x)) b := by
  cases b with
  | primitive d => exact om.decided_object_primitive cls x d
  | boxed d => exact om.decided_object_boxed cls x d
  | _ => cases hb

/-- Unless both operands are nulls, agreement fails at clashes only. -/
theorem decided (a b : Wrapped Cls Obj) (h : ¬(a.isNull = true ∧ b.isNull = true)) :
    om.Decided a b := by
  rcases kind a with rfl | ha | ⟨cls, x, rfl⟩ | ⟨c, ha⟩
  · exact om.decided_none b
  all_goals rcases kind b with rfl | hb | ⟨cls', y, rfl⟩ | ⟨d, hb⟩
  · exact (om.decided_none a).symm
  · exact absurd ⟨ha, hb⟩ h
  · exact (om.decided_object_null cls' y ha).symm
  · exact om.decided_null_content ha hb
  · exact (om.decided_none _).symm
  · exact om.decided_object_null cls x hb
  · exact om.decided_object_object cls cls' x y
  · exact om.decided_object_content cls x hb
  · exact (om.decided_none a).symm
  · exact (om.decided_null_content hb ha).symm
  · exact (om.decided_object_content cls' y ha).symm
  · exact om.decided_content_content ha hb

/-- A null, as the left operand, recognises what is no null, and `None`. -/
theorem nullAgree {a b : Wrapped Cls Obj} (h : ¬(a.isNull = true ∧ b.isNull = true)) :
    om.NullAgree a b := by
  intro ha
  rcases kind b with rfl | hb | ⟨cls, x, rfl⟩ | ⟨c, hb⟩
  · exact iff_of_true (by simp [(om.eq_none a).2, ha]) (.inl rfl)
  · exact absurd ⟨ha, hb⟩ h
  · simp [(om.eq_object_null cls x ha).2, Wrapped.isNone, Wrapped.isNull]
  · simp [om.eq_null_content ha hb, Wrapped.isNone_of_content hb, Wrapped.isNull_of_content hb]

/-- The operators and `hash` are coherent at two operands just when these are regular. -/
theorem coherent_iff (a b : Wrapped Cls Obj) : om.Coherent a b ↔ om.Regular a b := by
  have hclash : om.Agree a b ∧ om.NullAgree a b ↔ ¬om.Clash a b ∧ ¬om.Clash b a := by
    by_cases h : a.isNull = true ∧ b.isNull = true
    · exact om.decided_null_null h.1 h.2
    · rw [and_iff_left (om.nullAgree h)]
      exact om.decided a b h
  rw [coherent_iff_agree, hashSlot_ne_iff, hclash]
  exact ⟨fun ⟨hne, hl, hr⟩ ↦ ⟨hne, hl, hr⟩, fun ⟨hne, hl, hr⟩ ↦ ⟨hne, hl, hr⟩⟩

/-- One class of objects, which are the boxes, and `equals` is identity. -/
def boxes : ObjectModel Unit JContent where
  derived _ _ := false
  boxedDerived _ _ := true
  comparable _ := false
  isNumber _ := false
  equals x y := y = some x
  hashCode _ := 0
  box := id
  equals_refl x := by simp
  equals_symm x y := by simp [eq_comm]
  equals_trans x y z := by simp +contextual
  equals_null x := rfl
  hashCode_eq _ _ _ := rfl
  noneHash := 1
  numberHash q := if q.num = -1 then -2 else q.num
  infinityHash negative := if negative then -314159 else 314159
  addressHash p := p
  unicodeHash code := code
  noneHash_ne := by decide
  numberHash_ne q := by split_ifs <;> omega
  infinityHash_ne s := by cases s <;> decide
  addressHash_ne p := by omega
  unicodeHash_ne code := by omega

/-- Zero equals the null of `Integer`, which does not equal it, and their hashes differ. -/
theorem zero_eq_null :
    boxes.eq (.primitive (.long .int 0)) (.nullBoxed (.long .int)) = true ∧
      boxes.eq (.nullBoxed (.long .int)) (.primitive (.long .int 0)) = false ∧
      boxes.hash (.primitive (.long .int 0)) ≠ boxes.hash (.nullBoxed (.long .int)) ∧
      ¬boxes.Coherent (.primitive (.long .int 0)) (.nullBoxed (.long .int)) := by
  have hl : boxes.eq (.primitive (.long .int 0)) (.nullBoxed (.long .int)) = true := by decide
  have hr : boxes.eq (.nullBoxed (.long .int)) (.primitive (.long .int 0)) = false := by decide
  refine ⟨hl, hr, by decide, fun h ↦ ?_⟩
  have := h.symmetric
  rw [hl, hr] at this
  cases this

/-- Three and `3.0` are equal in both directions and have one hash. -/
example : boxes.eq (.primitive (.long .int 3)) (.boxed (.float .double (.finite 3))) = true ∧
    boxes.eq (.boxed (.float .double (.finite 3))) (.primitive (.long .int 3)) = true ∧
    boxes.hash (.primitive (.long .int 3)) = boxes.hash (.boxed (.float .double (.finite 3))) := by
  decide

end ObjectModel

end JPype
