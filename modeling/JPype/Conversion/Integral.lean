import JPype.Array.Slice
import JPype.Foundation.FixedWidth
import JPype.Overload.Match

/-!
# Integers on their way through Java variables

How a Python object gets into a Java variable of an integer type, of a boxed class, of `Number` or
of `Object`, and what Python gets when the variable is read: `findJavaConversion`, the conversions
that it chooses from, and `convertToPythonObject`. `JPNumber.new` is a cast such as `JInt(x)`.

A `matches` answers with the type of the match and its conversion when it ends the search, and with
`none` when the search goes on. A match of type `none` ends the search too: nothing after it is
asked. Conversions that have been registered by a user are not part of this.
-/

namespace JPype.Integral

open Foundation

/-! ### Values -/

/-- The integer types that Python sees as a subclass of `int`. -/
inductive IntegerType where
  | byte
  | short
  | int
  | long
  deriving DecidableEq, Repr

/-- The primitive types but for `float` and `double`. -/
inductive IntegralType where
  | boolean
  | char
  | integer (type : IntegerType)
  deriving DecidableEq, Repr

namespace IntegerType

/-- The width of the type. -/
def bits : IntegerType → ℕ
  | byte => 8
  | short => 16
  | int => 32
  | long => 64

theorem bits_pos (t : IntegerType) : 0 < t.bits := by
  cases t <;> decide

theorem bits_le (t : IntegerType) : t.bits ≤ 64 := by
  cases t <;> decide

/-- `assertRange` -/
def assertRange : IntegerType → ℤ → Except PyError ℤ
  | byte, l =>
    if l < -128 ∨ l > 127 then .error (.overflowError "Cannot convert value to Java byte")
    else .ok l
  | short, l =>
    if l < -32768 ∨ l > 32767 then .error (.overflowError "Cannot convert value to Java short")
    else .ok l
  | int, l =>
    if l < -2147483648 ∨ l > 2147483647 then
      .error (.overflowError "Cannot convert value to Java int")
    else .ok l
  | long, l => .ok l

end IntegerType

namespace IntegralType

/-- The numbers that the type has. -/
def Holds : IntegralType → ℤ → Prop
  | boolean, x => x = 0 ∨ x = 1
  | char, x => 0 ≤ x ∧ x < 2 ^ 16
  | integer t, x => Fits t.bits x

instance (t : IntegralType) (x : ℤ) : Decidable (t.Holds x) := by
  cases t <;> (unfold Holds; infer_instance)

end IntegralType

/-- A value of a primitive type. -/
structure Primitive where
  type : IntegralType
  value : ℤ
  holds : type.Holds value
  deriving DecidableEq

namespace Primitive

/-- The cast of C to the type, which keeps the low bits. -/
def cast (t : IntegerType) (x : ℤ) : Primitive where
  type := .integer t
  value := x.bmod (2 ^ t.bits)
  holds := fits_bmod t.bits_pos x

/-- The cast of C to `jchar`. -/
def castChar (x : ℤ) : Primitive where
  type := .char
  value := x % 2 ^ 16
  holds := ⟨Int.emod_nonneg _ (by decide), Int.emod_lt_of_pos _ (by decide)⟩

/-- A `jboolean`. -/
def ofBool (b : Bool) : Primitive where
  type := .boolean
  value := b.toInt
  holds := by cases b <;> decide

end Primitive

/-- A Java value that is none of the integers: an object, a `float` or a `double`. -/
structure JavaObject where
  isPrimitive : Bool
  /-- Of the class `Object` itself. -/
  isObject : Bool
  /-- Of a class that is assignable to `Number`. -/
  isNumber : Bool
  /-- `PyIndex_Check` and `PyNumber_Check` of its wrapper, and what `int` makes of the wrapper. -/
  checkIndex : Bool
  checkNumber : Bool
  long : Except PyError ℤ
  deriving DecidableEq

/-- A `str` or `bytes`. -/
structure PyText where
  /-- `JPPyString::asStringUTF8`, and the Java string. -/
  encoded : Except PyError JavaObject
  /-- `JPPyString::asCharUTF16`, if there is one character. -/
  char : Option (Except PyError ℤ)
  /-- What the constructor of a boxed class reads from the text. -/
  parse : IntegralType → Except PyError Primitive

/-- A Python object that is neither `None`, a `bool`, an `int` nor a Java value. -/
structure PyObj where
  isNumpyBool : Bool := false
  /-- The Java type of the same width, where it is a number of `numpy` of less than 64 bits. -/
  numpyType : Option IntegerType := none
  text : Option PyText := none
  checkIndex : Bool := false
  checkNumber : Bool := false
  /-- `PyNumber_Index` -/
  index : Except PyError ℤ := .error (.typeError "object cannot be interpreted as an integer")
  /-- What `int` makes of it. -/
  long : Except PyError ℤ := .error (.typeError "int() argument must be a number")
  isTrue : Except PyError Bool := .ok true
  /-- The match and the outcome of the conversions that `Number` and `Object` try after boxing an
  integer. -/
  asNumber : Option (MatchType × Except PyError JavaObject) := none
  asObject : Option (MatchType × Except PyError JavaObject) := none

/-- A Python object. -/
inductive PyValue where
  | pyNone
  | bool (b : Bool)
  | int (n : ℤ)
  | object (o : PyObj)
  | primitive (p : Primitive)
  | boxed (p : Primitive)
  | nullBoxed (t : IntegralType)
  | java (o : JavaObject)

/-- What a Java variable holds. -/
inductive JavaValue where
  | null
  | primitive (p : Primitive)
  | boxed (p : Primitive)
  | reference (o : JavaObject)

/-- The type of a Java variable. -/
inductive JavaType where
  | primitive (t : IntegralType)
  | boxed (t : IntegralType)
  | number
  | object
  deriving DecidableEq

namespace PyValue

/-- `PyLong_CheckExact` -/
def checkLongExact : PyValue → Bool
  | int _ => true
  | _ => false

/-- `PyIndex_Check` -/
def checkIndex : PyValue → Bool
  | pyNone => false
  | object o => o.checkIndex
  | java o => o.checkIndex
  | _ => true

/-- `PyNumber_Check` -/
def checkNumber : PyValue → Bool
  | pyNone => false
  | object o => o.checkNumber
  | java o => o.checkNumber
  | _ => true

/-- `PyNumber_Index` -/
def index : PyValue → Except PyError ℤ
  | bool b => .ok b.toInt
  | int n => .ok n
  | object o => o.index
  | primitive p => .ok p.value
  | boxed p => .ok p.value
  | nullBoxed .char => .error (.typeError "jchar cast of null pointer")
  | nullBoxed _ => .ok 0
  | java o => o.long
  | pyNone => .error (.typeError "'NoneType' object cannot be interpreted as an integer")

/-- What `int` makes of the object. -/
def long : PyValue → Except PyError ℤ
  | object o => o.long
  | nullBoxed .char => .error (.typeError "jchar cast of null pointer")
  | nullBoxed _ => .error (.typeError "cast of null pointer would return non-int")
  | x => x.index

/-- `PyLong_AsLongLong` -/
def asLongLong (x : PyValue) : Except PyError ℤ := do
  let n ← x.index
  if Fits 64 n then pure n else throw (.overflowError "int too big to convert")

/-- `PyObject_IsTrue` -/
def isTrue : PyValue → Except PyError Bool
  | pyNone => .ok false
  | bool b => .ok b
  | int n => .ok (n ≠ 0)
  | object o => o.isTrue
  | primitive p => .ok (p.value ≠ 0)
  | boxed p => .ok (p.value ≠ 0)
  | nullBoxed _ => .ok false
  | java _ => .ok true

/-- `PyBool_Check`, or an instance of `numpy.bool_`. -/
def checkBool : PyValue → Bool
  | bool _ => true
  | object o => o.isNumpyBool
  | _ => false

/-- The `str` or `bytes` that the object is. A wrapped `char` is a `str` too, but a Java value is
never asked. -/
def text? : PyValue → Option PyText
  | object o => o.text
  | _ => none

end PyValue

/-! ### The conversions -/

/-- A `JPConversion`, with its closure. -/
inductive JPConversion where
  | null
  | javaValue
  | unbox
  | widen (t : IntegerType)
  | long (t : IntegerType)
  | longNumber (t : IntegerType)
  | asBoolean
  | asChar
  | object
  | box (t : IntegralType)
  | boxLong
  | javaAny
  | string
  | other (outcome : Except PyError JavaObject)

/-- What a `matches` says: the type of the match and its conversion, unless the search goes on. -/
abbrev Verdict := Option (MatchType × Option JPConversion)

/-- `matches` of the conversions for Java values: the type itself, its boxed class, or one of the
types that it is widened from. Another Java value ends the search. -/
def matchesJava (t : IntegralType) (widened : List IntegralType) (widen : Option JPConversion) :
    PyValue → Verdict
  | .primitive p =>
    if p.type = t then some (.exact, some .javaValue)
    else if p.type ∈ widened then some (.implicit, widen)
    else some (.none, none)
  | .boxed p => if p.type = t then some (.implicit, some .unbox) else some (.none, none)
  | .nullBoxed s => if s = t then some (.implicit, some .unbox) else some (.none, none)
  | .java _ => some (.none, none)
  | _ => none

/-- `JPConversionLong::matches` -/
def matchesLong (t : IntegerType) (x : PyValue) : Verdict :=
  if x.checkLongExact || x.checkIndex then some (.implicit, some (.long t)) else none

/-- `JPConversionLongNumber::matches` -/
def matchesLongNumber (t : IntegerType) (x : PyValue) : Verdict :=
  if x.checkNumber then some (.explicit, some (.longNumber t)) else none

/-- The conversions are asked one after another, but not for `None`. -/
def firstOf (verdicts : List Verdict) : PyValue → MatchType × Option JPConversion
  | .pyNone => (.none, none)
  | _ => (verdicts.findSome? id).getD (.none, none)

/-- `findJavaConversion` of the integer types, which differ in the types that they are widened
from. -/
def findIntegerConversion (t : IntegerType) (widened : List IntegralType) (x : PyValue) :
    MatchType × Option JPConversion :=
  firstOf [matchesJava (.integer t) widened (some (.widen t)) x, matchesLong t x,
    matchesLongNumber t x] x

/-- `JPByteType::findJavaConversion` -/
def JPByteType.findJavaConversion : PyValue → MatchType × Option JPConversion :=
  findIntegerConversion .byte []

/-- `JPShortType::findJavaConversion` -/
def JPShortType.findJavaConversion : PyValue → MatchType × Option JPConversion :=
  findIntegerConversion .short [.char, .integer .byte]

/-- `JPIntType::findJavaConversion` -/
def JPIntType.findJavaConversion : PyValue → MatchType × Option JPConversion :=
  findIntegerConversion .int [.char, .integer .short, .integer .byte]

/-- `JPLongType::findJavaConversion` -/
def JPLongType.findJavaConversion : PyValue → MatchType × Option JPConversion :=
  findIntegerConversion .long [.integer .int, .char, .integer .short, .integer .byte]

/-- `JPCharType::findJavaConversion` -/
def JPCharType.findJavaConversion (x : PyValue) : MatchType × Option JPConversion :=
  firstOf [matchesJava .char [] none x,
    if x.checkIndex || (x.text?.bind (·.char)).isSome then some (.implicit, some .asChar)
    else none] x

/-- `JPBooleanType::findJavaConversion` -/
def JPBooleanType.findJavaConversion (x : PyValue) : MatchType × Option JPConversion :=
  firstOf [if x.checkBool then some (.exact, some .asBoolean) else none,
    matchesJava .boolean [] none x,
    if x.checkLongExact || x.checkIndex then some (.implicit, some .asBoolean) else none,
    if x.checkNumber then some (.explicit, some .asBoolean) else none] x

/-- `findJavaConversion` of a primitive type. -/
def IntegralType.findJavaConversion : IntegralType → PyValue → MatchType × Option JPConversion
  | .boolean => JPBooleanType.findJavaConversion
  | .char => JPCharType.findJavaConversion
  | .integer .byte => JPByteType.findJavaConversion
  | .integer .short => JPShortType.findJavaConversion
  | .integer .int => JPIntType.findJavaConversion
  | .integer .long => JPLongType.findJavaConversion

/-- `JPClass::findJavaConversion` of a boxed class: `null`, or an object of the class. -/
def matchesBoxed (t : IntegralType) : PyValue → MatchType × Option JPConversion
  | .pyNone => (.implicit, some .null)
  | .boxed p => if p.type = t then (.exact, some .object) else (.none, some .object)
  | .nullBoxed s => if s = t then (.exact, some .object) else (.none, some .object)
  | .primitive _ => (.none, some .object)
  | .java _ => (.none, some .object)
  | _ => (.none, none)

/-- `JPBoxedType::findJavaConversion`: what the primitive type takes is boxed, as a match that is
one step worse. -/
def JPBoxedType.findJavaConversion (t : IntegralType) (x : PyValue) :
    MatchType × Option JPConversion :=
  if (matchesBoxed t x).1 ≠ .none then matchesBoxed t x
  else
    match (t.findJavaConversion x).1 with
    | .none => (.none, (t.findJavaConversion x).2)
    | .exact => (.derived, some (.box t))
    | .explicit => (.explicit, some (.box t))
    | _ => (.implicit, some (.box t))

/-- `JPConversionNull::matches` -/
def matchesNull : PyValue → Verdict
  | .pyNone => some (.implicit, some .null)
  | _ => none

/-- `JPConversionJavaObjectAny::matches` -/
def matchesJavaAny : PyValue → Verdict
  | .primitive _ => some (.implicit, some .javaAny)
  | .boxed _ => some (.derived, some .javaAny)
  | .nullBoxed _ => some (.derived, some .javaAny)
  | .java o =>
    if o.isPrimitive then some (.implicit, some .javaAny)
    else if o.isObject then some (.exact, some .javaAny)
    else some (.derived, some .javaAny)
  | _ => none

/-- `JPConversionJavaNumberAny::matches`: of the Java values, numbers only. -/
def matchesNumberAny : PyValue → Verdict
  | .primitive ⟨.integer _, _, _⟩ => some (.implicit, some .javaAny)
  | .boxed ⟨.integer _, _, _⟩ => some (.implicit, some .javaAny)
  | .nullBoxed (.integer _) => some (.implicit, some .javaAny)
  | .java o => if o.isPrimitive || o.isNumber then some (.implicit, some .javaAny) else none
  | _ => none

/-- `JPConversionBoxBoolean::matches` -/
def matchesBoxBoolean : PyValue → Verdict
  | .bool _ => some (.implicit, some (.box .boolean))
  | _ => none

/-- `JPConversionBoxLong::matches` -/
def matchesBoxLong (x : PyValue) : Verdict :=
  if x.checkLongExact || x.checkIndex then some (.implicit, some .boxLong) else none

/-- The conversions after `matchesBoxLong`, none of which makes an integer. -/
def matchesOther (choose : PyObj → Option (MatchType × Except PyError JavaObject)) :
    PyValue → Verdict
  | .object o => (choose o).map fun m ↦ (m.1, some (.other m.2))
  | _ => none

/-- `JPNumberType::findJavaConversion` -/
def JPNumberType.findJavaConversion (x : PyValue) : MatchType × Option JPConversion :=
  ([matchesNull x, matchesNumberAny x, matchesBoxLong x,
    matchesOther PyObj.asNumber x].findSome? id).getD (.none, none)

/-- `JPObjectType::findJavaConversion` -/
def JPObjectType.findJavaConversion (x : PyValue) : MatchType × Option JPConversion :=
  ([matchesNull x, matchesJavaAny x,
    if x.text?.isSome then some (.implicit, some .string) else none,
    matchesBoxBoolean x, matchesBoxLong x,
    matchesOther PyObj.asObject x].findSome? id).getD (.none, none)

/-- `findJavaConversion` of the type of a variable. -/
def JavaType.findJavaConversion : JavaType → PyValue → MatchType × Option JPConversion
  | .primitive t => t.findJavaConversion
  | .boxed t => JPBoxedType.findJavaConversion t
  | .number => JPNumberType.findJavaConversion
  | .object => JPObjectType.findJavaConversion

namespace JPConversion

/-- `JPConversionLong::convert`. A match that a cast has made exact does not fail: the number loses
its high bits. -/
def convertLong (t : IntegerType) (type : MatchType) (x : PyValue) : Except PyError Primitive := do
  if type = .exact then
    let val ← x.index
    pure (.cast t (val % 2 ^ 64))
  else
    let val ← x.asLongLong
    let val ← t.assertRange val
    pure (.cast t val)

/-- `JPPyString::asCharUTF16`. Any failure to read the number is reported like a number out of
range. -/
def asCharUTF16 (x : PyValue) : Except PyError Primitive :=
  if x.checkIndex then
    match x.asLongLong with
    | .ok val =>
      if val < 0 ∨ val > 65535 then
        .error (.overflowError "Unable to convert int into char range")
      else .ok (.castChar val)
    | .error _ => .error (.overflowError "Unable to convert int into char range")
  else
    match x.text?.bind (·.char) with
    | some code => .castChar <$> code
    | none => .error (.typeError "Unable to convert to Java char")

/-- `convert` of the conversions to a primitive type. -/
def convertPrimitive (conversion : JPConversion) (type : MatchType) (x : PyValue) :
    Except PyError Primitive :=
  match conversion, x with
  | javaValue, .primitive p => .ok p
  | unbox, .boxed p => .ok p
  -- `getValueFromObject` asks for the class of a null pointer
  | unbox, _ => .error .fault
  | widen t, .primitive p => .ok (.cast t p.value)
  | long t, x => convertLong t type x
  | longNumber t, x => do convertLong t type (.int (← x.long))
  | asBoolean, x => .ofBool <$> x.isTrue
  | asChar, x => asCharUTF16 x
  | _, _ => .error .fault

end JPConversion

/-- An argument or the value of a field of a primitive type, which is refused below an implicit
match. -/
def IntegralType.take (t : IntegralType) (refusal : String) (x : PyValue) :
    Except PyError Primitive :=
  match t.findJavaConversion x with
  | (type, conversion) =>
    if type < .implicit then .error (.typeError refusal)
    else conversion.elim (.error .fault) (·.convertPrimitive type x)

namespace JPConversion

/-- `newInstance` of a boxed class, which has a constructor for its primitive type and, but for
`Character`, one for a `String`; the one for a `String` is chosen if it can be. -/
def newInstance (t : IntegralType) (x : PyValue) : Except PyError JavaValue :=
  match if t = .char then none else x.text? with
  | some text => do
    let _ ← text.encoded
    .boxed <$> text.parse t
  | none => .boxed <$> t.take "No matching overloads found for constructor" x

/-- The class that `JPConversionBoxLong::convert` chooses. -/
def boxLongType : PyValue → IntegerType
  | .object o => o.numpyType.getD .long
  | _ => .long

/-- `convert` of the conversions to an object. -/
def convert (conversion : JPConversion) (x : PyValue) : Except PyError JavaValue :=
  match conversion, x with
  | null, _ => .ok .null
  | object, .boxed p => .ok (.boxed p)
  | object, _ => .ok .null
  | box t, x => newInstance t x
  | boxLong, x => newInstance (.integer (boxLongType x)) x
  | javaAny, .primitive p => newInstance p.type x
  | javaAny, .boxed p => .ok (.boxed p)
  | javaAny, .nullBoxed _ => .ok .null
  -- a `float` or a `double` is boxed
  | javaAny, .java o => .ok (.reference { o with isPrimitive := false })
  | string, x => .reference <$> (x.text?.elim (.error .fault) (·.encoded))
  | other outcome, _ => .reference <$> outcome
  | _, _ => .error .fault

end JPConversion

/-- `convertToPythonObject`, of the class of the variable. -/
def JavaValue.convertToPythonObject : JavaValue → PyValue
  | null => .pyNone
  | primitive p => if p.type = .boolean then .bool (p.value ≠ 0) else .primitive p
  | boxed p => .boxed p
  | reference o => .java o

/-! ### Variables and casts -/

/-- The text of the error that a variable of the type does not take a value. -/
def JavaType.refusal : JavaType → String
  | .primitive .boolean => "Unable to convert to Java boolean"
  | .primitive .char => "Unable to convert to Java char"
  | .primitive (.integer .byte) => "Unable to convert to Java byte"
  | .primitive (.integer .short) => "Unable to convert to Java short"
  | .primitive (.integer .int) => "Unable to convert to Java int"
  | .primitive (.integer .long) => "Unable to convert to Java int"
  | .boxed .boolean => "unable to convert to java.lang.Boolean"
  | .boxed .char => "unable to convert to java.lang.Character"
  | .boxed (.integer .byte) => "unable to convert to java.lang.Byte"
  | .boxed (.integer .short) => "unable to convert to java.lang.Short"
  | .boxed (.integer .int) => "unable to convert to java.lang.Integer"
  | .boxed (.integer .long) => "unable to convert to java.lang.Long"
  | .number => "unable to convert to java.lang.Number"
  | .object => "unable to convert to java.lang.Object"

/-- `JPClass::setField` -/
def JPClass.setField (t : JavaType) (x : PyValue) : Except PyError JavaValue :=
  match t.findJavaConversion x with
  | (type, conversion) =>
    if type < .implicit then .error (.typeError t.refusal)
    else conversion.elim (.error .fault) (·.convert x)

/-- `setField`: what the variable holds afterwards. -/
def JavaType.setField (t : JavaType) (x : PyValue) : Except PyError JavaValue :=
  match t with
  | .primitive type => .primitive <$> type.take t.refusal x
  | _ => JPClass.setField t x

/-- A value goes into a variable and is read from it. -/
def JavaType.pass (t : JavaType) (x : PyValue) : Except PyError PyValue :=
  (·.convertToPythonObject) <$> t.setField x

/-- The value that a cast to an integer type makes of its argument. -/
def JPNumber.value (t : IntegerType) (x : PyValue) : Except PyError Primitive :=
  match (IntegralType.integer t).findJavaConversion x with
  | (type, conversion) =>
    if type < .implicit then do JPConversion.convertLong t .exact (.int (← x.long))
    else conversion.elim (.error .fault) (·.convertPrimitive .exact x)

/-- `PyJPNumber_new`, of an integer type with one argument. -/
def JPNumber.new (t : IntegerType) (x : PyValue) : Except PyError PyValue :=
  (JavaValue.convertToPythonObject ∘ .primitive) <$> value t x

/-- Where a value goes through: a variable of Java, or a cast. -/
inductive Crossing where
  | field (t : JavaType)
  | cast (t : IntegerType)
  deriving DecidableEq

/-- What comes out. -/
def Crossing.cross : Crossing → PyValue → Except PyError PyValue
  | field t => t.pass
  | cast t => JPNumber.new t

/-- What comes out of a number of them. -/
def cross (crossings : List Crossing) (x : PyValue) : Except PyError PyValue :=
  crossings.foldlM (fun x c ↦ c.cross x) x

end JPype.Integral
