import JPype.Array.Slice
import JPype.Foundation.Hoare
import JPype.Wrapper.Comparison

/-!
# Arithmetic of Java chars

A Java char is a Python str of one character. Its binary operators promote it to an int, which they
read from the memory of the str. They do so for every operand that has a Java class, also where that
is a number and its memory holds no character. `promotes_iff` says that the other operands, chars
and plain Python numbers, are promoted as in Java.

The operators `+`, `-` and so on of Python are a parameter: Python asks the number first and, as
that does not know what to do with a str, then the char.
-/

namespace JPype

open Foundation

/-! ### The memory of a str -/

/-- What the C code sees of an object that it takes for a compact str. -/
structure UnicodeMemory where
  ascii : Bool
  /-- 1 for characters of one byte. -/
  kind : ℕ
  /-- The byte after the header of an ASCII str. -/
  asciiData : UInt8
  /-- The byte after the longer header of another str. -/
  data1 : UInt8
  /-- The two bytes at the same place. -/
  data2 : UInt16

/-- What `PyJPChar_Create` makes of the memory of a new object. -/
def pyJPCharCreate (p : UInt16) : UnicodeMemory :=
  if p < 128 then ⟨true, 1, p.toUInt8, 0, 0⟩
  else if p < 256 then ⟨false, 1, 0, p.toUInt8, p.toUInt8.toUInt16⟩
  else ⟨false, 2, 0, p.toUInt8, p⟩

/-- The number that `fromJPChar` reads. -/
def UnicodeMemory.fromJPChar (m : UnicodeMemory) : ℕ :=
  if m.ascii then m.asciiData.toNat
  else if m.kind = 1 then m.data1.toNat
  else m.data2.toNat

/-- A char is read as it was made. -/
theorem fromJPChar_create (p : UInt16) : (pyJPCharCreate p).fromJPChar = p.toNat := by
  have hbyte (h : p < 256) : p.toUInt8.toNat = p.toNat := by
    rw [UInt16.toNat_toUInt8]
    exact Nat.mod_eq_of_lt (UInt16.lt_iff_toNat_lt.1 h)
  rw [pyJPCharCreate]
  split_ifs with hascii hlatin
  · exact hbyte (UInt16.lt_trans hascii (by decide))
  · exact hbyte hlatin
  · rfl

/-! ### Operands -/

/-- A Python object without a Java class. -/
inductive PyValue where
  | int (n : ℤ)
  | float (f : PyFloat)
  | str (s : List ℕ)
  | other (id : ℕ)

/-- An operand of a binary operator. An object that is not a char has a memory all the same. -/
inductive CharOperand where
  | char (code : UInt16) (boxed : Bool)
  | long (type : LongType) (value : ℤ) (boxed : Bool) (memory : UnicodeMemory)
  | float (type : FloatType) (value : PyFloat) (boxed : Bool) (memory : UnicodeMemory)
  /-- The null of a boxed type. -/
  | nullBoxed (type : BoxedType) (memory : UnicodeMemory)
  /-- A Java object of another class. -/
  | object (null : Bool) (memory : UnicodeMemory)
  | python (value : PyValue)

namespace CharOperand

/-- `PyJPValue_getJPClass` finds a class. -/
def hasJPClass : CharOperand → Bool
  | python _ => false
  | _ => true

/-- `isNullClass`, of an object that has a class. -/
def isNull : CharOperand → Bool
  | nullBoxed _ _ => true
  | object null _ => null
  | _ => false

/-- The object as a Python value, for what is passed on as it is. Java numbers are Python
numbers. -/
def toPyValue : CharOperand → PyValue
  | char code _ => .str [code.toNat]
  | long _ value _ _ => .int value
  | float _ value _ _ => .float value
  | nullBoxed (.long _) _ => .int 0
  | nullBoxed (.float _) _ => .float (.finite 0)
  | nullBoxed .char _ => .str [0]
  | object _ _ => .other 0
  | python value => value

/-- `fromJPChar` of the object, whatever it is. -/
def fromJPChar : CharOperand → ℕ
  | char code _ => (pyJPCharCreate code).fromJPChar
  | long _ _ _ memory => memory.fromJPChar
  | float _ _ _ memory => memory.fromJPChar
  | nullBoxed _ memory => memory.fromJPChar
  | object _ memory => memory.fromJPChar
  -- never reached: only an object with a class is read
  | python _ => 0

/-- A Java char. -/
def isChar : CharOperand → Bool
  | char _ _ => true
  | _ => false

/-- A Java integer or float, primitive or boxed. -/
def isWrappedNumber : CharOperand → Bool
  | long _ _ _ _ => true
  | float _ _ _ _ => true
  | _ => false

/-- A Python int or float. -/
def isPythonNumber : CharOperand → Bool
  | python (.int _) => true
  | python (.float _) => true
  | _ => false

/-- The value of a number, and the code unit of a char. -/
def numericValue : CharOperand → PyValue
  | char code _ => .int code.toNat
  | operand => operand.toPyValue

end CharOperand

/-! ### Operators -/

/-- The binary operators that are slots of `PyJPChar`. -/
inductive CharOperator where
  | and
  | or
  | xor
  | add
  | subtract
  | multiply
  | rshift
  | lshift
  | floorDivide
  | divmod
  deriving DecidableEq, Repr

/-- The operators of Python: `PyNumber_And` and its siblings, and `PyUnicode_Concat`. -/
structure PythonOperators (R : Type) where
  number : CharOperator → PyValue → PyValue → Except PyError R
  concat : PyValue → PyValue → Except PyError R

/-- An operation that keeps a record of the objects whose memory is read as a char. -/
abbrev CharProgram (R : Type) := Program (List CharOperand) PyError R

namespace PyJPChar

variable {R : Type} (py : PythonOperators R)

/-- `PyLong_FromLong(fromJPChar(o))` -/
def promote (o : CharOperand) : CharProgram PyValue := do
  modify (· ++ [o])
  pure (.int o.fromJPChar)

/-- A call of the Python API. -/
def call (result : Except PyError R) : CharProgram R :=
  match result with
  | .ok r => pure r
  | .error e => throw e

/-- `assertNotNullClass` -/
def assertNotNullClass (o : CharOperand) : CharProgram Unit :=
  if o.isNull then throw (.typeError "jchar cast of null pointer") else pure ()

/-- `notSupported` -/
def notSupported : CharProgram R :=
  throw (.typeError "unsupported operation")

/-- `apply` -/
def apply (first second : CharOperand) (func : PyValue → PyValue → Except PyError R) :
    CharProgram R :=
  if first.hasJPClass && second.hasJPClass then do
    assertNotNullClass first
    assertNotNullClass second
    let v1 ← promote first
    let v2 ← promote second
    call (func v1 v2)
  else if first.hasJPClass then do
    assertNotNullClass first
    let v ← promote first
    call (func v second.toPyValue)
  else if second.hasJPClass then do
    assertNotNullClass second
    let v ← promote second
    call (func first.toPyValue v)
  else notSupported

/-- `PyUnicode_Check` -/
def isStr : PyValue → Bool
  | .str _ => true
  | _ => false

def and (first second : CharOperand) : CharProgram R := apply first second (py.number .and)

def or (first second : CharOperand) : CharProgram R := apply first second (py.number .or)

def xor (first second : CharOperand) : CharProgram R := apply first second (py.number .xor)

/-- `PyJPChar_add`: a char is appended to a Python str. -/
def add (first second : CharOperand) : CharProgram R :=
  if first.hasJPClass && second.hasJPClass then do
    assertNotNullClass first
    assertNotNullClass second
    let v1 ← promote first
    let v2 ← promote second
    call (py.number .add v1 v2)
  else if first.hasJPClass then do
    assertNotNullClass first
    if isStr second.toPyValue then call (py.concat first.toPyValue second.toPyValue)
    else do
      let v ← promote first
      call (py.number .add v second.toPyValue)
  else if second.hasJPClass then do
    assertNotNullClass second
    if isStr first.toPyValue then call (py.concat first.toPyValue second.toPyValue)
    else do
      let v ← promote second
      call (py.number .add first.toPyValue v)
  else notSupported

def subtract (first second : CharOperand) : CharProgram R :=
  apply first second (py.number .subtract)

def mult (first second : CharOperand) : CharProgram R := apply first second (py.number .multiply)

def rshift (first second : CharOperand) : CharProgram R := apply first second (py.number .rshift)

def lshift (first second : CharOperand) : CharProgram R := apply first second (py.number .lshift)

def floordiv (first second : CharOperand) : CharProgram R :=
  apply first second (py.number .floorDivide)

def divmod (first second : CharOperand) : CharProgram R := apply first second (py.number .divmod)

/-- The slot of an operator. -/
def slot : CharOperator → CharOperand → CharOperand → CharProgram R
  | .and => and py
  | .or => or py
  | .xor => xor py
  | .add => add py
  | .subtract => subtract py
  | .multiply => mult py
  | .rshift => rshift py
  | .lshift => lshift py
  | .floorDivide => floordiv py
  | .divmod => divmod py

/-- One operand is a char, the other a char or a number. -/
def Arithmetic (first second : CharOperand) : Prop :=
  first.isChar ∧ (second.isChar ∨ second.isWrappedNumber ∨ second.isPythonNumber) ∨
    second.isChar ∧ (first.isChar ∨ first.isWrappedNumber ∨ first.isPythonNumber)

/-- The operator gives what Python gives for the values, and only chars are read as chars. -/
def Promotes (op : CharOperator) (first second : CharOperand) : Prop :=
  ∃ reads, (slot py op first second).exec [] =
      (py.number op first.numericValue second.numericValue, reads) ∧
    ∀ o ∈ reads, o.isChar = true

variable {py} {first second : CharOperand}

@[simp]
theorem exec_promote (o : CharOperand) (reads : List CharOperand) :
    (promote o).exec reads = (.ok (.int o.fromJPChar), reads ++ [o]) :=
  rfl

@[simp]
theorem exec_call (result : Except PyError R) (reads : List CharOperand) :
    (call result).exec reads = (result, reads) := by
  cases result <;> rfl

theorem exec_assertNotNullClass {o : CharOperand} (h : o.isNull = false)
    (reads : List CharOperand) : (assertNotNullClass o).exec reads = (.ok (), reads) := by
  rw [assertNotNullClass, h]
  rfl

/-- All operators are alike unless a str is added. -/
theorem slot_eq_apply (op : CharOperator) (hstr : op = .add →
    (first.hasJPClass = true ∨ isStr first.toPyValue = false) ∧
      (second.hasJPClass = true ∨ isStr second.toPyValue = false)) :
    slot py op first second = apply first second (py.number op) := by
  cases op with
  | add =>
    obtain ⟨hfirst, hsecond⟩ := hstr rfl
    show add py first second = _
    rw [add, apply]
    cases h1 : first.hasJPClass with
    | true =>
      cases h2 : second.hasJPClass with
      | true => rfl
      | false =>
        have hplain := hsecond.resolve_left (by rw [h2]; decide)
        simp [hplain]
    | false =>
      have hplain := hfirst.resolve_left (by rw [h1]; decide)
      simp [hplain]
  | _ => rfl

theorem exec_apply_both {func : PyValue → PyValue → Except PyError R}
    (h1 : first.hasJPClass = true) (h2 : second.hasJPClass = true) (hn1 : first.isNull = false)
    (hn2 : second.isNull = false) (reads : List CharOperand) :
    (apply first second func).exec reads =
      (func (.int first.fromJPChar) (.int second.fromJPChar), reads ++ [first] ++ [second]) := by
  rw [apply, h1, h2]
  simp [Program.exec_bind, exec_assertNotNullClass hn1, exec_assertNotNullClass hn2]

theorem exec_apply_left {func : PyValue → PyValue → Except PyError R}
    (h1 : first.hasJPClass = true) (h2 : second.hasJPClass = false) (hn1 : first.isNull = false)
    (reads : List CharOperand) :
    (apply first second func).exec reads =
      (func (.int first.fromJPChar) second.toPyValue, reads ++ [first]) := by
  rw [apply, h1, h2]
  simp [Program.exec_bind, exec_assertNotNullClass hn1]

theorem exec_apply_right {func : PyValue → PyValue → Except PyError R}
    (h1 : first.hasJPClass = false) (h2 : second.hasJPClass = true) (hn2 : second.isNull = false)
    (reads : List CharOperand) :
    (apply first second func).exec reads =
      (func first.toPyValue (.int second.fromJPChar), reads ++ [second]) := by
  rw [apply, h1, h2]
  simp [Program.exec_bind, exec_assertNotNullClass hn2]

end PyJPChar

namespace CharOperand

variable {o : CharOperand}

theorem fromJPChar_char (code : UInt16) (boxed : Bool) :
    .int (char code boxed).fromJPChar = (char code boxed).numericValue :=
  congrArg (PyValue.int ∘ Nat.cast) (fromJPChar_create code)

theorem exists_char (h : o.isChar = true) : ∃ code boxed, o = char code boxed := by
  cases o with
  | char code boxed => exact ⟨code, boxed, rfl⟩
  | _ => cases h

/-- A wrapped number is taken for a char. -/
theorem wrapped_of_isWrappedNumber (h : o.isWrappedNumber = true) :
    o.hasJPClass = true ∧ o.isNull = false ∧ o.isChar = false := by
  cases o with
  | long type value boxed memory => exact ⟨rfl, rfl, rfl⟩
  | float type value boxed memory => exact ⟨rfl, rfl, rfl⟩
  | _ => cases h

/-- A Python number is passed on as it is. -/
theorem plain_of_isPythonNumber (h : o.isPythonNumber = true) :
    o.hasJPClass = false ∧ o.isWrappedNumber = false ∧ PyJPChar.isStr o.toPyValue = false ∧
      o.toPyValue = o.numericValue := by
  match o with
  | python (.int _) => exact ⟨rfl, rfl, rfl, rfl⟩
  | python (.float _) => exact ⟨rfl, rfl, rfl, rfl⟩

end CharOperand

namespace PyJPChar

variable {R : Type} {py : PythonOperators R} {first second : CharOperand}

open CharOperand

/-- If one of two wrapped operands is a number, it is read as a char. -/
theorem not_promotes_of_read {op : CharOperator} (h1 : first.hasJPClass = true)
    (h2 : second.hasJPClass = true) (hn1 : first.isNull = false) (hn2 : second.isNull = false)
    (hread : first.isChar = false ∨ second.isChar = false) : ¬ Promotes py op first second := by
  rintro ⟨reads, hexec, hreads⟩
  rw [slot_eq_apply op fun _ ↦ ⟨.inl h1, .inl h2⟩, exec_apply_both h1 h2 hn1 hn2] at hexec
  obtain rfl : [first, second] = reads := congrArg Prod.snd hexec
  rcases hread with hread | hread
  · exact absurd (hreads first List.mem_cons_self) (by rw [hread]; decide)
  · exact absurd (hreads second (List.mem_cons_of_mem first List.mem_cons_self))
      (by rw [hread]; decide)

theorem promotes_iff (py : PythonOperators R) (op : CharOperator) (h : Arithmetic first second) :
    Promotes py op first second ↔
      first.isWrappedNumber = false ∧ second.isWrappedNumber = false := by
  have hchars (c1 c2 : UInt16) (b1 b2 : Bool) : Promotes py op (.char c1 b1) (.char c2 b2) := by
    refine ⟨[.char c1 b1, .char c2 b2], ?_, by simp [isChar]⟩
    rw [slot_eq_apply op fun _ ↦ ⟨.inl rfl, .inl rfl⟩, exec_apply_both rfl rfl rfl rfl,
      fromJPChar_char, fromJPChar_char]
    rfl
  rcases h with ⟨h1, hother⟩ | ⟨h2, hother⟩
  · obtain ⟨c1, b1, rfl⟩ := exists_char h1
    rcases hother with h2 | h2 | h2
    · obtain ⟨c2, b2, rfl⟩ := exists_char h2
      exact iff_of_true (hchars c1 c2 b1 b2) ⟨rfl, rfl⟩
    · obtain ⟨hc, hn, hchar⟩ := wrapped_of_isWrappedNumber h2
      exact iff_of_false (not_promotes_of_read rfl hc rfl hn (.inr hchar)) fun hnot ↦
        Bool.false_ne_true (hnot.2.symm.trans h2)
    · obtain ⟨hc, hwrapped, hstr, hvalue⟩ := plain_of_isPythonNumber h2
      refine iff_of_true ⟨[.char c1 b1], ?_, List.forall_mem_singleton.2 rfl⟩ ⟨rfl, hwrapped⟩
      rw [slot_eq_apply op fun _ ↦ ⟨.inl rfl, .inr hstr⟩, exec_apply_left rfl hc rfl,
        fromJPChar_char, hvalue]
      rfl
  · obtain ⟨c2, b2, rfl⟩ := exists_char h2
    rcases hother with h1 | h1 | h1
    · obtain ⟨c1, b1, rfl⟩ := exists_char h1
      exact iff_of_true (hchars c1 c2 b1 b2) ⟨rfl, rfl⟩
    · obtain ⟨hc, hn, hchar⟩ := wrapped_of_isWrappedNumber h1
      exact iff_of_false (not_promotes_of_read hc rfl hn rfl (.inl hchar)) fun hnot ↦
        Bool.false_ne_true (hnot.1.symm.trans h1)
    · obtain ⟨hc, hwrapped, hstr, hvalue⟩ := plain_of_isPythonNumber h1
      refine iff_of_true ⟨[.char c2 b2], ?_, List.forall_mem_singleton.2 rfl⟩ ⟨hwrapped, rfl⟩
      rw [slot_eq_apply op fun _ ↦ ⟨.inr hstr, .inl rfl⟩, exec_apply_right hc rfl rfl,
        fromJPChar_char, hvalue]
      rfl

/-- `+` and `-` of Python ints. -/
def intOperators : PythonOperators ℤ where
  number op v w :=
    match op, v, w with
    | .add, .int m, .int n => .ok (m + n)
    | .subtract, .int m, .int n => .ok (m - n)
    | _, _, _ => .error (.typeError "unsupported operand type(s)")
  concat _ _ := .error (.typeError "must be str")

/-- `JChar('c') - 97` -/
theorem promotes_sample :
    Promotes intOperators .subtract (.char 99 false) (.python (.int 97)) :=
  (promotes_iff intOperators .subtract (.inl ⟨rfl, .inr (.inr rfl)⟩)).2 ⟨rfl, rfl⟩

/-- `JChar('c') - JInt(97)`, where the memory of the `JInt` happens to be zero. -/
theorem not_promotes : Arithmetic (.char 99 false) (.long .int 97 false ⟨false, 0, 0, 0, 0⟩) ∧
    ((slot intOperators .subtract (.char 99 false)
      (.long .int 97 false ⟨false, 0, 0, 0, 0⟩)).exec []).1 = .ok 99 ∧
    ¬ Promotes intOperators .subtract (.char 99 false)
      (.long .int 97 false ⟨false, 0, 0, 0, 0⟩) := by
  refine ⟨.inl ⟨rfl, .inr (.inl rfl)⟩, rfl, ?_⟩
  rintro ⟨reads, hexec, -⟩
  have hresult : (Except.ok 99 : Except PyError ℤ) = .ok 2 := congrArg Prod.fst hexec
  cases hresult

end PyJPChar
end JPype
