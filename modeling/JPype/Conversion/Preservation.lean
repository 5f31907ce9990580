import JPype.Conversion.Integral
import Mathlib.Data.Int.ModEq

/-!
# What becomes of a number

A number may be passed on from one Java variable to the next, with casts in between.
`number_crosses` says that none of it is lost on the way but what a cast or a `short` cuts off, and
`int_crosses_iff` which numbers get through variables of primitive types.
-/

namespace JPype.Integral

open Foundation

/-! ### The number of a value -/

/-- The number that a Python object stands for. -/
def PyValue.number? : PyValue → Option ℤ
  | .bool b => some b.toInt
  | .int n => some n
  | .object o => if o.checkIndex && o.text.isNone then o.index.toOption else none
  | .primitive p => some p.value
  | .boxed p => some p.value
  | _ => none

/-- The integral type of a variable. -/
def JavaType.integral? : JavaType → Option IntegralType
  | .primitive t => some t
  | .boxed t => some t
  | _ => none

section Number

variable {x y : PyValue} {n : ℤ} {t : IntegralType} {p : Primitive}

theorem PyValue.index_of_number? (h : x.number? = some n) : x.index = .ok n := by
  cases x with
  | bool b => exact congrArg Except.ok (Option.some.inj h)
  | int m => exact congrArg Except.ok (Option.some.inj h)
  | object o =>
    rw [number?] at h
    split_ifs at h
    rw [index]
    cases hindex : o.index with
    | error e =>
      rw [hindex] at h
      cases h
    | ok m =>
      rw [hindex] at h
      exact congrArg Except.ok (Option.some.inj h)
  | primitive p => exact congrArg Except.ok (Option.some.inj h)
  | boxed p => exact congrArg Except.ok (Option.some.inj h)
  | _ => cases h

theorem PyValue.checkIndex_of_number? (h : x.number? = some n) : x.checkIndex = true := by
  cases x with
  | object o =>
    rw [number?] at h
    split_ifs at h with hif
    exact (Bool.and_eq_true_iff.1 hif).1
  | pyNone => cases h
  | java o => cases h
  | _ => rfl

theorem PyValue.text?_of_number? (h : x.number? = some n) : x.text? = none := by
  cases x with
  | object o =>
    rw [number?] at h
    split_ifs at h with hif
    exact Option.isNone_iff_eq_none.1 (Bool.and_eq_true_iff.1 hif).2
  | _ => rfl

/-! ### Conversions to a primitive type -/

theorem IntegerType.assertRange_of_fits {t : IntegerType} (h : Fits t.bits n) :
    t.assertRange n = .ok n := by
  obtain ⟨hlow, hhigh⟩ := h
  cases t with
  | byte => exact if_neg (by simp only [bits] at hlow hhigh; omega)
  | short => exact if_neg (by simp only [bits] at hlow hhigh; omega)
  | int => exact if_neg (by simp only [bits] at hlow hhigh; omega)
  | long => rfl

theorem IntegerType.exists_assertRange {t : IntegerType} (hn : Fits 64 n) (h : ¬Fits t.bits n) :
    ∃ message, t.assertRange n = .error (.overflowError message) := by
  have hbounds : ¬(-2 ^ (t.bits - 1) ≤ n ∧ n < 2 ^ (t.bits - 1)) := h
  cases t with
  | byte => exact ⟨_, if_pos (by simp only [bits] at hbounds; omega)⟩
  | short => exact ⟨_, if_pos (by simp only [bits] at hbounds; omega)⟩
  | int => exact ⟨_, if_pos (by simp only [bits] at hbounds; omega)⟩
  | long => exact absurd hn h

theorem IntegerType.fits_64 {t : IntegerType} (h : Fits t.bits n) : Fits 64 n := by
  obtain ⟨hlow, hhigh⟩ := h
  cases t <;> simp only [bits] at hlow hhigh <;> exact ⟨by omega, by omega⟩

theorem PyValue.asLongLong_of_fits (hx : x.index = .ok n) (h : Fits 64 n) :
    x.asLongLong = .ok n := by
  rw [asLongLong, hx]
  exact if_pos h

theorem PyValue.asLongLong_of_not_fits (hx : x.index = .ok n) (h : ¬Fits 64 n) :
    x.asLongLong = .error (.overflowError "int too big to convert") := by
  rw [asLongLong, hx]
  exact if_neg h

/-- A number that fits is converted to itself, another one is refused. -/
theorem JPConversion.convertLong_of_fits {t : IntegerType} {type : MatchType}
    (htype : type ≠ .exact) (hx : x.index = .ok n) (h : Fits t.bits n) :
    convertLong t type x = .ok (.cast t n) := by
  rw [convertLong, if_neg htype, PyValue.asLongLong_of_fits hx (IntegerType.fits_64 h)]
  show t.assertRange n >>= _ = _
  rw [IntegerType.assertRange_of_fits h]
  rfl

theorem JPConversion.convertLong_of_not_fits {t : IntegerType} {type : MatchType}
    (htype : type ≠ .exact) (hx : x.index = .ok n) (h : ¬Fits t.bits n) :
    ∃ message, convertLong t type x = .error (.overflowError message) := by
  rw [convertLong, if_neg htype]
  by_cases hlong : Fits 64 n
  · obtain ⟨message, hrange⟩ := IntegerType.exists_assertRange hlong h
    refine ⟨message, ?_⟩
    rw [PyValue.asLongLong_of_fits hx hlong]
    show t.assertRange n >>= _ = _
    rw [hrange]
    rfl
  · refine ⟨"int too big to convert", ?_⟩
    rw [PyValue.asLongLong_of_not_fits hx hlong]
    rfl

/-- The types that are widened to the type. -/
def IntegralType.widened : IntegralType → List IntegralType
  | .integer .short => [.char, .integer .byte]
  | .integer .int => [.char, .integer .short, .integer .byte]
  | .integer .long => [.integer .int, .char, .integer .short, .integer .byte]
  | _ => []

/-- How it is done. -/
def IntegralType.widen : IntegralType → Option JPConversion
  | .integer t => some (.widen t)
  | _ => none

namespace IntegralType

theorem findJavaConversion_primitive (t : IntegralType) (q : Primitive) :
    t.findJavaConversion (.primitive q) =
      if q.type = t then (.exact, some .javaValue)
      else if q.type ∈ t.widened then (.implicit, t.widen)
      else (.none, none) := by
  have hjava : ∀ widened widen rest, firstOf (matchesJava t widened widen (.primitive q) :: rest)
      (.primitive q) = if q.type = t then (.exact, some .javaValue)
        else if q.type ∈ widened then (.implicit, widen) else (.none, none) := by
    intro widened widen rest
    simp only [firstOf, matchesJava]
    split_ifs <;> rfl
  cases t with
  | boolean => exact hjava [] none _
  | char => exact hjava [] none _
  | integer t =>
    cases t with
    | byte => exact hjava [] (some (.widen .byte)) _
    | short => exact hjava [.char, .integer .byte] _ _
    | int => exact hjava [.char, .integer .short, .integer .byte] _ _
    | long => exact hjava [.integer .int, .char, .integer .short, .integer .byte] _ _

theorem findJavaConversion_boxed (t : IntegralType) (q : Primitive) :
    t.findJavaConversion (.boxed q) =
      if q.type = t then (.implicit, some .unbox) else (.none, none) := by
  have hjava : ∀ widened widen rest, firstOf (matchesJava t widened widen (.boxed q) :: rest)
      (.boxed q) = if q.type = t then (.implicit, some .unbox) else (.none, none) := by
    intro widened widen rest
    simp only [firstOf, matchesJava]
    split_ifs <;> rfl
  cases t with
  | boolean => exact hjava _ _ _
  | char => exact hjava _ _ _
  | integer t => cases t <;> exact hjava _ _ _

/-- No Java value, but an object with an index. -/
theorem findJavaConversion_index {t : IntegerType} (hindex : x.checkIndex = true)
    (hjava : ∀ s widened widen, matchesJava s widened widen x = none) :
    (integer t).findJavaConversion x = (.implicit, some (.long t)) := by
  have hfind : ∀ widened, findIntegerConversion t widened x = (.implicit, some (.long t)) := by
    intro widened
    have hlong : matchesLong t x = some (.implicit, some (.long t)) :=
      if_pos (by rw [hindex, Bool.or_true])
    rw [findIntegerConversion, hjava, hlong]
    cases x with
    | pyNone => cases hindex
    | _ => rfl
  cases t <;> exact hfind _

theorem findJavaConversion_index_char (hindex : x.checkIndex = true)
    (hjava : ∀ s widened widen, matchesJava s widened widen x = none) :
    char.findJavaConversion x = (.implicit, some .asChar) := by
  show JPCharType.findJavaConversion x = _
  rw [JPCharType.findJavaConversion, hjava, hindex]
  cases x with
  | pyNone => cases hindex
  | _ => rfl

theorem take_of_find {refusal : String} {type : MatchType} {conversion : JPConversion}
    (h : t.findJavaConversion x = (type, some conversion)) (htype : .implicit ≤ type) :
    t.take refusal x = conversion.convertPrimitive type x := by
  rw [take, h]
  exact if_neg (not_lt.2 htype)

theorem take_of_none {refusal : String} (h : t.findJavaConversion x = (.none, none)) :
    t.take refusal x = .error (.typeError refusal) := by
  rw [take, h]
  rfl

/-! ### What is taken -/

/-- A primitive value is taken as it is, or is widened. -/
theorem take_primitive_self (refusal : String) (q : Primitive) :
    q.type.take refusal (.primitive q) = .ok q := by
  rw [take_of_find ((findJavaConversion_primitive _ q).trans (if_pos rfl)) (by decide)]
  rfl

theorem take_primitive_widened {t : IntegerType} (refusal : String) {q : Primitive}
    (hne : q.type ≠ integer t) (h : q.type ∈ (integer t).widened) :
    (integer t).take refusal (.primitive q) = .ok (.cast t q.value) := by
  have hfind := (findJavaConversion_primitive (integer t) q).trans ((if_neg hne).trans (if_pos h))
  rw [take_of_find hfind le_rfl]
  rfl

theorem take_primitive_of_not_mem (refusal : String) {q : Primitive} (hne : q.type ≠ t)
    (h : q.type ∉ t.widened) :
    t.take refusal (.primitive q) = .error (.typeError refusal) :=
  take_of_none ((findJavaConversion_primitive t q).trans ((if_neg hne).trans (if_neg h)))

theorem take_boxed_self (refusal : String) (q : Primitive) :
    q.type.take refusal (.boxed q) = .ok q := by
  rw [take_of_find ((findJavaConversion_boxed _ q).trans (if_pos rfl)) le_rfl]
  rfl

theorem take_boxed_of_ne (refusal : String) {q : Primitive} (hne : q.type ≠ t) :
    t.take refusal (.boxed q) = .error (.typeError refusal) :=
  take_of_none ((findJavaConversion_boxed t q).trans (if_neg hne))

theorem cast_of_fits {t : IntegerType} (h : Fits t.bits n) :
    Primitive.cast t n = ⟨integer t, n, h⟩ := by
  simp only [Primitive.cast, bmod_of_fits t.bits_pos h]

theorem castChar_of_holds (h : char.Holds n) : Primitive.castChar n = ⟨char, n, h⟩ := by
  have hmod : n % 2 ^ 16 = n := Int.emod_eq_of_lt h.1 h.2
  simp only [Primitive.castChar, hmod]

/-- A widening keeps the number, but for a `char` that is too large for a `short`. -/
theorem fits_of_widened {t : IntegerType} {q : Primitive} (h : q.type ∈ (integer t).widened)
    (hchar : t = .short → q.type = char → q.value < 2 ^ 15) : Fits t.bits q.value := by
  obtain ⟨s, m, hm⟩ := q
  dsimp only at h hchar ⊢
  cases s with
  | boolean => cases t <;> simp [widened] at h
  | char =>
    have hm : 0 ≤ m ∧ m < 2 ^ 16 := hm
    cases t with
    | byte => simp [widened] at h
    | short =>
      have hlt := hchar rfl rfl
      exact ⟨by simp only [IntegerType.bits]; omega, by simp only [IntegerType.bits]; omega⟩
    | int => exact ⟨by simp only [IntegerType.bits]; omega, by simp only [IntegerType.bits]; omega⟩
    | long => exact ⟨by simp only [IntegerType.bits]; omega, by simp only [IntegerType.bits]; omega⟩
  | integer s =>
    have hle : s.bits ≤ t.bits := by
      cases t <;> cases s <;> first | decide | simp [widened] at h
    exact Fits.mono hm hle

/-- Another object with an index is taken if its number is one of the type. -/
theorem take_index_of_holds (refusal : String) (hx : x.number? = some n)
    (hjava : ∀ s widened widen, matchesJava s widened widen x = none) (ht : t ≠ boolean)
    (h : t.Holds n) : t.take refusal x = .ok ⟨t, n, h⟩ := by
  have hindex := PyValue.checkIndex_of_number? hx
  cases t with
  | boolean => exact absurd rfl ht
  | char =>
    rw [take_of_find (findJavaConversion_index_char hindex hjava) le_rfl]
    have hn : 0 ≤ n ∧ n < 2 ^ 16 := h
    have hlong : x.asLongLong = .ok n := PyValue.asLongLong_of_fits
      (PyValue.index_of_number? hx) ⟨by omega, by omega⟩
    show JPConversion.asCharUTF16 x = _
    rw [JPConversion.asCharUTF16, if_pos hindex, hlong, ← castChar_of_holds h]
    exact if_neg (by omega)
  | integer t =>
    rw [take_of_find (findJavaConversion_index hindex hjava) le_rfl, ← cast_of_fits h]
    exact JPConversion.convertLong_of_fits (by decide) (PyValue.index_of_number? hx) h

theorem take_index_of_not_holds (refusal : String) (hx : x.number? = some n)
    (hjava : ∀ s widened widen, matchesJava s widened widen x = none) (ht : t ≠ boolean)
    (h : ¬t.Holds n) : ∃ message, t.take refusal x = .error (.overflowError message) := by
  have hindex := PyValue.checkIndex_of_number? hx
  cases t with
  | boolean => exact absurd rfl ht
  | char =>
    refine ⟨"Unable to convert int into char range", ?_⟩
    rw [take_of_find (findJavaConversion_index_char hindex hjava) le_rfl]
    have hn : ¬(0 ≤ n ∧ n < 2 ^ 16) := h
    show JPConversion.asCharUTF16 x = _
    rw [JPConversion.asCharUTF16, if_pos hindex]
    by_cases hlong : Fits 64 n
    · rw [PyValue.asLongLong_of_fits (PyValue.index_of_number? hx) hlong]
      exact if_pos (by omega)
    · rw [PyValue.asLongLong_of_not_fits (PyValue.index_of_number? hx) hlong]
  | integer t =>
    rw [take_of_find (findJavaConversion_index hindex hjava) le_rfl]
    exact JPConversion.convertLong_of_not_fits (by decide) (PyValue.index_of_number? hx) h

/-- Whatever is taken, its number is the one that was given; only a `char` that is widened to a
`short` may lose its high bits. -/
theorem number_of_take {refusal : String} (ht : t ≠ boolean) (hx : x.number? = some n)
    (h : t.take refusal x = .ok p) : p.type = t ∧
      (p.value = n ∨ t = integer .short ∧ (∃ q, x = .primitive q) ∧ 2 ^ 15 ≤ n ∧
        p.value ≡ n [ZMOD 2 ^ 16]) := by
  have hindex : (∀ s widened widen, matchesJava s widened widen x = none) →
      p.type = t ∧ p.value = n := by
    intro hjava
    by_cases hholds : t.Holds n
    · rw [take_index_of_holds refusal hx hjava ht hholds] at h
      obtain rfl := Except.ok.inj h
      exact ⟨rfl, rfl⟩
    · obtain ⟨message, hmessage⟩ := take_index_of_not_holds refusal hx hjava ht hholds
      rw [hmessage] at h
      cases h
  cases x with
  | bool b => exact (hindex fun _ _ _ ↦ rfl).imp_right .inl
  | int m => exact (hindex fun _ _ _ ↦ rfl).imp_right .inl
  | object o => exact (hindex fun _ _ _ ↦ rfl).imp_right .inl
  | boxed q =>
    obtain rfl := Option.some.inj hx
    by_cases hq : q.type = t
    · obtain rfl := hq
      rw [take_boxed_self] at h
      obtain rfl := Except.ok.inj h
      exact ⟨rfl, .inl rfl⟩
    · rw [take_boxed_of_ne refusal hq] at h
      cases h
  | primitive q =>
    obtain rfl := Option.some.inj hx
    by_cases hq : q.type = t
    · obtain rfl := hq
      rw [take_primitive_self] at h
      obtain rfl := Except.ok.inj h
      exact ⟨rfl, .inl rfl⟩
    by_cases hwiden : q.type ∈ t.widened
    · cases t with
      | boolean => exact absurd rfl ht
      | char => cases hwiden
      | integer t =>
        rw [take_primitive_widened refusal hq hwiden] at h
        obtain rfl := Except.ok.inj h
        refine ⟨rfl, ?_⟩
        by_cases hshort : t = .short ∧ 2 ^ 15 ≤ q.value
        · refine .inr ⟨congrArg integer hshort.1, ⟨q, rfl⟩, hshort.2, ?_⟩
          rw [hshort.1]
          exact Int.bmod_emod
        · refine .inl (bmod_of_fits t.bits_pos (fits_of_widened hwiden fun h _ ↦ ?_))
          exact not_le.1 fun hle ↦ hshort ⟨h, hle⟩
    · rw [take_primitive_of_not_mem refusal hq hwiden] at h
      cases h
  | _ => cases hx

end IntegralType

/-! ### Variables -/

/-- A `short` variable may have lost the high bits of a `char`. -/
def Arrives (t : JavaType) (n m : ℤ) : Prop :=
  m = n ∨ t.integral? = some (.integer .short) ∧ 2 ^ 15 ≤ n ∧ m ≡ n [ZMOD 2 ^ 16]

theorem newInstance_of_number? (hx : x.number? = some n) : JPConversion.newInstance t x =
    .boxed <$> t.take "No matching overloads found for constructor" x := by
  have htext : (if t = .char then none else x.text?) = none := by
    rw [PyValue.text?_of_number? hx, ite_self]
  rw [JPConversion.newInstance, htext]

theorem newInstance_self (q : Primitive) :
    JPConversion.newInstance q.type (.primitive q) = .ok (.boxed q) := by
  rw [newInstance_of_number? rfl, IntegralType.take_primitive_self]
  rfl

theorem newInstance_bool (b : Bool) :
    JPConversion.newInstance .boolean (.bool b) = .ok (.boxed (.ofBool b)) := rfl

/-- What a constructor makes of a number. -/
theorem number_of_newInstance {v : JavaValue} (ht : t ≠ .boolean) (hx : x.number? = some n)
    (h : JPConversion.newInstance t x = .ok v) : ∃ m,
      v.convertToPythonObject.number? = some m ∧
        (m = n ∨ t = .integer .short ∧ (∃ q, x = .primitive q) ∧ 2 ^ 15 ≤ n ∧
          m ≡ n [ZMOD 2 ^ 16]) := by
  rw [newInstance_of_number? hx] at h
  cases htake : t.take "No matching overloads found for constructor" x with
  | error e =>
    rw [htake] at h
    cases h
  | ok q =>
    rw [htake] at h
    obtain rfl := Except.ok.inj h
    exact ⟨q.value, rfl, (IntegralType.number_of_take ht hx htake).2⟩

theorem setField_of_find {t : JavaType} {type : MatchType} {conversion : JPConversion}
    (h : t.findJavaConversion x = (type, some conversion)) (htype : .implicit ≤ type) :
    JPClass.setField t x = conversion.convert x := by
  rw [JPClass.setField, h]
  exact if_neg (not_lt.2 htype)

theorem setField_of_lt {t : JavaType} (h : (t.findJavaConversion x).1 < .implicit) :
    JPClass.setField t x = .error (.typeError t.refusal) :=
  if_pos h

/-- What the primitive type takes is boxed. -/
theorem setField_box {v : JavaValue} (hmatch : (matchesBoxed t x).1 = .none)
    (h : JPClass.setField (.boxed t) x = .ok v) : JPConversion.newInstance t x = .ok v := by
  have hbox : ∀ type, .implicit ≤ type →
      (JavaType.boxed t).findJavaConversion x = (type, some (.box t)) →
      JPConversion.newInstance t x = .ok v :=
    fun type htype hfind ↦ (setField_of_find hfind htype).symm.trans h
  have hrefuse : ¬((JavaType.boxed t).findJavaConversion x).1 < .implicit := fun hlt ↦ by
    rw [setField_of_lt hlt] at h
    cases h
  cases htype : (t.findJavaConversion x).1 with
  | none =>
    have hfind : (JavaType.boxed t).findJavaConversion x = (.none, (t.findJavaConversion x).2) :=
      (if_neg (not_not.2 hmatch)).trans (by rw [htype])
    have hlt : MatchType.none < .implicit := by decide
    exact absurd (lt_of_eq_of_lt (congrArg Prod.fst hfind) hlt) hrefuse
  | explicit =>
    have hfind : (JavaType.boxed t).findJavaConversion x = (.explicit, some (.box t)) :=
      (if_neg (not_not.2 hmatch)).trans (by rw [htype])
    have hlt : MatchType.explicit < .implicit := by decide
    exact absurd (lt_of_eq_of_lt (congrArg Prod.fst hfind) hlt) hrefuse
  | implicit => exact hbox .implicit le_rfl ((if_neg (not_not.2 hmatch)).trans (by rw [htype]))
  | derived => exact hbox .implicit le_rfl ((if_neg (not_not.2 hmatch)).trans (by rw [htype]))
  | exact => exact hbox .derived (by decide) ((if_neg (not_not.2 hmatch)).trans (by rw [htype]))

theorem number_of_setField_boxed {v : JavaValue} (ht : t ≠ .boolean) (hx : x.number? = some n)
    (h : JPClass.setField (.boxed t) x = .ok v) : ∃ m,
      v.convertToPythonObject.number? = some m ∧ Arrives (.boxed t) n m := by
  have hbox : (matchesBoxed t x).1 = .none → ∃ m,
      v.convertToPythonObject.number? = some m ∧ Arrives (.boxed t) n m := by
    intro hmatch
    obtain ⟨m, hm, harrives⟩ := number_of_newInstance ht hx (setField_box hmatch h)
    exact ⟨m, hm, harrives.imp_right fun hshort ↦ ⟨congrArg some hshort.1, hshort.2.2⟩⟩
  cases x with
  | boxed q =>
    by_cases hq : q.type = t
    · have hmatch : matchesBoxed t (.boxed q) = (.exact, some .object) := if_pos hq
      have hfind : (JavaType.boxed t).findJavaConversion (.boxed q) = (.exact, some .object) :=
        (if_pos (by rw [hmatch]; decide)).trans hmatch
      rw [setField_of_find hfind (by decide)] at h
      obtain rfl := Except.ok.inj h
      exact ⟨q.value, rfl, .inl (Option.some.inj hx)⟩
    · refine hbox ?_
      rw [matchesBoxed, if_neg hq]
  | pyNone => cases hx
  | nullBoxed s => cases hx
  | _ => exact hbox rfl

/-- A number that is boxed as it is. -/
theorem number_of_boxLong {v : JavaValue} (hx : x.number? = some n)
    (h : JPConversion.boxLong.convert x = .ok v) : ∃ m,
      v.convertToPythonObject.number? = some m ∧ m = n := by
  have hnew : JPConversion.newInstance (.integer (JPConversion.boxLongType x)) x = .ok v := h
  obtain ⟨m, hm, hmn⟩ := number_of_newInstance (by simp) hx hnew
  refine ⟨m, hm, hmn.resolve_right fun ⟨hshort, ⟨q, hq⟩, _⟩ ↦ ?_⟩
  rw [hq] at hshort
  cases hshort

theorem number_of_setField_number {v : JavaValue} (hx : x.number? = some n)
    (h : JPClass.setField .number x = .ok v) : ∃ m,
      v.convertToPythonObject.number? = some m ∧ m = n := by
  have hlong : JavaType.number.findJavaConversion x = (.implicit, some .boxLong) → ∃ m,
      v.convertToPythonObject.number? = some m ∧ m = n :=
    fun hfind ↦ number_of_boxLong hx ((setField_of_find hfind le_rfl).symm.trans h)
  have hany : JavaType.number.findJavaConversion x = (.implicit, some .javaAny) →
      JPConversion.javaAny.convert x = .ok v :=
    fun hfind ↦ (setField_of_find hfind le_rfl).symm.trans h
  cases x with
  | bool b => exact hlong rfl
  | int m => exact hlong rfl
  | object o =>
    have hindex : o.checkIndex = true := PyValue.checkIndex_of_number? hx
    refine hlong ?_
    have hmatch : matchesBoxLong (.object o) = some (.implicit, some .boxLong) :=
      if_pos (by rw [PyValue.checkIndex, hindex, Bool.or_true])
    show JPNumberType.findJavaConversion _ = _
    rw [JPNumberType.findJavaConversion, hmatch]
    rfl
  | primitive q =>
    obtain ⟨s, m, hm⟩ := q
    obtain rfl := Option.some.inj hx
    cases s with
    | boolean => exact hlong rfl
    | char => exact hlong rfl
    | integer s =>
      have hself := (newInstance_self ⟨.integer s, m, hm⟩).symm.trans (hany rfl)
      obtain rfl := Except.ok.inj hself
      exact ⟨m, rfl, rfl⟩
  | boxed q =>
    obtain ⟨s, m, hm⟩ := q
    obtain rfl := Option.some.inj hx
    cases s with
    | boolean => exact hlong rfl
    | char => exact hlong rfl
    | integer s =>
      obtain rfl := Except.ok.inj (hany rfl)
      exact ⟨m, rfl, rfl⟩
  | _ => cases hx

theorem number_of_setField_object {v : JavaValue} (hx : x.number? = some n)
    (h : JPClass.setField .object x = .ok v) : ∃ m,
      v.convertToPythonObject.number? = some m ∧ m = n := by
  have hconvert : ∀ {type conversion}, .implicit ≤ type →
      JavaType.object.findJavaConversion x = (type, some conversion) →
      conversion.convert x = .ok v :=
    fun htype hfind ↦ (setField_of_find hfind htype).symm.trans h
  cases x with
  | bool b =>
    have hbool := (newInstance_bool b).symm.trans (hconvert le_rfl rfl)
    obtain rfl := Except.ok.inj hbool
    exact ⟨b.toInt, rfl, Option.some.inj hx⟩
  | int m => exact number_of_boxLong hx (hconvert le_rfl rfl)
  | object o =>
    have hindex : o.checkIndex = true := PyValue.checkIndex_of_number? hx
    have htext : o.text = none := PyValue.text?_of_number? hx
    have hmatch : matchesBoxLong (.object o) = some (.implicit, some .boxLong) :=
      if_pos (by rw [PyValue.checkIndex, hindex, Bool.or_true])
    refine number_of_boxLong hx (hconvert le_rfl ?_)
    show JPObjectType.findJavaConversion _ = _
    rw [JPObjectType.findJavaConversion, hmatch, PyValue.text?, htext]
    rfl
  | primitive q =>
    have hself := (newInstance_self q).symm.trans (hconvert le_rfl rfl)
    obtain rfl := Except.ok.inj hself
    exact ⟨q.value, rfl, Option.some.inj hx⟩
  | boxed q =>
    obtain rfl := Except.ok.inj (hconvert (by decide) rfl)
    exact ⟨q.value, rfl, Option.some.inj hx⟩
  | _ => cases hx

/-- The number that is read from a variable is the one that has been put in. -/
theorem JavaType.number_of_pass {t : JavaType} (ht : t.integral? ≠ some .boolean)
    (hx : x.number? = some n) (h : t.pass x = .ok y) :
    ∃ m, y.number? = some m ∧ Arrives t n m := by
  rw [pass] at h
  cases hset : t.setField x with
  | error e =>
    rw [hset] at h
    cases h
  | ok v =>
    rw [hset] at h
    obtain rfl := Except.ok.inj h
    cases t with
    | primitive s =>
      have hs : s ≠ .boolean := fun h ↦ ht (congrArg some h)
      change JavaValue.primitive <$> s.take _ x = _ at hset
      cases htake : s.take (refusal (.primitive s)) x with
      | error e =>
        rw [htake] at hset
        cases hset
      | ok q =>
        rw [htake] at hset
        obtain rfl := Except.ok.inj hset
        obtain ⟨hq, hvalue⟩ := IntegralType.number_of_take hs hx htake
        refine ⟨q.value, ?_, hvalue.imp_right fun h ↦ ⟨congrArg some h.1, h.2.2⟩⟩
        show (if q.type = .boolean then PyValue.bool _ else .primitive q).number? = _
        rw [if_neg (hq ▸ hs)]
        rfl
    | boxed s => exact number_of_setField_boxed (fun h ↦ ht (congrArg some h)) hx hset
    | number =>
      obtain ⟨m, hm, hmn⟩ := number_of_setField_number hx hset
      exact ⟨m, hm, .inl hmn⟩
    | object =>
      obtain ⟨m, hm, hmn⟩ := number_of_setField_object hx hset
      exact ⟨m, hm, .inl hmn⟩

/-! ### Casts -/

theorem Primitive.cast_emod (t : IntegerType) (n : ℤ) :
    Primitive.cast t (n % 2 ^ 64) = .cast t n := by
  have hdvd : ((2 ^ t.bits : ℕ) : ℤ) ∣ 2 ^ 64 := by
    rw [Nat.cast_pow]
    exact pow_dvd_pow 2 t.bits_le
  have hmod : (n % 2 ^ 64).bmod (2 ^ t.bits) = n.bmod (2 ^ t.bits) := by
    rw [← Int.emod_bmod, Int.emod_emod_of_dvd _ hdvd, Int.emod_bmod]
  simp only [cast, hmod]

theorem convertLong_exact {t : IntegerType} (hx : x.index = .ok n) :
    JPConversion.convertLong t .exact x = .ok (.cast t n) := by
  rw [JPConversion.convertLong, if_pos rfl, hx, ← Primitive.cast_emod]
  rfl

/-- A cast keeps the low bits of the number. -/
theorem JPNumber.value_eq {t : IntegerType} (hx : x.number? = some n) (h : value t x = .ok p) :
    p = .cast t n := by
  have hself : ∀ q : Primitive, q.type = .integer t → q = .cast t q.value := by
    intro q hq
    obtain ⟨s, m, hm⟩ := q
    obtain rfl := hq
    exact (IntegralType.cast_of_fits hm).symm
  have hindex : (∀ s widened widen, matchesJava s widened widen x = none) → p = .cast t n := by
    intro hjava
    rw [value, IntegralType.findJavaConversion_index (PyValue.checkIndex_of_number? hx) hjava] at h
    change JPConversion.convertLong t .exact x = _ at h
    rw [convertLong_exact (PyValue.index_of_number? hx)] at h
    exact (Except.ok.inj h).symm
  -- another Java value is read by `int` first
  have hlong : x.long = .ok n → (IntegralType.integer t).findJavaConversion x = (.none, none) →
      p = .cast t n := by
    intro hlong hfind
    rw [value, hfind] at h
    change (do JPConversion.convertLong t .exact (.int (← x.long))) = _ at h
    rw [hlong] at h
    change JPConversion.convertLong t .exact (.int n) = _ at h
    rw [convertLong_exact rfl] at h
    exact (Except.ok.inj h).symm
  cases x with
  | bool b => exact hindex fun _ _ _ ↦ rfl
  | int m => exact hindex fun _ _ _ ↦ rfl
  | object o => exact hindex fun _ _ _ ↦ rfl
  | primitive q =>
    obtain rfl := Option.some.inj hx
    have hfind := IntegralType.findJavaConversion_primitive (.integer t) q
    by_cases hq : q.type = .integer t
    · rw [if_pos hq] at hfind
      rw [value, hfind] at h
      exact (Except.ok.inj h).symm.trans (hself q hq)
    rw [if_neg hq] at hfind
    by_cases hwiden : q.type ∈ (IntegralType.integer t).widened
    · rw [if_pos hwiden] at hfind
      rw [value, hfind] at h
      exact (Except.ok.inj h).symm
    · rw [if_neg hwiden] at hfind
      exact hlong rfl hfind
  | boxed q =>
    obtain rfl := Option.some.inj hx
    have hfind := IntegralType.findJavaConversion_boxed (.integer t) q
    by_cases hq : q.type = .integer t
    · rw [if_pos hq] at hfind
      rw [value, hfind] at h
      exact (Except.ok.inj h).symm.trans (hself q hq)
    · rw [if_neg hq] at hfind
      exact hlong rfl hfind
  | _ => cases hx

theorem JPNumber.number_of_new {t : IntegerType} (hx : x.number? = some n)
    (h : new t x = .ok y) : ∃ m, y.number? = some m ∧ m ≡ n [ZMOD 2 ^ t.bits] := by
  rw [new] at h
  cases hvalue : value t x with
  | error e =>
    rw [hvalue] at h
    cases h
  | ok q =>
    rw [hvalue] at h
    obtain rfl := Except.ok.inj h
    refine ⟨n.bmod (2 ^ t.bits), ?_, ?_⟩
    · rw [value_eq hx hvalue]
      rfl
    · have hmod : n.bmod (2 ^ t.bits) % ((2 ^ t.bits : ℕ) : ℤ) = n % ((2 ^ t.bits : ℕ) : ℤ) :=
        Int.bmod_emod
      rwa [Nat.cast_pow] at hmod

/-! ### Any number of crossings -/

/-- What each crossing keeps of the number, all of them do. -/
theorem cross_number {P : ℤ → Prop} {crossings : List Crossing}
    (hstep : ∀ c ∈ crossings, ∀ x m y, x.number? = some m → P m → c.cross x = .ok y →
      ∃ m', y.number? = some m' ∧ P m')
    (hx : x.number? = some n) (hn : P n) (h : cross crossings x = .ok y) :
    ∃ m, y.number? = some m ∧ P m := by
  induction crossings generalizing x n with
  | nil =>
    obtain rfl := Except.ok.inj h
    exact ⟨n, hx, hn⟩
  | cons c crossings ih =>
    rw [cross, List.foldlM_cons] at h
    cases hc : c.cross x with
    | error e =>
      rw [hc] at h
      cases h
    | ok z =>
      rw [hc] at h
      obtain ⟨m, hm, hP⟩ := hstep c List.mem_cons_self x n z hx hn hc
      exact ih (fun c' hc' ↦ hstep c' (List.mem_cons_of_mem c hc')) hm hP h

/-- However a number has been passed through variables of integer types, boxed classes, `Number` and
`Object` and through casts: where no error was raised, it has its low bits still, as many as the
narrowest cast leaves; and where there was no cast, it is the same number. A variable of type
`boolean` takes the truth value, and a `short` the low 16 bits of a `char`. -/
theorem number_crosses {crossings : List Crossing} (hx : x.number? = some n)
    (hboolean : ∀ t, .field t ∈ crossings → t.integral? ≠ some .boolean)
    (h : cross crossings x = .ok y) : ∃ m, y.number? = some m ∧
      (∀ w, (∀ t, .cast t ∈ crossings → w ≤ t.bits) →
        (∀ t, .field t ∈ crossings → t.integral? = some (.integer .short) → w ≤ 16) →
        m ≡ n [ZMOD 2 ^ w]) ∧
      ((∀ t, .cast t ∉ crossings) →
        (∀ t, .field t ∈ crossings → t.integral? = some (.integer .short) → n < 2 ^ 15) →
        m = n) := by
  obtain ⟨m, hm, -⟩ := cross_number (P := fun _ ↦ True) (fun c hc x k y hx _ hy ↦ by
    cases c with
    | field t =>
      obtain ⟨m, hm, -⟩ := JavaType.number_of_pass (hboolean t hc) hx hy
      exact ⟨m, hm, trivial⟩
    | cast t =>
      obtain ⟨m, hm, -⟩ := JPNumber.number_of_new hx hy
      exact ⟨m, hm, trivial⟩) hx trivial h
  refine ⟨m, hm, fun w hcast hshort ↦ ?_, fun hcast hshort ↦ ?_⟩
  · obtain ⟨m', hm', hmod⟩ := cross_number (P := fun m ↦ m ≡ n [ZMOD 2 ^ w])
      (fun c hc x k y hx hk hy ↦ by
        cases c with
        | field t =>
          obtain ⟨m, hm, harrives⟩ := JavaType.number_of_pass (hboolean t hc) hx hy
          refine ⟨m, hm, ?_⟩
          obtain rfl | ⟨ht, -, hmod⟩ := harrives
          · exact hk
          · exact (hmod.of_dvd (pow_dvd_pow 2 (hshort t hc ht))).trans hk
        | cast t =>
          obtain ⟨m, hm, hmod⟩ := JPNumber.number_of_new hx hy
          exact ⟨m, hm, (hmod.of_dvd (pow_dvd_pow 2 (hcast t hc))).trans hk⟩) hx rfl h
    rwa [Option.some.inj (hm.symm.trans hm')]
  · obtain ⟨m', hm', heq⟩ := cross_number (P := (· = n)) (fun c hc x k y hx hk hy ↦ by
      cases c with
      | field t =>
        obtain ⟨m, hm, harrives⟩ := JavaType.number_of_pass (hboolean t hc) hx hy
        refine ⟨m, hm, ?_⟩
        obtain rfl | ⟨ht, hle, -⟩ := harrives
        · exact hk
        · have hlt := hshort t hc ht
          omega
      | cast t => exact absurd hc (hcast t)) hx rfl h
    rw [Option.some.inj (hm.symm.trans hm'), heq]

/-- A character code on its way. -/
def charCrossings : List Crossing :=
  [.field (.primitive .char), .field .object, .field (.primitive .char),
    .field (.boxed (.integer .int)), .cast .byte]

theorem number_crosses_char : ∃ m, (PyValue.primitive (.cast .byte 40000)).number? = some m ∧
    m ≡ 40000 [ZMOD 2 ^ 8] := by
  have hcross : cross charCrossings (.int 40000) = .ok (.primitive (.cast .byte 40000)) := rfl
  obtain ⟨m, hm, hmod, -⟩ := number_crosses (n := 40000) rfl (fun t ht ↦ by
    rw [charCrossings] at ht
    simp only [List.mem_cons, Crossing.field.injEq, reduceCtorEq, List.not_mem_nil, or_false] at ht
    rcases ht with rfl | rfl | rfl | rfl <;> decide) hcross
  refine ⟨m, hm, hmod 8 (fun t ht ↦ ?_) fun t ht hshort ↦ by decide⟩
  cases t <;> decide

/-! ### Which numbers get through -/

/-- Every number of the type is one of the other: this is where the language widens. -/
def IntegralType.WidensTo (s t : IntegralType) : Prop :=
  ∀ n, s.Holds n → t.Holds n

/-- What is read from a variable of the first type can be put into one of the second: it is widened,
or it is a `char` for a `short`, which keeps the low bits. -/
def IntegralType.Into (s t : IntegralType) : Prop :=
  s.WidensTo t ∨ s = .char ∧ t = .integer .short

/-- The number that is left of another one, after a variable of the type and variables of further
types behind it. -/
def lastNumber (t : IntegralType) (types : List IntegralType) (n : ℤ) : ℤ :=
  if t = .char ∧ .integer .short ∈ types then n.bmod (2 ^ 16) else n

namespace IntegralType

theorem integer_widensTo_iff {s t : IntegerType} :
    (integer s).WidensTo (integer t) ↔ s.bits ≤ t.bits :=
  forall_fits_iff t.bits_pos

theorem char_widensTo_iff {t : IntegerType} : char.WidensTo (integer t) ↔ 16 < t.bits := by
  constructor
  · intro h
    have hlast : Fits t.bits (2 ^ 16 - 1) := h _ (by decide)
    cases t with
    | byte => exact absurd hlast (by decide)
    | short => exact absurd hlast (by decide)
    | int => decide
    | long => decide
  · rintro hbits n ⟨hlow, hhigh⟩
    have hfits : Fits 17 n := ⟨by omega, hhigh⟩
    exact hfits.mono hbits

theorem holds_neg_one (t : IntegerType) : (integer t).Holds (-1) := by
  cases t <;> decide

/-- The types that are widened to a type are those of its list, but that of `short` has `char`. -/
theorem into_iff {s t : IntegralType} (hs : s ≠ boolean) (ht : t ≠ boolean) :
    s.Into t ↔ s = t ∨ s ∈ t.widened := by
  cases s with
  | boolean => exact absurd rfl hs
  | char =>
    cases t with
    | boolean => exact absurd rfl ht
    | char => exact iff_of_true (.inl fun _ h ↦ h) (.inl rfl)
    | integer t =>
      rw [Into, char_widensTo_iff]
      cases t <;> decide
  | integer s =>
    cases t with
    | boolean => exact absurd rfl ht
    | char =>
      refine iff_of_false ?_ (by simp [widened])
      rintro (hwidens | ⟨hchar, -⟩)
      · exact absurd (hwidens _ (holds_neg_one s)) (by decide)
      · cases hchar
    | integer t =>
      rw [Into, integer_widensTo_iff]
      cases s <;> cases t <;> decide

/-- No `short` is behind a type that is wider than `char`. -/
theorem short_notMem_of_isChain {t : IntegralType} {types : List IntegralType}
    (hneg : t.Holds (-1)) (hhigh : t.Holds (2 ^ 15)) (h : (t :: types).IsChain Into) :
    integer .short ∉ types := by
  induction types generalizing t with
  | nil => exact List.not_mem_nil
  | cons s types ih =>
    obtain ⟨hinto, hrest⟩ := List.isChain_cons_cons.1 h
    have hwidens : t.WidensTo s :=
      hinto.resolve_right fun hchar ↦ absurd (hchar.1 ▸ hneg) (by decide)
    have hs : integer .short ≠ s := fun heq ↦
      absurd (heq ▸ hwidens _ hhigh : (integer .short).Holds (2 ^ 15)) (by decide)
    rw [List.mem_cons, not_or]
    exact ⟨hs, ih (hwidens _ hneg) (hwidens _ hhigh) hrest⟩

/-- A variable that takes the value of another one has its number, or the low bits of a `char`. -/
theorem take_primitive_of_into (refusal : String) (hp : p.type ≠ boolean) (ht : t ≠ boolean)
    (h : p.type.Into t) : ∃ q : Primitive, t.take refusal (.primitive p) = .ok q ∧ q.type = t ∧
      q.value = lastNumber p.type [t] p.value := by
  by_cases hpt : p.type = t
  · obtain rfl := hpt
    refine ⟨p, take_primitive_self refusal p, rfl, (if_neg ?_).symm⟩
    rintro ⟨hchar, hshort⟩
    rw [hchar] at hshort
    cases List.mem_singleton.1 hshort
  · have hwiden : p.type ∈ t.widened := ((into_iff hp ht).1 h).resolve_left hpt
    cases t with
    | boolean => exact absurd rfl ht
    | char => cases hwiden
    | integer t =>
      refine ⟨_, take_primitive_widened refusal hpt hwiden, rfl, ?_⟩
      show p.value.bmod (2 ^ t.bits) = _
      rw [lastNumber]
      split
      · next hshort =>
        obtain rfl : IntegerType.short = t := integer.inj (List.mem_singleton.1 hshort.2)
        rfl
      · next hshort =>
        refine bmod_of_fits t.bits_pos (h.resolve_right ?_ _ p.holds)
        exact fun hchar ↦ hshort ⟨hchar.1, List.mem_singleton.2 hchar.2.symm⟩

end IntegralType

/-- The number that is left in the first variable goes on. -/
theorem lastNumber_cons {s : IntegralType} {types : List IntegralType} (hs : s ≠ .boolean)
    (ht : t ≠ .boolean) (h : (s :: t :: types).IsChain IntegralType.Into) :
    lastNumber s (t :: types) n = lastNumber t types (lastNumber s [t] n) := by
  obtain ⟨hinto, hrest⟩ := List.isChain_cons_cons.1 h
  cases t with
  | boolean => exact absurd rfl ht
  | char =>
    -- only a `char` is put into a `char`
    obtain rfl : s = .char :=
      ((IntegralType.into_iff hs ht).1 hinto).resolve_right List.not_mem_nil
    simp [lastNumber]
  | integer t =>
    by_cases hshort : t = .short
    · simp [lastNumber, hshort]
    have hnot : s = .char → IntegralType.integer .short ∉ types := by
      rintro rfl
      have hwidens : IntegralType.char.WidensTo (.integer t) :=
        hinto.resolve_right fun hchar ↦ hshort (IntegralType.integer.inj hchar.2)
      exact IntegralType.short_notMem_of_isChain (IntegralType.holds_neg_one t)
        (hwidens _ (by decide)) hrest
    have hleft : ¬(s = .char ∧ IntegralType.integer .short ∈ .integer t :: types) := by
      rintro ⟨hchar, hmem⟩
      rcases List.mem_cons.1 hmem with heq | hmem
      · exact hshort (IntegralType.integer.inj heq).symm
      · exact hnot hchar hmem
    have hone : ¬(s = .char ∧ IntegralType.integer .short ∈ [.integer t]) := by
      rintro ⟨-, hmem⟩
      exact hshort (IntegralType.integer.inj (List.mem_singleton.1 hmem)).symm
    rw [lastNumber, lastNumber, lastNumber, if_neg hleft, if_neg hone, if_neg (by simp)]

theorem pass_of_take {q : Primitive} (ht : t ≠ .boolean)
    (h : t.take (JavaType.primitive t).refusal x = .ok q) (hq : q.type = t) :
    (JavaType.primitive t).pass x = .ok (.primitive q) := by
  show JavaValue.convertToPythonObject <$> JavaValue.primitive <$> t.take _ x = _
  rw [h]
  exact congrArg Except.ok (if_neg (hq ▸ ht))

theorem pass_of_error {e : PyError} (h : t.take (JavaType.primitive t).refusal x = .error e) :
    (JavaType.primitive t).pass x = .error e := by
  show JavaValue.convertToPythonObject <$> JavaValue.primitive <$> t.take _ x = _
  rw [h]
  rfl

theorem cross_cons (c : Crossing) (crossings : List Crossing) :
    cross (c :: crossings) x = c.cross x >>= cross crossings := by
  rw [cross, List.foldlM_cons]
  rfl

/-- The value of the last of these variables. -/
def IsLast (t : IntegralType) (types : List IntegralType) (n : ℤ) (y : PyValue) : Prop :=
  ∃ q : Primitive, y = .primitive q ∧ q.type = (t :: types).getLast (List.cons_ne_nil t types) ∧
    q.value = lastNumber t types n

/-- A value goes through variables of primitive types, none of them `boolean`, exactly if each type
can be put into the next one. -/
theorem cross_primitive_iff {types : List IntegralType} (hboolean : .boolean ∉ p.type :: types) :
    cross (types.map (.field ∘ .primitive)) (.primitive p) = .ok y ↔
      (p.type :: types).IsChain IntegralType.Into ∧ IsLast p.type types p.value y := by
  induction types generalizing p with
  | nil =>
    constructor
    · intro h
      obtain rfl := Except.ok.inj h
      exact ⟨.singleton _, p, rfl, rfl, (if_neg (by simp)).symm⟩
    · rintro ⟨-, q, rfl, htype, hvalue⟩
      rw [lastNumber, if_neg (by simp)] at hvalue
      obtain ⟨s, m, hm⟩ := p
      obtain ⟨s', m', hm'⟩ := q
      obtain rfl : s' = s := htype
      obtain rfl : m' = m := hvalue
      rfl
  | cons t types ih =>
    obtain ⟨hp, hrest⟩ := not_or.1 (mt List.mem_cons.2 hboolean)
    have ht : t ≠ .boolean := fun h ↦ hrest (h ▸ List.mem_cons_self)
    rw [List.map_cons, cross_cons, List.isChain_cons_cons]
    show (JavaType.primitive t).pass (.primitive p) >>= _ = .ok y ↔ _
    by_cases hinto : p.type.Into t
    · obtain ⟨q, htake, rfl, hvalue⟩ := IntegralType.take_primitive_of_into
        (JavaType.primitive t).refusal (Ne.symm hp) ht hinto
      rw [pass_of_take ht htake rfl]
      refine (ih hrest).trans ⟨fun ⟨hchain, hlast⟩ ↦ ⟨⟨hinto, hchain⟩, ?_⟩,
        fun ⟨⟨_, hchain⟩, hlast⟩ ↦ ⟨hchain, ?_⟩⟩
      all_goals
        have hnumber := lastNumber_cons (n := p.value) (Ne.symm hp) ht
          (List.isChain_cons_cons.2 ⟨hinto, hchain⟩)
        obtain ⟨last, hy, htype, hlast⟩ := hlast
      · exact ⟨last, hy, htype, hlast.trans (hvalue ▸ hnumber.symm)⟩
      · exact ⟨last, hy, htype, hlast.trans (hvalue ▸ hnumber)⟩
    · have hnot := mt (IntegralType.into_iff (Ne.symm hp) ht).2 hinto
      have htake := IntegralType.take_primitive_of_not_mem (JavaType.primitive t).refusal
        (fun h ↦ hnot (.inl h)) fun h ↦ hnot (.inr h)
      rw [pass_of_error htake]
      exact ⟨fun h ↦ (by cases h), fun h ↦ absurd h.1.1 hinto⟩

/-- A Python `int` gets through them exactly if the first type has it and each type can be put into
the next one. It comes out in the last one as it is, or with its low 16 bits if it went from a
`char` into a `short`. -/
theorem int_crosses_iff {types : List IntegralType} (hboolean : .boolean ∉ t :: types) :
    cross ((t :: types).map (.field ∘ .primitive)) (.int n) = .ok y ↔
      t.Holds n ∧ (t :: types).IsChain IntegralType.Into ∧ IsLast t types n y := by
  have ht : t ≠ .boolean := fun h ↦ hboolean (h ▸ List.mem_cons_self)
  rw [List.map_cons, cross_cons]
  show (JavaType.primitive t).pass (.int n) >>= _ = .ok y ↔ _
  by_cases hn : t.Holds n
  · have htake := IntegralType.take_index_of_holds (x := .int n)
      (JavaType.primitive t).refusal rfl (fun _ _ _ ↦ rfl) ht hn
    rw [pass_of_take ht htake rfl]
    exact (cross_primitive_iff (p := ⟨t, n, hn⟩) hboolean).trans (and_iff_right hn).symm
  · obtain ⟨message, htake⟩ := IntegralType.take_index_of_not_holds (x := .int n)
      (JavaType.primitive t).refusal rfl (fun _ _ _ ↦ rfl) ht hn
    rw [pass_of_error htake]
    exact ⟨fun h ↦ (by cases h), fun h ↦ absurd h.1 hn⟩

/-- 40000 is a `char`, but no `short`. -/
theorem int_crosses_char : cross ([.char, .integer .short].map (.field ∘ .primitive)) (.int 40000) =
    .ok (.primitive (.cast .short 40000)) :=
  (int_crosses_iff (by decide)).2 ⟨by decide, by simp [IntegralType.Into],
    .cast .short 40000, rfl, rfl, rfl⟩

end Number

end JPype.Integral
