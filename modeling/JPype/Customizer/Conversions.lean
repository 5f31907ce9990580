import JPype.Overload.Match
import Mathlib.Data.List.Induction

/-!
# User conversions

The conversions that users add to the hints of a Java class, and `JPClassHints::getConversion`,
which looks for one that accepts a Python object. Rules for a type or an attribute go to the end
of the list and exclusions to its front. An exclusion that applies stops the search by returning
`_implicit` while it leaves `_none` in the match.

The documentation of `JConversion` restricts an `exact` rule to objects of that very type, but
`JPTypeConversion::matches` asks `PyObject_IsInstance` for these rules too. `takesEffect_iff` says
for which objects hints take effect as documented all the same.
-/

namespace JPype

/-- What `PyObject_IsInstance` returns: `1`, `0`, or `-1` with an exception set. -/
inductive InstanceCheck where
  | yes
  | no
  | error
  deriving DecidableEq, Repr

/-- What hints ask of Python objects, of the types given to `JConversion`, and of its
functions. -/
structure PythonTypes (Obj Ty Fn : Type) where
  /-- `Py_TYPE` -/
  typeOf : Obj → Ty
  /-- `PyObject_IsInstance` -/
  isInstance : Obj → Ty → InstanceCheck
  /-- `PyObject_GetAttrString` finds the attribute. Any exception is cleared. -/
  hasAttr : Obj → String → Bool
  /-- The object is a type or has `__instancecheck__`. -/
  isTypeOrProtocol : Ty → Bool
  /-- `PyJPClass_Check` -/
  isJPClass : Ty → Bool
  /-- `Py_TYPE(t)->tp_name` -/
  typeName : Ty → String
  /-- `PyCallable_Check` -/
  isCallable : Fn → Bool

namespace JPClassHints

/-- The three kinds of conversion that hints hold, with what their constructors are given. -/
inductive Rule (Ty Fn : Type) where
  /-- `JPNoneConversion` -/
  | none (type : Ty)
  /-- `JPTypeConversion` -/
  | type (type : Ty) (method : Fn) (exact : Bool)
  /-- `JPAttributeConversion` -/
  | attr (name : String) (method : Fn)
  deriving DecidableEq, Repr

/-- `JPConversion`: a rule as an object. `ptr` is its identity, the number of conversions that
were made for the hints before it. -/
structure JPConversion (Ty Fn : Type) where
  ptr : ℕ
  rule : Rule Ty Fn
  deriving DecidableEq, Repr

/-- `JPMatch`, as hints fill it. -/
structure JPMatch (Cls Obj Ty Fn : Type) where
  object : Obj
  type : MatchType := .none
  conversion : Option (JPConversion Ty Fn) := none
  closure : Option Cls := none

end JPClassHints

open JPClassHints

/-- `JPClassHints`. Conversions are never removed, so `allocated` is how many there are. -/
structure JPClassHints (Ty Fn : Type) where
  conversions : List (JPConversion Ty Fn) := []
  /-- `m_ConvertJava` -/
  convertJava : Bool := false
  allocated : ℕ := 0

namespace JPClassHints

variable {Cls Obj Ty Fn : Type} (P : PythonTypes Obj Ty Fn)

/-! ### Registration -/

/-- `addTypeConversion` -/
def addTypeConversion (h : JPClassHints Ty Fn) (type : Ty) (method : Fn) (exact : Bool) :
    JPClassHints Ty Fn where
  conversions := h.conversions ++ [⟨h.allocated, .type type method exact⟩]
  convertJava := if P.isJPClass type then true else h.convertJava
  allocated := h.allocated + 1

/-- `addAttributeConversion` -/
def addAttributeConversion (h : JPClassHints Ty Fn) (name : String) (conversion : Fn) :
    JPClassHints Ty Fn where
  conversions := h.conversions ++ [⟨h.allocated, .attr name conversion⟩]
  convertJava := h.convertJava
  allocated := h.allocated + 1

/-- `excludeConversion` -/
def excludeConversion (h : JPClassHints Ty Fn) (type : Ty) : JPClassHints Ty Fn where
  conversions := ⟨h.allocated, .none type⟩ :: h.conversions
  convertJava := h.convertJava
  allocated := h.allocated + 1

/-- One registration. -/
def register (h : JPClassHints Ty Fn) : Rule Ty Fn → JPClassHints Ty Fn
  | .none type => h.excludeConversion type
  | .type type method exact => h.addTypeConversion P type method exact
  | .attr name method => h.addAttributeConversion name method

/-- The hints after a sequence of registrations. -/
def registerAll (rules : List (Rule Ty Fn)) : JPClassHints Ty Fn :=
  rules.foldl (register P) {}

/-- `badType` -/
def badType (t : Ty) : String :=
  "type or protocol is required, not '" ++ P.typeName t ++ "'"

/-- `PyJPClassHints_addTypeConversion` -/
def pyAddTypeConversion (h : JPClassHints Ty Fn) (type : Ty) (method : Fn) (exact : Bool) :
    Except String (JPClassHints Ty Fn) :=
  if P.isTypeOrProtocol type = false then .error (badType P type)
  else if P.isCallable method = false then .error "callable method is required"
  else .ok (h.addTypeConversion P type method exact)

/-- `PyJPClassHints_addAttributeConversion` -/
def pyAddAttributeConversion (h : JPClassHints Ty Fn) (name : String) (method : Fn) :
    Except String (JPClassHints Ty Fn) :=
  if P.isCallable method = false then .error "callable method is required"
  else .ok (h.addAttributeConversion name method)

/-- `PyJPClassHints_excludeConversion`, on a tuple of types or a single one. -/
def pyExcludeConversion (h : JPClassHints Ty Fn) (types : List Ty) :
    Except String (JPClassHints Ty Fn) :=
  match types.find? fun t ↦ !P.isTypeOrProtocol t with
  | some t => .error (badType P t)
  | none => .ok (types.foldl excludeConversion h)

/-- The keywords of `JConversion`. -/
structure ConversionKeywords (Ty : Type) where
  exact : Option Ty := none
  instanceof : Option Ty := none
  attr : Option String := none
  /-- A tuple, or a single type. -/
  excludes : Option (List Ty) := none

/-- A call that leaves the hints as they are when it raises, with what it raised. -/
def attempt (h : JPClassHints Ty Fn) (call : Option (Except String (JPClassHints Ty Fn))) :
    JPClassHints Ty Fn × Option String :=
  match call with
  | none => (h, none)
  | some (.error message) => (h, some message)
  | some (.ok h) => (h, none)

/-- The function `customizer` that `JConversion` returns. -/
def customizer (keywords : ConversionKeywords Ty) (func : Fn) (h : JPClassHints Ty Fn) :
    JPClassHints Ty Fn × Option String :=
  match h.attempt (keywords.exact.map fun t ↦ h.pyAddTypeConversion P t func true) with
  | (h, some message) => (h, some message)
  | (h, none) =>
    match h.attempt (keywords.instanceof.map fun t ↦ h.pyAddTypeConversion P t func false) with
    | (h, some message) => (h, some message)
    | (h, none) =>
      h.attempt (keywords.attr.map fun a ↦ h.pyAddAttributeConversion P a func)

/-- `JConversion`, applied to a function: the hints and the `TypeError`, if there is one. -/
def jConversion (keywords : ConversionKeywords Ty) (func : Fn) (h : JPClassHints Ty Fn) :
    JPClassHints Ty Fn × Option String :=
  match h.attempt (keywords.excludes.map (h.pyExcludeConversion P)) with
  | (h, some message) => (h, some message)
  | (h, none) => customizer P keywords func h

/-! ### The order of the list -/

/-- The rules as the conversions that registration makes of them. -/
def numbered (rules : List (Rule Ty Fn)) : List (JPConversion Ty Fn) :=
  rules.mapIdx fun i rule ↦ ⟨i, rule⟩

/-- The rule is an exclusion. -/
def Rule.isNone : Rule Ty Fn → Bool
  | .none _ => true
  | .type _ _ _ => false
  | .attr _ _ => false

theorem numbered_concat (rules : List (Rule Ty Fn)) (rule : Rule Ty Fn) :
    numbered (rules ++ [rule]) = numbered rules ++ [⟨rules.length, rule⟩] :=
  List.mapIdx_concat

/-- Exclusions stand in front, the last one first, and the others after them in order. -/
theorem conversions_registerAll (rules : List (Rule Ty Fn)) :
    (registerAll P rules).allocated = rules.length ∧
      (registerAll P rules).conversions =
        ((numbered rules).filter fun c ↦ c.rule.isNone).reverse ++
          (numbered rules).filter fun c ↦ !c.rule.isNone := by
  induction rules using List.reverseRecOn with
  | nil => exact ⟨rfl, rfl⟩
  | append_singleton rules rule ih =>
    obtain ⟨hlength, hconversions⟩ := ih
    have hrun : registerAll P (rules ++ [rule]) = (registerAll P rules).register P rule :=
      List.foldl_concat ..
    rw [hrun, numbered_concat, List.filter_append, List.filter_append, List.length_append]
    rcases rule with type | ⟨type, method, exact⟩ | ⟨name, method⟩
    all_goals
      refine ⟨congrArg (· + 1) hlength, ?_⟩
      simp only [register, excludeConversion, addTypeConversion, addAttributeConversion, hlength,
        hconversions]
      simp [Rule.isNone]

theorem mem_numbered {rules : List (Rule Ty Fn)} {c : JPConversion Ty Fn} :
    c ∈ numbered rules ↔ rules[c.ptr]? = some c.rule := by
  rw [numbered, List.mem_mapIdx]
  constructor
  · rintro ⟨i, hi, rfl⟩
    exact List.getElem?_eq_getElem hi
  · intro h
    obtain ⟨hi, hrule⟩ := List.getElem?_eq_some_iff.1 h
    exact ⟨c.ptr, hi, by rw [hrule]⟩

/-- The first conversion of a kind is the one registered first. -/
theorem find?_numbered {rules : List (Rule Ty Fn)} {p : Rule Ty Fn → Bool}
    {c : JPConversion Ty Fn} :
    (numbered rules).find? (fun c ↦ p c.rule) = some c ↔
      rules[c.ptr]? = some c.rule ∧ p c.rule = true ∧
        ∀ j < c.ptr, ∀ rule, rules[j]? = some rule → p rule = false := by
  rw [List.find?_eq_some_iff_getElem]
  constructor
  · rintro ⟨hp, i, hi, rfl, hfirst⟩
    have hlength : i < rules.length := by simpa [numbered] using hi
    refine ⟨by simp [numbered], hp, fun j hj rule hrule ↦ ?_⟩
    have hj : j < i := by simpa [numbered] using hj
    have := hfirst j hj
    obtain ⟨hj', rfl⟩ := List.getElem?_eq_some_iff.1 hrule
    simpa [numbered] using this
  · rintro ⟨hrule, hp, hfirst⟩
    obtain ⟨hi, hrule⟩ := List.getElem?_eq_some_iff.1 hrule
    refine ⟨hp, c.ptr, by simpa [numbered] using hi, by simp [numbered, hrule], fun j hj ↦ ?_⟩
    have hj' : j < rules.length := hj.trans hi
    simpa [numbered] using hfirst j hj rules[j] (List.getElem?_eq_getElem hj')

/-! ### Hints that `JConversion` builds -/

/-- The hints come from a sequence of registrations. -/
def Registered (h : JPClassHints Ty Fn) : Prop :=
  ∃ rules, h = registerAll P rules

variable {P}

theorem Registered.register {h : JPClassHints Ty Fn} (hreg : Registered P h)
    (rule : Rule Ty Fn) : Registered P (h.register P rule) := by
  obtain ⟨rules, rfl⟩ := hreg
  exact ⟨rules ++ [rule], (List.foldl_concat ..).symm⟩

theorem Registered.excludeAll {h : JPClassHints Ty Fn} (hreg : Registered P h)
    (types : List Ty) : Registered P (types.foldl excludeConversion h) := by
  induction types generalizing h with
  | nil => exact hreg
  | cons t types ih => exact ih (hreg.register (.none t))

/-- A call keeps hints registered if the hints it returns are. -/
theorem Registered.attempt {h : JPClassHints Ty Fn} (hreg : Registered P h)
    {call : Option (Except String (JPClassHints Ty Fn))}
    (hcall : ∀ h', call = some (.ok h') → Registered P h') :
    Registered P (h.attempt call).1 := by
  rcases call with - | message | h'
  · exact hreg
  · exact hreg
  · exact hcall h' rfl

theorem Registered.pyAddTypeConversion {h h' : JPClassHints Ty Fn} (hreg : Registered P h)
    {t : Ty} {method : Fn} {exact : Bool}
    (hcall : h.pyAddTypeConversion P t method exact = .ok h') : Registered P h' := by
  rw [JPClassHints.pyAddTypeConversion] at hcall
  split_ifs at hcall
  exact Except.ok.inj hcall ▸ hreg.register (.type t method exact)

theorem Registered.pyAddAttributeConversion {h h' : JPClassHints Ty Fn}
    (hreg : Registered P h) {name : String} {method : Fn}
    (hcall : h.pyAddAttributeConversion P name method = .ok h') : Registered P h' := by
  rw [JPClassHints.pyAddAttributeConversion] at hcall
  split_ifs at hcall
  exact Except.ok.inj hcall ▸ hreg.register (.attr name method)

theorem Registered.pyExcludeConversion {h h' : JPClassHints Ty Fn} (hreg : Registered P h)
    {types : List Ty} (hcall : h.pyExcludeConversion P types = .ok h') : Registered P h' := by
  rw [JPClassHints.pyExcludeConversion] at hcall
  split at hcall
  · cases hcall
  · exact Except.ok.inj hcall ▸ hreg.excludeAll types

theorem Registered.customizer {h : JPClassHints Ty Fn} (hreg : Registered P h)
    (keywords : ConversionKeywords Ty) (func : Fn) :
    Registered P (JPClassHints.customizer P keywords func h).1 := by
  have hexact : Registered P (h.attempt
      (keywords.exact.map fun t ↦ h.pyAddTypeConversion P t func true)).1 := by
    refine hreg.attempt fun h' hcall ↦ ?_
    obtain ⟨t, -, hcall⟩ := Option.map_eq_some_iff.1 hcall
    exact hreg.pyAddTypeConversion hcall
  rw [JPClassHints.customizer]
  split
  · next h₁ message heq =>
    rw [heq] at hexact
    exact hexact
  · next h₁ heq =>
    rw [heq] at hexact
    have hexact : Registered P h₁ := hexact
    have hinstance : Registered P (h₁.attempt
        (keywords.instanceof.map fun t ↦ h₁.pyAddTypeConversion P t func false)).1 := by
      refine hexact.attempt fun h' hcall ↦ ?_
      obtain ⟨t, -, hcall⟩ := Option.map_eq_some_iff.1 hcall
      exact hexact.pyAddTypeConversion hcall
    split
    · next h₂ message heq =>
      rw [heq] at hinstance
      exact hinstance
    · next h₂ heq =>
      rw [heq] at hinstance
      have hinstance : Registered P h₂ := hinstance
      refine hinstance.attempt fun h' hcall ↦ ?_
      obtain ⟨a, -, hcall⟩ := Option.map_eq_some_iff.1 hcall
      exact hinstance.pyAddAttributeConversion hcall

/-- Whatever its keywords are, and whether or not it raises, `JConversion` makes registrations and
nothing else. -/
theorem Registered.jConversion {h : JPClassHints Ty Fn} (hreg : Registered P h)
    (keywords : ConversionKeywords Ty) (func : Fn) :
    Registered P (JPClassHints.jConversion P keywords func h).1 := by
  have hexcludes : Registered P
      (h.attempt (keywords.excludes.map (h.pyExcludeConversion P))).1 := by
    refine hreg.attempt fun h' hcall ↦ ?_
    obtain ⟨types, -, hcall⟩ := Option.map_eq_some_iff.1 hcall
    exact hreg.pyExcludeConversion hcall
  rw [JPClassHints.jConversion]
  split
  · next h₁ message heq =>
    rw [heq] at hexcludes
    exact hexcludes
  · next h₁ heq =>
    rw [heq] at hexcludes
    have hexcludes : Registered P h₁ := hexcludes
    exact hexcludes.customizer keywords func

variable (P)

/-! ### Rules as documented -/

/-- An excluded type has the object as an instance. -/
def Excluded (rules : List (Rule Ty Fn)) (x : Obj) : Prop :=
  ∃ t, Rule.none t ∈ rules ∧ P.isInstance x t = .yes

/-- What `JConversion` documents for its keywords: an exact type rule accepts the objects of that
very type, another type rule its instances, and an attribute rule what has the attribute. -/
def Rule.Accepts (rule : Rule Ty Fn) (x : Obj) : Prop :=
  match rule with
  | .none _ => False
  | .type t _ true => P.typeOf x = t
  | .type t _ false => P.isInstance x t = .yes
  | .attr name _ => P.hasAttr x name = true

/-- The conversion is the one registered first of those whose rule accepts the object. -/
structure Earliest (rules : List (Rule Ty Fn)) (x : Obj) (c : JPConversion Ty Fn) : Prop where
  registered : rules[c.ptr]? = some c.rule
  accepts : c.rule.Accepts P x
  first : ∀ j < c.ptr, ∀ rule, rules[j]? = some rule → ¬rule.Accepts P x

/-- An exact rule for another type that has the object as an instance, or a rule whose instance
check raises. -/
def Rule.Overreaches (rule : Rule Ty Fn) (x : Obj) : Prop :=
  match rule with
  | .none _ => False
  | .type t _ true => P.typeOf x ≠ t ∧ P.isInstance x t ≠ .no
  | .type t _ false => P.isInstance x t = .error
  | .attr _ _ => False

/-- Before every rule that overreaches another one accepts the object. -/
def Forestalled (rules : List (Rule Ty Fn)) (x : Obj) : Prop :=
  ∀ (i : ℕ) (rule : Rule Ty Fn), rules[i]? = some rule → rule.Overreaches P x →
    ∃ j < i, ∃ rule' : Rule Ty Fn, rules[j]? = some rule' ∧ rule'.Accepts P x

/-- No exclusion has the object as an instance, and none raises when it is asked. -/
def Unaffected (rules : List (Rule Ty Fn)) (x : Obj) : Prop :=
  ∀ t, Rule.none t ∈ rules → P.isInstance x t = .no

variable {P} {rules : List (Rule Ty Fn)}

theorem Rule.Accepts.isNone {rule : Rule Ty Fn} {x : Obj} (h : rule.Accepts P x) :
    rule.isNone = false := by
  rcases rule with t | ⟨t, method, exact⟩ | ⟨name, method⟩
  · exact h.elim
  · rfl
  · rfl

theorem Rule.Overreaches.isNone {rule : Rule Ty Fn} {x : Obj} (h : rule.Overreaches P x) :
    rule.isNone = false := by
  rcases rule with t | ⟨t, method, exact⟩ | ⟨name, method⟩
  · exact h.elim
  · rfl
  · rfl

theorem Rule.Overreaches.not_accepts {rule : Rule Ty Fn} {x : Obj} (h : rule.Overreaches P x) :
    ¬rule.Accepts P x := by
  intro haccepts
  rcases rule with t | ⟨t, method, - | -⟩ | ⟨name, method⟩
  · exact h
  · exact InstanceCheck.noConfusion (haccepts.symm.trans h)
  · exact h.1 haccepts
  · exact h

theorem Earliest.unique {x : Obj} {c c' : JPConversion Ty Fn} (h : Earliest P rules x c)
    (h' : Earliest P rules x c') : c = c' := by
  rcases c with ⟨i, rule⟩
  rcases c' with ⟨i', rule'⟩
  rcases lt_trichotomy i i' with hlt | rfl | hlt
  · exact absurd h.accepts (h'.first i hlt rule h.registered)
  · have hrule : rule = rule' := Option.some.inj (h.registered.symm.trans h'.registered)
    rw [hrule]
  · exact absurd h'.accepts (h.first i' hlt rule' h'.registered)

/-- If some rule accepts the object, one is the first. -/
theorem exists_earliest {x : Obj} (h : ∃ rule ∈ rules, rule.Accepts P x) :
    ∃ c, Earliest P rules x c := by
  classical
  obtain ⟨rule, hmem, haccepts⟩ := h
  obtain ⟨i, hi, rfl⟩ := List.getElem_of_mem hmem
  rcases hfind : (numbered rules).find? (fun c ↦ decide (c.rule.Accepts P x)) with - | c
  · have := List.find?_eq_none.1 hfind ⟨i, rules[i]⟩
      (mem_numbered.2 (List.getElem?_eq_getElem hi))
    exact absurd haccepts (by simpa using this)
  · obtain ⟨hrule, haccepts, hfirst⟩ :=
      (find?_numbered (p := fun rule ↦ decide (rule.Accepts P x))).1 hfind
    exact ⟨c, hrule, of_decide_eq_true haccepts,
      fun j hj rule hrule ↦ of_decide_eq_false (hfirst j hj rule hrule)⟩

theorem not_excluded_of_unaffected {x : Obj} (h : Unaffected P rules x) :
    ¬Excluded P rules x := by
  rintro ⟨t, hmem, hyes⟩
  exact InstanceCheck.noConfusion (hyes.symm.trans (h t hmem))

/-- What a rule that applies reports. -/
def Rule.quality : Rule Ty Fn → MatchType
  | .none _ => .none
  | .type _ _ _ => .implicit
  | .attr _ _ => .implicit

theorem Rule.quality_eq_none {rule : Rule Ty Fn} (h : rule.isNone = true) :
    rule.quality = .none := by
  rcases rule with t | ⟨t, method, exact⟩ | ⟨name, method⟩
  · rfl
  · cases h
  · cases h

theorem Rule.quality_of_isNone {rule : Rule Ty Fn} (h : rule.isNone = false) :
    rule.quality = .implicit := by
  rcases rule with t | ⟨t, method, exact⟩ | ⟨name, method⟩
  · cases h
  · rfl
  · rfl

/-! ### The search -/

variable (P) [DecidableEq Ty]

/-- `matches` of the three kinds of conversion: the quality, and the match. -/
def JPConversion.matchesObject (c : JPConversion Ty Fn) (cls : Cls)
    (m : JPMatch Cls Obj Ty Fn) : MatchType × JPMatch Cls Obj Ty Fn :=
  match c.rule with
  | .none type =>
    if P.isInstance m.object type = .no then (.none, m)
    else
      -- the quality prevents further searching
      (.implicit, { m with closure := some cls, conversion := some c, type := .none })
  | .type type _ exact =>
    if (exact = true ∧ P.typeOf m.object = type) ∨ P.isInstance m.object type ≠ .no then
      (.implicit, { m with closure := some cls, conversion := some c, type := .implicit })
    else (.none, m)
  | .attr name _ =>
    if P.hasAttr m.object name then
      (.implicit, { m with closure := some cls, conversion := some c, type := .implicit })
    else (.none, m)

/-- The loop of `getConversion`. -/
def getConversionLoop (cls : Cls) :
    List (JPConversion Ty Fn) → Option (JPConversion Ty Fn) → JPMatch Cls Obj Ty Fn →
      MatchType × JPMatch Cls Obj Ty Fn
  | [], none, m => (.none, { m with conversion := none, type := .none })
  | [], some best, m => (.explicit, { m with conversion := some best, type := .explicit })
  | conversion :: rest, best, m =>
    let (quality, m) := conversion.matchesObject P cls m
    if .explicit < quality then (m.type, m)
    else getConversionLoop cls rest (if quality ≠ .none then some conversion else best) m

/-- `JPClassHints::getConversion` -/
def getConversion (h : JPClassHints Ty Fn) (m : JPMatch Cls Obj Ty Fn) (cls : Cls) :
    MatchType × JPMatch Cls Obj Ty Fn :=
  getConversionLoop P cls h.conversions none m

/-- `JPHintsConversion::matches` -/
def hintsConversion (h : JPClassHints Ty Fn) (m : JPMatch Cls Obj Ty Fn) (cls : Cls) :
    MatchType × JPMatch Cls Obj Ty Fn :=
  let m := (h.getConversion P m cls).2
  (m.type, m)

/-! ### What the search finds -/

/-- The code takes the rule to apply to the object. -/
def Rule.applies (rule : Rule Ty Fn) (x : Obj) : Bool :=
  match rule with
  | .none t => P.isInstance x t ≠ .no
  | .type t _ exact => (exact = true ∧ P.typeOf x = t) ∨ P.isInstance x t ≠ .no
  | .attr name _ => P.hasAttr x name

/-- The match that a conversion leaves when it applies. -/
def JPConversion.fill (c : JPConversion Ty Fn) (cls : Cls) (m : JPMatch Cls Obj Ty Fn) :
    JPMatch Cls Obj Ty Fn :=
  { m with closure := some cls, conversion := some c, type := c.rule.quality }

variable {P}

theorem matchesObject_of_applies {c : JPConversion Ty Fn} {m : JPMatch Cls Obj Ty Fn}
    (h : c.rule.applies P m.object = true) (cls : Cls) :
    c.matchesObject P cls m = (.implicit, c.fill cls m) := by
  rcases c with ⟨ptr, t | ⟨t, method, exact⟩ | ⟨name, method⟩⟩
  · exact if_neg (of_decide_eq_true h)
  · exact if_pos (of_decide_eq_true h)
  · exact if_pos h

theorem matchesObject_of_not_applies {c : JPConversion Ty Fn} {m : JPMatch Cls Obj Ty Fn}
    (h : c.rule.applies P m.object = false) (cls : Cls) :
    c.matchesObject P cls m = (.none, m) := by
  rcases c with ⟨ptr, t | ⟨t, method, exact⟩ | ⟨name, method⟩⟩
  · exact if_pos (not_not.1 (of_decide_eq_false h))
  · exact if_neg (of_decide_eq_false h)
  · exact if_neg (ne_true_of_eq_false h)

/-- The search ends at the first conversion that applies. -/
theorem getConversion_eq (h : JPClassHints Ty Fn) (m : JPMatch Cls Obj Ty Fn) (cls : Cls) :
    h.getConversion P m cls =
      match h.conversions.find? fun c ↦ c.rule.applies P m.object with
      | none => (.none, { m with conversion := none, type := .none })
      | some c => (c.rule.quality, c.fill cls m) := by
  rw [getConversion]
  induction h.conversions with
  | nil => rfl
  | cons c rest ih =>
    rw [getConversionLoop, List.find?_cons]
    rcases happlies : c.rule.applies P m.object with - | -
    · simp only [matchesObject_of_not_applies happlies]
      exact ih
    · simp only [matchesObject_of_applies happlies]
      rfl

/-! ### Hints in effect -/

variable (P)

/-- **Hints take effect** in the order of their registration, with exclusions first. -/
structure TakesEffect (rules : List (Rule Ty Fn)) (m : JPMatch Cls Obj Ty Fn) (cls : Cls) :
    Prop where
  excluded : Excluded P rules m.object → ((registerAll P rules).getConversion P m cls).1 = .none
  selected : ¬Excluded P rules m.object → ∀ c, Earliest P rules m.object c →
    ((registerAll P rules).getConversion P m cls).1 = .implicit ∧
      ((registerAll P rules).getConversion P m cls).2.conversion = some c ∧
      ((registerAll P rules).getConversion P m cls).2.closure = some cls
  unmatched : ¬Excluded P rules m.object → (∀ rule ∈ rules, ¬rule.Accepts P m.object) →
    ((registerAll P rules).getConversion P m cls).1 = .none
  /-- The match has the type that is reported. -/
  type : ((registerAll P rules).getConversion P m cls).2.type =
    ((registerAll P rules).getConversion P m cls).1
  /-- If none is reported, no conversion that converts anything is left in the match. -/
  conversion : ((registerAll P rules).getConversion P m cls).1 = .none →
    ∀ c, ((registerAll P rules).getConversion P m cls).2.conversion = some c →
      c.rule.isNone = true

/-- Hints take effect, and if none is reported the conversion in the match is null. -/
structure TakesEffectStrictly (rules : List (Rule Ty Fn)) (m : JPMatch Cls Obj Ty Fn)
    (cls : Cls) : Prop extends TakesEffect P rules m cls where
  null : ((registerAll P rules).getConversion P m cls).1 = .none →
    ((registerAll P rules).getConversion P m cls).2.conversion = none

variable {P}

theorem applies_iff {rule : Rule Ty Fn} {x : Obj} (h : rule.isNone = false) :
    rule.applies P x = true ↔ rule.Accepts P x ∨ rule.Overreaches P x := by
  rcases rule with t | ⟨t, method, exact⟩ | ⟨name, method⟩
  · cases h
  · rcases exact with - | -
    · simp only [Rule.applies, Rule.Accepts, Rule.Overreaches]
      rcases P.isInstance x t with - | - | - <;> simp
    · simp only [Rule.applies, Rule.Accepts, Rule.Overreaches]
      rcases eq_or_ne (P.typeOf x) t with htype | htype <;> simp [htype]
  · simp [Rule.applies, Rule.Accepts, Rule.Overreaches]

/-! ### When they take effect -/

theorem not_applies_of_unaffected {x : Obj} (h : Unaffected P rules x) {rule : Rule Ty Fn}
    (hmem : rule ∈ rules) (hrule : rule.isNone = true) : rule.applies P x = false := by
  rcases rule with t | ⟨t, method, exact⟩ | ⟨name, method⟩
  · exact decide_eq_false (not_not.2 (h t hmem))
  · cases hrule
  · cases hrule

/-- While no exclusion applies the search goes through the rules in order. -/
theorem find?_of_unaffected {x : Obj} (h : Unaffected P rules x) :
    (registerAll P rules).conversions.find? (fun c ↦ c.rule.applies P x) =
      (numbered rules).find? fun c ↦ c.rule.applies P x := by
  have hnone : ∀ c ∈ numbered rules, c.rule.isNone = true → c.rule.applies P x = false :=
    fun c hc ↦ not_applies_of_unaffected h (List.mem_of_getElem? (mem_numbered.1 hc))
  have hfront : ((numbered rules).filter fun c ↦ c.rule.isNone).reverse.find?
      (fun c ↦ c.rule.applies P x) = none := by
    refine List.find?_eq_none.2 fun c hc ↦ ?_
    obtain ⟨hmem, hrule⟩ := List.mem_filter.1 (List.mem_reverse.1 hc)
    exact ne_true_of_eq_false (hnone c hmem hrule)
  rw [(conversions_registerAll P rules).2, List.find?_append, hfront, Option.none_or,
    List.find?_filter]
  rw [← List.head?_filter, ← List.head?_filter]
  refine congrArg List.head? (List.filter_congr fun c hc ↦ ?_)
  rcases hrule : c.rule.isNone with - | -
  · simp
  · simp [hnone c hc hrule]

/-- An exclusion that applies is found before any other rule. -/
theorem exists_find?_of_affected {x : Obj} (h : ¬Unaffected P rules x) :
    ∃ c : JPConversion Ty Fn, c.rule.isNone = true ∧
      (registerAll P rules).conversions.find? (fun c ↦ c.rule.applies P x) = some c := by
  obtain ⟨t, hmem, hcheck⟩ : ∃ t, Rule.none t ∈ rules ∧ P.isInstance x t ≠ .no := by
    simpa [Unaffected] using h
  obtain ⟨i, hi, hrule⟩ := List.getElem_of_mem hmem
  have hfront : (⟨i, .none t⟩ : JPConversion Ty Fn) ∈
      ((numbered rules).filter fun c ↦ c.rule.isNone).reverse :=
    List.mem_reverse.2 (List.mem_filter.2
      ⟨mem_numbered.2 (by rw [List.getElem?_eq_getElem hi, hrule]), rfl⟩)
  rw [(conversions_registerAll P rules).2, List.find?_append]
  rcases hfind : ((numbered rules).filter fun c ↦ c.rule.isNone).reverse.find?
    (fun c ↦ c.rule.applies P x) with - | c
  · exact absurd (decide_eq_true hcheck) (List.find?_eq_none.1 hfind _ hfront)
  · refine ⟨c, ?_, by rw [hfind, Option.some_or]⟩
    exact (List.mem_filter.1 (List.mem_reverse.1 (List.mem_of_find?_eq_some hfind))).2

/-- What the search has found while no exclusion applies. -/
structure Found (P : PythonTypes Obj Ty Fn) (rules : List (Rule Ty Fn))
    (m : JPMatch Cls Obj Ty Fn) (cls : Cls) (c : JPConversion Ty Fn) : Prop where
  registered : rules[c.ptr]? = some c.rule
  applies : c.rule.Accepts P m.object ∨ c.rule.Overreaches P m.object
  first : ∀ j < c.ptr, ∀ rule : Rule Ty Fn, rules[j]? = some rule →
    ¬(rule.Accepts P m.object ∨ rule.Overreaches P m.object)
  type : ((registerAll P rules).getConversion P m cls).1 = .implicit
  conversion : ((registerAll P rules).getConversion P m cls).2 =
    { m with closure := some cls, conversion := some c, type := .implicit }

/-- While no exclusion applies, the search finds nothing or the first rule that accepts the object
or overreaches. -/
theorem found_or_none {m : JPMatch Cls Obj Ty Fn} (cls : Cls)
    (h : Unaffected P rules m.object) :
    ((∀ rule ∈ rules, ¬(rule.Accepts P m.object ∨ rule.Overreaches P m.object)) ∧
      (registerAll P rules).getConversion P m cls =
        (.none, { m with conversion := none, type := .none })) ∨
      ∃ c, Found P rules m cls c := by
  have happlies : ∀ rule : Rule Ty Fn,
      rule.Accepts P m.object ∨ rule.Overreaches P m.object → rule.applies P m.object = true :=
    fun rule hrule ↦ (applies_iff (hrule.elim (·.isNone) (·.isNone))).2 hrule
  rcases hfind : (numbered rules).find? (fun c ↦ c.rule.applies P m.object) with - | c
  · refine .inl ⟨fun rule hmem hrule ↦ ?_, by rw [getConversion_eq, find?_of_unaffected h, hfind]⟩
    obtain ⟨i, hi, rfl⟩ := List.getElem_of_mem hmem
    exact List.find?_eq_none.1 hfind ⟨i, rules[i]⟩
      (mem_numbered.2 (List.getElem?_eq_getElem hi)) (happlies _ hrule)
  · obtain ⟨hrule, hc, hfirst⟩ :=
      (find?_numbered (p := fun rule ↦ rule.applies P m.object)).1 hfind
    have heq : (registerAll P rules).getConversion P m cls = (c.rule.quality, c.fill cls m) := by
      rw [getConversion_eq, find?_of_unaffected h, hfind]
    have hisNone : c.rule.isNone = false := by
      by_contra hisNone
      rw [not_applies_of_unaffected h (List.mem_of_getElem? hrule) (by simpa using hisNone)] at hc
      cases hc
    have hquality : c.rule.quality = .implicit := Rule.quality_of_isNone hisNone
    refine .inr ⟨c, hrule, (applies_iff hisNone).1 hc, fun j hj rule hj' hor ↦ ?_, ?_, ?_⟩
    · exact ne_true_of_eq_false (hfirst j hj rule hj') (happlies rule hor)
    · rw [heq, hquality]
    · rw [heq, JPConversion.fill, hquality]

/-- Hints that find a rule that accepts the object take effect, and no rule overreaches before
it. -/
theorem Found.takesEffect {m : JPMatch Cls Obj Ty Fn} {cls : Cls} {c : JPConversion Ty Fn}
    (hc : Found P rules m cls c) (hnot : ¬Excluded P rules m.object)
    (hacc : c.rule.Accepts P m.object) :
    TakesEffectStrictly P rules m cls ∧ Forestalled P rules m.object := by
  have hearliest : Earliest P rules m.object c :=
    ⟨hc.registered, hacc, fun j hj rule hj' h ↦ hc.first j hj rule hj' (.inl h)⟩
  have hsome : ((registerAll P rules).getConversion P m cls).1 ≠ .none := by
    rw [hc.type]
    exact MatchType.noConfusion
  refine ⟨⟨⟨fun hex ↦ absurd hex hnot, fun _ c' hc' ↦ ?_, fun _ hall ↦ ?_, ?_,
    fun hnone ↦ absurd hnone hsome⟩, fun hnone ↦ absurd hnone hsome⟩, fun i rule hi hover ↦ ?_⟩
  · rw [← hearliest.unique hc', hc.conversion]
    exact ⟨hc.type, rfl, rfl⟩
  · exact absurd hacc (hall c.rule (List.mem_of_getElem? hc.registered))
  · rw [hc.type, hc.conversion]
  · rcases lt_trichotomy i c.ptr with hlt | rfl | hlt
    · exact absurd (.inr hover) (hc.first i hlt rule hi)
    · rw [← Option.some.inj (hc.registered.symm.trans hi)] at hover
      exact absurd hacc hover.not_accepts
    · exact ⟨c.ptr, hlt, c.rule, hc.registered, hacc⟩

/-- Hints that find a rule that overreaches do not take effect, and nothing forestalls it. -/
theorem Found.not_takesEffect {m : JPMatch Cls Obj Ty Fn} {cls : Cls} {c : JPConversion Ty Fn}
    (hc : Found P rules m cls c) (hnot : ¬Excluded P rules m.object)
    (hover : c.rule.Overreaches P m.object) :
    ¬TakesEffect P rules m cls ∧ ¬Forestalled P rules m.object := by
  constructor
  · intro heffect
    by_cases hall : ∃ rule ∈ rules, rule.Accepts P m.object
    · obtain ⟨c', hc'⟩ := exists_earliest hall
      have hsame := (heffect.selected hnot c' hc').2.1
      rw [hc.conversion] at hsame
      rw [← Option.some.inj hsame] at hc'
      exact hover.not_accepts hc'.accepts
    · have hnone := heffect.unmatched hnot fun rule hmem hacc ↦ hall ⟨rule, hmem, hacc⟩
      rw [hc.type] at hnone
      cases hnone
  · intro hfore
    obtain ⟨j, hj, rule, hj', hacc⟩ := hfore c.ptr c.rule hc.registered hover
    exact hc.first j hj rule hj' (.inl hacc)

/-- While no exclusion applies, hints take effect exactly if every rule that overreaches is
forestalled. -/
theorem takesEffect_of_unaffected {m : JPMatch Cls Obj Ty Fn} (cls : Cls)
    (h : Unaffected P rules m.object) :
    (TakesEffect P rules m cls ↔ Forestalled P rules m.object) ∧
      (TakesEffectStrictly P rules m cls ↔ Forestalled P rules m.object) := by
  have hnot := not_excluded_of_unaffected h
  rcases found_or_none cls h with ⟨hnobody, heq⟩ | ⟨c, hc⟩
  · have hstrict : TakesEffectStrictly P rules m cls := by
      refine ⟨⟨fun hex ↦ absurd hex hnot, fun _ c hc ↦ ?_, fun _ _ ↦ by rw [heq],
        by rw [heq], fun _ c hc ↦ ?_⟩, fun _ ↦ by rw [heq]⟩
      · exact absurd (.inl hc.accepts) (hnobody c.rule (List.mem_of_getElem? hc.registered))
      · rw [heq] at hc
        cases hc
    have hfore : Forestalled P rules m.object := fun i rule hi hover ↦
      absurd (.inr hover) (hnobody rule (List.mem_of_getElem? hi))
    exact ⟨iff_of_true hstrict.toTakesEffect hfore, iff_of_true hstrict hfore⟩
  · rcases hc.applies with hacc | hover
    · obtain ⟨hstrict, hfore⟩ := hc.takesEffect hnot hacc
      exact ⟨iff_of_true hstrict.toTakesEffect hfore, iff_of_true hstrict hfore⟩
    · obtain ⟨hneither, hfore⟩ := hc.not_takesEffect hnot hover
      exact ⟨iff_of_false hneither hfore,
        iff_of_false (fun hs ↦ hneither hs.toTakesEffect) hfore⟩

/-- Once an exclusion applies, hints take effect exactly if the object is excluded or no rule
accepts it. -/
theorem takesEffect_of_affected {m : JPMatch Cls Obj Ty Fn} (cls : Cls)
    (h : ¬Unaffected P rules m.object) :
    (TakesEffect P rules m cls ↔
        Excluded P rules m.object ∨ ∀ rule ∈ rules, ¬rule.Accepts P m.object) ∧
      ¬TakesEffectStrictly P rules m cls := by
  obtain ⟨c, hisNone, hfind⟩ := exists_find?_of_affected h
  have heq : (registerAll P rules).getConversion P m cls = (c.rule.quality, c.fill cls m) := by
    rw [getConversion_eq, hfind]
  have hnone : ((registerAll P rules).getConversion P m cls).1 = .none := by
    rw [heq]
    exact Rule.quality_eq_none hisNone
  have hfound : ((registerAll P rules).getConversion P m cls).2.conversion = some c := by
    rw [heq]
    rfl
  refine ⟨⟨fun heffect ↦ ?_, fun hor ↦ ⟨fun _ ↦ hnone, fun hnot c' hc' ↦ ?_, fun _ _ ↦ hnone,
    by rw [heq]; rfl, fun _ c' hc' ↦ ?_⟩⟩, fun hstrict ↦ ?_⟩
  · by_contra hneither
    obtain ⟨hnot, hall⟩ := not_or.1 hneither
    obtain ⟨c', hc'⟩ : ∃ c', Earliest P rules m.object c' := by
      refine exists_earliest ?_
      by_contra hnobody
      exact hall fun rule hmem hacc ↦ hnobody ⟨rule, hmem, hacc⟩
    have := (heffect.selected hnot c' hc').1
    rw [hnone] at this
    cases this
  · exact absurd hc'.accepts
      (hor.resolve_left hnot c'.rule (List.mem_of_getElem? hc'.registered))
  · rw [← Option.some.inj (hfound.symm.trans hc')]
    exact hisNone
  · have := hstrict.null hnone
    rw [hfound] at this
    cases this

/-- **Hints in effect**: they take effect on an object exactly if it is excluded; or an exclusion
raises when it is asked, and no rule accepts the object; or no exclusion applies, and every rule
that overreaches is forestalled. The conversion in the match is null whenever none is reported
exactly if, moreover, no exclusion applies. -/
theorem takesEffect_iff (P : PythonTypes Obj Ty Fn) (rules : List (Rule Ty Fn))
    (m : JPMatch Cls Obj Ty Fn) (cls : Cls) :
    (TakesEffect P rules m cls ↔
      Excluded P rules m.object ∨
        (¬Unaffected P rules m.object ∧ ∀ rule ∈ rules, ¬rule.Accepts P m.object) ∨
        (Unaffected P rules m.object ∧ Forestalled P rules m.object)) ∧
      (TakesEffectStrictly P rules m cls ↔
        Unaffected P rules m.object ∧ Forestalled P rules m.object) := by
  by_cases h : Unaffected P rules m.object
  · obtain ⟨hiff, hstrict⟩ := takesEffect_of_unaffected (m := m) cls h
    exact ⟨by simp [hiff, h, not_excluded_of_unaffected h], by simp [hstrict, h]⟩
  · obtain ⟨hiff, hstrict⟩ := takesEffect_of_affected (m := m) cls h
    exact ⟨by simp [hiff, h], iff_of_false hstrict fun hs ↦ h hs.1⟩

end JPClassHints

/-! ### An exact rule and a subtype -/

/-- `str`, and a subclass of it. -/
inductive TextType where
  | str
  | label
  deriving DecidableEq, Repr

namespace TextType

/-- A Python with one object, a `label`. -/
def python : PythonTypes Unit TextType Unit where
  typeOf _ := label
  isInstance _ _ := .yes
  hasAttr _ _ := false
  isTypeOrProtocol _ := true
  isJPClass _ := false
  typeName _ := "type"
  isCallable _ := true

/-- A conversion for exactly `str` is selected for the `label`. -/
theorem exact_str_not_takesEffect :
    ¬TakesEffect python [.type str () true]
      ({ object := () } : JPClassHints.JPMatch Unit Unit TextType Unit) () := by
  intro h
  have hnone := h.unmatched (by simp [Excluded]) (by simp [Rule.Accepts, python])
  cases hnone

end TextType

end JPype
