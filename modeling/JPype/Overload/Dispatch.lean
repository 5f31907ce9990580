import JPype.Foundation.Agreement
import JPype.Overload.Match
import JPype.Overload.Selection

/-!
# Overload resolution

`JPMethodDispatch::findOverload`: a one-entry cache in front of a left fold over the overloads.
The cache is split over two kinds of object. `m_LastOverload` belongs to the dispatch; the hash
it is validated by is `m_Hash` of the `JPMethod` it points to, and a `JPMethod` inherited from a
superclass is listed by the superclass's dispatch too. `Cache` keeps both maps for a whole family
of dispatches.

The search itself (`resolve`) is kept apart from what `findOverload` makes of it: the exception
or `false` of a failure, and the two stores of a success.

The last section reduces the fold to what it depends on. `findOverload` hands one match record
from overload to overload, but `matches` never reads what an earlier overload recorded on the
arguments (`matchesCall_agree`), so a search is a function of the overloads' `rating`s
(`resolve_summary`).
-/

namespace JPype

variable {Cls Py H D : Type}

/-- `JPMethodDispatch`, less its cache. -/
structure JPMethodDispatch (Cls : Type) where
  /-- `m_Name` -/
  name : String
  /-- `m_Class` -/
  declaringClass : Cls
  /-- `m_Overloads` -/
  overloads : List (JPMethod Cls)
  /-- The `constructor` bit of `m_Modifiers`. -/
  isConstructor : Bool

/-- What resolution uses of the rest of the system: the conversions, the hash of an argument
list, and the names that error reports print. -/
structure Runtime (Cls Py H : Type) where
  /-- The conversion layer. -/
  conv : Conversions Cls Py
  /-- `m_Hash` as `JPMethodMatch` computes it from `callInstance` and the arguments. -/
  hash : Bool → List Py → H
  /-- `Py_TYPE(arg)->tp_name` -/
  typeName : Py → String
  /-- `JPClass::getCanonicalName` -/
  canonicalName : Cls → String

/-- The hash `JPMethodMatch` computes: a linear congruential generator over the addresses of
the argument types, into which functions and bound methods mix the address of their code. -/
def argumentHash (typeAddress : Py → BitVec 64) (codeAddress : Py → Option (BitVec 64))
    (callInstance : Bool) (args : List Py) : BitVec 64 :=
  args.foldl
    (fun hash arg ↦
      let hash := hash * 0x10523C01 + typeAddress arg
      match codeAddress arg with
      | none => hash
      | some code => hash ^^^ code)
    (if callInstance then 0 else 1000)

/-- The cache of a family of dispatches. -/
structure Cache (D Cls H : Type) where
  /-- `m_LastOverload` of each dispatch. -/
  lastOverload : D → Option (JPMethod Cls)
  /-- `m_Hash` of each `JPMethod`. -/
  hash : ℕ → H

/-- The cache before any call, when every `m_LastOverload` is null; the hashes in the methods are
whatever they are. -/
def Cache.empty (hash : ℕ → H) : Cache D Cls H where
  lastOverload _ := none
  hash := hash

namespace JPMethodDispatch

/-- The tail of the loop body, once neither `_exact` nor hiding nor the instance decides. -/
def byQuality (current : JPMethod Cls) (mtch best : JPMethodMatch Cls Py)
    (ambiguous : List (JPMethod Cls)) : JPMethodMatch Cls Py × List (JPMethod Cls) :=
  if best.type < mtch.type then (mtch, [])
  else if mtch.type < best.type then (best, ambiguous)
  else (best, ambiguous ++ [current])

/-- The loop body after `matches`, for a match below `_exact`: what `bestMatch` and `ambiguous`
become. -/
def consider (callInstance : Bool) (current : JPMethod Cls) (mtch best : JPMethodMatch Cls Py)
    (ambiguous : List (JPMethod Cls)) : JPMethodMatch Cls Py × List (JPMethod Cls) :=
  if mtch.type < .implicit then (best, ambiguous)
  else
    match best.overload with
    | none => (mtch, ambiguous)
    | some overload =>
      if overload.checkMoreSpecificThan current then (best, ambiguous)
      else if callInstance = !current.isStatic then
        if callInstance = overload.isStatic then (mtch, ambiguous)
        else byQuality current mtch best ambiguous
      else if callInstance = !overload.isStatic then (best, ambiguous)
      else byQuality current mtch best ambiguous

/-- The loop over the overloads. `mtch` is the record that is reused from one to the next. -/
def selectLoop (conv : Conversions Cls Py) (callInstance : Bool) :
    List (JPMethod Cls) → JPMethodMatch Cls Py → JPMethodMatch Cls Py → List (JPMethod Cls) →
      Except Fault (JPMethodMatch Cls Py × List (JPMethod Cls))
  | [], _, best, ambiguous => .ok (best, ambiguous)
  | current :: rest, mtch, best, ambiguous => do
    let mtch ← current.matchesCall conv mtch callInstance
    if mtch.type = .exact then
      -- `break`, whatever `ambiguous` holds
      return (mtch, ambiguous)
    let (best, ambiguous) := consider callInstance current mtch best ambiguous
    selectLoop conv callInstance rest mtch best ambiguous

/-- The attempt on the cached overload: that overload if it still matches, and `bestMatch`. -/
def tryCached [DecidableEq H] (rt : Runtime Cls Py H) (cache : Cache D Cls H) (d : D)
    (callInstance : Bool) (best : JPMethodMatch Cls Py) :
    Except Fault (Option (JPMethod Cls) × JPMethodMatch Cls Py) :=
  match cache.lastOverload d with
  | none => .ok (none, best)
  | some cachedMethod =>
    if cachedMethod.isVarArgs = false ∧
        cache.hash cachedMethod.ptr = rt.hash callInstance best.objects then do
      let best ← cachedMethod.matchesCall rt.conv best callInstance
      if .explicit < best.type then return (some cachedMethod, best)
      return (none, { best with overload := none, type := .none })
    else .ok (none, best)

/-- How a search ends. -/
inductive Resolution (Cls Py : Type) where
  /-- The cached overload still matches. -/
  | cached (mm : JPMethodMatch Cls Py) (overload : JPMethod Cls)
  /-- The loop settled on an overload. -/
  | chosen (mm : JPMethodMatch Cls Py) (overload : JPMethod Cls)
  /-- Several overloads match and none is best; the list as the error reports it. -/
  | ambiguous (overloads : List (JPMethod Cls))
  /-- No overload matches. -/
  | noMatch

/-- The end of a search, from what the loop leaves behind. -/
def conclude (best : JPMethodMatch Cls Py) (ambiguous : List (JPMethod Cls)) :
    Resolution Cls Py :=
  if ambiguous ≠ [] then .ambiguous (ambiguous ++ best.overload.toList)
  else
    match best.overload with
    | none => .noMatch
    | some overload => .chosen best overload

/-- The search of `findOverload`. -/
def resolve [DecidableEq H] (rt : Runtime Cls Py H) (self : JPMethodDispatch Cls)
    (cache : Cache D Cls H) (d : D) (call : Call Py) : Except Fault (Resolution Cls Py) := do
  let (hit, best) ← tryCached rt cache d call.callInstance (.ofArgs call.vargs)
  match hit with
  | some overload => return .cached best overload
  | none =>
    let (best, ambiguous) ← selectLoop rt.conv call.callInstance self.overloads best best []
    return conclude best ambiguous

/-- The argument types as both reports print them. -/
def printTypes (rt : Runtime Cls Py H) (call : Call Py) : String :=
  ",".intercalate ((call.vargs.drop (if call.callInstance then 1 else 0)).map rt.typeName)

/-- The report of an ambiguous call. -/
def ambiguousMessage (rt : Runtime Cls Py H) (self : JPMethodDispatch Cls) (call : Call Py)
    (overloads : List (JPMethod Cls)) : String :=
  (if self.isConstructor then
    "Ambiguous overloads found for constructor " ++ rt.canonicalName self.declaringClass ++ "("
  else
    "Ambiguous overloads found for " ++ rt.canonicalName self.declaringClass ++ "." ++ self.name
      ++ "(") ++
  printTypes rt call ++ ")" ++ " between:\n" ++
  String.join (overloads.map fun m ↦ "\t" ++ m.name ++ "\n")

/-- The report of a call that matches nothing. -/
def noMatchMessage (rt : Runtime Cls Py H) (self : JPMethodDispatch Cls) (call : Call Py) :
    String :=
  (if self.isConstructor then
    "No matching overloads found for constructor " ++ rt.canonicalName self.declaringClass ++ "("
  else
    "No matching overloads found for " ++ (if call.callInstance then "" else "*static* ") ++
      rt.canonicalName self.declaringClass ++ "." ++ self.name ++ "(") ++
  printTypes rt call ++ ")" ++ ", options are:\n" ++
  String.join (self.overloads.map fun m ↦ "\t" ++ m.name ++ "\n")

/-- The ways `findOverload` leaves without returning. -/
inductive OverloadError where
  /-- A fault of `matches`. -/
  | fault (f : Fault)
  /-- `JP_RAISE(PyExc_TypeError, message)` -/
  | typeError (message : String)
  deriving DecidableEq, Repr

/-- `JPMethodDispatch::findOverload` on dispatch `d`. The result is `bestMatch` when the code
returns `true` and `none` when it returns `false`. -/
def findOverload [DecidableEq H] [DecidableEq D] (rt : Runtime Cls Py H)
    (self : JPMethodDispatch Cls) (cache : Cache D Cls H) (d : D) (call : Call Py)
    (raise : Bool) :
    Except OverloadError (Option (JPMethodMatch Cls Py) × Cache D Cls H) :=
  match resolve rt self cache d call with
  | .error f => .error (.fault f)
  | .ok (.cached mm _) => .ok (some mm, cache)
  | .ok (.ambiguous overloads) =>
    if raise then .error (.typeError (ambiguousMessage rt self call overloads))
    else .ok (none, cache)
  | .ok .noMatch =>
    if raise then .error (.typeError (noMatchMessage rt self call)) else .ok (none, cache)
  | .ok (.chosen mm overload) =>
    if .implicit ≤ mm.type then
      .ok (some mm,
        { lastOverload := Function.update cache.lastOverload d (some overload)
          hash := Function.update cache.hash overload.ptr
            (rt.hash call.callInstance call.vargs) })
    else .ok (some mm, cache)

end JPMethodDispatch

/-! ### A search depends on the ratings -/

open Foundation (Agree)

namespace JPMethodMatch

/-- Two match records of the call with arguments `args`, for one overload, that differ at most
in the recorded conversions. -/
structure Similar (args : List Py) (owner : Option (JPMethod Cls))
    (mm mm' : JPMethodMatch Cls Py) : Prop where
  objects : mm.objects = args
  objects' : mm'.objects = args
  overload : mm.overload = owner
  overload' : mm'.overload = owner
  type : mm.type = mm'.type
  isVarIndirect : mm.isVarIndirect = mm'.isVarIndirect
  offset : mm.offset = mm'.offset
  skip : mm.skip = mm'.skip

variable {args : List Py} {owner : Option (JPMethod Cls)} {mm mm' : JPMethodMatch Cls Py}

theorem Similar.record (h : Similar args owner mm mm') (type : Cls) (j : ℕ) :
    Similar args owner (mm.record type j) (mm'.record type j) :=
  ⟨by rw [objects_record, h.objects], by rw [objects_record, h.objects'], h.overload, h.overload',
    h.type, h.isVarIndirect, h.offset, h.skip⟩

theorem Similar.withType (h : Similar args owner mm mm') (q : MatchType) :
    Similar args owner { mm with type := q } { mm' with type := q } :=
  ⟨h.objects, h.objects', h.overload, h.overload', rfl, h.isVarIndirect, h.offset, h.skip⟩

/-- A quality and a record, up to the recorded conversions. -/
abbrev SimilarPair (args : List Py) (owner : Option (JPMethod Cls))
    (p p' : MatchType × JPMethodMatch Cls Py) : Prop :=
  p.1 = p'.1 ∧ Similar args owner p.2 p'.2

theorem inspect_agree (conv : Conversions Cls Py) (h : Similar args owner mm mm') (type : Cls)
    (j : ℕ) :
    Agree (SimilarPair args owner) (mm.inspect conv type j) (mm'.inspect conv type j) := by
  have hobjects : mm'.objects = mm.objects := h.objects'.trans h.objects.symm
  rcases lt_or_ge j mm.objects.length with hj | hj
  · rw [inspect_of_lt conv mm type hj, inspect_of_lt conv mm' type (hobjects ▸ hj)]
    exact .ok ⟨by simp only [hobjects], h.record type j⟩
  · rw [inspect, inspect, List.getElem?_eq_none (by rwa [length_arguments]),
      List.getElem?_eq_none (by rwa [length_arguments, hobjects])]
    exact .error _

end JPMethodMatch

namespace JPMethod

open JPMethodMatch

variable {args : List Py} {owner : Option (JPMethod Cls)} {mm mm' : JPMethodMatch Cls Py}

theorem matchVarsLoop_agree (conv : Conversions Cls Py) (type : Cls) :
    ∀ (n i : ℕ) (last : MatchType) {mm mm' : JPMethodMatch Cls Py}, Similar args owner mm mm' →
      Agree (SimilarPair args owner) (matchVarsLoop conv type n i last mm)
        (matchVarsLoop conv type n i last mm') := by
  intro n
  induction n with
  | zero => exact fun i last mm mm' h ↦ .ok ⟨rfl, h⟩
  | succ n ih =>
    intro i last mm mm' h
    refine (inspect_agree conv h type i).bind ?_
    rintro ⟨q, mm₁⟩ ⟨q', mm₁'⟩ ⟨rfl, h₁⟩
    exact .ite Iff.rfl (fun _ ↦ .ok ⟨rfl, h₁⟩) fun _ ↦ ih _ _ h₁

theorem matchFixed_agree (conv : Conversions Cls Py) :
    ∀ (types : List Cls) (i : ℕ) {mm mm' : JPMethodMatch Cls Py}, Similar args owner mm mm' →
      Agree (Similar args owner) (matchFixed conv types i mm) (matchFixed conv types i mm') := by
  intro types
  induction types with
  | nil => exact fun i mm mm' h ↦ .ok h
  | cons type rest ih =>
    intro i mm mm' h
    rw [matchFixed, matchFixed, h.offset]
    refine (inspect_agree conv h type _).bind ?_
    rintro ⟨q, mm₁⟩ ⟨q', mm₁'⟩ ⟨rfl, h₁⟩
    have h₂ : Similar args owner (if q < mm₁.type then { mm₁ with type := q } else mm₁)
        (if q < mm₁'.type then { mm₁' with type := q } else mm₁') := by
      rw [← h₁.type]
      split
      · exact h₁.withType q
      · exact h₁
    exact .ite (by rw [h₂.type]) (fun _ ↦ .ok h₂) fun _ ↦ ih _ h₂

theorem tryDirect_agree (conv : Conversions Cls Py) (tlen len : ℕ) (type : Cls)
    (h : Similar args owner mm mm') :
    Agree (Similar args owner) (tryDirect conv tlen len type mm)
      (tryDirect conv tlen len type mm') := by
  rw [tryDirect, tryDirect, h.offset]
  refine .ite Iff.rfl (fun _ ↦ .ite Iff.rfl (fun _ ↦ .error _) fun _ ↦ ?_) fun _ ↦ .ok h
  refine (inspect_agree conv h type _).bind ?_
  rintro ⟨q, mm₁⟩ ⟨q', mm₁'⟩ ⟨rfl, h₁⟩
  exact .ok (h₁.withType q)

theorem tryIndirect_agree (conv : Conversions Cls Py) (size tlen len : ℕ) (type : Cls)
    (h : Similar args owner mm mm') :
    Agree (Similar args owner) (tryIndirect conv size tlen len type mm)
      (tryIndirect conv size tlen len type mm') := by
  rw [tryIndirect, tryIndirect, h.offset]
  refine .ite (by rw [h.type]) (fun _ ↦ ?_) fun _ ↦ .ite Iff.rfl (fun _ ↦ ?_) fun _ ↦ .ok h
  · refine (matchVarsLoop_agree conv _ _ _ _ h).bind ?_
    rintro ⟨q, mm₁⟩ ⟨q', mm₁'⟩ ⟨rfl, h₁⟩
    exact .ok ⟨h₁.objects, h₁.objects', h₁.overload, h₁.overload', rfl, rfl, h₁.offset, h₁.skip⟩
  · exact .ok ⟨h.objects, h.objects', h.overload, h.overload', rfl, rfl, rfl, h.skip⟩

theorem matchVarArgs_agree (conv : Conversions Cls Py) (m : JPMethod Cls) (size len : ℕ)
    (h : Similar args owner mm mm') :
    Agree (Similar args owner) (matchVarArgs conv m size len mm)
      (matchVarArgs conv m size len mm') := by
  refine .ite Iff.rfl (fun _ ↦ .ok (h.withType .none)) fun _ ↦ ?_
  rcases m.parameterTypes.getLast? with - | type
  · exact .error _
  · exact (tryDirect_agree conv _ _ type (h.withType .none)).bind fun _ _ h₁ ↦
      tryIndirect_agree conv _ _ _ type h₁

/-- `matches` reads of the record it is given only the arguments. -/
theorem matchesCall_agree (conv : Conversions Cls Py) (m : JPMethod Cls)
    (h : mm.objects = args) (h' : mm'.objects = args) (callInstance : Bool) :
    Agree (Similar args (some m)) (m.matchesCall conv mm callInstance)
      (m.matchesCall conv mm' callInstance) := by
  have hlen : mm.arguments.length = mm'.arguments.length := by
    rw [length_arguments, length_arguments, h, h']
  have hreset : Similar args (some m) (m.reset mm callInstance) (m.reset mm' callInstance) :=
    ⟨h, h', rfl, rfl, rfl, rfl, rfl, rfl⟩
  rw [matchesCall, matchesCall, hlen, hreset.offset]
  refine .ite Iff.rfl (fun _ ↦ ?_) fun _ ↦ .ite Iff.rfl (fun _ ↦ .ok (hreset.withType .none))
    fun _ ↦ matchFixed_agree conv _ _ hreset
  refine (matchVarArgs_agree conv m _ _ hreset).bind fun mm₁ mm₁' h₁ ↦ ?_
  exact .ite (by rw [h₁.type]) (fun _ ↦ .ok h₁) fun _ ↦ matchFixed_agree conv _ _ h₁

/-- The quality at which `m` matches the call. -/
def rating (conv : Conversions Cls Py) (call : Call Py) (m : JPMethod Cls) :
    Except Fault MatchType :=
  (m.matchesCall conv (.ofArgs call.vargs) call.callInstance).map JPMethodMatch.type

/-- Whatever earlier overloads left on it, a match record of the call is matched at its
rating. -/
theorem matchesCall_rating (conv : Conversions Cls Py) (m : JPMethod Cls) (call : Call Py)
    (h : mm.objects = call.vargs) :
    Agree (fun mm q ↦ mm.objects = call.vargs ∧ mm.overload = some m ∧ mm.type = q)
      (m.matchesCall conv mm call.callInstance) (m.rating conv call) :=
  (matchesCall_agree conv m h (objects_ofArgs call.vargs) call.callInstance).map_right
    fun _ _ h ↦ ⟨h.objects, h.overload, h.type⟩

end JPMethod

namespace JPMethodDispatch

open JPMethodMatch JPMethod

/-- Selection among overloads: preferred are the static ones when the call has no instance and
the others when it has one, and a more specific overload hides a less specific one. -/
def contest (Cls : Type) (callInstance : Bool) : Contest (JPMethod Cls) where
  preferred m := decide (callInstance = !m.isStatic)
  hides := JPMethod.checkMoreSpecificThan

/-- What the loop needs of `bestMatch`. -/
def lead (best : JPMethodMatch Cls Py) : Option (JPMethod Cls × MatchType) :=
  best.overload.map fun m ↦ (m, best.type)

theorem lead_of_overload {best : JPMethodMatch Cls Py} {m : JPMethod Cls}
    (h : best.overload = some m) : lead best = some (m, best.type) := by
  rw [lead, h, Option.map_some]

theorem lead_byQuality {current b : JPMethod Cls} {mtch best : JPMethodMatch Cls Py}
    (hmtch : mtch.overload = some current) (hbest : best.overload = some b)
    (ambiguous : List (JPMethod Cls)) :
    Prod.map lead id (byQuality current mtch best ambiguous) =
      if best.type < mtch.type then (some (current, mtch.type), [])
      else if mtch.type < best.type then (some (b, best.type), ambiguous)
      else (some (b, best.type), ambiguous ++ [current]) := by
  rw [byQuality]
  split
  · rw [Prod.map, lead_of_overload hmtch, id]
  · split <;> rw [Prod.map, lead_of_overload hbest, id]

/-- The loop body as selection sees it. -/
theorem lead_consider (callInstance : Bool) (current : JPMethod Cls)
    (mtch best : JPMethodMatch Cls Py) (ambiguous : List (JPMethod Cls))
    (hmtch : mtch.overload = some current) :
    Prod.map lead id (consider callInstance current mtch best ambiguous) =
      (contest Cls callInstance).challenge current mtch.type (lead best) ambiguous := by
  rw [consider]
  rcases lt_or_ge mtch.type .implicit with hlow | hmatch
  · rw [if_pos hlow, Contest.challenge_of_lt current hlow]
    rfl
  rw [if_neg (not_lt.2 hmatch)]
  rcases hbest : best.overload with - | b
  · simp [lead, hbest, hmtch, Contest.challenge, not_lt.2 hmatch]
  · have hquality := lead_byQuality hmtch hbest ambiguous
    have hlead := lead_of_overload hmtch
    rw [lead_of_overload hbest]
    simp only [Contest.challenge, if_neg (not_lt.2 hmatch), contest]
    rcases Bool.eq_false_or_eq_true (b.checkMoreSpecificThan current) with hhides | hhides
    · simp [hhides, lead_of_overload hbest]
    · -- the instance flag against the kinds of the two overloads
      rcases Bool.eq_false_or_eq_true b.isStatic with hb | hb <;>
        rcases Bool.eq_false_or_eq_true current.isStatic with hc | hc <;>
        rcases callInstance with - | - <;>
        simp [hhides, hb, hc, hquality, hlead, lead_of_overload hbest]

theorem consider_fst (callInstance : Bool) (current : JPMethod Cls)
    (mtch best : JPMethodMatch Cls Py) (ambiguous : List (JPMethod Cls)) :
    (consider callInstance current mtch best ambiguous).1 = mtch ∨
      (consider callInstance current mtch best ambiguous).1 = best := by
  simp only [consider, byQuality]
  split
  · exact .inr rfl
  · split
    · exact .inl rfl
    · split_ifs <;> simp

/-- **The loop is a selection by rating**: fed with any match record of the call, it ends with
the candidate and the rivals that `Contest.pick` ends with. -/
theorem selectLoop_pick (conv : Conversions Cls Py) (call : Call Py) :
    ∀ (overloads : List (JPMethod Cls)) (mtch best : JPMethodMatch Cls Py)
      (ambiguous : List (JPMethod Cls)),
      mtch.objects = call.vargs → best.objects = call.vargs →
      Agree (fun result picked ↦ result.1.objects = call.vargs ∧
          Prod.map lead id result = picked)
        (selectLoop conv call.callInstance overloads mtch best ambiguous)
        ((contest Cls call.callInstance).pick (rating conv call) overloads (lead best)
          ambiguous) := by
  intro overloads
  induction overloads with
  | nil => exact fun mtch best ambiguous _ hbest ↦ .ok ⟨hbest, rfl⟩
  | cons current rest ih =>
    intro mtch best ambiguous hmtch hbest
    refine (matchesCall_rating conv current call hmtch).bind ?_
    rintro mm q ⟨hobjects, hoverload, rfl⟩
    refine .ite Iff.rfl (fun hexact ↦ .ok ⟨hobjects, ?_⟩) fun _ ↦ ?_
    · rw [Prod.map, lead_of_overload hoverload, id]
    · have hstep := lead_consider call.callInstance current mm best ambiguous hoverload
      have hkept : (consider call.callInstance current mm best ambiguous).1.objects =
          call.vargs := by
        rcases consider_fst call.callInstance current mm best ambiguous with h | h <;> rw [h]
        exacts [hobjects, hbest]
      show Agree _ (selectLoop conv call.callInstance rest mm
        (consider call.callInstance current mm best ambiguous).1
        (consider call.callInstance current mm best ambiguous).2) _
      have := ih mm (consider call.callInstance current mm best ambiguous).1
        (consider call.callInstance current mm best ambiguous).2 hobjects hkept
      rw [← hstep]
      exact this

/-- How a call comes out: the overload it goes to, or why it goes to none. -/
inductive Outcome (Cls : Type) where
  | chosen (overload : JPMethod Cls)
  | ambiguous (overloads : List (JPMethod Cls))
  | noMatch

/-- The outcome of a search, forgetting the match record and where it came from. -/
def Resolution.outcome : Resolution Cls Py → Outcome Cls
  | .cached _ overload => .chosen overload
  | .chosen _ overload => .chosen overload
  | .ambiguous overloads => .ambiguous overloads
  | .noMatch => .noMatch

/-- The outcome of a call on dispatch `d`. -/
def outcome [DecidableEq H] (rt : Runtime Cls Py H) (self : JPMethodDispatch Cls)
    (cache : Cache D Cls H) (d : D) (call : Call Py) : Except Fault (Outcome Cls) :=
  (resolve rt self cache d call).map Resolution.outcome

/-- The outcome that selection among rated overloads leaves. -/
def outcomeOf (picked : Option (JPMethod Cls × MatchType) × List (JPMethod Cls)) : Outcome Cls :=
  if picked.2 ≠ [] then .ambiguous (picked.2 ++ (picked.1.map Prod.fst).toList)
  else
    match picked.1 with
    | none => .noMatch
    | some (overload, _) => .chosen overload

/-- The outcome of a call without a cache: selection among the ratings of the overloads. -/
def freshOutcome (conv : Conversions Cls Py) (self : JPMethodDispatch Cls) (call : Call Py) :
    Except Fault (Outcome Cls) :=
  ((contest Cls call.callInstance).pick (rating conv call) self.overloads none []).map outcomeOf

theorem outcome_conclude (best : JPMethodMatch Cls Py) (ambiguous : List (JPMethod Cls)) :
    (conclude best ambiguous).outcome = outcomeOf (Prod.map lead id (best, ambiguous)) := by
  simp only [conclude, outcomeOf, Prod.map, id, lead]
  split
  · rcases best.overload with - | m <;> rfl
  · rcases best.overload with - | m <;> rfl

/-- A search that starts the loop with any match record of the call ends as selection by rating
does. -/
theorem loop_outcome (conv : Conversions Cls Py) (self : JPMethodDispatch Cls) (call : Call Py)
    {best : JPMethodMatch Cls Py} (hbest : best.objects = call.vargs)
    (hnone : best.overload = none) :
    (selectLoop conv call.callInstance self.overloads best best [] >>= fun r ↦
        Except.ok (conclude r.1 r.2)).map Resolution.outcome =
      freshOutcome conv self call := by
  have h := selectLoop_pick conv call self.overloads best best [] hbest hbest
  rw [show lead best = none by rw [lead, hnone, Option.map_none]] at h
  rw [freshOutcome]
  generalize selectLoop conv call.callInstance self.overloads best best [] = x at h ⊢
  generalize Contest.pick _ _ _ _ _ = y at h ⊢
  cases h with
  | error e => rfl
  | ok h =>
    obtain ⟨-, rfl⟩ := h
    exact congrArg Except.ok (outcome_conclude _ _)

/-- The cached overload of `d` is tried on the call. -/
def Hit [DecidableEq H] (rt : Runtime Cls Py H) (cache : Cache D Cls H) (d : D) (call : Call Py)
    (m : JPMethod Cls) : Prop :=
  cache.lastOverload d = some m ∧ m.isVarArgs = false ∧
    cache.hash m.ptr = rt.hash call.callInstance call.vargs

/-- A call that does not try the cache has the outcome of a fresh one. -/
theorem outcome_of_miss [DecidableEq H] (rt : Runtime Cls Py H) (self : JPMethodDispatch Cls)
    (cache : Cache D Cls H) (d : D) (call : Call Py) (h : ∀ m, ¬Hit rt cache d call m) :
    outcome rt self cache d call = freshOutcome rt.conv self call := by
  have htry : tryCached rt cache d call.callInstance (.ofArgs call.vargs) =
      .ok (none, .ofArgs call.vargs) := by
    rw [tryCached]
    rcases hlast : cache.lastOverload d with - | m
    · rfl
    · exact if_neg fun hm ↦ h m ⟨hlast, hm.1, by simpa using hm.2⟩
  rw [outcome, resolve, htry]
  exact loop_outcome rt.conv self call (objects_ofArgs call.vargs) rfl

/-- On null entries every call is a fresh search. -/
theorem outcome_empty [DecidableEq H] (rt : Runtime Cls Py H) (self : JPMethodDispatch Cls)
    (hash : ℕ → H) (d : D) (call : Call Py) :
    outcome rt self (Cache.empty hash) d call = freshOutcome rt.conv self call :=
  outcome_of_miss rt self _ d call fun _ h ↦ nomatch h.1

/-- A call that tries the cache goes to the cached overload if that matches, and otherwise has
the outcome of a fresh one. -/
theorem outcome_of_hit [DecidableEq H] (rt : Runtime Cls Py H) (self : JPMethodDispatch Cls)
    (cache : Cache D Cls H) (d : D) (call : Call Py) {m : JPMethod Cls}
    (h : Hit rt cache d call m) :
    outcome rt self cache d call = m.rating rt.conv call >>= fun q ↦
      if .explicit < q then .ok (.chosen m) else freshOutcome rt.conv self call := by
  obtain ⟨hlast, hfixed, hhash⟩ := h
  have hrating := matchesCall_rating rt.conv m call (objects_ofArgs call.vargs)
  rw [outcome, resolve, tryCached, hlast]
  simp only [objects_ofArgs, hfixed, hhash, and_self, if_true]
  generalize m.matchesCall rt.conv (.ofArgs call.vargs) call.callInstance = x at hrating ⊢
  generalize m.rating rt.conv call = y at hrating ⊢
  cases hrating with
  | error e => rfl
  | ok h =>
    rename_i mm q
    obtain ⟨hobjects, -, rfl⟩ := h
    by_cases hq : MatchType.explicit < mm.type
    · simp only [bind, Except.bind, if_pos hq]
      rfl
    · simp only [bind, Except.bind, if_neg hq]
      have hobjects' : ({ mm with overload := none, type := .none } :
          JPMethodMatch Cls Py).objects = call.vargs := hobjects
      exact loop_outcome rt.conv self call hobjects' rfl

/-- When the cache is of no help `bestMatch` is as good as new. -/
theorem tryCached_none [DecidableEq H] (rt : Runtime Cls Py H) (cache : Cache D Cls H) (d : D)
    (call : Call Py) {best : JPMethodMatch Cls Py}
    (h : tryCached rt cache d call.callInstance (.ofArgs call.vargs) = .ok (none, best)) :
    best.objects = call.vargs ∧ best.overload = none := by
  have hnew : (ofArgs call.vargs : JPMethodMatch Cls Py).objects = call.vargs ∧
      (ofArgs call.vargs : JPMethodMatch Cls Py).overload = none := ⟨objects_ofArgs _, rfl⟩
  rw [tryCached] at h
  split at h
  · cases h
    exact hnew
  · next m _ =>
    split at h
    · have hrating := matchesCall_rating rt.conv m call (objects_ofArgs call.vargs)
      generalize m.matchesCall rt.conv (.ofArgs call.vargs) call.callInstance = x at hrating h
      generalize m.rating rt.conv call = y at hrating
      cases hrating with
      | error e => cases h
      | ok hmm =>
        simp only [bind, Except.bind, pure, Except.pure] at h
        split at h
        · cases h
        · cases h
          exact ⟨hmm.1, rfl⟩
    · cases h
      exact hnew

/-- What the loop settles on is what a fresh search picks. -/
theorem freshOutcome_of_chosen [DecidableEq H] (rt : Runtime Cls Py H)
    (self : JPMethodDispatch Cls) (cache : Cache D Cls H) (d : D) (call : Call Py)
    {mm : JPMethodMatch Cls Py} {m : JPMethod Cls}
    (h : resolve rt self cache d call = .ok (.chosen mm m)) :
    freshOutcome rt.conv self call = .ok (.chosen m) := by
  rw [resolve] at h
  rcases htry : tryCached rt cache d call.callInstance (.ofArgs call.vargs) with f | ⟨hit, best⟩
  · rw [htry] at h
    cases h
  · rcases hit with - | cached
    · obtain ⟨hobjects, hnone⟩ := tryCached_none rt cache d call htry
      rw [htry] at h
      rw [← loop_outcome rt.conv self call hobjects hnone]
      exact congrArg (Except.map Resolution.outcome) h
    · rw [htry] at h
      cases h

/-- A cached overload that still matches has left its own match record. -/
theorem overload_of_tryCached [DecidableEq H] (rt : Runtime Cls Py H) (cache : Cache D Cls H)
    (d : D) (call : Call Py) {mm : JPMethodMatch Cls Py} {m : JPMethod Cls}
    (h : tryCached rt cache d call.callInstance (.ofArgs call.vargs) = .ok (some m, mm)) :
    mm.overload = some m := by
  rw [tryCached] at h
  split at h
  · cases h
  · next m' _ =>
    split at h
    · have hrating := matchesCall_rating rt.conv m' call (objects_ofArgs call.vargs)
      generalize m'.matchesCall rt.conv (.ofArgs call.vargs) call.callInstance = x at hrating h
      generalize m'.rating rt.conv call = y at hrating
      cases hrating with
      | error e => cases h
      | ok hmm =>
        simp only [bind, Except.bind, pure, Except.pure] at h
        split at h
        · cases h
          exact hmm.2.1
        · cases h
    · cases h

theorem overload_of_conclude {best mm : JPMethodMatch Cls Py} {ambiguous : List (JPMethod Cls)}
    {m : JPMethod Cls} (h : conclude best ambiguous = .chosen mm m) : mm.overload = some m := by
  rw [conclude] at h
  split at h
  · cases h
  · split at h
    · cases h
    · next hbest =>
      cases h
      exact hbest

/-- The match record of a search that found an overload is that overload's. -/
theorem overload_of_resolve [DecidableEq H] (rt : Runtime Cls Py H)
    (self : JPMethodDispatch Cls) (cache : Cache D Cls H) (d : D) (call : Call Py)
    {mm : JPMethodMatch Cls Py} {m : JPMethod Cls}
    (h : resolve rt self cache d call = .ok (.cached mm m) ∨
      resolve rt self cache d call = .ok (.chosen mm m)) : mm.overload = some m := by
  rw [resolve] at h
  rcases htry : tryCached rt cache d call.callInstance (.ofArgs call.vargs) with f | ⟨hit, best⟩
  · rw [htry] at h
    rcases h with h | h <;> cases h
  rw [htry] at h
  rcases hit with - | cached
  · simp only [bind, Except.bind, pure, Except.pure] at h
    rcases hloop : selectLoop rt.conv call.callInstance self.overloads best best [] with f | r
    · rw [hloop] at h
      rcases h with h | h <;> cases h
    · rw [hloop] at h
      rcases h with h | h
      · have := Except.ok.inj h
        rw [conclude] at this
        split at this
        · cases this
        · split at this <;> cases this
      · exact overload_of_conclude (Except.ok.inj h)
  · rcases h with h | h
    · cases h
      exact overload_of_tryCached rt cache d call htry
    · cases h

/-- What the caller of `findOverload` sees of an outcome: the overload, `false`, or the
exception. -/
def report (rt : Runtime Cls Py H) (self : JPMethodDispatch Cls) (call : Call Py)
    (raise : Bool) : Except Fault (Outcome Cls) → Except OverloadError (Option (JPMethod Cls))
  | .error f => .error (.fault f)
  | .ok (.chosen m) => .ok (some m)
  | .ok (.ambiguous overloads) =>
    if raise then .error (.typeError (ambiguousMessage rt self call overloads)) else .ok none
  | .ok .noMatch =>
    if raise then .error (.typeError (noMatchMessage rt self call)) else .ok none

/-- `findOverload` reports the outcome, and nothing else of the search. -/
theorem findOverload_report [DecidableEq H] [DecidableEq D] (rt : Runtime Cls Py H)
    (self : JPMethodDispatch Cls) (cache : Cache D Cls H) (d : D) (call : Call Py)
    (raise : Bool) :
    (findOverload rt self cache d call raise).map (fun r ↦ r.1.bind JPMethodMatch.overload) =
      report rt self call raise (outcome rt self cache d call) := by
  rw [findOverload, outcome]
  rcases hres : resolve rt self cache d call with f | ⟨mm, m⟩ | ⟨mm, m⟩ | ⟨overloads⟩ | -
  · rfl
  · have := overload_of_resolve rt self cache d call (.inl hres)
    simp [Except.map, this, report, Resolution.outcome]
  · have := overload_of_resolve rt self cache d call (.inr hres)
    by_cases hq : MatchType.implicit ≤ mm.type <;>
      simp [Except.map, this, report, Resolution.outcome, hq]
  · rcases raise with - | - <;> rfl
  · rcases raise with - | - <;> rfl

end JPMethodDispatch

end JPype
