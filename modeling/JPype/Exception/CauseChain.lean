import JPype.Foundation.Iteration
import JPype.Foundation.Trails
import Mathlib.Data.Int.Notation
import Mathlib.Data.List.TakeWhile

/-!
# Chains of causes

`PyJPException_normalize` follows the causes of a throwable, converts each and links it to the one
before it by `__cause__`, and gives each the frames of its stack trace that are not those of the
throwable that encloses it. It keeps no record of the throwables it has met. Java compares the
frames with the first frame of the enclosing trace only, and the failure that there is no first
frame is eaten together with the frames.

`convertsCompletely_iff` says when all causes are converted, with the frames that the traces do not
share: the chain comes to an end, and where two traces share a frame, the first frame of the own
trace that is shared is the first one of the enclosing trace.
-/

namespace JPype

open Foundation

/-! ### Stack traces -/

/-- A `java.lang.StackTraceElement`. Two of them are equal if all of this is. -/
structure StackTraceElement where
  classLoaderName : Option String
  moduleName : Option String
  moduleVersion : Option String
  className : String
  methodName : String
  fileName : Option String
  lineNumber : ℤ
  deriving DecidableEq

/-- An element of the array that Java hands over. -/
inductive FrameField where
  | string (value : Option String)
  | integer (value : ℤ)

/-- A traceback object without its `tb_next`. -/
structure TracebackEntry where
  filename : String
  funcname : String
  linenum : ℤ
  deriving DecidableEq

/-- The exception of Java that the comparison of traces may throw. -/
inductive TraceError where
  | arrayIndexOutOfBounds

namespace JPypeContext

/-- `toFrames` -/
def toFrames (stackTrace : Option (List StackTraceElement)) : Option (List FrameField) :=
  stackTrace.map fun frames ↦ frames.flatMap fun fr ↦
    [.string fr.className, .string fr.methodName, .string fr.fileName, .integer fr.lineNumber]

/-- The loop of `getStackTrace`: the frames before one that is equal to `te[0]`. -/
def beforeFirst (te : List StackTraceElement) :
    List StackTraceElement → Except TraceError (List StackTraceElement)
  | [] => .ok []
  | fr :: trace =>
    match te with
    | [] => .error .arrayIndexOutOfBounds
    | first :: _ => if fr = first then .ok [] else (fr :: ·) <$> beforeFirst te trace

/-- `getStackTrace`, of the two traces. There is no enclosing trace if there is no enclosing
throwable, or if it has none. -/
def getStackTrace (trace te : Option (List StackTraceElement)) :
    Except TraceError (Option (List FrameField)) :=
  match trace, te with
  | some trace, some te => (fun frames ↦ toFrames (some frames)) <$> beforeFirst te trace
  | trace, _ => .ok (toFrames trace)

end JPypeContext

/-- The loop of `PyTrace_FromJavaException`, which has the frames as fours of fields. The
`last_traceback` is a list, along `tb_next`. -/
def tbCreate (lastTraceback : List TracebackEntry) : List FrameField → List TracebackEntry
  | .string (some className) :: .string methodName :: .string fileName :: .integer lineNum ::
      fields =>
    tbCreate
      (⟨fileName.getD (className ++ ".java"),
        (methodName.map fun methodName ↦ className ++ "." ++ methodName).getD "",
        if lineNum < 0 then 0 else lineNum⟩ :: lastTraceback) fields
  | _ => lastTraceback

/-- `PyTrace_FromJavaException`, of the two traces. -/
def pyTraceFromJavaException (trace te : Option (List StackTraceElement)) :
    Option (List TracebackEntry) :=
  match JPypeContext.getStackTrace trace te with
  -- any exception is eaten
  | .error _ | .ok none => none
  | .ok (some fields) =>
    match tbCreate [] fields with
    | [] => none
    | traceback => some traceback

/-! ### Normalization -/

/-- The throwables of Java, and what they are in Python. -/
structure Throwables (T Py : Type) where
  getCause : T → Option T
  getStackTrace : T → Option (List StackTraceElement)
  convertToPythonObject : T → Py
  /-- Whether `PyJPValue_getJPClass` finds a class. -/
  isJava : Py → Bool

/-- A Python exception, with its traceback. -/
structure LinkedException (Py : Type) where
  value : Py
  traceback : Option (List TracebackEntry)
  deriving DecidableEq

/-- Exceptions that are linked by `__cause__`, and what has been linked to the last one of them
without a look at its traceback. -/
structure CauseChain (Py : Type) where
  exceptions : List (LinkedException Py)
  python : Option Py
  deriving DecidableEq

/-- The variables of the loop, and the exceptions that have been left behind. -/
structure NormalizeState (T Py : Type) where
  exc : LinkedException Py
  th : Option T
  enclosing : Option T
  done : List (LinkedException Py)

namespace Throwables

variable {T Py : Type} (w : Throwables T Py)

/-- `PyException_SetTraceback`, if there is a traceback. -/
def setTraceback (exc : LinkedException Py) (trace : Option (List TracebackEntry)) :
    LinkedException Py :=
  { exc with traceback := trace <|> exc.traceback }

/-- The body of the loop, with its condition. -/
def normalizeBody (s : NormalizeState T Py) : NormalizeState T Py ⊕ CauseChain Py :=
  match s.th with
  | none => .inr ⟨s.done ++ [s.exc], none⟩
  | some th =>
    let exc := setTraceback s.exc (pyTraceFromJavaException (w.getStackTrace th)
      (s.enclosing.bind w.getStackTrace))
    match w.getCause th with
    | none => .inr ⟨s.done ++ [exc], none⟩
    | some cause =>
      let next := w.convertToPythonObject cause
      if w.isJava next = false then .inr ⟨s.done ++ [exc], some next⟩
      else .inl ⟨⟨next, none⟩, some cause, some th, s.done ++ [exc]⟩

/-- `PyJPException_normalize`, for at most `fuel` rounds of the loop. -/
def normalize (fuel : ℕ) (exc : LinkedException Py) (th enclosing : Option T) :
    Option (CauseChain Py) :=
  iterate w.normalizeBody fuel ⟨exc, th, enclosing, []⟩

/-! ### What is to be converted -/

/-- The cause, unless it is a Python exception. -/
def javaCause (th : T) : Option T :=
  (w.getCause th).filter fun cause ↦ w.isJava (w.convertToPythonObject cause)

/-- The cause, if it is a Python exception. -/
def pythonCause (th : T) : Option Py :=
  ((w.getCause th).map w.convertToPythonObject).filter fun cause ↦ !w.isJava cause

/-- The exceptions of throwables in a chain, with the tracebacks that `traceback` makes of a trace
and the enclosing one: the first exception is given, and the others are converted. -/
def linked (traceback : Option (List StackTraceElement) → Option (List StackTraceElement) →
    Option (List TracebackEntry)) (exc : LinkedException Py) (enclosing : Option T) :
    List T → List (LinkedException Py)
  | [] => []
  | [th] => [setTraceback exc (traceback (w.getStackTrace th) (enclosing.bind w.getStackTrace))]
  | th :: cause :: ths =>
    setTraceback exc (traceback (w.getStackTrace th) (enclosing.bind w.getStackTrace)) ::
      linked traceback ⟨w.convertToPythonObject cause, none⟩ (some th) (cause :: ths)

end Throwables

/-- A frame in a traceback. -/
def StackTraceElement.entry (fr : StackTraceElement) : TracebackEntry where
  filename := fr.fileName.getD (fr.className ++ ".java")
  funcname := fr.className ++ "." ++ fr.methodName
  linenum := max 0 fr.lineNumber

/-- The traceback that has frames, the outermost first. There is none without frames. -/
def tracebackOf (frames : List StackTraceElement) : Option (List TracebackEntry) :=
  if frames = [] then none else some (frames.map StackTraceElement.entry).reverse

/-- The traceback of the frames before the first one that the traces share. -/
def ownTraceback (trace te : Option (List StackTraceElement)) : Option (List TracebackEntry) :=
  tracebackOf ((trace.getD []).takeWhile fun fr ↦ fr ∉ te.getD [])

/-- The first frame that a trace shares with the enclosing one, if there is such a frame, is the
first one there; and the enclosing trace is not empty unless the trace is. -/
def SharesFirst (trace te : Option (List StackTraceElement)) : Prop :=
  ∀ own first, trace = some own → te = some first →
    (first = [] → own = []) ∧ ∀ fr, own.find? (· ∈ first) = some fr → first.head? = some fr

namespace Throwables

variable {T Py : Type} (w : Throwables T Py)

/-- The loop ends, and has linked the conversions of the causes, to the first that is a Python
exception or is there already, with their own frames. -/
def ConvertsCompletely (th : T) (enclosing : Option T) : Prop :=
  ∃ ths, UpToRepetition w.javaCause th ths ∧ ∀ exc, ∃ fuel,
    w.normalize fuel exc (some th) enclosing =
      some ⟨w.linked ownTraceback exc enclosing ths, ths.getLast?.bind w.pythonCause⟩

end Throwables

/-! ### Tracebacks -/

theorem tbCreate_toFrames (frames : List StackTraceElement) (last : List TracebackEntry) :
    tbCreate last (frames.flatMap fun fr ↦ [.string fr.className, .string fr.methodName,
      .string fr.fileName, .integer fr.lineNumber]) =
      (frames.map StackTraceElement.entry).reverse ++ last := by
  induction frames generalizing last with
  | nil => rfl
  | cons fr frames ih =>
    have hentry : fr.entry = ⟨fr.fileName.getD (fr.className ++ ".java"),
        fr.className ++ "." ++ fr.methodName,
        if fr.lineNumber < 0 then 0 else fr.lineNumber⟩ := by
      rw [StackTraceElement.entry, TracebackEntry.mk.injEq]
      exact ⟨rfl, rfl, by omega⟩
    rw [List.map_cons, List.reverse_cons, List.append_assoc, hentry]
    exact ih _

/-- Frames that Java hands over without an exception become the traceback. -/
theorem PyTrace_FromJavaException_of_ok {trace te : Option (List StackTraceElement)}
    {frames : List StackTraceElement}
    (h : JPypeContext.getStackTrace trace te = .ok (JPypeContext.toFrames (some frames))) :
    pyTraceFromJavaException trace te = tracebackOf frames := by
  rw [pyTraceFromJavaException, h]
  show (match tbCreate [] _ with | [] => none | traceback => some traceback) = _
  rw [tbCreate_toFrames, List.append_nil, tracebackOf]
  split_ifs with hframes
  · rw [hframes]
    rfl
  · split
    · next hnil => simp [hframes] at hnil
    · rfl

namespace JPypeContext

theorem beforeFirst_cons (first : StackTraceElement) (te trace : List StackTraceElement) :
    beforeFirst (first :: te) trace = .ok (trace.takeWhile (· ≠ first)) := by
  induction trace with
  | nil => rfl
  | cons fr trace ih =>
    rw [beforeFirst]
    by_cases h : fr = first
    · rw [if_pos h, List.takeWhile_cons_of_neg (by simpa using h)]
    · rw [if_neg h, ih, List.takeWhile_cons_of_pos (by simpa using h)]
      rfl

end JPypeContext

/-- Different parts of the front of a trace have different tracebacks. -/
theorem tracebackOf_inj {frames frames' trace : List StackTraceElement} (h : frames <+: trace)
    (h' : frames' <+: trace) : tracebackOf frames = tracebackOf frames' ↔ frames = frames' := by
  refine ⟨fun heq ↦ ?_, congrArg tracebackOf⟩
  have hlength : frames.length = frames'.length := by
    rw [tracebackOf, tracebackOf] at heq
    split_ifs at heq with h₁ h₂ h₃
    · rw [h₁, h₂]
    · simpa using congrArg List.length (Option.some.inj heq)
  exact (List.prefix_of_prefix_length_le h h' hlength.le).eq_of_length hlength

/-- The frames before the first one that is shared are those before the enclosing trace's first
frame, if that is the one that is shared first. -/
theorem takeWhile_eq_iff (first : StackTraceElement) (te trace : List StackTraceElement) :
    trace.takeWhile (· ≠ first) = trace.takeWhile (fun fr ↦ fr ∉ first :: te) ↔
      ∀ fr, trace.find? (· ∈ first :: te) = some fr → first = fr := by
  induction trace with
  | nil => simp
  | cons fr trace ih =>
    by_cases hmem : fr ∈ first :: te
    · rw [List.find?_cons_of_pos (by simpa using hmem),
        show (fr :: trace).takeWhile (fun fr ↦ fr ∉ first :: te) = [] from
          List.takeWhile_cons_of_neg (by simpa only [decide_eq_true_eq, not_not] using hmem)]
      by_cases hfirst : fr = first
      · rw [List.takeWhile_cons_of_neg (by simpa using hfirst)]
        simp [hfirst]
      · rw [List.takeWhile_cons_of_pos (by simpa using hfirst)]
        simp [Ne.symm hfirst]
    · have hne : fr ≠ first := fun h ↦ hmem (h ▸ List.mem_cons_self)
      rw [List.find?_cons_of_neg (by simpa using hmem),
        List.takeWhile_cons_of_pos (by simpa only [decide_eq_true_eq] using hne),
        List.takeWhile_cons_of_pos (by simpa only [decide_eq_true_eq] using hmem),
        List.cons_inj_right, ih]

/-- The traceback has a throwable's own frames unless the first shared frame is another than the
first one of the enclosing trace, or there is no first one. -/
theorem traceback_eq_iff (trace te : Option (List StackTraceElement)) :
    pyTraceFromJavaException trace te = ownTraceback trace te ↔ SharesFirst trace te := by
  cases trace with
  | none => exact iff_of_true rfl fun own first h ↦ absurd h.symm (Option.some_ne_none own)
  | some trace =>
    cases te with
    | none =>
      refine iff_of_true ?_ fun own first _ h ↦ absurd h.symm (Option.some_ne_none first)
      have hall : trace.takeWhile (fun fr ↦ fr ∉ (none : Option (List StackTraceElement)).getD []) =
          trace := List.takeWhile_eq_self_iff.2 fun fr _ ↦ by simp
      rw [ownTraceback, Option.getD_some, hall]
      exact PyTrace_FromJavaException_of_ok rfl
    | some te =>
      have hshares : SharesFirst (some trace) (some te) ↔ (te = [] → trace = []) ∧
          ∀ fr, trace.find? (· ∈ te) = some fr → te.head? = some fr :=
        ⟨fun h ↦ h trace te rfl rfl, fun h own first hown hfirst ↦ by
          obtain rfl := Option.some.inj hown
          obtain rfl := Option.some.inj hfirst
          exact h⟩
      rw [hshares]
      cases te with
      | nil =>
        cases trace with
        | nil => simp [pyTraceFromJavaException, JPypeContext.getStackTrace, ownTraceback,
            JPypeContext.beforeFirst, JPypeContext.toFrames, tracebackOf, tbCreate]
        | cons fr trace =>
          -- the comparison fails, and no frame is left
          refine iff_of_false ?_ fun h ↦ List.cons_ne_nil fr trace (h.1 rfl)
          simp [pyTraceFromJavaException, JPypeContext.getStackTrace, ownTraceback,
            JPypeContext.beforeFirst, tracebackOf]
      | cons first te =>
        have hok : JPypeContext.getStackTrace (some trace) (some (first :: te)) =
            .ok (JPypeContext.toFrames (some (trace.takeWhile (· ≠ first)))) := by
          rw [JPypeContext.getStackTrace, JPypeContext.beforeFirst_cons]
          rfl
        rw [PyTrace_FromJavaException_of_ok hok, ownTraceback, Option.getD_some, Option.getD_some,
          tracebackOf_inj (List.takeWhile_prefix _) (List.takeWhile_prefix _), takeWhile_eq_iff]
        simp

/-! ### The loop -/

namespace Throwables

variable {T Py : Type} {w : Throwables T Py}

theorem javaCause_eq_some {th cause : T} : w.javaCause th = some cause ↔
    w.getCause th = some cause ∧ w.isJava (w.convertToPythonObject cause) = true := by
  rw [javaCause, Option.filter_eq_some_iff]

/-- A round that comes to another throwable. -/
theorem normalizeBody_of_javaCause {th cause : T} (h : w.javaCause th = some cause)
    (exc : LinkedException Py) (enclosing : Option T) (done : List (LinkedException Py)) :
    w.normalizeBody ⟨exc, some th, enclosing, done⟩ =
      .inl ⟨⟨w.convertToPythonObject cause, none⟩, some cause, some th,
        done ++ w.linked pyTraceFromJavaException exc enclosing [th]⟩ := by
  obtain ⟨hcause, hjava⟩ := javaCause_eq_some.1 h
  simp [normalizeBody, hcause, hjava, linked]

/-- The last round. -/
theorem normalizeBody_of_none {th : T} (h : w.javaCause th = none)
    (exc : LinkedException Py) (enclosing : Option T) (done : List (LinkedException Py)) :
    w.normalizeBody ⟨exc, some th, enclosing, done⟩ =
      .inr ⟨done ++ w.linked pyTraceFromJavaException exc enclosing [th], w.pythonCause th⟩ := by
  cases hcause : w.getCause th with
  | none => simp [normalizeBody, hcause, linked, pythonCause]
  | some cause =>
    have hjava : w.isJava (w.convertToPythonObject cause) = false := by
      simpa [javaCause, hcause] using h
    simp [normalizeBody, hcause, hjava, linked, pythonCause, Option.filter]

/-- Along a trail of causes the loop ends. -/
theorem ends_of_trail {th : T} {ths : List T} (h : Trail w.javaCause th ths)
    (exc : LinkedException Py) (enclosing : Option T) (done : List (LinkedException Py)) :
    Ends w.normalizeBody ⟨exc, some th, enclosing, done⟩
      ⟨done ++ w.linked pyTraceFromJavaException exc enclosing ths,
        ths.getLast?.bind w.pythonCause⟩ := by
  induction h generalizing exc enclosing done with
  | last hnone => exact .of_inr (normalizeBody_of_none hnone exc enclosing done)
  | @cons th cause ths hsome ht ih =>
    obtain ⟨ths, rfl⟩ := List.head?_eq_some_iff.1 ht.head
    refine .of_inl (normalizeBody_of_javaCause hsome exc enclosing done) ?_
    have hrest := ih ⟨w.convertToPythonObject cause, none⟩ (some th)
      (done ++ w.linked pyTraceFromJavaException exc enclosing [th])
    rw [List.append_assoc] at hrest
    exact hrest

/-- The loop ends only where the causes do. -/
theorem exists_trail_of_normalize {fuel : ℕ} {exc : LinkedException Py} {th : T}
    {enclosing : Option T} {done : List (LinkedException Py)} {chain : CauseChain Py}
    (h : iterate w.normalizeBody fuel ⟨exc, some th, enclosing, done⟩ = some chain) :
    ∃ ths, Trail w.javaCause th ths := by
  induction fuel generalizing exc th enclosing done with
  | zero => exact absurd h (Option.some_ne_none chain).symm
  | succ fuel ih =>
    cases hcause : w.javaCause th with
    | none => exact ⟨[th], .last hcause⟩
    | some cause =>
      rw [iterate, normalizeBody_of_javaCause hcause] at h
      obtain ⟨ths, hths⟩ := ih h
      exact ⟨th :: ths, .cons hcause hths⟩

/-- Tracebacks that have the own frames of each throwable. -/
theorem linked_congr {enclosing : Option T} {ths : List T}
    (h : ∀ pair ∈ (enclosing :: ths.map some).zip ths,
      SharesFirst (w.getStackTrace pair.2) (pair.1.bind w.getStackTrace))
    (exc : LinkedException Py) :
    w.linked pyTraceFromJavaException exc enclosing ths =
      w.linked ownTraceback exc enclosing ths := by
  induction ths generalizing exc enclosing with
  | nil => rfl
  | cons th ths ih =>
    rw [List.map_cons, List.zip_cons_cons, List.forall_mem_cons] at h
    have htraceback := (traceback_eq_iff _ _).2 h.1
    cases ths with
    | nil => rw [linked, linked, htraceback]
    | cons cause ths => rw [linked, linked, htraceback, ih h.2]

/-- Exceptions that had no tracebacks show which ones they were given. -/
theorem sharesFirst_of_linked_eq {exc : LinkedException Py} (hexc : exc.traceback = none)
    {enclosing : Option T} {ths : List T}
    (h : w.linked pyTraceFromJavaException exc enclosing ths =
      w.linked ownTraceback exc enclosing ths) :
    ∀ pair ∈ (enclosing :: ths.map some).zip ths,
      SharesFirst (w.getStackTrace pair.2) (pair.1.bind w.getStackTrace) := by
  have hhead : ∀ {exc : LinkedException Py}, exc.traceback = none → ∀ {trace te},
      setTraceback exc (pyTraceFromJavaException trace te) =
        setTraceback exc (ownTraceback trace te) → SharesFirst trace te := by
    intro exc hexc trace te heq
    refine (traceback_eq_iff trace te).1 ?_
    have htraceback := congrArg LinkedException.traceback heq
    simpa only [setTraceback, hexc, Option.orElse_eq_orElse, Option.orElse_eq_or, Option.or_none]
      using htraceback
  induction ths generalizing exc enclosing with
  | nil => exact List.forall_mem_nil _
  | cons th ths ih =>
    rw [List.map_cons, List.zip_cons_cons, List.forall_mem_cons]
    cases ths with
    | nil => exact ⟨hhead hexc (List.singleton_inj.1 h), List.forall_mem_nil _⟩
    | cons cause ths =>
      rw [linked, linked, List.cons.injEq] at h
      refine ⟨hhead hexc h.1, ih ?_ h.2⟩
      rfl

/-- What follows from a complete conversion. -/
theorem ConvertsCompletely.exists_trail {th : T} {enclosing : Option T}
    (h : w.ConvertsCompletely th enclosing) :
    ∃ ths, Trail w.javaCause th ths ∧ ∀ pair ∈ (enclosing :: ths.map some).zip ths,
      SharesFirst (w.getStackTrace pair.2) (pair.1.bind w.getStackTrace) := by
  obtain ⟨ths, hths, hnormalize⟩ := h
  obtain ⟨fuel, hfuel⟩ := hnormalize ⟨w.convertToPythonObject th, none⟩
  obtain ⟨ths', htrail⟩ := exists_trail_of_normalize hfuel
  obtain rfl := hths.eq_trail htrail
  have hchain := (ends_of_trail htrail _ enclosing []).unique ⟨fuel, hfuel⟩
  exact ⟨ths, htrail, sharesFirst_of_linked_eq rfl (congrArg CauseChain.exceptions hchain)⟩

/-- All causes are converted, with their own frames, if and only if the causes come to an end, and
no trace shares another frame with the enclosing one before that one's first frame. -/
theorem convertsCompletely_iff (w : Throwables T Py) (th : T) (enclosing : Option T) :
    w.ConvertsCompletely th enclosing ↔ ∃ ths, Trail w.javaCause th ths ∧
      ∀ pair ∈ (enclosing :: ths.map some).zip ths,
        SharesFirst (w.getStackTrace pair.2) (pair.1.bind w.getStackTrace) := by
  refine ⟨ConvertsCompletely.exists_trail, fun ⟨ths, htrail, hshares⟩ ↦ ?_⟩
  refine ⟨ths, htrail.upToRepetition, fun exc ↦ ?_⟩
  rw [← linked_congr hshares exc]
  exact ends_of_trail htrail exc enclosing []

end Throwables

/-! ### Chains that are not converted completely -/

/-- Two throwables that are each other's causes. -/
def circular : Throwables Bool Bool where
  getCause th := some !th
  getStackTrace _ := some []
  convertToPythonObject th := th
  isJava _ := true

/-- A throwable `true` with its cause `false`. -/
def wrapped (outer inner : List StackTraceElement) : Throwables Bool Bool where
  getCause th := if th then some false else none
  getStackTrace th := some (if th then outer else inner)
  convertToPythonObject th := th
  isJava _ := true

/-- A frame of a program. -/
def frameAt (methodName : String) (lineNumber : ℤ) : StackTraceElement :=
  ⟨some "app", none, none, "Program", methodName, some "Program.java", lineNumber⟩

theorem circular_trail {th : Bool} {ths : List Bool} : ¬ Trail circular.javaCause th ths := by
  intro h
  induction h with
  | last hnone => exact absurd hnone (by simp [Throwables.javaCause, circular])
  | cons _ _ ih => exact ih

theorem sharesFirst_of_wrapped {outer inner : List StackTraceElement}
    (h : (wrapped outer inner).ConvertsCompletely true none) :
    SharesFirst (some inner) (some outer) := by
  obtain ⟨ths, htrail, hshares⟩ := h.exists_trail
  have htrail' : Trail (wrapped outer inner).javaCause true [true, false] :=
    .cons rfl (.last rfl)
  obtain rfl := htrail.unique htrail'
  exact hshares (some true, false) (by decide)

/-- Causes in a circle; a cause whose frames are lost because the trace around it is empty; and one
that is thrown by a call in the method that wraps it, where the frame of `main` is there twice. -/
theorem not_convertsCompletely :
    ¬ circular.ConvertsCompletely true none ∧
      ¬ (wrapped [] [frameAt "main" 3]).ConvertsCompletely true none ∧
      ¬ (wrapped [frameAt "load" 20, frameAt "main" 3]
        [frameAt "parse" 5, frameAt "load" 18, frameAt "main" 3]).ConvertsCompletely true none := by
  refine ⟨fun h ↦ ?_, fun h ↦ ?_, fun h ↦ ?_⟩
  · obtain ⟨ths, htrail, -⟩ := h.exists_trail
    exact circular_trail htrail
  · have hempty := (sharesFirst_of_wrapped h _ _ rfl rfl).1 rfl
    exact List.cons_ne_nil _ _ hempty
  · have hfirst := (sharesFirst_of_wrapped h _ _ rfl rfl).2 (frameAt "main" 3) (by decide)
    exact absurd hfirst (by decide)

end JPype
