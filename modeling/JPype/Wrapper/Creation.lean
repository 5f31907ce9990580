import JPype.Foundation.Runs
import Mathlib.Data.List.Nodup

/-!
# Creation of the class wrappers

The wrapper of a Java class is made when it is first asked for. `PyJPClass_hook` asks for the
wrappers of the bases, creates the type, sets it as the host of the class, and only then calls
`_jclassPost`, which runs the initializers of the customizers and attaches the wrappers of the
nested classes. To ask for a wrapper is to come here again: a class may be asked for while a call
for it is already under way, and what is not yet its final wrapper is its host by then.

The calls are modelled one step at a time. A state holds the call that is running with the calls
that wait for its result; any step may raise instead of going on, and nothing on the way catches.
-/

open Foundation

namespace JPype

/-- The Java classes `κ` as Java declares them, and the bases `ι` that their wrappers have in
Python, with the customizations of these. -/
structure DeclaredClasses (κ ι : Type*) where
  interfaces : κ → List κ
  super : κ → Option κ
  getDeclaredClasses : κ → List κ
  getModifiers : κ → ℕ
  /-- The `__mro__` of the wrapper, the wrapper first. -/
  mro : κ → List ι
  mro_nodup : ∀ c, (mro c).Nodup
  /-- Whether `__jclass_init__` is in the `__dict__` of a base. -/
  jclassInit : ι → Bool

namespace DeclaredClasses

variable {κ ι : Type*} (H : DeclaredClasses κ ι)

/-- The wrappers that `PyJPClass_getBases` asks for. -/
def getBases (c : κ) : List κ :=
  H.interfaces c ++ (H.super c).toList

/-- `cls.getModifiers() & 1 == 0` is what `_jclassPost` passes over. -/
def isPublic (c : κ) : Bool :=
  H.getModifiers c &&& 1 != 0

/-- The initializers that `applyInitializer` calls, in order. -/
def applyInitializer (c : κ) : List ι :=
  if (H.mro c).any H.jclassInit then
    (H.mro c).foldl (fun init base ↦ if H.jclassInit base then base :: init else init) []
  else
    []

/-- The initializers of a class: its own and the inherited ones, base first. -/
def initializers (c : κ) : List ι :=
  ((H.mro c).filter H.jclassInit).reverse

/-- The public nested classes. -/
def nested (c : κ) : List κ :=
  (H.getDeclaredClasses c).filter H.isPublic

end DeclaredClasses

/-- A type object with the metaclass `_JClass`: its class and bases, the initializers that have run
on it, and the nested classes attached to it, each as an attribute with its wrapper. Wrappers are
numbered in the order in which they are made. -/
structure ClassWrapper (κ ι : Type*) where
  cls : κ
  bases : List ℕ
  ran : List ι
  attached : List (κ × ℕ)
  deriving DecidableEq

/-- Where the call for the wrapper of a class stands. -/
inductive Stage (κ ι : Type*) where
  /-- `PyJPClass_create`, before it looks at the host -/
  | create
  /-- `PyJPClass_create`, after `newWrapper` -/
  | created
  /-- `PyJPClass_hook`, before it looks at the host -/
  | hook
  /-- `PyJPClass_getBases`, with the classes to go and the wrappers it has -/
  | getBases (rest : List κ) (bases : List ℕ)
  /-- the call of `_jclassPre` -/
  | pre (bases : List ℕ)
  /-- the call of the metaclass, the Java slot and the host -/
  | typeNew (bases : List ℕ)
  /-- `_jclassPost`, with the initializers that `applyInitializer` has still to call -/
  | initializing (res : ℕ) (init : List ι)
  /-- `_jclassPost`, with the declared classes to go -/
  | attach (res : ℕ) (rest : List κ)
  /-- `_jclassPost`, where it attaches a wrapper -/
  | customize (res : ℕ) (cls : κ) (wrapper : ℕ) (rest : List κ)
  deriving DecidableEq

/-- A call, for the class `cls`, that waits for the wrapper of another class. -/
inductive Caller (κ : Type*) where
  | getBases (cls : κ) (rest : List κ) (bases : List ℕ)
  | attach (cls : κ) (res : ℕ) (rest : List κ)
  deriving DecidableEq

/-- The call that is running, for the class `cls`, and the calls that wait, the latest first: the
first one for the wrapper of `cls`. -/
structure Activity (κ ι : Type*) where
  cls : κ
  stage : Stage κ ι
  callers : List (Caller κ)
  deriving DecidableEq

/-- How a request ended. -/
inductive Answer (κ : Type*) where
  | returned (cls : κ) (wrapper : ℕ)
  | raised
  deriving DecidableEq

/-- The wrappers, the hosts of the classes, whether `_jpype._java_lang_Class` is set, the request
under way, and the end of the last request. -/
structure Wrapping (κ ι : Type*) where
  wrappers : List (ClassWrapper κ ι)
  getHost : κ → Option ℕ
  javaLangClass : Bool
  active : Option (Activity κ ι)
  answer : Option (Answer κ)

/-- What happens next: a request, or `initializeResources` sets `_jpype._java_lang_Class`; or, while
a request is under way, the running call goes on by one step, or raises. -/
inductive Event (κ : Type*) where
  | request (cls : κ)
  | setClass
  | proceed
  | raise
  deriving DecidableEq

namespace Wrapping

variable {κ ι : Type*} [DecidableEq κ] (H : DeclaredClasses κ ι)

/-- No wrapper has been asked for. -/
def initial : Wrapping κ ι :=
  ⟨[], fun _ ↦ none, false, none, none⟩

/-- The exception ends the request: nothing on the way handles it. -/
def raised (s : Wrapping κ ι) : Wrapping κ ι :=
  { s with active := none, answer := some .raised }

/-- `PyJPClass_create` for the class `c` returns the wrapper `w`. -/
def returned (s : Wrapping κ ι) (c : κ) (w : ℕ) : List (Caller κ) → Wrapping κ ι
  | [] => { s with active := none, answer := some (.returned c w) }
  | .getBases c' rest bases :: callers =>
    { s with active := some ⟨c', .getBases rest (bases ++ [w]), callers⟩ }
  | .attach c' res rest :: callers =>
    { s with active := some ⟨c', .customize res c w rest, callers⟩ }

/-- One step of the running call. -/
def proceed (s : Wrapping κ ι) (c : κ) (callers : List (Caller κ)) : Stage κ ι → Wrapping κ ι
  | .create =>
    match s.getHost c with
    | some w => s.returned c w callers
    | none => { s with active := some ⟨c, .hook, callers⟩ }
  | .created =>
    match s.getHost c with
    | some w => s.returned c w callers
    | none => s.raised
  | .hook =>
    match s.getHost c with
    | some _ => { s with active := some ⟨c, .created, callers⟩ }
    | none => { s with active := some ⟨c, .getBases (H.getBases c) [], callers⟩ }
  | .getBases (b :: rest) bases =>
    { s with active := some ⟨b, .create, .getBases c rest bases :: callers⟩ }
  | .getBases [] bases =>
    -- the bases may have created the wrapper
    match s.getHost c with
    | some _ => { s with active := some ⟨c, .created, callers⟩ }
    | none => { s with active := some ⟨c, .pre bases, callers⟩ }
  | .pre bases => { s with active := some ⟨c, .typeNew bases, callers⟩ }
  | .typeNew bases =>
    { s with
      wrappers := s.wrappers ++ [⟨c, bases, [], []⟩]
      getHost := Function.update s.getHost c (some s.wrappers.length)
      active := some ⟨c, .initializing s.wrappers.length (H.applyInitializer c), callers⟩ }
  | .initializing res (b :: init) =>
    { s with
      wrappers := s.wrappers.modify res fun x ↦ { x with ran := x.ran ++ [b] }
      active := some ⟨c, .initializing res init, callers⟩ }
  | .initializing res [] =>
    if s.javaLangClass then
      { s with active := some ⟨c, .attach res (H.getDeclaredClasses c), callers⟩ }
    else
      { s with active := some ⟨c, .created, callers⟩ }
  | .attach res (d :: rest) =>
    if H.isPublic d then
      { s with active := some ⟨d, .create, .attach c res rest :: callers⟩ }
    else
      { s with active := some ⟨c, .attach res rest, callers⟩ }
  | .attach _ [] => { s with active := some ⟨c, .created, callers⟩ }
  | .customize res d w rest =>
    { s with
      wrappers := s.wrappers.modify res fun x ↦ { x with attached := x.attached ++ [(d, w)] }
      active := some ⟨c, .attach res rest, callers⟩ }

/-- The state after an event; requests come one after the other. -/
def step (s : Wrapping κ ι) (e : Event κ) : Wrapping κ ι :=
  match s.active, e with
  | none, .request c => { s with active := some ⟨c, .create, []⟩, answer := none }
  | none, .setClass => { s with javaLangClass := true }
  | some a, .proceed => s.proceed H a.cls a.callers a.stage
  | some _, .raise => s.raised
  | _, _ => s

end Wrapping

/-- What a run of `_jclassPost` has still to do: initializers to call, and public nested classes to
attach. -/
structure Work (κ ι : Type*) where
  cls : κ
  res : ℕ
  init : List ι
  todo : List κ

namespace Wrapping

variable {κ ι : Type*} (H : DeclaredClasses κ ι)

/-- The work of the running call for the class `c`. -/
def stageWork (c : κ) : Stage κ ι → List (Work κ ι)
  | .initializing res init => [⟨c, res, init, H.nested c⟩]
  | .attach res rest => [⟨c, res, [], rest.filter H.isPublic⟩]
  | .customize res d _ rest => [⟨c, res, [], d :: rest.filter H.isPublic⟩]
  | _ => []

/-- The work of the calls that wait, the first one for the wrapper of `c`. -/
def callerWork : κ → List (Caller κ) → List (Work κ ι)
  | _, [] => []
  | _, .getBases c' _ _ :: callers => callerWork c' callers
  | c, .attach c' res rest :: callers =>
    ⟨c', res, [], c :: rest.filter H.isPublic⟩ :: callerWork c' callers

/-- The runs of `_jclassPost` that are under way. -/
def works (s : Wrapping κ ι) : List (Work κ ι) :=
  match s.active with
  | none => []
  | some a => stageWork H a.cls a.stage ++ callerWork H a.cls a.callers

/-- The initializers have run on the wrapper, each once and base first, and the wrappers of the
public nested classes are attached. -/
structure Complete (getHost : κ → Option ℕ) (x : ClassWrapper κ ι) : Prop where
  ran_eq : x.ran = H.initializers x.cls
  once : x.ran.Nodup
  attached_eq : x.attached.map Prod.fst = H.nested x.cls
  wrapper : ∀ p ∈ x.attached, getHost p.1 = some p.2

/-- Creation is all or nothing. A class has one wrapper at most; what a request returns is complete;
and so is every wrapper at whose creation no call is at work any more, which is what a request for
its class will return from then on. -/
structure AllOrNothing (s : Wrapping κ ι) : Prop where
  unique : (s.wrappers.map ClassWrapper.cls).Nodup
  returned : ∀ c w, s.answer = some (.returned c w) →
    ∃ x, s.wrappers[w]? = some x ∧ x.cls = c ∧ Complete H s.getHost x
  settled : ∀ c w, s.getHost c = some w → w ∉ (s.works H).map Work.res →
    ∃ x, s.wrappers[w]? = some x ∧ x.cls = c ∧ Complete H s.getHost x

/-- The events that lose nothing: a call raises only while no published wrapper has initializers or
public nested classes to come, and `_jclassPost` passes over the nested classes, for want of
`_jpype._java_lang_Class`, only where there are none. -/
def Harmless (s : Wrapping κ ι) : Event κ → Prop
  | .raise => ∀ k ∈ s.works H, k.init = [] ∧ k.todo = []
  | .proceed => ∀ c res callers, s.active = some ⟨c, .initializing res [], callers⟩ →
    s.javaLangClass = true ∨ H.nested c = []
  | _ => True

end Wrapping

namespace DeclaredClasses

variable {κ ι : Type*} (H : DeclaredClasses κ ι)

theorem foldl_insert_front (p : ι → Bool) (l init : List ι) :
    l.foldl (fun init base ↦ if p base then base :: init else init) init =
      (l.filter p).reverse ++ init := by
  induction l generalizing init with
  | nil => rfl
  | cons b l ih =>
    rw [List.foldl_cons, ih]
    cases hb : p b <;> simp [hb]

/-- `applyInitializer` calls every initializer along the `__mro__` once, base first. -/
theorem applyInitializer_eq (c : κ) : H.applyInitializer c = H.initializers c := by
  rw [applyInitializer, initializers]
  split
  · rw [foldl_insert_front, List.append_nil]
  · next h =>
    have hnone : (H.mro c).filter H.jclassInit = [] := by
      simpa [List.filter_eq_nil_iff] using h
    rw [hnone, List.reverse_nil]

theorem nodup_initializers (c : κ) : (H.initializers c).Nodup :=
  List.nodup_reverse.2 ((H.mro_nodup c).filter _)

end DeclaredClasses

namespace Wrapping

variable {κ ι : Type*} {H : DeclaredClasses κ ι} {s s' : Wrapping κ ι} {k k' : Work κ ι}

/-- The wrapper on which a run of `_jclassPost` works lacks just what is still to be done. -/
structure Begun (H : DeclaredClasses κ ι) (getHost : κ → Option ℕ) (k : Work κ ι)
    (x : ClassWrapper κ ι) : Prop where
  cls_eq : x.cls = k.cls
  ran_eq : x.ran ++ k.init = H.initializers k.cls
  attached_eq : x.attached.map Prod.fst ++ k.todo = H.nested k.cls
  wrapper : ∀ p ∈ x.attached, getHost p.1 = some p.2

theorem Begun.complete {getHost : κ → Option ℕ} {x : ClassWrapper κ ι} (h : Begun H getHost k x)
    (hinit : k.init = []) (htodo : k.todo = []) : Complete H getHost x := by
  have hran : x.ran = H.initializers x.cls := by
    rw [h.cls_eq, ← h.ran_eq, hinit, List.append_nil]
  refine ⟨hran, ?_, ?_, h.wrapper⟩
  · rw [hran]
    exact H.nodup_initializers x.cls
  · rw [h.cls_eq, ← h.attached_eq, htodo, List.append_nil]

theorem Begun.finished {getHost : κ → Option ℕ} {x : ClassWrapper κ ι} (h : Begun H getHost k x)
    (hx : Complete H getHost x) : k.init = [] ∧ k.todo = [] := by
  have hran := h.ran_eq
  have hattached := h.attached_eq
  rw [← h.cls_eq, ← hx.ran_eq] at hran
  rw [← h.cls_eq, ← hx.attached_eq] at hattached
  exact ⟨List.append_right_eq_self.1 hran, List.append_right_eq_self.1 hattached⟩

/-- What the stage of the running call says about the hosts. -/
def Ready (getHost : κ → Option ℕ) (c : κ) : Stage κ ι → Prop
  | .created => ∃ w, getHost c = some w
  | .pre _ => getHost c = none
  | .typeNew _ => getHost c = none
  | .customize _ d w _ => getHost d = some w
  | _ => True

/-- The hosts of the classes are the wrappers, one for each class; a wrapper is complete, except for
what a run of `_jclassPost` on it, at most one, has still to do. -/
structure Inv (H : DeclaredClasses κ ι) (s : Wrapping κ ι) : Prop where
  host_iff : ∀ c w, s.getHost c = some w ↔ ∃ x, s.wrappers[w]? = some x ∧ x.cls = c
  begun : ∀ k ∈ s.works H, ∃ x, s.wrappers[k.res]? = some x ∧ Begun H s.getHost k x
  distinct : ((s.works H).map Work.res).Nodup
  settled : ∀ (w : ℕ) x, s.wrappers[w]? = some x → w ∉ (s.works H).map Work.res →
    Complete H s.getHost x
  ready : ∀ a, s.active = some a → Ready s.getHost a.cls a.stage
  answer : ∀ c w, s.answer = some (.returned c w) → s.active = none ∧ s.getHost c = some w

theorem inv_initial : Inv H initial where
  host_iff c w := by simp [initial]
  begun k hk := nomatch hk
  distinct := .nil
  settled w x hx := by simp [initial] at hx
  ready a ha := nomatch ha
  answer c w h := nomatch h

theorem Inv.allOrNothing (h : Inv H s) : AllOrNothing H s := by
  have settled : ∀ c w, s.getHost c = some w → w ∉ (s.works H).map Work.res →
      ∃ x, s.wrappers[w]? = some x ∧ x.cls = c ∧ Complete H s.getHost x := by
    intro c w hw hworks
    obtain ⟨x, hx, hc⟩ := (h.host_iff c w).1 hw
    exact ⟨x, hx, hc, h.settled w x hx hworks⟩
  refine ⟨?_, fun c w hanswer ↦ ?_, settled⟩
  · -- two wrappers of one class would both be its host
    refine List.nodup_iff_getElem?_ne_getElem?.2 fun i j hij hj heq ↦ ?_
    rw [List.length_map] at hj
    rw [List.getElem?_map, List.getElem?_map, List.getElem?_eq_getElem (Nat.lt_trans hij hj),
      List.getElem?_eq_getElem hj] at heq
    have hi := (h.host_iff _ i).2 ⟨_, List.getElem?_eq_getElem (Nat.lt_trans hij hj), rfl⟩
    have hj' := (h.host_iff _ j).2 ⟨_, List.getElem?_eq_getElem hj, rfl⟩
    rw [Option.some.inj heq, hj'] at hi
    exact absurd (Option.some.inj hi).symm (Nat.ne_of_lt hij)
  · obtain ⟨hactive, hhost⟩ := h.answer c w hanswer
    refine settled c w hhost ?_
    rw [works, hactive]
    exact List.not_mem_nil

/-- Runs of `_jclassPost` may end, if they have nothing to do any more. -/
theorem Inv.of_sublist (h : Inv H s) (hwrappers : s'.wrappers = s.wrappers)
    (hhost : s'.getHost = s.getHost) (hsub : (s'.works H).Sublist (s.works H))
    (hdone : ∀ k ∈ s.works H, k ∉ s'.works H → k.init = [] ∧ k.todo = [])
    (hready : ∀ a, s'.active = some a → Ready s.getHost a.cls a.stage)
    (hanswer : ∀ c w, s'.answer = some (.returned c w) →
      s'.active = none ∧ s.getHost c = some w) : Inv H s' where
  host_iff := by rw [hwrappers, hhost]; exact h.host_iff
  begun k hk := by rw [hwrappers, hhost]; exact h.begun k (hsub.subset hk)
  distinct := h.distinct.sublist (hsub.map _)
  settled w x hx hw := by
    rw [hwrappers] at hx
    rw [hhost]
    by_cases hmem : w ∈ (s.works H).map Work.res
    · obtain ⟨k, hk, rfl⟩ := List.mem_map.1 hmem
      obtain ⟨x', hx', hbegun⟩ := h.begun k hk
      rw [hx] at hx'
      obtain rfl := Option.some.inj hx'
      obtain ⟨hinit, htodo⟩ := hdone k hk fun hk' ↦ hw (List.mem_map_of_mem hk')
      exact hbegun.complete hinit htodo
    · exact h.settled w x hx hmem
  ready := by rw [hhost]; exact hready
  answer := by rw [hhost]; exact hanswer

/-- A run of `_jclassPost` that ends before its work is done leaves a wrapper behind that will never
be complete. -/
theorem Inv.not_allOrNothing (h : Inv H s) (hwrappers : s'.wrappers = s.wrappers)
    (hhost : s'.getHost = s.getHost) (hk : k ∈ s.works H)
    (hlost : k.res ∉ (s'.works H).map Work.res)
    (hk' : ¬(k.init = [] ∧ k.todo = [])) : ¬AllOrNothing H s' := by
  intro hs'
  obtain ⟨x, hx, hbegun⟩ := h.begun k hk
  have hhost' : s'.getHost k.cls = some k.res := by
    rw [hhost]
    exact (h.host_iff _ _).2 ⟨x, hx, hbegun.cls_eq⟩
  obtain ⟨x', hx', -, hcomplete⟩ := hs'.settled _ _ hhost' hlost
  rw [hwrappers, hx] at hx'
  obtain rfl := Option.some.inj hx'
  rw [hhost] at hcomplete
  exact hk' (hbegun.finished hcomplete)

/-- The running `_jclassPost` does a part of its work. -/
theorem Inv.modify (h : Inv H s) {ks : List (Work κ ι)} {f : ClassWrapper κ ι → ClassWrapper κ ι}
    (hworks : s.works H = k :: ks) (hworks' : s'.works H = k' :: ks) (hres : k'.res = k.res)
    (hwrappers : s'.wrappers = s.wrappers.modify k.res f) (hhost : s'.getHost = s.getHost)
    (hcls : ∀ x, (f x).cls = x.cls)
    (hf : ∀ x, Begun H s.getHost k x → Begun H s.getHost k' (f x))
    (hready : ∀ a, s'.active = some a → Ready s.getHost a.cls a.stage)
    (hanswer : ∀ c w, s'.answer ≠ some (.returned c w)) : Inv H s' := by
  have hget : ∀ w : ℕ, s'.wrappers[w]? = (s.wrappers[w]?).map (if k.res = w then f else id) := by
    intro w
    rw [hwrappers, List.getElem?_modify]
    split <;> simp
  -- No caller fills the same wrapper, so that theirs stay as they are.
  have hnotMem : ∀ k₁ ∈ ks, k.res ≠ k₁.res := by
    intro k₁ hk₁ heq
    have hnodup := h.distinct
    rw [hworks, List.map_cons, List.nodup_cons, heq] at hnodup
    exact hnodup.1 (List.mem_map_of_mem hk₁)
  refine ⟨fun c w ↦ ?_, fun k₁ hk₁ ↦ ?_, ?_, fun w x hx hw ↦ ?_, ?_, fun c w hc ↦ ?_⟩
  · rw [hhost, h.host_iff, hget]
    constructor
    · rintro ⟨x, hx, hc⟩
      refine ⟨_, by rw [hx]; rfl, ?_⟩
      split
      · rw [hcls, hc]
      · exact hc
    · rintro ⟨y, hy, hc⟩
      obtain ⟨x, hx, rfl⟩ := Option.map_eq_some_iff.1 hy
      refine ⟨x, hx, ?_⟩
      split at hc
      · rw [← hcls, hc]
      · exact hc
  · rw [hhost, hget]
    rw [hworks', List.mem_cons] at hk₁
    obtain rfl | hk₁ := hk₁
    · obtain ⟨x, hx, hbegun⟩ := h.begun k (by rw [hworks]; exact List.mem_cons_self)
      exact ⟨f x, by rw [hres, hx, if_pos rfl]; rfl, hf x hbegun⟩
    · obtain ⟨x, hx, hbegun⟩ := h.begun k₁ (by rw [hworks]; exact List.mem_cons_of_mem _ hk₁)
      exact ⟨x, by rw [hx, if_neg (hnotMem k₁ hk₁)]; rfl, hbegun⟩
  · have hdistinct := h.distinct
    rw [hworks] at hdistinct
    rw [hworks', List.map_cons, hres]
    exact hdistinct
  · rw [hworks', List.map_cons, hres] at hw
    have hne : k.res ≠ w := fun heq ↦ hw (by rw [heq]; exact List.mem_cons_self)
    rw [hget, if_neg hne, Option.map_id, id] at hx
    rw [hhost]
    refine h.settled w x hx ?_
    rw [hworks]
    exact hw
  · rw [hhost]
    exact hready
  · exact absurd hc (hanswer c w)

/-- The call goes on, or makes or ends another one; what `_jclassPost` has to do stays as it is. -/
theorem Inv.proceed_to (h : Inv H s) {a a' : Activity κ ι} (hactive : s.active = some a)
    (hworks : stageWork H a'.cls a'.stage ++ callerWork H a'.cls a'.callers = s.works H)
    (hready : Ready s.getHost a'.cls a'.stage) : Inv H { s with active := some a' } := by
  have hsame : works H { s with active := some a' } = s.works H := hworks
  refine h.of_sublist rfl rfl (by rw [hsame]) (fun k hk hk' ↦ absurd (by rwa [hsame]) hk')
    (fun a₁ ha₁ ↦ ?_) fun c w hc ↦ ?_
  · obtain rfl := Option.some.inj ha₁
    exact hready
  · have hnone := (h.answer c w hc).1
    rw [hactive] at hnone
    cases hnone

theorem works_active {a : Activity κ ι} (hactive : s.active = some a) :
    s.works H = stageWork H a.cls a.stage ++ callerWork H a.cls a.callers := by
  rw [works, hactive]

theorem Inv.not_returned (h : Inv H s) {a : Activity κ ι} (hactive : s.active = some a) (c : κ)
    (w : ℕ) : s.answer ≠ some (.returned c w) := by
  intro hc
  have hnone := (h.answer c w hc).1
  rw [hactive] at hnone
  cases hnone

/-- `PyJPClass_create` returns the host of its class. -/
theorem Inv.returned (h : Inv H s) {c : κ} {stage : Stage κ ι} {callers : List (Caller κ)}
    (hactive : s.active = some ⟨c, stage, callers⟩) (hstage : stageWork H c stage = []) {w : ℕ}
    (hw : s.getHost c = some w) : Inv H (s.returned c w callers) := by
  have hworks : callerWork H c callers = s.works H := by
    rw [works_active hactive, hstage, List.nil_append]
  cases callers with
  | nil =>
    refine h.of_sublist rfl rfl (List.nil_sublist _) (fun k hk _ ↦ ?_) (fun _ ha ↦ nomatch ha) ?_
    · rw [← hworks] at hk
      cases hk
    · intro c' w' hc'
      cases hc'
      exact ⟨rfl, hw⟩
  | cons caller callers =>
    cases caller with
    | getBases c' rest bases => exact h.proceed_to hactive hworks trivial
    | attach c' res rest => exact h.proceed_to hactive hworks hw

/-- `_jclassPost` ends, with nothing left to do. -/
theorem Inv.ended (h : Inv H s) {c : κ} {stage : Stage κ ι} {callers : List (Caller κ)}
    (hactive : s.active = some ⟨c, stage, callers⟩)
    (hworks : s.works H = k :: callerWork H c callers) (hcls : k.cls = c) (hinit : k.init = [])
    (htodo : k.todo = []) : Inv H { s with active := some ⟨c, .created, callers⟩ } := by
  have hends : works H { s with active := some ⟨c, .created, callers⟩ } = callerWork H c callers :=
    rfl
  refine h.of_sublist rfl rfl ?_ (fun k₁ hk₁ hk₁' ↦ ?_) (fun a ha ↦ ?_) fun c w hc ↦ ?_
  · rw [hends, hworks]
    exact List.sublist_cons_self _ _
  · rw [hworks, List.mem_cons] at hk₁
    rw [hends] at hk₁'
    obtain rfl := hk₁.resolve_right hk₁'
    exact ⟨hinit, htodo⟩
  · obtain rfl := Option.some.inj ha
    obtain ⟨x, hx, hbegun⟩ := h.begun k (by rw [hworks]; exact List.mem_cons_self)
    exact ⟨k.res, (h.host_iff _ _).2 ⟨x, hx, hbegun.cls_eq.trans hcls⟩⟩
  · exact absurd hc (h.not_returned hactive c w)

theorem Inv.raised (h : Inv H s) (hdone : ∀ k ∈ s.works H, k.init = [] ∧ k.todo = []) :
    Inv H s.raised :=
  h.of_sublist rfl rfl (List.nil_sublist _) (fun k hk _ ↦ hdone k hk) (fun _ ha ↦ nomatch ha)
    fun _ _ hc ↦ nomatch hc

variable [DecidableEq κ]

/-- The new wrapper becomes the host of its class, with all of `_jclassPost` to come. -/
theorem Inv.typeNew (h : Inv H s) {c : κ} {bases : List ℕ} {callers : List (Caller κ)}
    (hactive : s.active = some ⟨c, .typeNew bases, callers⟩) :
    Inv H (s.proceed H c callers (.typeNew bases)) := by
  have hnone : s.getHost c = none := h.ready _ hactive
  have hworks : s.works H = callerWork H c callers := works_active hactive
  have hlt : ∀ k ∈ s.works H, k.res < s.wrappers.length := by
    intro k hk
    obtain ⟨x, hx, -⟩ := h.begun k hk
    exact (List.getElem?_eq_some_iff.1 hx).1
  have hhost : ∀ c' w, s.getHost c' = some w →
      Function.update s.getHost c (some s.wrappers.length) c' = some w := by
    intro c' w hw
    rw [Function.update_of_ne, hw]
    rintro rfl
    rw [hnone] at hw
    cases hw
  have hcomplete : ∀ x, Complete H s.getHost x →
      Complete H (Function.update s.getHost c (some s.wrappers.length)) x :=
    fun x hx ↦ ⟨hx.ran_eq, hx.once, hx.attached_eq, fun p hp ↦ hhost _ _ (hx.wrapper p hp)⟩
  -- a wrapper of the new state is one of the old state or the new one
  have hget : ∀ (w : ℕ) x, (s.wrappers ++ [⟨c, bases, [], []⟩])[w]? = some x ↔
      s.wrappers[w]? = some x ∨ w = s.wrappers.length ∧ x = ⟨c, bases, [], []⟩ := by
    intro w x
    obtain hw | rfl | hw := Nat.lt_trichotomy w s.wrappers.length
    · rw [List.getElem?_append_left hw]
      exact ⟨.inl, fun h ↦ h.elim id fun h ↦ absurd h.1 (Nat.ne_of_lt hw)⟩
    · rw [List.getElem?_concat_length, List.getElem?_eq_none (Nat.le_refl _)]
      simp [eq_comm]
    · rw [List.getElem?_eq_none (by simp; omega),
        List.getElem?_eq_none (Nat.le_of_lt hw)]
      simp [Nat.ne_of_gt hw]
  refine ⟨fun c' w ↦ ?_, fun k hk ↦ ?_, ?_, fun w x hx hw ↦ ?_, fun a ha ↦ ?_, fun c' w hc' ↦ ?_⟩
  · show Function.update s.getHost c _ c' = some w ↔ ∃ x, (s.wrappers ++ [_])[w]? = some x ∧ _
    simp only [hget]
    by_cases hc : c' = c
    · subst hc
      rw [Function.update_self]
      constructor
      · rintro heq
        exact ⟨_, .inr ⟨(Option.some.inj heq).symm, rfl⟩, rfl⟩
      · rintro ⟨x, hx | ⟨rfl, -⟩, hc⟩
        · rw [(h.host_iff c' w).2 ⟨x, hx, hc⟩] at hnone
          cases hnone
        · rfl
    · rw [Function.update_of_ne hc, h.host_iff]
      constructor
      · rintro ⟨x, hx, hc'⟩
        exact ⟨x, .inl hx, hc'⟩
      · rintro ⟨x, hx | ⟨-, rfl⟩, hc'⟩
        · exact ⟨x, hx, hc'⟩
        · exact absurd hc'.symm hc
  · obtain rfl | hk := List.mem_cons.1 (show k ∈ Work.mk c s.wrappers.length (H.applyInitializer c)
      (H.nested c) :: callerWork H c callers from hk)
    · exact ⟨⟨c, bases, [], []⟩, (hget _ _).2 (.inr ⟨rfl, rfl⟩),
        ⟨rfl, H.applyInitializer_eq c, rfl, fun p hp ↦ absurd hp List.not_mem_nil⟩⟩
    · rw [← hworks] at hk
      obtain ⟨x, hx, hbegun⟩ := h.begun k hk
      exact ⟨x, (hget _ _).2 (.inl hx), ⟨hbegun.cls_eq, hbegun.ran_eq, hbegun.attached_eq,
        fun p hp ↦ hhost _ _ (hbegun.wrapper p hp)⟩⟩
  · show (s.wrappers.length :: (callerWork H c callers).map Work.res).Nodup
    rw [← hworks, List.nodup_cons]
    refine ⟨fun hmem ↦ ?_, h.distinct⟩
    obtain ⟨k, hk, heq⟩ := List.mem_map.1 hmem
    exact absurd heq (Nat.ne_of_lt (hlt k hk))
  · replace hw : w ∉ s.wrappers.length :: (callerWork H c callers).map Work.res := hw
    rw [← hworks, List.mem_cons, not_or] at hw
    obtain hx | ⟨rfl, -⟩ := (hget w x).1 hx
    · exact hcomplete x (h.settled w x hx hw.2)
    · exact absurd rfl hw.1
  · obtain rfl := Option.some.inj ha
    trivial
  · exact absurd hc' (h.not_returned hactive c' w)

/-- One step of the running call keeps the invariant, where it is harmless. -/
theorem Inv.proceed (h : Inv H s) {c : κ} {stage : Stage κ ι} {callers : List (Caller κ)}
    (hactive : s.active = some ⟨c, stage, callers⟩)
    (hclass : ∀ res, stage = .initializing res [] → s.javaLangClass = true ∨ H.nested c = []) :
    Inv H (s.proceed H c callers stage) := by
  have hworks := works_active (H := H) hactive
  have hready : Ready s.getHost c stage := h.ready _ hactive
  have hanswer := h.not_returned hactive
  cases stage with
  | create =>
    rw [Wrapping.proceed]
    cases hw : s.getHost c with
    | some w => exact h.returned hactive rfl hw
    | none => exact h.proceed_to hactive hworks.symm trivial
  -- The hook has put the wrapper into the host, where it is read again.
  | created =>
    obtain ⟨w, hw⟩ := hready
    rw [Wrapping.proceed, hw]
    exact h.returned hactive rfl hw
  | hook =>
    rw [Wrapping.proceed]
    cases hw : s.getHost c with
    | some w => exact h.proceed_to hactive hworks.symm ⟨w, hw⟩
    | none => exact h.proceed_to hactive hworks.symm trivial
  | getBases rest bases =>
    cases rest with
    | cons b rest => exact h.proceed_to hactive hworks.symm trivial
    | nil =>
      rw [Wrapping.proceed]
      cases hw : s.getHost c with
      | some w => exact h.proceed_to hactive hworks.symm ⟨w, hw⟩
      | none => exact h.proceed_to hactive hworks.symm hw
  | pre bases => exact h.proceed_to hactive hworks.symm hready
  | typeNew bases => exact h.typeNew hactive
  | initializing res init =>
    cases init with
    | cons b init =>
      have hworks' : (s.proceed H c callers (.initializing res (b :: init))).works H =
          ⟨c, res, init, H.nested c⟩ :: callerWork H c callers := rfl
      refine h.modify hworks hworks' rfl rfl rfl (fun x ↦ rfl)
        (fun x hx ↦ ⟨hx.cls_eq, ?_, hx.attached_eq, hx.wrapper⟩) (fun a ha ↦ ?_) hanswer
      · rw [← hx.ran_eq]
        exact List.append_assoc x.ran [b] init
      · obtain rfl := Option.some.inj ha
        trivial
    -- Without `java.lang.Class` nested classes are left out: there must be none then.
    | nil =>
      rw [Wrapping.proceed]
      split
      · exact h.proceed_to hactive hworks.symm trivial
      · next hunset =>
        have hnested := (hclass res rfl).resolve_left hunset
        exact h.ended hactive hworks rfl rfl hnested
  -- Only public nested classes are asked for; the others are passed over.
  | attach res rest =>
    cases rest with
    | nil => exact h.ended hactive hworks rfl rfl rfl
    | cons d rest =>
      rw [Wrapping.proceed]
      split
      · next hd =>
        refine h.proceed_to hactive ?_ trivial
        rw [hworks]
        simp [stageWork, callerWork, hd]
      · next hd =>
        refine h.proceed_to hactive ?_ trivial
        rw [hworks]
        simp [stageWork, hd]
  | customize res d w rest =>
    have hworks' : (s.proceed H c callers (.customize res d w rest)).works H =
        ⟨c, res, [], rest.filter H.isPublic⟩ :: callerWork H c callers := rfl
    refine h.modify hworks hworks' rfl rfl rfl (fun x ↦ rfl)
      (fun x hx ↦ ⟨hx.cls_eq, hx.ran_eq, ?_, fun p hp ↦ ?_⟩) (fun a ha ↦ ?_) hanswer
    · rw [← hx.attached_eq]
      simp
    · obtain hp | hp := List.mem_append.1 hp
      · exact hx.wrapper p hp
      · obtain rfl := List.mem_singleton.1 hp
        exact hready
    · obtain rfl := Option.some.inj ha
      trivial

/-- What is harmless keeps the invariant. -/
theorem Inv.step (h : Inv H s) {e : Event κ} (he : Harmless H s e) : Inv H (s.step H e) := by
  obtain ⟨wrappers, getHost, set, active, answer⟩ := s
  cases active with
  | none =>
    cases e with
    | request c =>
      exact h.of_sublist rfl rfl (.refl _) (fun _ hk hk' ↦ absurd hk hk')
        (by rintro _ ⟨⟩; trivial) fun _ _ hc ↦ nomatch hc
    | setClass => exact ⟨h.host_iff, h.begun, h.distinct, h.settled, h.ready, h.answer⟩
    | proceed => exact h
    | raise => exact h
  | some a =>
    cases e with
    | request c => exact h
    | setClass => exact h
    | proceed =>
      obtain ⟨c, stage, callers⟩ := a
      refine h.proceed rfl ?_
      rintro res rfl
      exact he c res callers rfl
    | raise => exact h.raised he

/-- What is not harmless leaves a wrapper behind that is not complete. -/
theorem Inv.not_allOrNothing_step (h : Inv H s) {e : Event κ} (he : ¬Harmless H s e) :
    ¬AllOrNothing H (s.step H e) := by
  cases e with
  | request c => exact absurd trivial he
  | setClass => exact absurd trivial he
  | proceed =>
    simp only [Harmless, not_forall, not_or] at he
    obtain ⟨c, res, callers, hactive, hset, hnested⟩ := he
    have hworks : s.works H = ⟨c, res, [], H.nested c⟩ :: callerWork H c callers :=
      works_active hactive
    have hstep : s.step H .proceed = { s with active := some ⟨c, .created, callers⟩ } := by
      simp [Wrapping.step, hactive, Wrapping.proceed, hset]
    rw [hstep]
    refine h.not_allOrNothing (k := ⟨c, res, [], H.nested c⟩) rfl rfl ?_ ?_ fun hdone ↦
      hnested hdone.2
    · rw [hworks]
      exact List.mem_cons_self
    · have hdistinct := h.distinct
      rw [hworks, List.map_cons, List.nodup_cons] at hdistinct
      exact hdistinct.1
  | raise =>
    simp only [Harmless, not_forall] at he
    obtain ⟨k, hk, hunfinished⟩ := he
    obtain ⟨a, hactive⟩ : ∃ a, s.active = some a := by
      cases hactive : s.active with
      | none => simp [works, hactive] at hk
      | some a => exact ⟨a, rfl⟩
    have hstep : s.step H .raise = s.raised := by
      simp [Wrapping.step, hactive]
    rw [hstep]
    exact h.not_allOrNothing rfl rfl hk List.not_mem_nil hunfinished

end Wrapping

/-- Creation is all or nothing throughout a run exactly if nothing happens in it that is not
harmless. -/
theorem allOrNothing_iff {κ ι : Type*} [DecidableEq κ] (H : DeclaredClasses κ ι)
    (events : List (Event κ)) :
    (∀ l, l <+: events → (run (Wrapping.step H) .initial l).AllOrNothing H) ↔
      Admissible (Wrapping.Harmless H) (Wrapping.step H) .initial events := by
  have hallowed : Admissible (fun _ _ ↦ True) (Wrapping.step H) .initial events :=
    admissible_iff_forall.2 fun _ _ ↦ trivial
  exact safe_prefixes_iff (fun s (h : Wrapping.Inv H s) ↦ h.allOrNothing)
    (fun _ _ h _ he ↦ h.step he) (fun _ _ h _ he ↦ h.not_allOrNothing_step he) events _
    Wrapping.inv_initial hallowed

/-- A class (`false`) with an initializer, and a public nested class (`true`) that extends it. -/
def nestedSubclass : DeclaredClasses Bool Bool where
  interfaces _ := []
  super c := bif c then some false else none
  getDeclaredClasses c := bif c then [] else [true]
  getModifiers _ := 1
  mro c := bif c then [true, false] else [false]
  mro_nodup c := by cases c <;> decide
  jclassInit b := !b

-- The nested class is asked for while its super class, which it asks for, is being made.
example : (run (Wrapping.step nestedSubclass) .initial
    ([.setClass, .request true] ++ List.replicate 27 .proceed)).answer =
      some (.returned true 1) := by
  decide

/-- An initializer that raises has its wrapper returned by the next request, without the initializer
and without the nested class. -/
theorem initializerRaises_not_allOrNothing :
    ¬(run (Wrapping.step nestedSubclass) .initial
      [.setClass, .request false, .proceed, .proceed, .proceed, .proceed, .proceed, .raise,
        .request false, .proceed]).AllOrNothing nestedSubclass := by
  intro h
  obtain ⟨x, hx, -, hcomplete⟩ := h.returned false 0 rfl
  cases hx
  exact absurd hcomplete.ran_eq (by decide)

end JPype
