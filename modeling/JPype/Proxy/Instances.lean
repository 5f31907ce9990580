import JPype.Foundation.Runs
import Mathlib.Data.Int.Basic
import Mathlib.Data.List.Nodup

/-!
# The instances of a proxy

`JPProxy::getProxy` gives the Java instance of a Python proxy, and makes one where there is none. An
instance keeps a reference to the Python object, which a callback of the reference queue drops
after the instance has been collected. The reference is counted in C++, the callback is registered
in Java by `JPypeProxy.newInstance`, and the handler of `getProxy` gives the reference back where a
step throws; it does so too where the callback has been registered.
-/

open Foundation

namespace JPype

/-- `JPProxy`, and its instances. The numbers are those of the instances; `alive` are the ones that
have been returned and not been collected, `registered` the ones with a cleanup that has not yet
run, and `held` is the number of references on `m_Instance`. -/
structure JPProxy where
  /-- `m_Ref` -/
  ref : Option ℕ
  created : ℕ
  alive : List ℕ
  registered : List ℕ
  held : ℤ
  isStopped : Bool

namespace JPProxy

/-- What `NewWeakGlobalRef` does: where the machine is out of memory it gives a null, which is not
checked. -/
inductive WeakGlobalRef where
  | created
  | null
  | raises
  deriving DecidableEq

/-- What the calls of one `getProxy` do, where they are reached; `false` is an exception. -/
structure Outcome where
  newProxyInstance : Bool := true
  registerRef : Bool := true
  newWeakGlobalRef : WeakGlobalRef := .created

/-- A proxy without instances. -/
def new : JPProxy where
  ref := none
  created := 0
  alive := []
  registered := []
  held := 0
  isStopped := false

/-- `releaseProxyPython` -/
def releaseProxyPython (p : JPProxy) : JPProxy :=
  { p with held := p.held - 1 }

/-- `NewLocalRef(m_Ref)`: a weak reference to an instance that has been collected gives a null. -/
def newLocalRef (p : JPProxy) : Option ℕ :=
  p.ref.filter (· ∈ p.alive)

/-- `JPypeProxy.newInstance`, with `registerRef`: a queue that has been stopped runs the cleanup. -/
def newInstance (p : JPProxy) (o : Outcome) : JPProxy × Option ℕ :=
  if o.newProxyInstance then
    let out := p.created
    let p := { p with created := p.created + 1 }
    if o.registerRef then
      if p.isStopped then (p.releaseProxyPython, some out)
      else ({ p with registered := p.registered ++ [out] }, some out)
    else (p, none)
  else (p, none)

/-- `getProxy`: the instance, or an exception. -/
def getProxy (p : JPProxy) (o : Outcome) : JPProxy × Option ℕ :=
  match p.newLocalRef with
  | some i => (p, some i)
  | none =>
    let p := { p with held := p.held + 1 }
    match p.newInstance o with
    | (p, none) => ({ p with held := p.held - 1 }, none)
    | (p, some i) =>
      match o.newWeakGlobalRef with
      | .created => ({ p with ref := some i, alive := p.alive ++ [i] }, some i)
      | .null => ({ p with ref := none, alive := p.alive ++ [i] }, some i)
      | .raises => ({ p with held := p.held - 1 }, none)

/-- What happens to a proxy. -/
inductive Event where
  | getProxy (o : Outcome)
  | collect (i : ℕ)
  | cleanup (i : ℕ)
  | stop

/-- An event. -/
def step (p : JPProxy) : Event → JPProxy
  | .getProxy o => (p.getProxy o).1
  | .collect i => { p with alive := p.alive.erase i }
  | .cleanup i => { p.releaseProxyPython with registered := p.registered.erase i }
  | .stop => { p with isStopped := true }

/-- A cleanup runs once, after its instance has been collected, or when the queue has been
stopped. -/
def Enabled (p : JPProxy) : Event → Prop
  | .getProxy _ => True
  | .collect i => i ∈ p.alive
  | .cleanup i => i ∈ p.registered ∧ (i ∉ p.alive ∨ p.isStopped)
  | .stop => True

/-- The weak reference is made, where an instance has been made. -/
def Kept (p : JPProxy) : Event → Prop
  | .getProxy o => p.newLocalRef = none → o.newProxyInstance → o.registerRef →
      o.newWeakGlobalRef = .created
  | _ => True

instance (p : JPProxy) : DecidablePred p.Enabled
  | .getProxy _ => isTrue trivial
  | .collect _ => inferInstanceAs (Decidable (_ ∈ _))
  | .cleanup _ => inferInstanceAs (Decidable (_ ∧ _))
  | .stop => isTrue trivial

instance (p : JPProxy) : DecidablePred p.Kept
  | .getProxy _ => inferInstanceAs (Decidable (_ → _))
  | .collect _ => isTrue trivial
  | .cleanup _ => isTrue trivial
  | .stop => isTrue trivial

/-! ### The references are conserved -/

/-- What is to hold of a proxy and its instances. -/
structure Conserved (p : JPProxy) : Prop where
  held_eq : p.held = p.registered.length
  held_nonneg : 0 ≤ p.held
  held_zero : p.alive = [] → p.registered = [] → p.held = 0
  /-- An instance that is alive is returned. -/
  getProxy_eq : ∀ i ∈ p.alive, ∀ o, p.getProxy o = (p, some i)

/-- The references are the cleanups to run, and there is one instance at a time. -/
structure Inv (p : JPProxy) : Prop where
  held_eq : p.held = p.registered.length
  alive_nodup : p.alive.Nodup
  alive : ∀ i ∈ p.alive, p.ref = some i

variable {p : JPProxy}

theorem newLocalRef_eq_some {i : ℕ} : p.newLocalRef = some i ↔ p.ref = some i ∧ i ∈ p.alive := by
  rw [newLocalRef, Option.filter_eq_some_iff, decide_eq_true_iff]

theorem Inv.newLocalRef_eq_none (hp : Inv p) (h : p.newLocalRef = none) : p.alive = [] := by
  refine List.eq_nil_iff_forall_not_mem.2 fun i hi ↦ ?_
  rw [newLocalRef_eq_some.2 ⟨hp.alive i hi, hi⟩] at h
  exact absurd h (by simp)

theorem Inv.conserved (hp : Inv p) : Conserved p where
  held_eq := hp.held_eq
  held_nonneg := by
    rw [hp.held_eq]
    exact Int.natCast_nonneg _
  held_zero _ hregistered := by
    rw [hp.held_eq, hregistered]
    rfl
  getProxy_eq i hi o := by
    rw [getProxy, newLocalRef_eq_some.2 ⟨hp.alive i hi, hi⟩]

/-- What `newInstance` does, after the reference has been counted: it is matched by a cleanup, or
has been given back, where there is an instance. -/
structure Attempted (p : JPProxy) (o : Outcome) (p' : JPProxy) (r : Option ℕ) : Prop where
  alive : p'.alive = p.alive
  isSome : r.isSome = (o.newProxyInstance && o.registerRef)
  count : p'.held - p'.registered.length =
    p.held - p.registered.length - if r.isSome then 1 else 0

theorem newInstance_spec (p : JPProxy) (o : Outcome) :
    Attempted p o (p.newInstance o).1 (p.newInstance o).2 := by
  rw [newInstance]
  cases hnew : o.newProxyInstance with
  | false => exact ⟨rfl, by rw [hnew]; rfl, by simp⟩
  | true =>
    cases hregister : o.registerRef with
    | false => exact ⟨rfl, by rw [hnew, hregister]; rfl, by simp⟩
    | true =>
      cases hstopped : p.isStopped with
      | true =>
        -- The queue has been stopped: the reference is dropped at once.
        refine ⟨rfl, by rw [hnew, hregister]; rfl, ?_⟩
        simp only [if_true, releaseProxyPython, Option.isSome_some]
        omega
      | false =>
        refine ⟨rfl, by rw [hnew, hregister]; rfl, ?_⟩
        simp only [if_true, Bool.false_eq_true, if_false, List.length_append, List.length_singleton,
          Option.isSome_some]
        omega

theorem Inv.getProxy (hp : Inv p) {o : Outcome} (ho : p.Kept (.getProxy o)) :
    Inv (p.getProxy o).1 := by
  rw [JPProxy.getProxy]
  cases hlocal : p.newLocalRef with
  | some i => exact hp
  | none =>
    have hspec := newInstance_spec { p with held := p.held + 1 } o
    have hempty := hspec.alive.trans (hp.newLocalRef_eq_none hlocal)
    have hheld := hp.held_eq
    have hcount := hspec.count
    have hkept := ho hlocal
    dsimp only
    generalize hnew : ({ p with held := p.held + 1 }).newInstance o = result at *
    obtain ⟨p', r⟩ := result
    dsimp only at hempty hcount ⊢
    cases r with
    | none =>
      refine ⟨?_, ?_, ?_⟩
      · simp only [Option.isSome_none, Bool.false_eq_true, if_false] at hcount
        show p'.held - 1 = (p'.registered.length : ℤ)
        omega
      · rw [hempty]
        exact List.nodup_nil
      · rw [hempty]
        exact fun i hi ↦ absurd hi List.not_mem_nil
    | some i =>
      have hcalls := hspec.isSome
      simp only [Option.isSome_some, Bool.true_eq, Bool.and_eq_true] at hcalls
      simp only [hkept hcalls.1 hcalls.2, hempty, List.nil_append]
      refine ⟨?_, List.nodup_singleton i, fun j hj ↦ ?_⟩
      · simp only [Option.isSome_some, if_true] at hcount
        show p'.held = (p'.registered.length : ℤ)
        omega
      · rw [List.mem_singleton.1 hj]

/-- What an event keeps, where the weak reference is made. -/
theorem Inv.step (hp : Inv p) {e : Event} (hen : p.Enabled e) (hkept : p.Kept e) :
    Inv (p.step e) := by
  cases e with
  | getProxy o => exact hp.getProxy hkept
  | collect i =>
    exact ⟨hp.held_eq, hp.alive_nodup.erase i, fun j hj ↦ hp.alive j (List.mem_of_mem_erase hj)⟩
  | cleanup i =>
    refine ⟨?_, hp.alive_nodup, hp.alive⟩
    have hheld := hp.held_eq
    have hlength := List.length_erase_of_mem hen.1
    have hpos := List.length_pos_of_mem hen.1
    show p.held - 1 = ((p.registered.erase i).length : ℤ)
    omega
  | stop => exact ⟨hp.held_eq, hp.alive_nodup, hp.alive⟩

/-- What an event breaks, where it is not. -/
theorem Inv.not_conserved_step (hp : Inv p) {e : Event} (hkept : ¬p.Kept e) :
    ¬Conserved (p.step e) := by
  cases e with
  | collect i => exact absurd trivial hkept
  | cleanup i => exact absurd trivial hkept
  | stop => exact absurd trivial hkept
  | getProxy o =>
    simp only [Kept, Classical.not_imp] at hkept
    obtain ⟨hlocal, hproxy, hregister, hweak⟩ := hkept
    have hspec := newInstance_spec { p with held := p.held + 1 } o
    have hheld := hp.held_eq
    have hcount := hspec.count
    have hsome := hspec.isSome
    intro hconserved
    rw [JPProxy.step, JPProxy.getProxy, hlocal] at hconserved
    dsimp only at hconserved
    generalize hnew : ({ p with held := p.held + 1 }).newInstance o = result at *
    obtain ⟨p', r⟩ := result
    dsimp only at hcount hsome hconserved
    rw [hproxy, hregister] at hsome
    obtain ⟨i, rfl⟩ := Option.isSome_iff_exists.1 hsome
    simp only [Option.isSome_some, if_true] at hcount
    cases hw : o.newWeakGlobalRef with
    | created => exact hweak hw
    | null =>
      -- The instance is alive, and another one is asked for.
      simp only [hw] at hconserved
      have h := hconserved.getProxy_eq i (List.mem_append_right _ (List.mem_singleton_self i))
        { newProxyInstance := false }
      have h' := congrArg Prod.snd h
      simp [JPProxy.getProxy, newLocalRef, newInstance] at h'
    | raises =>
      simp only [hw] at hconserved
      have h := hconserved.held_eq
      change p'.held - 1 = (p'.registered.length : ℤ) at h
      omega

/-- In every order of the events, the references on the proxy are the cleanups that have not yet
run, and an instance that is alive is the one returned, throughout exactly if the weak reference to
each new instance is made. -/
theorem conserved_iff (events : List Event) (henabled : Admissible Enabled step new events) :
    (∀ l, l <+: events → Conserved (run step new l)) ↔ Admissible Kept step new events := by
  have hnew : Inv new := ⟨rfl, List.nodup_nil, fun _ h ↦ absurd h List.not_mem_nil⟩
  exact safe_prefixes_iff (fun p (hp : Inv p) ↦ hp.conserved)
    (fun _ _ hp hen hkept ↦ hp.step hen hkept) (fun _ _ hp _ hkept ↦ hp.not_conserved_step hkept)
    events new hnew henabled

/-- The first attempt fails in `registerRef`, the second instance is collected, and a third one is
made before the cleanup of the second has run. -/
theorem conserved_sample :
    Conserved (run step new [.getProxy { registerRef := false }, .getProxy {}, .collect 1,
      .getProxy {}, .cleanup 1]) :=
  (conserved_iff _ (by decide)).2 (by decide) _ List.prefix_rfl

/-- Where the weak reference raises, the reference is given back by the handler and by the cleanup;
where it is null, the next call makes an instance while the first is alive. -/
theorem newWeakGlobalRef_fails :
    (Admissible Enabled step new [.getProxy { newWeakGlobalRef := .raises }, .cleanup 0] ∧
      (run step new [.getProxy { newWeakGlobalRef := .raises }, .cleanup 0]).held = -1) ∧
    (Admissible Enabled step new [.getProxy { newWeakGlobalRef := .null }] ∧
      0 ∈ (run step new [.getProxy { newWeakGlobalRef := .null }]).alive ∧
        ((run step new [.getProxy { newWeakGlobalRef := .null }]).getProxy {}).2 = some 1) := by
  decide

end JPProxy

end JPype
