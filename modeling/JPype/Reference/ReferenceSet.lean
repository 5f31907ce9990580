import JPype.Foundation.Runs
import Mathlib.Algebra.Group.Nat.Defs
import Mathlib.Data.Int.Basic
import Mathlib.Data.List.Nodup
import Mathlib.Data.List.Perm.Basic
import Mathlib.Logic.Function.Basic
import Mathlib.Order.Nat

/-!
# The set of references

`org.jpype.ref.JPypeReferenceSet`: references are kept in pools of 256 places, and each knows its
pool and its place, so that adding and removing one takes constant time. A removed reference is
replaced by the last one of its pool. `flush` releases what is left, for the shutdown; it empties
the pools, but not the count of the items.
-/

open Foundation

namespace JPype

/-- The value of an expression of type `int` in Java. -/
def javaInt (x : ℤ) : ℤ :=
  Int.bmod x 4294967296

/-- `JPypeReference`, less the object it refers to. -/
structure JPypeReference where
  hostReference : ℤ
  cleanup : ℤ
  pool : ℤ := 0
  index : ℕ := 0

namespace JPypeReferenceSet

/-- `SIZE` -/
def SIZE : ℕ := 256

/-- `Pool`. The array has `SIZE` places; a place that has not been written is null. -/
structure Pool (Ref : Type) where
  entries : ℕ → Option Ref
  tail : ℕ
  id : ℕ

end JPypeReferenceSet

open JPypeReferenceSet

/-- `JPypeReferenceSet`, with the fields of all references and the calls of
`removeHostReference`. `current` is the number of a pool. -/
structure JPypeReferenceSet (Ref : Type) where
  pools : List (Pool Ref)
  current : Option ℕ
  items : ℤ
  refs : Ref → JPypeReference
  released : List (ℤ × ℤ)

namespace JPypeReferenceSet

variable {Ref : Type} [DecidableEq Ref]

/-- A new set; the references have been constructed with a host and a cleanup. -/
def new (refs : Ref → JPypeReference) : JPypeReferenceSet Ref where
  pools := []
  current := none
  items := 0
  refs := refs
  released := []

/-- `size` -/
def size (s : JPypeReferenceSet Ref) : ℤ := s.items

/-- `new Pool(pools.size())` -/
def newPool (id : ℕ) : Pool Ref := { entries := fun _ ↦ none, tail := 0, id := id }

/-- The number of the first pool with a free place. -/
def findFree (pools : List (Pool Ref)) : Option ℕ :=
  (pools.find? fun pool ↦ pool.tail < SIZE).map (·.id)

/-- The pools and the current one, where there was none. -/
def ensureCurrent (s : JPypeReferenceSet Ref) : JPypeReferenceSet Ref × ℕ :=
  match s.current with
  | some k => (s, k)
  | none => ({ s with pools := s.pools ++ [newPool s.pools.length] }, s.pools.length)

/-- `Pool.add`: the pool with the reference. A full pool has no place left. -/
def Pool.add (pool : Pool Ref) (ref : Ref) : Option (Pool Ref) :=
  if pool.tail < SIZE then
    some { pool with entries := Function.update pool.entries pool.tail (some ref)
                     tail := pool.tail + 1 }
  else none

/-- `add`; `none` is an exception. -/
def add (s : JPypeReferenceSet Ref) (ref : Ref) : Option (JPypeReferenceSet Ref) :=
  if (s.refs ref).cleanup = 0 then some s
  else do
    let s := { s with items := javaInt (s.items + 1) }
    let (s, k) := ensureCurrent s
    let pool ← s.pools[k]?
    let refs := Function.update s.refs ref { s.refs ref with pool := pool.id, index := pool.tail }
    let pool' ← pool.add ref
    let pools := s.pools.set k pool'
    let current := if pool'.tail = SIZE then findFree pools else some k
    return { s with pools := pools, current := current, refs := refs }

/-- `Pool.remove`, for a reference at place `index`: the pool, and the reference that is at the
place now. -/
def Pool.remove (pool : Pool Ref) (index : ℕ) : Option (Pool Ref × Ref) :=
  if pool.tail = 0 then none
  else if SIZE ≤ index then none
  else
    let tail := pool.tail - 1
    (pool.entries tail).map fun last ↦
      ({ pool with entries := Function.update pool.entries index (some last), tail := tail }, last)

/-- `remove` -/
def remove (s : JPypeReferenceSet Ref) (ref : Ref) : Option (JPypeReferenceSet Ref) :=
  if (s.refs ref).cleanup = 0 then some s
  else if (s.refs ref).pool < 0 then none
  else do
    let k := (s.refs ref).pool.toNat
    let index := (s.refs ref).index
    let pool ← s.pools[k]?
    let (pool', last) ← pool.remove index
    let refs := Function.update s.refs last { s.refs last with index := index }
    let refs := Function.update refs ref { refs ref with cleanup := 0, pool := -1 }
    return { s with pools := s.pools.set k pool', items := javaInt (s.items - 1), refs := refs }

/-- The body of the inner loop of `flush`. -/
def flushEntry (pool : Pool Ref) (s : JPypeReferenceSet Ref) (i : ℕ) :
    Option (JPypeReferenceSet Ref) := do
  let ref ← pool.entries i
  let hostRef := (s.refs ref).hostReference
  let cleanup := (s.refs ref).cleanup
  if cleanup = 0 then return s
  else
    return { s with
      refs := Function.update s.refs ref { s.refs ref with cleanup := 0 }
      released := s.released ++ [(hostRef, cleanup)] }

/-- The body of the outer loop. -/
def flushPool (s : JPypeReferenceSet Ref) (pool : Pool Ref) : Option (JPypeReferenceSet Ref) := do
  let s ← (List.range pool.tail).foldlM (flushEntry pool) s
  return { s with pools := s.pools.set pool.id { pool with tail := 0 } }

/-- `flush` -/
def flush (s : JPypeReferenceSet Ref) : Option (JPypeReferenceSet Ref) :=
  s.pools.foldlM flushPool s

/-- The calls on a set. -/
inductive Call (Ref : Type) where
  | add (ref : Ref)
  | remove (ref : Ref)
  | flush

/-- A call. -/
def step (s : JPypeReferenceSet Ref) : Call Ref → Option (JPypeReferenceSet Ref)
  | .add ref => s.add ref
  | .remove ref => s.remove ref
  | .flush => s.flush

/-! ### Histories -/

/-- What has been asked of a set: the references that have been added and removed, those that are
live, and those that a flush has released. -/
structure History (Ref : Type) where
  added : List Ref
  removed : List Ref
  live : List Ref
  flushed : List Ref

namespace History

/-- Nothing yet. -/
def start : History Ref := ⟨[], [], [], []⟩

/-- The references are distinct, and each is removed at most once and after it has been added. -/
def Allows (h : History Ref) : Call Ref → Prop
  | .add ref => ref ∉ h.added
  | .remove ref => ref ∈ h.added ∧ ref ∉ h.removed
  | .flush => True

/-- The history after a call. A reference without a cleanup is not held. -/
def next (refs : Ref → JPypeReference) (h : History Ref) : Call Ref → History Ref
  | .add ref =>
    { h with added := h.added ++ [ref]
             live := if (refs ref).cleanup = 0 then h.live else h.live ++ [ref] }
  | .remove ref => { h with removed := h.removed ++ [ref], live := h.live.erase ref }
  | .flush => { h with live := [], flushed := h.flushed ++ h.live }

end History

/-- The live references are in the pools, each once, where they say. -/
structure Placed (live : List Ref) (pools : List (Pool Ref)) (refs : Ref → JPypeReference) :
    Prop where
  id : ∀ {k : ℕ} {pool : Pool Ref}, pools[k]? = some pool → pool.id = k
  tail_le : ∀ {k : ℕ} {pool : Pool Ref}, pools[k]? = some pool → pool.tail ≤ SIZE
  held : ∀ ref ∈ live, ∃ (k : ℕ) (pool : Pool Ref), pools[k]? = some pool ∧ (refs ref).pool = k ∧
    (refs ref).index < pool.tail ∧ pool.entries (refs ref).index = some ref
  entry : ∀ {k : ℕ} {pool : Pool Ref} {i : ℕ}, pools[k]? = some pool → i < pool.tail →
    ∃ ref ∈ live, pool.entries i = some ref ∧ (refs ref).pool = k ∧ (refs ref).index = i

section Placed

variable {live : List Ref} {pools : List (Pool Ref)} {refs : Ref → JPypeReference} {k : ℕ}
  {pool : Pool Ref} {ref : Ref}

omit [DecidableEq Ref] in
/-- The pools after one of them has been replaced. -/
theorem getElem?_set_iff {j : ℕ} {pool' q : Pool Ref} (hk : pools[k]? = some pool) :
    (pools.set k pool')[j]? = some q ↔ (j = k ∧ q = pool') ∨ (j ≠ k ∧ pools[j]? = some q) := by
  have hlt : k < pools.length := (List.getElem?_eq_some_iff.1 hk).1
  rw [List.getElem?_set]
  by_cases hj : k = j
  · rw [if_pos hj, if_pos hlt]
    simp [hj, eq_comm]
  · rw [if_neg hj]
    simp [Ne.symm hj]

omit [DecidableEq Ref] in
theorem getElem?_append_new {j : ℕ} {q : Pool Ref} :
    (pools ++ [newPool pools.length])[j]? = some q ↔
      pools[j]? = some q ∨ (j = pools.length ∧ q = newPool pools.length) := by
  rw [List.getElem?_append]
  split_ifs with hlt
  · simp [hlt.ne]
  · obtain rfl | hgt := (not_lt.1 hlt).eq_or_lt
    · simp [eq_comm]
    · have hsub : j - pools.length ≠ 0 := Nat.sub_ne_zero_of_lt hgt
      simp [List.getElem?_eq_none (not_lt.1 hlt), hgt.ne', hsub]

omit [DecidableEq Ref] in
theorem Placed.append_new (h : Placed live pools refs) :
    Placed live (pools ++ [newPool pools.length]) refs where
  id hq := by
    obtain hq | ⟨rfl, rfl⟩ := getElem?_append_new.1 hq
    · exact h.id hq
    · rfl
  tail_le hq := by
    obtain hq | ⟨rfl, rfl⟩ := getElem?_append_new.1 hq
    · exact h.tail_le hq
    · exact Nat.zero_le _
  held r hr := by
    obtain ⟨j, q, hq, hplace⟩ := h.held r hr
    exact ⟨j, q, getElem?_append_new.2 (.inl hq), hplace⟩
  entry hq hi := by
    obtain hq | ⟨rfl, rfl⟩ := getElem?_append_new.1 hq
    · exact h.entry hq hi
    · exact absurd hi (Nat.not_lt_zero _)

/-- A new reference at the end of a pool that is not full. -/
theorem Placed.add (h : Placed live pools refs) (hk : pools[k]? = some pool)
    (hfree : pool.tail < SIZE) (hnew : ref ∉ live) :
    Placed (live ++ [ref])
      (pools.set k { pool with
        entries := Function.update pool.entries pool.tail (some ref), tail := pool.tail + 1 })
      (Function.update refs ref { refs ref with pool := pool.id, index := pool.tail }) := by
  have hother : ∀ r ∈ live, r ≠ ref := fun r hr hrr ↦ hnew (hrr ▸ hr)
  constructor
  case id =>
    intro j q hq
    obtain ⟨rfl, rfl⟩ | ⟨-, hq⟩ := (getElem?_set_iff hk).1 hq
    · exact (h.id hk :)
    · exact h.id hq
  case tail_le =>
    intro j q hq
    obtain ⟨rfl, rfl⟩ | ⟨-, hq⟩ := (getElem?_set_iff hk).1 hq
    · exact hfree
    · exact h.tail_le hq
  case held =>
    intro r hr
    obtain hr | hr := List.mem_append.1 hr
    · rw [Function.update_of_ne (hother r hr)]
      obtain ⟨j, q, hq, hpool, hlt, hentry⟩ := h.held r hr
      by_cases hj : j = k
      · subst hj
        obtain rfl : pool = q := Option.some.inj (hk.symm.trans hq)
        refine ⟨j, _, (getElem?_set_iff hk).2 (.inl ⟨rfl, rfl⟩), hpool, Nat.lt_succ_of_lt hlt, ?_⟩
        exact (Function.update_of_ne hlt.ne _ _).trans hentry
      · exact ⟨j, q, (getElem?_set_iff hk).2 (.inr ⟨hj, hq⟩), hpool, hlt, hentry⟩
    · obtain rfl := List.mem_singleton.1 hr
      refine ⟨k, _, (getElem?_set_iff hk).2 (.inl ⟨rfl, rfl⟩), ?_⟩
      simp [h.id hk]
  case entry =>
    intro j q i hq hi
    obtain ⟨rfl, rfl⟩ | ⟨hj, hq⟩ := (getElem?_set_iff hk).1 hq
    · obtain hi | rfl := Nat.lt_succ_iff_lt_or_eq.1 hi
      · obtain ⟨r, hr, hentry, hplace⟩ := h.entry hk hi
        refine ⟨r, List.mem_append_left _ hr, (Function.update_of_ne hi.ne _ _).trans hentry, ?_⟩
        rwa [Function.update_of_ne (hother r hr)]
      · refine ⟨ref, List.mem_append_right _ (List.mem_singleton_self _), ?_⟩
        simp [h.id hk]
    · obtain ⟨r, hr, hentry, hplace⟩ := h.entry hq hi
      refine ⟨r, List.mem_append_left _ hr, hentry, ?_⟩
      rwa [Function.update_of_ne (hother r hr)]

/-- A live reference is removed from its pool; the last reference of the pool is at its place. -/
theorem Placed.remove (h : Placed live pools refs) (hnodup : live.Nodup) (hlive : ref ∈ live) :
    ∃ (k : ℕ) (pool pool' : Pool Ref) (last : Ref),
      (refs ref).pool = k ∧ pools[k]? = some pool ∧
        pool.remove (refs ref).index = some (pool', last) ∧
        Placed (live.erase ref) (pools.set k pool')
          (Function.update (Function.update refs last { refs last with index := (refs ref).index })
            ref { Function.update refs last { refs last with index := (refs ref).index } ref with
              cleanup := 0, pool := -1 }) := by
  obtain ⟨k, pool, hk, hpool, hlt, hentry⟩ := h.held ref hlive
  generalize hindex : (refs ref).index = i at hlt hentry ⊢
  have htail : pool.tail ≠ 0 := Nat.ne_zero_of_lt hlt
  have hpred : pool.tail - 1 < pool.tail := Nat.pred_lt htail
  obtain ⟨last, hlast, hlentry, hlpool, hlindex⟩ := h.entry hk hpred
  have hsize : ¬ SIZE ≤ i := not_le.2 (hlt.trans_le (h.tail_le hk))
  refine ⟨k, pool, { pool with
    entries := Function.update pool.entries i (some last), tail := pool.tail - 1 }, last, hpool, hk,
    ?_, ?_⟩
  · rw [Pool.remove, if_neg htail, if_neg hsize]
    exact Option.map_eq_some_iff.2 ⟨last, hlentry, rfl⟩
  -- The reference and the last one are the only ones whose fields are written.
  have hframe : ∀ r, r ≠ ref → r ≠ last →
      Function.update (Function.update refs last { refs last with index := i }) ref
        { Function.update refs last { refs last with index := i } ref with
          cleanup := 0, pool := -1 } r = refs r :=
    fun r hr hr' ↦ (Function.update_of_ne hr _ _).trans (Function.update_of_ne hr' _ _)
  have hmoved : last ≠ ref →
      Function.update (Function.update refs last { refs last with index := i }) ref
        { Function.update refs last { refs last with index := i } ref with
          cleanup := 0, pool := -1 } last = { refs last with index := i } :=
    fun hne ↦ (Function.update_of_ne hne _ _).trans (Function.update_self ..)
  constructor
  case id =>
    intro j q hq
    obtain ⟨rfl, rfl⟩ | ⟨-, hq⟩ := (getElem?_set_iff hk).1 hq
    · exact (h.id hk :)
    · exact h.id hq
  case tail_le =>
    intro j q hq
    obtain ⟨rfl, rfl⟩ | ⟨-, hq⟩ := (getElem?_set_iff hk).1 hq
    · exact (Nat.pred_le _).trans (h.tail_le hk)
    · exact h.tail_le hq
  case held =>
    intro r hr
    obtain ⟨hne, hr⟩ := hnodup.mem_erase_iff.1 hr
    obtain ⟨j, q, hq, hrpool, hrlt, hrentry⟩ := h.held r hr
    by_cases hrl : r = last
    · subst hrl
      -- The last reference fills the hole, which is not its own place.
      have hi : i ≠ pool.tail - 1 := by
        rintro rfl
        exact hne (Option.some.inj (hlentry.symm.trans hentry))
      rw [hmoved hne]
      refine ⟨k, _, (getElem?_set_iff hk).2 (.inl ⟨rfl, rfl⟩), hlpool, ?_, Function.update_self ..⟩
      exact lt_of_le_of_ne (Nat.le_pred_of_lt hlt) hi
    · rw [hframe r hne hrl]
      by_cases hj : j = k
      · subst hj
        obtain rfl : pool = q := Option.some.inj (hk.symm.trans hq)
        have hrlast : (refs r).index ≠ pool.tail - 1 := by
          intro hr'
          rw [hr', hlentry] at hrentry
          exact hrl (Option.some.inj hrentry).symm
        have hrhole : (refs r).index ≠ i := by
          intro hr'
          rw [hr', hentry] at hrentry
          exact hne (Option.some.inj hrentry).symm
        refine ⟨j, _, (getElem?_set_iff hk).2 (.inl ⟨rfl, rfl⟩), hrpool, ?_, ?_⟩
        · exact lt_of_le_of_ne (Nat.le_pred_of_lt hrlt) hrlast
        · exact (Function.update_of_ne hrhole _ _).trans hrentry
      · exact ⟨j, q, (getElem?_set_iff hk).2 (.inr ⟨hj, hq⟩), hrpool, hrlt, hrentry⟩
  case entry =>
    intro j q n hq hn
    obtain ⟨rfl, rfl⟩ | ⟨hj, hq⟩ := (getElem?_set_iff hk).1 hq
    · have hntail : n < pool.tail := lt_of_lt_of_le hn (Nat.pred_le _)
      by_cases hni : n = i
      · subst hni
        have hne : last ≠ ref := by
          rintro rfl
          exact hn.ne (hindex.symm.trans hlindex)
        refine ⟨last, hnodup.mem_erase_iff.2 ⟨hne, hlast⟩, Function.update_self .., ?_⟩
        rw [hmoved hne]
        exact ⟨hlpool, rfl⟩
      · obtain ⟨r, hr, hrentry, hrpool, hrindex⟩ := h.entry hk hntail
        have hne : r ≠ ref := by
          rintro rfl
          exact hni (hrindex.symm.trans hindex)
        have hrl : r ≠ last := by
          rintro rfl
          exact hn.ne (hrindex.symm.trans hlindex)
        refine ⟨r, hnodup.mem_erase_iff.2 ⟨hne, hr⟩,
          (Function.update_of_ne hni _ _).trans hrentry, ?_⟩
        rw [hframe r hne hrl]
        exact ⟨hrpool, hrindex⟩
    · obtain ⟨r, hr, hrentry, hrpool, hrindex⟩ := h.entry hq hn
      have hne : r ≠ ref := by
        rintro rfl
        exact hj (Int.natCast_inj.1 (hrpool.symm.trans hpool))
      have hrl : r ≠ last := by
        rintro rfl
        exact hj (Int.natCast_inj.1 (hrpool.symm.trans hlpool))
      refine ⟨r, hnodup.mem_erase_iff.2 ⟨hne, hr⟩, hrentry, ?_⟩
      rw [hframe r hne hrl]
      exact ⟨hrpool, hrindex⟩

omit [DecidableEq Ref] in
theorem Pool.tail_remove_le {pool' : Pool Ref} {i : ℕ} {last : Ref}
    (h : pool.remove i = some (pool', last)) : pool'.tail ≤ pool.tail := by
  rw [Pool.remove] at h
  split_ifs at h
  obtain ⟨_, -, heq⟩ := Option.map_eq_some_iff.1 h
  rw [← (Prod.mk.inj heq).1]
  exact Nat.pred_le _

/-- The references in a pool, in order. -/
def Pool.contents (pool : Pool Ref) : List Ref :=
  (List.range pool.tail).filterMap pool.entries

omit [DecidableEq Ref] in
theorem Pool.mem_contents : ref ∈ pool.contents ↔ ∃ i < pool.tail, pool.entries i = some ref := by
  simp [Pool.contents]

omit [DecidableEq Ref] in
theorem Placed.mem_contents_iff (h : Placed live pools refs) (hk : pools[k]? = some pool) :
    ref ∈ pool.contents ↔ ref ∈ live ∧ (refs ref).pool = k := by
  rw [Pool.mem_contents]
  constructor
  · rintro ⟨i, hi, hentry⟩
    obtain ⟨r, hr, hrentry, hpool, -⟩ := h.entry hk hi
    obtain rfl : r = ref := Option.some.inj (hrentry.symm.trans hentry)
    exact ⟨hr, hpool⟩
  · rintro ⟨hlive, hpool⟩
    obtain ⟨j, q, hq, hj, hlt, hentry⟩ := h.held ref hlive
    obtain rfl : j = k := Int.natCast_inj.1 (hj.symm.trans hpool)
    obtain rfl : q = pool := Option.some.inj (hq.symm.trans hk)
    exact ⟨_, hlt, hentry⟩

omit [DecidableEq Ref] in
theorem Placed.contents_nodup (h : Placed live pools refs) (hk : pools[k]? = some pool) :
    pool.contents.Nodup := by
  rw [Pool.contents, List.Nodup, List.pairwise_filterMap]
  refine List.nodup_range.imp_of_mem fun {i j} hi hj hij r hr r' hr' hrr ↦ hij ?_
  subst hrr
  -- A reference has one index.
  obtain ⟨t, -, ht, -, hti⟩ := h.entry hk (List.mem_range.1 hi)
  obtain ⟨t', -, ht', -, htj⟩ := h.entry hk (List.mem_range.1 hj)
  obtain rfl : r = t := Option.some.inj (hr.symm.trans ht)
  obtain rfl : r = t' := Option.some.inj (hr'.symm.trans ht')
  exact hti.symm.trans htj

omit [DecidableEq Ref] in
/-- The pools hold the live references, each once. -/
theorem Placed.contents_nodup_flatMap (h : Placed live pools refs) :
    (pools.flatMap Pool.contents).Nodup := by
  refine List.nodup_flatMap.2 ⟨?_, List.pairwise_iff_getElem.2 ?_⟩
  · intro pool hpool
    obtain ⟨k, hk⟩ := List.mem_iff_getElem?.1 hpool
    exact h.contents_nodup hk
  · intro i j hi hj hij r hr hr'
    have hri := ((h.mem_contents_iff (List.getElem?_eq_getElem hi)).1 hr).2
    have hrj := ((h.mem_contents_iff (List.getElem?_eq_getElem hj)).1 hr').2
    exact hij.ne (Int.natCast_inj.1 (hri.symm.trans hrj))

omit [DecidableEq Ref] in
theorem Placed.flatMap_contents_perm (h : Placed live pools refs) (hnodup : live.Nodup) :
    (pools.flatMap Pool.contents).Perm live := by
  refine (List.perm_ext_iff_of_nodup h.contents_nodup_flatMap hnodup).2 fun r ↦ ?_
  rw [List.mem_flatMap]
  constructor
  · rintro ⟨pool, hpool, hr⟩
    obtain ⟨k, hk⟩ := List.mem_iff_getElem?.1 hpool
    exact ((h.mem_contents_iff hk).1 hr).1
  · intro hr
    obtain ⟨k, pool, hk, hplace⟩ := h.held r hr
    exact ⟨pool, List.mem_of_getElem? hk, (h.mem_contents_iff hk).2 ⟨hr, hplace.1⟩⟩

omit [DecidableEq Ref] in
/-- The number of entries of a pool. -/
theorem Placed.length_contents (h : Placed live pools refs) (hk : pools[k]? = some pool) :
    pool.contents.length = pool.tail := by
  have hsome : ∀ i ∈ List.range pool.tail, (pool.entries i).isSome := by
    intro i hi
    obtain ⟨r, -, hr, -⟩ := h.entry hk (List.mem_range.1 hi)
    exact Option.isSome_iff_exists.2 ⟨r, hr⟩
  rw [Pool.contents, List.length_filterMap_eq_countP, List.countP_eq_length.2 hsome,
    List.length_range]

end Placed

/-! ### Flush -/

section Flush

variable {s : JPypeReferenceSet Ref} {pool : Pool Ref}

/-- The set after references have been released. -/
def releaseAll (s : JPypeReferenceSet Ref) (rs : List Ref) : JPypeReferenceSet Ref :=
  { s with
    refs := fun r ↦ if r ∈ rs then { s.refs r with cleanup := 0 } else s.refs r
    released := s.released ++ rs.map fun r ↦ ((s.refs r).hostReference, (s.refs r).cleanup) }

theorem releaseAll_refs_of_notMem {rs : List Ref} {r : Ref} (hr : r ∉ rs) :
    (releaseAll s rs).refs r = s.refs r :=
  if_neg hr

theorem releaseAll_append {rs rs' : List Ref} (hdisj : rs.Disjoint rs') :
    releaseAll (releaseAll s rs) rs' = releaseAll s (rs ++ rs') := by
  have hrefs : ∀ r ∈ rs', (releaseAll s rs).refs r = s.refs r :=
    fun r hr ↦ releaseAll_refs_of_notMem fun hr' ↦ hdisj hr' hr
  have hmap : (rs'.map fun r ↦ (((releaseAll s rs).refs r).hostReference,
      ((releaseAll s rs).refs r).cleanup)) =
        rs'.map fun r ↦ ((s.refs r).hostReference, (s.refs r).cleanup) :=
    List.map_congr_left fun r hr ↦ by rw [hrefs r hr]
  rw [releaseAll, hmap]
  simp only [releaseAll, List.map_append, List.append_assoc, List.mem_append]
  congr 1
  funext r
  by_cases hr : r ∈ rs
  · by_cases hr' : r ∈ rs'
    · exact absurd hr' (hdisj hr)
    · simp [hr, hr']
  · simp [hr]

theorem foldlM_flushEntry {is : List ℕ} (hsome : ∀ i ∈ is, ∃ r, pool.entries i = some r)
    (hnodup : (is.filterMap pool.entries).Nodup)
    (hcleanup : ∀ r ∈ is.filterMap pool.entries, (s.refs r).cleanup ≠ 0) :
    is.foldlM (flushEntry pool) s = some (releaseAll s (is.filterMap pool.entries)) := by
  induction is generalizing s with
  | nil => simp [releaseAll]
  | cons i is ih =>
    obtain ⟨r, hr⟩ := hsome i List.mem_cons_self
    rw [List.filterMap_cons_some hr] at hnodup hcleanup ⊢
    obtain ⟨hnotMem, hnodup⟩ := List.nodup_cons.1 hnodup
    have hstep : flushEntry pool s i = some (releaseAll s [r]) := by
      simp only [flushEntry, hr, Option.bind_eq_bind, Option.bind_some,
        if_neg (hcleanup r List.mem_cons_self), Option.pure_def, releaseAll, List.map_cons,
        List.map_nil, List.mem_singleton]
      congr 2
      funext r'
      by_cases h : r' = r
      · subst h
        simp
      · simp [h]
    have hrest : ∀ r' ∈ is.filterMap pool.entries, ((releaseAll s [r]).refs r').cleanup ≠ 0 := by
      intro r' hr'
      have hne : r' ∉ [r] := fun h ↦ hnotMem (List.mem_singleton.1 h ▸ hr')
      rw [releaseAll_refs_of_notMem hne]
      exact hcleanup r' (List.mem_cons_of_mem _ hr')
    rw [List.foldlM_cons, hstep]
    have h := ih (fun i hi ↦ hsome i (List.mem_cons_of_mem _ hi)) hnodup hrest
    refine h.trans (congrArg some (releaseAll_append ?_))
    exact List.disjoint_cons_left.2 ⟨hnotMem, List.disjoint_nil_left _⟩

/-- The loop over the pools, from one of them on. -/
theorem foldlM_flushPool {cleared qs : List (Pool Ref)} (hpools : s.pools = cleared ++ qs)
    (hid : ∀ (j : ℕ) (q : Pool Ref), qs[j]? = some q → q.id = cleared.length + j)
    (hsome : ∀ q ∈ qs, ∀ i < q.tail, ∃ r, q.entries i = some r)
    (hnodup : (qs.flatMap Pool.contents).Nodup)
    (hcleanup : ∀ r ∈ qs.flatMap Pool.contents, (s.refs r).cleanup ≠ 0) :
    qs.foldlM flushPool s = some { releaseAll s (qs.flatMap Pool.contents) with
      pools := cleared ++ qs.map fun q ↦ { q with tail := 0 } } := by
  induction qs generalizing s cleared with
  | nil => simp [releaseAll, ← hpools]
  | cons q qs ih =>
    rw [List.flatMap_cons] at hnodup hcleanup ⊢
    obtain ⟨hq, hqs, hdisj⟩ := List.nodup_append'.1 hnodup
    have hstep : flushPool s q = some { releaseAll s q.contents with
        pools := cleared ++ { q with tail := 0 } :: qs } := by
      have hloop : (List.range q.tail).foldlM (flushEntry q) s = some (releaseAll s q.contents) :=
        foldlM_flushEntry (fun i hi ↦ hsome q List.mem_cons_self i (List.mem_range.1 hi)) hq
          fun r hr ↦ hcleanup r (List.mem_append_left _ hr)
      have hset : s.pools.set q.id { q with tail := 0 } =
          cleared ++ { q with tail := 0 } :: qs := by
        rw [hpools, hid 0 q rfl, Nat.add_zero, List.set_append_right _ _ (Nat.le_refl _),
          Nat.sub_self]
        rfl
      rw [flushPool, hloop]
      exact congrArg (fun pools ↦ some { releaseAll s q.contents with pools := pools }) hset
    have hpools' : cleared ++ { q with tail := 0 } :: qs =
        (cleared ++ [{ q with tail := 0 }]) ++ qs := by simp
    have hrest := ih (s := { releaseAll s q.contents with
        pools := cleared ++ { q with tail := 0 } :: qs }) hpools'
      (fun j q' hq' ↦ by
        have h := hid (j + 1) q' hq'
        rw [h, List.length_append, List.length_singleton, Nat.add_assoc, Nat.add_comm 1])
      (fun q' hq' ↦ hsome q' (List.mem_cons_of_mem _ hq')) hqs
      (fun r hr ↦ by
        have hne : r ∉ q.contents := fun hr' ↦ hdisj hr' hr
        exact (congrArg (·.cleanup ≠ 0) (releaseAll_refs_of_notMem hne)).mpr
          (hcleanup r (List.mem_append_right _ hr)))
    rw [List.foldlM_cons, hstep, ← releaseAll_append hdisj]
    refine hrest.trans ?_
    simp [releaseAll]

/-- `flush`: the references in the pools are released, in order. -/
theorem flush_eq {live : List Ref} (h : Placed live s.pools s.refs)
    (hcleanup : ∀ r ∈ live, (s.refs r).cleanup ≠ 0) :
    s.flush = some { releaseAll s (s.pools.flatMap Pool.contents) with
      pools := s.pools.map fun q ↦ { q with tail := 0 } } := by
  have hpools : s.pools = [] ++ s.pools := rfl
  refine foldlM_flushPool hpools ?_ ?_ h.contents_nodup_flatMap ?_
  · intro j q hq
    rw [h.id hq, List.length_nil, Nat.zero_add]
  · intro q hq i hi
    obtain ⟨k, hk⟩ := List.mem_iff_getElem?.1 hq
    obtain ⟨r, -, hr, -⟩ := h.entry hk hi
    exact ⟨r, hr⟩
  · intro r hr
    obtain ⟨q, hq, hr⟩ := List.mem_flatMap.1 hr
    obtain ⟨k, hk⟩ := List.mem_iff_getElem?.1 hq
    exact hcleanup r ((h.mem_contents_iff hk).1 hr).1

end Flush

/-! ### All histories -/

/-- What always holds of a set, for the references as constructed and the history of calls. -/
structure Consistent (refs : Ref → JPypeReference) (h : History Ref)
    (s : JPypeReferenceSet Ref) : Prop where
  host : ∀ ref, (s.refs ref).hostReference = (refs ref).hostReference
  cleanup_new : ∀ ref, ref ∉ h.added → (s.refs ref).cleanup = (refs ref).cleanup
  cleanup_live : ∀ ref ∈ h.live, (s.refs ref).cleanup = (refs ref).cleanup
  cleanup_ne : ∀ ref ∈ h.live, (s.refs ref).cleanup ≠ 0
  cleanup_gone : ∀ ref ∈ h.added, ref ∉ h.live → (s.refs ref).cleanup = 0
  live_added : h.live ⊆ h.added
  live_nodup : h.live.Nodup
  placed : Placed h.live s.pools s.refs
  current : ∀ k, s.current = some k → ∃ pool, s.pools[k]? = some pool ∧ pool.tail < SIZE
  /-- The count is of the live references, and of all that a flush has released. -/
  items : s.items = javaInt (h.live.length + h.flushed.length)
  released : s.released.Perm
    (h.flushed.map fun ref ↦ ((refs ref).hostReference, (refs ref).cleanup))

theorem javaInt_add (x y : ℤ) : javaInt (javaInt x + y) = javaInt (x + y) :=
  Int.bmod_add_bmod

section Steps

variable {refs : Ref → JPypeReference} {h : History Ref} {s : JPypeReferenceSet Ref} {ref : Ref}

omit [DecidableEq Ref] in
theorem consistent_new (refs : Ref → JPypeReference) :
    Consistent refs History.start (new refs) where
  host _ := rfl
  cleanup_new _ _ := rfl
  cleanup_live _ h := absurd h List.not_mem_nil
  cleanup_ne _ h := absurd h List.not_mem_nil
  cleanup_gone _ h := absurd h List.not_mem_nil
  live_added := List.nil_subset _
  live_nodup := List.nodup_nil
  placed := ⟨nofun, nofun, fun _ h ↦ absurd h List.not_mem_nil, nofun⟩
  current _ h := absurd h nofun
  items := show (0 : ℤ) = javaInt (0 + 0) by decide
  released := List.Perm.nil

omit [DecidableEq Ref] in
/-- A place is provided: the pools are as they were, up to an empty one. -/
theorem ensureCurrent_spec
    (hcurrent : ∀ k, s.current = some k → ∃ pool, s.pools[k]? = some pool ∧ pool.tail < SIZE) :
    ∃ (pools : List (Pool Ref)) (k : ℕ) (pool : Pool Ref),
      ensureCurrent s = ({ s with pools := pools }, k) ∧
        (pools = s.pools ∨ pools = s.pools ++ [newPool s.pools.length]) ∧
          pools[k]? = some pool ∧ pool.tail < SIZE := by
  obtain ⟨pools, current, items, refs, released⟩ := s
  cases current with
  | some k =>
    obtain ⟨pool, hk, hfree⟩ := hcurrent k rfl
    exact ⟨pools, k, pool, rfl, .inl rfl, hk, hfree⟩
  | none =>
    exact ⟨_, _, newPool pools.length, rfl, .inr rfl, getElem?_append_new.2 (.inr ⟨rfl, rfl⟩),
      show 0 < SIZE by decide⟩

omit [DecidableEq Ref] in
theorem findFree_spec {pools : List (Pool Ref)} {k : ℕ}
    (hid : ∀ {k : ℕ} {pool : Pool Ref}, pools[k]? = some pool → pool.id = k)
    (hk : findFree pools = some k) : ∃ pool, pools[k]? = some pool ∧ pool.tail < SIZE := by
  obtain ⟨pool, hpool, rfl⟩ := Option.map_eq_some_iff.1 hk
  obtain ⟨j, hj⟩ := List.mem_iff_getElem?.1 (List.mem_of_find?_eq_some hpool)
  have hfree := List.find?_some hpool
  exact ⟨pool, by rw [hid hj, hj], of_decide_eq_true hfree⟩

theorem Consistent.add (hs : Consistent refs h s) (hnew : ref ∉ h.added) :
    ∃ s', s.add ref = some s' ∧ Consistent refs (h.next refs (.add ref)) s' := by
  have hlive : ref ∉ h.live := fun hr ↦ hnew (hs.live_added hr)
  have hcleanup := hs.cleanup_new ref hnew
  have hother : ∀ r ∈ h.added, r ≠ ref := fun r hr hrr ↦ hnew (hrr ▸ hr)
  rw [JPypeReferenceSet.add, hcleanup]
  by_cases hzero : (refs ref).cleanup = 0
  · -- A reference without a cleanup is ignored.
    refine ⟨s, if_pos hzero, ?_⟩
    have hnext : h.next refs (.add ref) = { h with added := h.added ++ [ref] } := by
      rw [History.next, if_pos hzero]
    rw [hnext]
    refine { hs with
      cleanup_new := fun r hr ↦ hs.cleanup_new r fun h ↦ hr (List.mem_append_left _ h)
      cleanup_gone := ?_
      live_added := fun r hr ↦ List.mem_append_left _ (hs.live_added hr) }
    intro r hr hrlive
    obtain hr | hr := List.mem_append.1 hr
    · exact hs.cleanup_gone r hr hrlive
    · rw [List.mem_singleton.1 hr, hcleanup, hzero]
  · obtain ⟨pools, k, pool, hensure, hpools, hk, hfree⟩ :=
      ensureCurrent_spec (s := { s with items := javaInt (s.items + 1) }) hs.current
    have hplaced : Placed h.live pools s.refs := by
      obtain rfl | rfl := hpools
      · exact hs.placed
      · exact hs.placed.append_new
    have hplaced' := hplaced.add hk hfree hlive
    have hnext : h.next refs (.add ref) =
        { h with added := h.added ++ [ref], live := h.live ++ [ref] } := by
      rw [History.next, if_neg hzero]
    rw [if_neg hzero]
    simp only [hensure, hk, Pool.add, if_pos hfree, Option.bind_eq_bind, Option.bind_some,
      Option.pure_def]
    refine ⟨_, rfl, ?_⟩
    rw [hnext]
    constructor
    case placed => exact hplaced'
    case host =>
      intro r
      by_cases hr : r = ref
      · subst hr
        simpa using hs.host r
      · simpa [hr] using hs.host r
    case cleanup_new =>
      intro r hr
      rw [List.mem_append, List.mem_singleton, not_or] at hr
      simpa [hr.2] using hs.cleanup_new r hr.1
    case cleanup_live =>
      intro r hr
      obtain hr | hr := List.mem_append.1 hr
      · simpa [hother r (hs.live_added hr)] using hs.cleanup_live r hr
      · simpa [List.mem_singleton.1 hr] using hcleanup
    case cleanup_ne =>
      intro r hr
      obtain hr | hr := List.mem_append.1 hr
      · simpa [hother r (hs.live_added hr)] using hs.cleanup_ne r hr
      · simpa [List.mem_singleton.1 hr, hcleanup] using hzero
    case cleanup_gone =>
      intro r hr hrlive
      rw [List.mem_append, List.mem_singleton, not_or] at hrlive
      obtain hr | hr := List.mem_append.1 hr
      · simpa [hrlive.2] using hs.cleanup_gone r hr hrlive.1
      · exact absurd (List.mem_singleton.1 hr) hrlive.2
    case live_added =>
      exact List.append_subset.2 ⟨fun r hr ↦ List.mem_append_left _ (hs.live_added hr),
        List.subset_append_right _ _⟩
    case live_nodup => exact List.nodup_append.2 ⟨hs.live_nodup, List.nodup_singleton _,
      fun r hr r' hr' hrr ↦ hlive (List.mem_singleton.1 hr' ▸ hrr ▸ hr)⟩
    case current =>
      intro j hj
      split_ifs at hj with hfull
      · exact findFree_spec hplaced'.id hj
      · obtain rfl : k = j := Option.some.inj hj
        refine ⟨_, (getElem?_set_iff hk).2 (.inl ⟨rfl, rfl⟩), ?_⟩
        exact lt_of_le_of_ne hfree hfull
    case items =>
      show javaInt (s.items + 1) = javaInt ((h.live ++ [ref]).length + h.flushed.length)
      rw [hs.items, javaInt_add, List.length_append, List.length_singleton]
      congr 1
      omega
    case released => exact hs.released

/-- What `remove` does to the fields that do not say where a reference is. -/
theorem removed_fields (f : Ref → JPypeReference) (ref last r : Ref) (i : ℕ) :
    let f' := Function.update f last { f last with index := i }
    let g := Function.update f' ref { f' ref with cleanup := 0, pool := -1 }
    (g r).hostReference = (f r).hostReference ∧
      (g r).cleanup = if r = ref then 0 else (f r).cleanup := by
  by_cases hr : r = ref
  · subst hr
    by_cases hl : r = last
    · subst hl
      simp
    · simp [hl]
  · by_cases hl : r = last
    · subst hl
      simp [hr]
    · simp [hr, hl]

theorem Consistent.remove (hs : Consistent refs h s) (hadded : ref ∈ h.added) :
    ∃ s', s.remove ref = some s' ∧ Consistent refs (h.next refs (.remove ref)) s' := by
  rw [JPypeReferenceSet.remove]
  by_cases hlive : ref ∈ h.live
  · obtain ⟨k, pool, pool', last, hpool, hk, hremove, hplaced⟩ :=
      hs.placed.remove hs.live_nodup hlive
    have hpos : ¬ (s.refs ref).pool < 0 := by
      rw [hpool]
      exact Int.not_lt.2 (Int.natCast_nonneg k)
    rw [if_neg (hs.cleanup_ne ref hlive), if_neg hpos]
    simp only [hpool, Int.toNat_natCast, hk, hremove, Option.bind_eq_bind, Option.bind_some,
      Option.pure_def]
    refine ⟨_, rfl, ?_⟩
    have hmem : ∀ r, r ∈ (h.next refs (.remove ref)).live ↔ r ≠ ref ∧ r ∈ h.live :=
      fun r ↦ hs.live_nodup.mem_erase_iff
    have hfields := fun r ↦ removed_fields s.refs ref last r (s.refs ref).index
    constructor
    case placed => exact hplaced
    case host => exact fun r ↦ (hfields r).1.trans (hs.host r)
    case cleanup_new =>
      intro r hr
      have hne : r ≠ ref := fun h ↦ hr (h ▸ hadded)
      exact (hfields r).2.trans ((if_neg hne).trans (hs.cleanup_new r hr))
    case cleanup_live =>
      intro r hr
      obtain ⟨hne, hr⟩ := (hmem r).1 hr
      exact (hfields r).2.trans ((if_neg hne).trans (hs.cleanup_live r hr))
    case cleanup_ne =>
      intro r hr
      obtain ⟨hne, hr⟩ := (hmem r).1 hr
      exact fun h ↦ hs.cleanup_ne r hr (((hfields r).2.trans (if_neg hne)).symm.trans h)
    case cleanup_gone =>
      intro r hr hrlive
      by_cases hne : r = ref
      · exact (hfields r).2.trans (if_pos hne)
      · exact (hfields r).2.trans ((if_neg hne).trans
          (hs.cleanup_gone r hr fun h ↦ hrlive ((hmem r).2 ⟨hne, h⟩)))
    case live_added => exact fun r hr ↦ hs.live_added ((hmem r).1 hr).2
    case live_nodup => exact hs.live_nodup.erase ref
    case current =>
      intro j hj
      obtain ⟨q, hq, hfree⟩ := hs.current j hj
      by_cases hjk : j = k
      · subst hjk
        obtain rfl : pool = q := Option.some.inj (hk.symm.trans hq)
        exact ⟨pool', (getElem?_set_iff hk).2 (.inl ⟨rfl, rfl⟩),
          (Pool.tail_remove_le hremove).trans_lt hfree⟩
      · exact ⟨q, (getElem?_set_iff hk).2 (.inr ⟨hjk, hq⟩), hfree⟩
    case items =>
      have hlength := List.length_erase_of_mem hlive
      have hpos := List.length_pos_of_mem hlive
      show javaInt (s.items - 1) = javaInt ((h.live.erase ref).length + h.flushed.length)
      rw [hs.items, Int.sub_eq_add_neg, javaInt_add, hlength]
      congr 1
      omega
    case released => exact hs.released
  · -- A reference that is not live has no cleanup anymore.
    refine ⟨s, if_pos (hs.cleanup_gone ref hadded hlive), ?_⟩
    have hnext : h.next refs (.remove ref) = { h with removed := h.removed ++ [ref] } := by
      rw [History.next, List.erase_of_not_mem hlive]
    rw [hnext]
    exact { hs with }

theorem Consistent.flush (hs : Consistent refs h s) :
    ∃ s', s.flush = some s' ∧ Consistent refs (h.next refs .flush) s' := by
  refine ⟨_, flush_eq hs.placed hs.cleanup_ne, ?_⟩
  have hperm := hs.placed.flatMap_contents_perm hs.live_nodup
  have hmem : ∀ {r}, r ∈ s.pools.flatMap Pool.contents ↔ r ∈ h.live := hperm.mem_iff
  have hlive : ∀ {r}, r ∈ h.live → (releaseAll s (s.pools.flatMap Pool.contents)).refs r =
      { s.refs r with cleanup := 0 } := fun hr ↦ if_pos (hmem.2 hr)
  have hother : ∀ {r}, r ∉ h.live → (releaseAll s (s.pools.flatMap Pool.contents)).refs r =
      s.refs r := fun hr ↦ if_neg (hr ∘ hmem.1)
  have hpools : ∀ {k : ℕ} {pool : Pool Ref},
      (s.pools.map fun q ↦ { q with tail := 0 })[k]? = some pool ↔
        ∃ q, s.pools[k]? = some q ∧ { q with tail := 0 } = pool := by
    intro k pool
    rw [List.getElem?_map, Option.map_eq_some_iff]
  constructor
  case placed =>
    refine ⟨?_, ?_, fun r hr ↦ absurd hr List.not_mem_nil, ?_⟩
    all_goals
      intro k pool
    · intro hk
      obtain ⟨q, hq, rfl⟩ := hpools.1 hk
      exact (hs.placed.id hq :)
    · intro hk
      obtain ⟨q, hq, rfl⟩ := hpools.1 hk
      exact Nat.zero_le _
    · intro i hk hi
      obtain ⟨q, hq, rfl⟩ := hpools.1 hk
      exact absurd hi (Nat.not_lt_zero i)
  case host =>
    intro r
    by_cases hr : r ∈ h.live
    · exact (congrArg (·.hostReference) (hlive hr)).trans (hs.host r)
    · exact (congrArg (·.hostReference) (hother hr)).trans (hs.host r)
  case cleanup_new =>
    intro r hr
    exact (congrArg (·.cleanup) (hother (mt (@hs.live_added r) hr))).trans (hs.cleanup_new r hr)
  case cleanup_live => exact fun r hr ↦ absurd hr List.not_mem_nil
  case cleanup_ne => exact fun r hr ↦ absurd hr List.not_mem_nil
  case cleanup_gone =>
    intro r hr _
    by_cases hrlive : r ∈ h.live
    · exact congrArg (·.cleanup) (hlive hrlive)
    · exact (congrArg (·.cleanup) (hother hrlive)).trans (hs.cleanup_gone r hr hrlive)
  case live_added => exact List.nil_subset _
  case live_nodup => exact List.nodup_nil
  case current =>
    intro k hk
    obtain ⟨q, hq, -⟩ := hs.current k hk
    exact ⟨{ q with tail := 0 }, hpools.2 ⟨q, hq, rfl⟩,
      show 0 < SIZE by decide⟩
  case items =>
    -- The count is left as it is.
    show s.items = javaInt (([] : List Ref).length + (h.flushed ++ h.live).length)
    rw [hs.items, List.length_append, List.length_nil]
    congr 1
    omega
  case released =>
    have hpairs : (s.pools.flatMap Pool.contents).map (fun r ↦
        ((s.refs r).hostReference, (s.refs r).cleanup)) =
          (s.pools.flatMap Pool.contents).map fun r ↦
            ((refs r).hostReference, (refs r).cleanup) :=
      List.map_congr_left fun r hr ↦ by rw [hs.host r, hs.cleanup_live r (hmem.1 hr)]
    show (s.released ++ _).Perm ((h.flushed ++ h.live).map _)
    rw [hpairs, List.map_append]
    exact hs.released.append (hperm.map _)

/-- What a call keeps. -/
theorem Consistent.step {call : Call Ref} (hs : Consistent refs h s) (hcall : h.Allows call) :
    ∃ s', step s call = some s' ∧ Consistent refs (h.next refs call) s' := by
  cases call with
  | add ref => exact hs.add hcall
  | remove ref => exact hs.remove hcall.1
  | flush => exact hs.flush

end Steps

/-- The state of the pools that the calls of a history ask for. -/
structure PoolInvariant (refs : Ref → JPypeReference) (h : History Ref)
    (s : JPypeReferenceSet Ref) : Prop where
  /-- `pools[r.pool].entries[r.index] == r` -/
  entry : ∀ r ∈ h.live, ∃ (k : ℕ) (pool : Pool Ref), (s.refs r).pool = k ∧
    s.pools[k]? = some pool ∧ (s.refs r).index < pool.tail ∧
      pool.entries (s.refs r).index = some r
  /-- The tail of a pool is the number of its references. -/
  tail : ∀ (k : ℕ) (pool : Pool Ref), s.pools[k]? = some pool →
    pool.tail = (h.live.filter fun r ↦ (s.refs r).pool = k).length
  /-- No reference is lost, and none is held twice. -/
  contents : (s.pools.flatMap Pool.contents).Perm h.live
  current : ∀ k, s.current = some k → ∃ pool, s.pools[k]? = some pool ∧ pool.tail ≠ SIZE
  size : s.size = h.live.length
  /-- Flushes release what was live, each reference once. -/
  released : s.released.Perm
    (h.flushed.map fun r ↦ ((refs r).hostReference, (refs r).cleanup))

omit [DecidableEq Ref] in
theorem Placed.tail_eq {live : List Ref} {pools : List (Pool Ref)} {refs : Ref → JPypeReference}
    (h : Placed live pools refs) (hnodup : live.Nodup) {k : ℕ} {pool : Pool Ref}
    (hk : pools[k]? = some pool) :
    pool.tail = (live.filter fun r ↦ (refs r).pool = k).length := by
  have hperm : pool.contents.Perm (live.filter fun r ↦ (refs r).pool = k) := by
    refine (List.perm_ext_iff_of_nodup (h.contents_nodup hk) (hnodup.filter _)).2 fun r ↦ ?_
    rw [h.mem_contents_iff hk, List.mem_filter, decide_eq_true_iff]
  rw [← hperm.length_eq, h.length_contents hk]

theorem javaInt_eq_iff (n m : ℕ) :
    javaInt (n + m) = n ↔ n < 2 ^ 31 ∧ 2 ^ 32 ∣ m := by
  rw [javaInt, Int.bmod_def]
  omega

omit [DecidableEq Ref] in
theorem Consistent.invariant_iff_count {refs : Ref → JPypeReference} {h : History Ref}
    {s : JPypeReferenceSet Ref} (hs : Consistent refs h s) :
    PoolInvariant refs h s ↔ h.live.length < 2 ^ 31 ∧ 2 ^ 32 ∣ h.flushed.length := by
  rw [← javaInt_eq_iff, ← hs.items]
  refine ⟨fun hinv ↦ hinv.size, fun hsize ↦ ⟨?_, ?_, ?_, ?_, hsize, hs.released⟩⟩
  · intro r hr
    obtain ⟨k, pool, hk, hpool, hplace⟩ := hs.placed.held r hr
    exact ⟨k, pool, hpool, hk, hplace⟩
  · exact fun k pool hk ↦ hs.placed.tail_eq hs.live_nodup hk
  · exact hs.placed.flatMap_contents_perm hs.live_nodup
  · intro k hk
    obtain ⟨pool, hpool, hfree⟩ := hs.current k hk
    exact ⟨pool, hpool, hfree.ne⟩

theorem consistent_run (refs : Ref → JPypeReference) (calls : List (Call Ref))
    (hcalls : Admissible History.Allows (History.next refs) History.start calls) :
    ∃ s, calls.foldlM step (new refs) = some s ∧
      Consistent refs (run (History.next refs) History.start calls) s :=
  exists_run (fun _ _ _ hs hcall ↦ hs.step hcall) calls _ _ (consistent_new refs) hcalls

/-- No sequence of calls fails. The pools are as the calls ask for, unless a flush has found live
references: these remain in the count. -/
theorem poolInvariant_iff (refs : Ref → JPypeReference) (calls : List (Call Ref))
    (hcalls : Admissible History.Allows (History.next refs) History.start calls) :
    ∃ s, calls.foldlM step (new refs) = some s ∧
      (PoolInvariant refs (run (History.next refs) History.start calls) s ↔
        (run (History.next refs) History.start calls).live.length < 2 ^ 31 ∧
          2 ^ 32 ∣ (run (History.next refs) History.start calls).flushed.length) := by
  obtain ⟨s, hs, hconsistent⟩ := consistent_run refs calls hcalls
  exact ⟨s, hs, hconsistent.invariant_iff_count⟩

/-- The references of the examples: host 1, cleanup 2. -/
def sample (_ : ℕ) : JPypeReference where
  hostReference := 1
  cleanup := 2

/-- Three references are added, the first is removed and the last moves to its place, and the set
is not flushed. -/
theorem poolInvariant_swap :
    ∃ s, [Call.add 0, .add 1, .add 2, .remove 0].foldlM step (new sample) = some s ∧
      PoolInvariant sample
        (run (History.next sample) History.start [.add 0, .add 1, .add 2, .remove 0]) s := by
  obtain ⟨s, hs, h⟩ := poolInvariant_iff sample [.add 0, .add 1, .add 2, .remove 0]
    (by simp [Admissible, History.Allows, History.next, History.start])
  exact ⟨s, hs, h.2 (by decide)⟩

/-- A reference is added, and the set is flushed: its size is 1. -/
theorem size_flush :
    Admissible History.Allows (History.next sample) History.start [.add 0, .flush] ∧
      ∃ s, [Call.add 0, .flush].foldlM step (new sample) = some s ∧ s.size = 1 ∧
        (run (History.next sample) History.start [.add 0, .flush]).live = [] ∧
        ¬ PoolInvariant sample (run (History.next sample) History.start [.add 0, .flush]) s := by
  refine ⟨by simp [Admissible, History.Allows, History.start], _, rfl, by decide, by decide,
    fun h ↦ ?_⟩
  exact absurd h.size (by decide)

end JPypeReferenceSet

end JPype
