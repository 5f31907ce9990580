import JPype.Foundation.Agreement
import JPype.Foundation.Traces
import Mathlib.Data.List.AList

/-!
# `java.util.Map` as a Python mapping

The customizer `_JMap` makes of the methods of a Java map the operations of a Python mapping. A
history of operations gives on the map what it gives on a dictionary of the same entries, except
where a deletion finds no entry, an entry is indexed from its end, or a key that has no conversion
cannot be formatted or is equal to a key of the map (`mapRefinesDict_iff`).
-/

open Foundation

namespace JPype

/-- The Python exceptions of the operations. `other` is any exception of the `__str__` of a key. -/
inductive MapError where
  | keyError
  | typeError
  | indexError
  | valueError
  | other
  deriving DecidableEq, Repr

/-- The entries of a map or of a dictionary. The values are strings or null, which is `None`. -/
abbrev Entries (K Str : Type*) := AList fun _ : K ↦ Option Str

/-- A Python key that no conversion takes to a Java object. As a key of a dictionary it can be equal
to one that has a conversion, and `'%s' % key` can raise an exception: a `TypeError` if the key is a
tuple, unless it has one item. -/
structure UnconvertibleKey (K : Type*) where
  equal : Option K
  formatError : Option MapError
  deriving DecidableEq

/-- A hashable Python key. -/
inductive PyKey (K : Type*) where
  | key (k : K)
  | other (u : UnconvertibleKey K)
  deriving DecidableEq

namespace PyKey

variable {K : Type*}

/-- The Java object of the key; without one, every call is a `TypeError`. -/
def toJava : PyKey K → Option K
  | key k => some k
  | other _ => none

/-- The key that it is equal to. -/
def toDict : PyKey K → Option K
  | key k => some k
  | other u => u.equal

/-- `raise KeyError('%s' % ndx)` -/
def raiseKeyError : PyKey K → MapError
  | key _ => .keyError
  | other u => u.formatError.getD .keyError

end PyKey

/-- What is done with an entry of `items()`. -/
inductive EntryUse where
  | unpack
  | index (i : ℤ) (low : -2 ≤ i) (high : i ≤ 1)
  deriving DecidableEq

/-- The operations. A value that is stored has a conversion. -/
inductive MapOp (K Str : Type*) where
  | getItem (ndx : PyKey K)
  | setItem (ndx : K) (v : Option Str)
  | delItem (i : PyKey K)
  | contains (item : PyKey K)
  | len
  | iter
  | keys
  | items (use : EntryUse)
  deriving DecidableEq

/-- The values of the operations. -/
inductive MapValue (K Str : Type*) where
  | none
  | item (v : Option Str)
  | bool (b : Bool)
  | int (n : ℕ)
  | keys (l : List K)
  | pairs (l : List (K × Option Str))
  | parts (l : List (K ⊕ Option Str))
  deriving DecidableEq

/-- Equal values; the order of the entries is not specified for a Java map. -/
def MapValue.Same {K Str : Type*} : MapValue K Str → MapValue K Str → Prop
  | keys l, keys l' => l.Perm l'
  | pairs l, pairs l' => l.Perm l'
  | parts l, parts l' => l.Perm l'
  | v, v' => v = v'

/-- The same exception, or equal values, and equal contents. -/
def SameAnswer {K Str : Type*} (a b : Except MapError (MapValue K Str) × Entries K Str) : Prop :=
  (match a.1, b.1 with
    | .error e, .error e' => e = e'
    | .ok v, .ok v' => v.Same v'
    | _, _ => False) ∧ a.2.entries.Perm b.2.entries

variable {K Str : Type*} [DecidableEq K]

/-! ### The Java map -/

/-- A class that implements `java.util.Map`, as specified: it lists the entries in an order of its
own. -/
structure JavaMapClass (K Str : Type*) where
  arrange : Entries K Str → Entries K Str
  arrange_perm : ∀ m, (arrange m).entries.Perm m.entries

namespace JavaMap

/-- `get`, which is null for an absent key. -/
def get (m : Entries K Str) (k : K) : Option Str :=
  (m.lookup k).join

/-- `containsKey` -/
def containsKey (m : Entries K Str) (k : K) : Bool :=
  decide (k ∈ m)

/-- `put` -/
def put (J : JavaMapClass K Str) (m : Entries K Str) (k : K) (v : Option Str) : Entries K Str :=
  J.arrange (m.insert k v)

/-- `remove` -/
def remove (J : JavaMapClass K Str) (m : Entries K Str) (k : K) : Entries K Str :=
  J.arrange (m.erase k)

end JavaMap

/-! ### The customizers `_JMap` and `_JMapEntry` -/

namespace MapCustomizer

open JavaMap

/-- `_JMapEntry.__getitem__` -/
def entryGetItem (e : Sigma fun _ : K ↦ Option Str) (x : ℤ) :
    Except MapError (K ⊕ Option Str) :=
  if x = 0 then .ok (.inl e.1)
  else if x = 1 then .ok (.inr e.2)
  else .error .indexError

/-- `k, v = entry`: the items from the first on, up to an `IndexError`. -/
def unpackEntry (e : Sigma fun _ : K ↦ Option Str) : Except MapError (K × Option Str) :=
  match entryGetItem e 0, entryGetItem e 1, entryGetItem e 2 with
  | .ok (.inl k), .ok (.inr v), .error .indexError => .ok (k, v)
  | _, _, _ => .error .valueError

/-- `_JMap.__getitem__` -/
def getItem (m : Entries K Str) (ndx : PyKey K) : Except MapError (Option Str) :=
  match ndx.toJava with
  | none => .error ndx.raiseKeyError
  | some k =>
    let item := get m k
    if item ≠ none ∨ containsKey m k then .ok item else .error ndx.raiseKeyError

/-- `_JMap.__contains__` -/
def contains (m : Entries K Str) (item : PyKey K) : Bool :=
  match item.toJava with
  | none => false
  | some k => containsKey m k

/-- An operation on a wrapped map. -/
def step (J : JavaMapClass K Str) (m : Entries K Str) :
    MapOp K Str → Except MapError (MapValue K Str) × Entries K Str
  | .getItem ndx => ((getItem m ndx).map .item, m)
  | .setItem ndx v => (.ok .none, put J m ndx v)
  | .delItem i =>
    match i.toJava with
    | none => (.error .typeError, m)
    | some k => (.ok .none, remove J m k)
  | .contains item => (.ok (.bool (contains m item)), m)
  | .len => (.ok (.int m.entries.length), m)
  | .iter => (.ok (.keys m.keys), m)
  | .keys => (.ok (.keys m.keys), m)
  | .items .unpack => ((m.entries.mapM unpackEntry).map .pairs, m)
  | .items (.index i _ _) => ((m.entries.mapM (entryGetItem · i)).map .parts, m)

end MapCustomizer

/-! ### The dictionary -/

namespace PyDict

/-- The item of a pair. -/
def pairGetItem (e : Sigma fun _ : K ↦ Option Str) (i : ℤ) :
    Except MapError (K ⊕ Option Str) :=
  match if i < 0 then i + 2 else i with
  | 0 => .ok (.inl e.1)
  | 1 => .ok (.inr e.2)
  | _ => .error .indexError

/-- An operation on a dictionary. -/
def step (d : Entries K Str) : MapOp K Str → Except MapError (MapValue K Str) × Entries K Str
  | .getItem ndx =>
    match ndx.toDict.bind d.lookup with
    | none => (.error .keyError, d)
    | some v => (.ok (.item v), d)
  | .setItem ndx v => (.ok .none, d.insert ndx v)
  | .delItem i =>
    match i.toDict with
    | none => (.error .keyError, d)
    | some k => if k ∈ d then (.ok .none, d.erase k) else (.error .keyError, d)
  | .contains item => (.ok (.bool (∃ k ∈ item.toDict, k ∈ d)), d)
  | .len => (.ok (.int d.entries.length), d)
  | .iter => (.ok (.keys d.keys), d)
  | .keys => (.ok (.keys d.keys), d)
  | .items .unpack => (.ok (.pairs (d.entries.map fun e ↦ (e.1, e.2))), d)
  | .items (.index i _ _) => ((d.entries.mapM (pairGetItem · i)).map .parts, d)

end PyDict

/-! ### Histories -/

/-- An operation gives on the map what it gives on a dictionary. -/
def MapOp.Faithful (m : Entries K Str) : MapOp K Str → Prop
  | getItem (.other u) =>
    (∀ k ∈ u.equal, k ∉ m) ∧ (u.formatError = none ∨ u.formatError = some .keyError)
  | delItem (.key k) => k ∈ m
  | delItem (.other _) => False
  | contains (.other u) => ∀ k ∈ u.equal, k ∉ m
  | items (.index i _ _) => 0 ≤ i ∨ m.entries = []
  | _ => True

instance (m : Entries K Str) : DecidablePred (MapOp.Faithful m)
  | .getItem (.key _) => isTrue trivial
  | .getItem (.other _) => inferInstanceAs (Decidable (_ ∧ _))
  | .setItem _ _ => isTrue trivial
  | .delItem (.key _) => inferInstanceAs (Decidable (_ ∈ _))
  | .delItem (.other _) => isFalse id
  | .contains (.key _) => isTrue trivial
  | .contains (.other u) => inferInstanceAs (Decidable (∀ k ∈ u.equal, k ∉ m))
  | .len => isTrue trivial
  | .iter => isTrue trivial
  | .keys => isTrue trivial
  | .items .unpack => isTrue trivial
  | .items (.index i _ _) =>
    have := decidable_of_iff _ (List.isEmpty_iff (l := m.entries))
    inferInstanceAs (Decidable (0 ≤ i ∨ _))

section Comparison

variable {m d : Entries K Str}

theorem bind_lookup_eq_none {equal : Option K} :
    equal.bind d.lookup = none ↔ ∀ k ∈ equal, k ∉ d := by
  rw [Option.bind_eq_none_iff]
  exact forall₂_congr fun k _ ↦ AList.lookup_eq_none

theorem getD_eq_keyError {e : Option MapError} :
    (e = none ∨ e = some .keyError) ↔ e.getD .keyError = .keyError := by
  cases e with
  | none => exact iff_of_true (.inl rfl) rfl
  | some e => rw [or_iff_right (Option.some_ne_none e), Option.some.injEq, Option.getD_some]

theorem get_eq_of_lookup {k : K} {v : Option Str} (h : m.lookup k = some v) :
    JavaMap.get m k = v := by
  rw [JavaMap.get, h]
  rfl

/-- A key with a conversion is looked up as in a dictionary: null is told from an absent key. -/
theorem getItem_key (k : K) :
    MapCustomizer.getItem m (.key k) =
      match m.lookup k with
      | none => .error .keyError
      | some v => .ok v := by
  cases hlookup : m.lookup k with
  | none =>
    have hmem : k ∉ m := AList.lookup_eq_none.1 hlookup
    simp [MapCustomizer.getItem, PyKey.toJava, PyKey.raiseKeyError, JavaMap.get, hlookup,
      JavaMap.containsKey, hmem]
  | some v =>
    have hmem : k ∈ m := AList.lookup_isSome.1 (hlookup ▸ rfl)
    simp [MapCustomizer.getItem, PyKey.toJava, JavaMap.containsKey, hmem, get_eq_of_lookup hlookup]

omit [DecidableEq K] in
theorem unpackEntry_eq (e : Sigma fun _ : K ↦ Option Str) :
    MapCustomizer.unpackEntry e = .ok (e.1, e.2) :=
  rfl

omit [DecidableEq K] in
/-- An entry is indexed from its start as a pair is. -/
theorem entryGetItem_eq {e : Sigma fun _ : K ↦ Option Str} {i : ℤ} (hlow : 0 ≤ i) (high : i ≤ 1) :
    MapCustomizer.entryGetItem e i = .ok (if i = 0 then .inl e.1 else .inr e.2) ∧
      PyDict.pairGetItem e i = .ok (if i = 0 then .inl e.1 else .inr e.2) := by
  obtain rfl | rfl : i = 0 ∨ i = 1 := by omega
  · exact ⟨rfl, rfl⟩
  · exact ⟨rfl, rfl⟩

omit [DecidableEq K] in
/-- From its end, only a pair has items. -/
theorem entryGetItem_neg {e : Sigma fun _ : K ↦ Option Str} {i : ℤ} (hlow : -2 ≤ i) (hneg : i < 0) :
    MapCustomizer.entryGetItem e i = .error .indexError ∧
      PyDict.pairGetItem e i = .ok (if i = -2 then .inl e.1 else .inr e.2) := by
  obtain rfl | rfl : i = -2 ∨ i = -1 := by omega
  · exact ⟨rfl, rfl⟩
  · exact ⟨rfl, rfl⟩

theorem sameAnswer_items_index (h : m.entries.Perm d.entries) (J : JavaMapClass K Str) {i : ℤ}
    (low : -2 ≤ i) (high : i ≤ 1) :
    SameAnswer (MapCustomizer.step J m (.items (.index i low high)))
        (PyDict.step d (.items (.index i low high))) ↔ 0 ≤ i ∨ m.entries = [] := by
  obtain hlow | hneg : 0 ≤ i ∨ i < 0 := by omega
  · have hmap : ∀ l : List (Sigma fun _ : K ↦ Option Str),
        l.mapM (MapCustomizer.entryGetItem · i) =
            .ok (l.map fun e ↦ if i = 0 then .inl e.1 else .inr e.2) ∧
          l.mapM (PyDict.pairGetItem · i) =
            .ok (l.map fun e ↦ if i = 0 then .inl e.1 else .inr e.2) := fun l ↦
      ⟨mapM_eq_ok fun e _ ↦ (entryGetItem_eq hlow high).1,
        mapM_eq_ok fun e _ ↦ (entryGetItem_eq hlow high).2⟩
    rw [MapCustomizer.step, PyDict.step, (hmap _).1, (hmap _).2]
    exact iff_of_true ⟨h.map _, h⟩ (.inl hlow)
  · rw [or_iff_right (by omega)]
    cases hm : m.entries with
    | nil =>
      have hd : d.entries = [] := by rwa [hm, List.nil_perm] at h
      rw [MapCustomizer.step, PyDict.step, hm, hd]
      exact iff_of_true ⟨.nil, h⟩ rfl
    | cons e l =>
      refine iff_of_false (fun hsame ↦ ?_) (List.cons_ne_nil e l)
      have hpair : d.entries.mapM (PyDict.pairGetItem · i) =
          .ok (d.entries.map fun e ↦ if i = -2 then .inl e.1 else .inr e.2) :=
        mapM_eq_ok fun e _ ↦ (entryGetItem_neg low hneg).2
      have hentry : m.entries.mapM (MapCustomizer.entryGetItem · i) = .error .indexError := by
        rw [hm, List.mapM_cons, (entryGetItem_neg low hneg).1]
        rfl
      rw [MapCustomizer.step, PyDict.step, hpair, hentry] at hsame
      exact hsame.1

/-- **One operation** gives the same on the map as on a dictionary of the same entries, exactly if
it is `Faithful`. -/
theorem sameAnswer_iff (J : JavaMapClass K Str) (h : m.entries.Perm d.entries) (op : MapOp K Str) :
    SameAnswer (MapCustomizer.step J m op) (PyDict.step d op) ↔ op.Faithful m := by
  have hmem : ∀ k, k ∈ d ↔ k ∈ m := fun k ↦ (AList.mem_of_perm h).symm
  cases op with
  | getItem ndx =>
    cases ndx with
    | key k =>
      rw [MapCustomizer.step, getItem_key, PyDict.step, PyKey.toDict, Option.bind_some,
        ← AList.perm_lookup h]
      cases m.lookup k <;> exact iff_of_true ⟨rfl, h⟩ trivial
    | other u =>
      have hfaithful : (MapOp.getItem (.other u)).Faithful m ↔
          u.equal.bind d.lookup = none ∧ u.formatError.getD .keyError = .keyError := by
        rw [bind_lookup_eq_none, ← getD_eq_keyError]
        simp only [hmem]
        rfl
      rw [hfaithful, PyDict.step, PyKey.toDict]
      cases u.equal.bind d.lookup with
      | none => exact ⟨fun hsame ↦ ⟨rfl, hsame.1⟩, fun heq ↦ ⟨heq.2, h⟩⟩
      | some v => exact iff_of_false (fun hsame ↦ hsame.1) fun heq ↦ nomatch heq.1
  | setItem ndx v =>
    exact iff_of_true ⟨rfl, (J.arrange_perm _).trans (AList.perm_insert h)⟩ trivial
  | delItem i =>
    cases i with
    | key k =>
      rw [PyDict.step, PyKey.toDict]
      dsimp only
      by_cases hk : k ∈ m
      · rw [if_pos ((hmem k).2 hk)]
        exact iff_of_true ⟨rfl, (J.arrange_perm _).trans (AList.perm_erase h)⟩ hk
      · rw [if_neg (mt (hmem k).1 hk)]
        exact iff_of_false (fun hsame ↦ hsame.1) hk
    | other u =>
      -- a dictionary finds an equal key or raises a `KeyError`
      refine iff_of_false (fun hsame ↦ ?_) id
      rw [PyDict.step, PyKey.toDict] at hsame
      cases hequal : u.equal with
      | none =>
        rw [hequal] at hsame
        exact MapError.noConfusion hsame.1
      | some k =>
        rw [hequal] at hsame
        dsimp only at hsame
        by_cases hk : k ∈ d
        · rw [if_pos hk] at hsame
          exact hsame.1
        · rw [if_neg hk] at hsame
          exact MapError.noConfusion hsame.1
  | contains item =>
    cases item with
    | key k =>
      refine iff_of_true ⟨congrArg MapValue.bool ?_, h⟩ trivial
      simp [MapCustomizer.contains, PyKey.toJava, PyKey.toDict, JavaMap.containsKey, hmem]
    | other u =>
      have hbool : (false = decide (∃ k ∈ u.equal, k ∈ d)) ↔ ∀ k ∈ u.equal, k ∉ m := by
        rw [eq_comm, decide_eq_false_iff_not]
        simp only [hmem, not_exists, not_and]
      refine Iff.trans ⟨fun hsame ↦ MapValue.bool.inj hsame.1, fun heq ↦ ?_⟩ hbool
      exact ⟨congrArg MapValue.bool heq, h⟩
  | len => exact iff_of_true ⟨congrArg MapValue.int h.length_eq, h⟩ trivial
  | iter => exact iff_of_true ⟨h.map _, h⟩ trivial
  | keys => exact iff_of_true ⟨h.map _, h⟩ trivial
  | items use =>
    cases use with
    | unpack =>
      rw [MapCustomizer.step, mapM_eq_ok fun e _ ↦ unpackEntry_eq e]
      exact iff_of_true ⟨h.map _, h⟩ trivial
    | index i low high => exact sameAnswer_items_index h J low high

end Comparison

/-- **A wrapped map refines a dictionary** over a history of operations, exactly if every operation
of the history is faithful to the contents at its time. -/
theorem mapRefinesDict_iff (J : JavaMapClass K Str) (m : Entries K Str) (ops : List (MapOp K Str)) :
    List.Forall₂ SameAnswer (trace (MapCustomizer.step J) m ops) (trace PyDict.step m ops) ↔
      Admissible MapOp.Faithful (fun m op ↦ (MapCustomizer.step J m op).2) m ops := by
  refine forall₂_trace_iff (fun m d ↦ m.entries.Perm d.entries) ?_ ?_ ops m m (.refl _)
  · exact fun m d op h ↦ sameAnswer_iff J h op
  · exact fun m d op h hop ↦ ((sameAnswer_iff J h op).2 hop).2

/-- A map with the one entry `"a" ↦ null`, and a deletion of `"b"`. -/
theorem delItem_absent :
    let J : JavaMapClass String String := ⟨id, fun _ ↦ .refl _⟩
    let m : Entries String String := AList.singleton "a" none
    (MapCustomizer.step J m (.delItem (.key "b"))).1 = .ok .none ∧
      (PyDict.step m (.delItem (.key "b"))).1 = .error .keyError ∧
      ¬List.Forall₂ SameAnswer (trace (MapCustomizer.step J) m [.delItem (.key "b")])
        (trace PyDict.step m [.delItem (.key "b")]) := by
  refine ⟨rfl, rfl, fun h ↦ ?_⟩
  rw [trace_cons, trace_cons, List.forall₂_cons] at h
  exact h.1.1

end JPype
