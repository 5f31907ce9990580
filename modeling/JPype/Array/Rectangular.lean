import JPype.Array.View
import JPype.Foundation.RowMajor

/-!
# Rectangular arrays

A Java array of several dimensions is an array of arrays: its rows may be null and may differ in
length. `collectRectangular` reads the shape off the first row of each dimension and then walks
the whole array, comparing every length with that shape and collecting the innermost arrays in
order. When it succeeds, the array has the shape (`collectRectangular_ok`), and the collected
arrays, one after the other, are its elements in row-major order (`getElem?_leaves`).
-/

namespace JPype

open Foundation

/-- A Java array of `d + 1` dimensions over `α`. -/
def Rows (α : Type) : ℕ → Type
  | 0 => List α
  | d + 1 => List (Option (Rows α d))

variable {α : Type}

namespace Rows

/-- The array is rectangular, of the given shape, and has no null row. -/
def HasShape : (d : ℕ) → Rows α d → List ℕ → Prop
  | 0, (row : List α), [n] => row.length = n
  | d + 1, (rows : List (Option (Rows α d))), n :: shape =>
    rows.length = n ∧ ∀ r ∈ rows, ∃ r', r = some r' ∧ HasShape d r' shape
  | _, _, _ => False

/-- The element at an index tuple. -/
def lookup : (d : ℕ) → Rows α d → List ℕ → Option α
  | 0, (row : List α), [i] => row[i]?
  | d + 1, (rows : List (Option (Rows α d))), i :: index =>
    rows[i]?.join.bind fun r ↦ lookup d r index
  | _, _, _ => none

/-- The innermost arrays in order. -/
def leaves : (d : ℕ) → Rows α d → List (List α)
  | 0, (row : List α) => [row]
  | d + 1, (rows : List (Option (Rows α d))) =>
    rows.flatMap fun r ↦ (r.map (leaves d)).getD []

end Rows

namespace Rows

theorem lookup_zero (row : List α) (i : ℕ) : lookup 0 row [i] = row[i]? :=
  rfl

theorem lookup_succ {d : ℕ} (rows : List (Option (Rows α d))) (i : ℕ) (index : List ℕ) :
    lookup (d + 1) rows (i :: index) = rows[i]?.join.bind fun r ↦ lookup d r index :=
  rfl

theorem leaves_zero (row : List α) : leaves 0 row = [row] :=
  rfl

theorem leaves_succ {d : ℕ} (rows : List (Option (Rows α d))) :
    leaves (d + 1) rows = rows.flatMap fun r ↦ (r.map (leaves d)).getD [] :=
  rfl

end Rows

/-! ### `JPypeContext` -/

namespace JPypeContext

/-- How the collection of an array ends without a result. -/
inductive Failure where
  /-- The method returns `null`. -/
  | notRectangular
  /-- The length of a null row is asked for. -/
  | nullPointerException
  deriving DecidableEq, Repr

/-- The loop of `collectRectangular` over the first rows, for the iterations that remain: the
extents, and whether the component type reached is primitive. -/
def readShape : ℕ → (d : ℕ) → Rows α d → Option (List ℕ × Bool)
  | 0, _, _ => some ([], false)
  | _ + 1, 0, (row : List α) => if row.length = 0 then none else some ([row.length], true)
  | i + 1, d + 1, (rows : List (Option (Rows α d))) =>
    match rows with
    | [] => none
    | none :: _ => none
    | some o :: _ => (readShape i d o).map fun (shape, primitive) ↦
        (rows.length :: shape, primitive)

/-- `collect`: the arrays collected so far, and the innermost arrays of `o` after them. The
shape is given from the dimension of `o` on. -/
def collect : (d : ℕ) → Rows α d → List ℕ → List (List α) → Except Failure (List (List α))
  | 0, (row : List α), [n], out =>
    if row.length ≠ n then .error .notRectangular else .ok (out ++ [row])
  | d + 1, (rows : List (Option (Rows α d))), n :: shape, out =>
    if rows.length ≠ n then .error .notRectangular
    else rows.foldlM (fun out r ↦
      match r with
      | none => .error .nullPointerException
      | some r => collect d r shape out) out
  | _, _, _, _ => .error .notRectangular

/-- What `collectRectangular` returns, after the primitive type. -/
structure Collection (α : Type) where
  shape : List ℕ
  parts : List (List α)

/-- `collectRectangular`. -/
def collectRectangular (d : ℕ) (o : Rows α d) : Except Failure (Collection α) :=
  match readShape 5 d o with
  | none => .error .notRectangular
  | some (shape, primitive) =>
    if primitive = false then .error .notRectangular
    else if shape.length = 5 then .error .notRectangular
    else (collect d o shape []).map fun out ↦ { shape := shape, parts := out }

end JPypeContext

/-! ### Shapes and elements -/

namespace Rows

theorem hasShape_zero {row : List α} {shape : List ℕ} (h : HasShape 0 row shape) :
    shape = [row.length] := by
  match shape, h with
  | [n], h => exact congrArg (fun n ↦ [n]) (Eq.symm h)

theorem hasShape_succ {d : ℕ} {rows : List (Option (Rows α d))} {shape : List ℕ}
    (h : HasShape (d + 1) rows shape) :
    ∃ tail, shape = rows.length :: tail ∧
      ∀ r ∈ rows, ∃ r', r = some r' ∧ HasShape d r' tail := by
  match shape, h with
  | n :: tail, h => exact ⟨tail, congrArg (· :: tail) h.1.symm, h.2⟩

/-- The innermost arrays have the last extent. -/
theorem length_of_mem_leaves : ∀ {d : ℕ} {o : Rows α d} {shape : List ℕ}, HasShape d o shape →
    ∀ leaf ∈ leaves d o, leaf.length = shape.getLastD 0 := by
  intro d
  induction d with
  | zero =>
    intro (row : List α) shape h leaf hleaf
    obtain rfl := hasShape_zero h
    obtain rfl : leaf = row := List.mem_singleton.1 hleaf
    rfl
  | succ d ih =>
    intro (rows : List (Option (Rows α d))) shape h leaf hleaf
    obtain ⟨tail, rfl, hrows⟩ := hasShape_succ h
    obtain ⟨r, hr, hleaf⟩ := List.mem_flatMap.1 hleaf
    obtain ⟨r', rfl, hr'⟩ := hrows r hr
    rw [ih hr' leaf hleaf]
    cases tail with
    | nil => cases d <;> cases hr'
    | cons n tail => rw [List.getLastD_cons, List.getLastD_cons, List.getLastD_cons]

/-- The elements of an array of rows are those of its rows, one row after the other. -/
theorem flatten_leaves_succ {d : ℕ} (rows : List (Option (Rows α d))) :
    (leaves (d + 1) rows).flatten =
      (rows.map fun r ↦ ((r.map (leaves d)).getD []).flatten).flatten := by
  rw [leaves_succ, List.flatMap_def, List.flatten_flatten, List.map_map]
  rfl

/-- The rows have one length, when arrays of their shape have it. -/
theorem length_of_mem_map_leaves {d : ℕ} {rows : List (Option (Rows α d))} {tail : List ℕ}
    (hrows : ∀ r ∈ rows, ∃ r', r = some r' ∧ HasShape d r' tail)
    (hlength : ∀ {o : Rows α d} {shape : List ℕ}, HasShape d o shape →
      (leaves d o).flatten.length = shape.prod) :
    ∀ block ∈ rows.map fun r ↦ ((r.map (leaves d)).getD []).flatten,
      block.length = tail.prod := by
  intro block hblock
  obtain ⟨r, hr, rfl⟩ := List.mem_map.1 hblock
  obtain ⟨r', rfl, hr'⟩ := hrows r hr
  exact hlength hr'

theorem length_flatten_leaves : ∀ {d : ℕ} {o : Rows α d} {shape : List ℕ},
    HasShape d o shape → (leaves d o).flatten.length = shape.prod := by
  intro d
  induction d with
  | zero =>
    intro (row : List α) shape h
    obtain rfl := hasShape_zero h
    rw [leaves_zero, List.flatten_singleton, List.prod_singleton]
  | succ d ih =>
    intro (rows : List (Option (Rows α d))) shape h
    obtain ⟨tail, rfl, hrows⟩ := hasShape_succ h
    have hblock := length_of_mem_map_leaves hrows ih
    rw [flatten_leaves_succ, length_flatten_of_length_eq hblock, List.length_map,
      List.prod_cons]

/-- **Row-major order**: the element at an index tuple is the one with its flat index. -/
theorem getElem?_leaves : ∀ {d : ℕ} {o : Rows α d} {shape index : List ℕ},
    HasShape d o shape → Within index shape →
    (leaves d o).flatten[flatIndex shape index]? = lookup d o index := by
  intro d
  induction d with
  | zero =>
    intro (row : List α) shape index h hindex
    obtain rfl := hasShape_zero h
    obtain ⟨i, index, -, hnil, rfl⟩ := List.forall₂_cons_right_iff.1 hindex
    obtain rfl := List.forall₂_nil_right_iff.1 hnil
    rw [leaves_zero, List.flatten_singleton, lookup_zero, flatIndex, List.prod_nil, mul_one]
    rfl
  | succ d ih =>
    intro (rows : List (Option (Rows α d))) shape index h hindex
    obtain ⟨tail, rfl, hrows⟩ := hasShape_succ h
    obtain ⟨i, index, hi, htail, rfl⟩ := List.forall₂_cons_right_iff.1 hindex
    have hblock := length_of_mem_map_leaves hrows length_flatten_leaves
    obtain ⟨r', hr', hshape⟩ := hrows _ (List.getElem_mem hi)
    rw [flatten_leaves_succ, flatIndex, getElem?_flatten_of_length_eq hblock i (flatIndex_lt htail),
      lookup_succ, List.getElem?_map, List.getElem?_eq_getElem hi, hr']
    exact ih hshape htail

/-- An array without an extent of zero has one shape only. -/
theorem HasShape.unique : ∀ {d : ℕ} {o : Rows α d} {shape shape' : List ℕ},
    HasShape d o shape → HasShape d o shape' → (∀ n ∈ shape, 0 < n) → shape = shape' := by
  intro d
  induction d with
  | zero =>
    intro o shape shape' h h' _
    rw [hasShape_zero h, hasShape_zero h']
  | succ d ih =>
    intro (rows : List (Option (Rows α d))) shape shape' h h' hpos
    obtain ⟨tail, rfl, hrows⟩ := hasShape_succ h
    obtain ⟨tail', rfl, hrows'⟩ := hasShape_succ h'
    have hlen : 0 < rows.length := hpos _ List.mem_cons_self
    have hmem : rows[0] ∈ rows := List.getElem_mem hlen
    obtain ⟨r, hr, hshape⟩ := hrows _ hmem
    obtain ⟨r', hr', hshape'⟩ := hrows' _ hmem
    obtain rfl : r = r' := Option.some.inj (hr.symm.trans hr')
    rw [ih hshape hshape' fun n hn ↦ hpos n (List.mem_cons_of_mem _ hn)]

/-- Two arrays of one shape with the same elements are the same. -/
theorem HasShape.ext : ∀ {d : ℕ} {o o' : Rows α d} {shape : List ℕ},
    HasShape d o shape → HasShape d o' shape →
    (∀ index, Within index shape → lookup d o index = lookup d o' index) → o = o' := by
  intro d
  induction d with
  | zero =>
    intro (row : List α) (row' : List α) shape h h' hlookup
    obtain rfl := hasShape_zero h
    have hlen : row.length = row'.length := List.cons.inj (hasShape_zero h') |>.1
    refine List.ext_getElem? fun i ↦ ?_
    obtain hi | hi := lt_or_ge i row.length
    · exact hlookup [i] (.cons hi .nil)
    · rw [List.getElem?_eq_none hi, List.getElem?_eq_none (hlen ▸ hi)]
  | succ d ih =>
    intro (rows : List (Option (Rows α d))) (rows' : List (Option (Rows α d))) shape h h' hlookup
    obtain ⟨tail, rfl, hrows⟩ := hasShape_succ h
    obtain ⟨tail', htail, hrows'⟩ := hasShape_succ h'
    obtain ⟨hlen, rfl⟩ : rows.length = rows'.length ∧ tail = tail' := List.cons.inj htail
    refine List.ext_getElem hlen fun i hi hi' ↦ ?_
    obtain ⟨r, hr, hshape⟩ := hrows _ (List.getElem_mem hi)
    obtain ⟨r', hr', hshape'⟩ := hrows' _ (List.getElem_mem hi')
    rw [hr, hr', ih hshape hshape' fun index hindex ↦ ?_]
    have hrow := hlookup (i :: index) (.cons hi hindex)
    rw [lookup_succ, lookup_succ, List.getElem?_eq_getElem hi, List.getElem?_eq_getElem hi', hr,
      hr'] at hrow
    exact hrow

end Rows

/-! ### A collection that succeeds -/

namespace JPypeContext

open Rows

theorem collect_zero {row : List α} {shape : List ℕ} {out out' : List (List α)}
    (h : collect 0 row shape out = .ok out') : HasShape 0 row shape ∧ out' = out ++ [row] := by
  match shape, h with
  | [n], h =>
    change (if row.length ≠ n then _ else Except.ok (out ++ [row])) = _ at h
    split_ifs at h with hn
    exact ⟨not_not.1 hn, (Except.ok.inj h).symm⟩

/-- The loop of `collect` over the rows of an array. -/
def collectRows (d : ℕ) (shape : List ℕ) (out : List (List α)) (r : Option (Rows α d)) :
    Except Failure (List (List α)) :=
  match r with
  | none => .error .nullPointerException
  | some r => collect d r shape out

theorem collect_succ {d : ℕ} {rows : List (Option (Rows α d))} {shape : List ℕ}
    {out out' : List (List α)} (h : collect (d + 1) rows shape out = .ok out') :
    ∃ tail, shape = rows.length :: tail ∧
      rows.foldlM (collectRows d tail) out = .ok out' := by
  match shape, h with
  | n :: tail, h =>
    change (if rows.length ≠ n then _ else rows.foldlM (collectRows d tail) out) = _ at h
    split_ifs at h with hn
    exact ⟨tail, by rw [not_not.1 hn], h⟩

/-- What `collect` has collected are the innermost arrays of a rectangular array. -/
theorem collect_ok : ∀ {d : ℕ} {o : Rows α d} {shape : List ℕ} {out out' : List (List α)},
    collect d o shape out = .ok out' → HasShape d o shape ∧ out' = out ++ leaves d o := by
  intro d
  induction d with
  | zero => exact fun h ↦ collect_zero h
  | succ d ih =>
    intro (rows : List (Option (Rows α d))) shape out out' h
    obtain ⟨tail, rfl, hfold⟩ := collect_succ h
    have hrows : (∀ r ∈ rows, ∃ r', r = some r' ∧ HasShape d r' tail) ∧
        out' = out ++ rows.flatMap fun r ↦ (r.map (leaves d)).getD [] := by
      clear h
      induction rows generalizing out with
      | nil =>
        obtain rfl : out = out' := Except.ok.inj hfold
        exact ⟨fun r hr ↦ absurd hr List.not_mem_nil, (List.append_nil out).symm⟩
      | cons r rows ihrows =>
        rw [List.foldlM_cons] at hfold
        cases hr : collectRows d tail out r with
        | error e =>
          rw [hr] at hfold
          cases hfold
        | ok out₁ =>
          rw [hr] at hfold
          obtain ⟨hall, rfl⟩ := ihrows hfold
          match r, hr with
          | some o, hr =>
            obtain ⟨hshape, rfl⟩ := ih hr
            refine ⟨fun r' hr' ↦ ?_, ?_⟩
            · obtain rfl | hmem := List.mem_cons.1 hr'
              · exact ⟨o, rfl, hshape⟩
              · exact hall r' hmem
            · rw [List.flatMap_cons, List.append_assoc]
              rfl
    exact ⟨⟨rfl, hrows.1⟩, hrows.2⟩

theorem pos_of_readShape : ∀ {i d : ℕ} {o : Rows α d} {shape : List ℕ} {primitive : Bool},
    readShape i d o = some (shape, primitive) → ∀ n ∈ shape, 0 < n := by
  intro i
  induction i with
  | zero =>
    intro d o shape primitive h n hn
    obtain rfl : [] = shape := congrArg Prod.fst (Option.some.inj h)
    cases hn
  | succ i ih =>
    intro d o shape primitive h n hn
    cases d with
    | zero =>
      change (if List.length (α := α) o = 0 then none else some ([_], true)) = _ at h
      split_ifs at h with hlen
      obtain rfl : [List.length (α := α) o] = shape := congrArg Prod.fst (Option.some.inj h)
      obtain rfl := List.mem_singleton.1 hn
      exact Nat.pos_of_ne_zero hlen
    | succ d =>
      match o, h with
      | some o :: rows, h =>
        obtain ⟨⟨tail, primitive'⟩, hread, heq⟩ := Option.map_eq_some_iff.1 h
        obtain rfl : _ :: tail = shape := congrArg Prod.fst heq
        obtain rfl | hmem := List.mem_cons.1 hn
        · exact Nat.succ_pos _
        · exact ih hread n hmem

/-- **`collectRectangular`** succeeds only on rectangular arrays with positive extents, and
returns their shape and their innermost arrays. -/
theorem collectRectangular_ok {d : ℕ} {o : Rows α d} {c : Collection α}
    (h : collectRectangular d o = .ok c) :
    HasShape d o c.shape ∧ (∀ n ∈ c.shape, 0 < n) ∧ c.parts = leaves d o := by
  rw [collectRectangular] at h
  cases hread : readShape 5 d o with
  | none =>
    rw [hread] at h
    cases h
  | some read =>
    obtain ⟨shape, primitive⟩ := read
    rw [hread] at h
    change (if primitive = false then _ else if shape.length = 5 then _
      else (collect d o shape []).map _) = _ at h
    split_ifs at h
    cases hcollect : collect d o shape [] with
    | error e =>
      rw [hcollect] at h
      cases h
    | ok out =>
      rw [hcollect] at h
      obtain rfl := Except.ok.inj h
      obtain ⟨hshape, hout⟩ := collect_ok hcollect
      exact ⟨hshape, pos_of_readShape hread, hout⟩

end JPypeContext

end JPype
