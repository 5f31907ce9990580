import JPype.Array.Rectangular
import JPype.Java.Reflection
import Mathlib.Algebra.Order.BigOperators.GroupWithZero.List

/-!
# Taking arrays apart and putting them together

`collectRectangular` of any object, and its converse `assemble`, which builds an array of several
dimensions from its innermost arrays. Where `collect` descends from the first dimension,
`assemble` regroups from the last: `unpack` turns a list of arrays into a list of arrays of
arrays, once for each dimension between the first and the last. `flatten_rebuild` says when the
first succeeds and what it returns, and that the second inverts it.
-/

namespace JPype

open Foundation

/-- A Java reference, as far as `collectRectangular` looks at it. Arrays have `d + 1` dimensions;
the elements of an array of references may be null. -/
inductive JavaObject (α β : Type) where
  | null
  | notArray
  | primitiveArray (type : PrimitiveType) (d : ℕ) (rows : Rows α d)
  | referenceArray (d : ℕ) (rows : Rows (Option β) d)

variable {α β : Type}

namespace JPypeContext

/-- The loop of `collectRectangular` over the first rows, where the innermost elements are
references: the extents. No iteration reaches a primitive component type. -/
def readReferences : ℕ → (d : ℕ) → Rows (Option β) d → Option (List ℕ)
  | 0, _, _ => some []
  | _ + 1, 0, (row : List (Option β)) =>
    match row with
    | [] => none
    | none :: _ => none
    | some _ :: _ => some [row.length]
  | i + 1, d + 1, (rows : List (Option (Rows (Option β) d))) =>
    match rows with
    | [] => none
    | none :: _ => none
    | some o :: _ => (readReferences i d o).map (rows.length :: ·)

/-- `collectRectangular` of any object, with the primitive type in front of the result. -/
def collectObject : JavaObject α β → Except Failure (PrimitiveType × Collection α)
  | .null => .error .notRectangular
  | .notArray => .error .notRectangular
  | .primitiveArray type d rows => (collectRectangular d rows).map (type, ·)
  | .referenceArray d rows =>
    match readReferences 5 d rows with
    | none => .error .notRectangular
    -- The component type is not primitive, whatever the extents.
    | some _ => .error .notRectangular

/-- How `assemble` fails. -/
inductive AssemblyError where
  | arrayIndexOutOfBounds
  | arithmeticException
  deriving DecidableEq, Repr

/-- `unpack`: the parts in segments of a size. What is left over is dropped. -/
def unpack {γ : Type} (size : ℕ) (parts : List γ) : Except AssemblyError (List (List γ)) :=
  if parts = [] then .error .arrayIndexOutOfBounds
  else if size = 0 then .error .arithmeticException
  else .ok (blocks size (parts.length / size) parts)

/-- `Array.get(parts, 0)` -/
def first {γ : Type} : List γ → Except AssemblyError γ
  | [] => .error .arrayIndexOutOfBounds
  | part :: _ => .ok part

/-- Segments as arrays of one more dimension. -/
def regroup {d : ℕ} (segments : List (List (Rows α d))) : List (Rows α (d + 1)) :=
  segments.map (List.map some)

/-- The loop of `assemble`, over the extents `dims[n - 2], …, dims[1]`. -/
def assembleLoop : List ℕ → (d : ℕ) → List (Rows α d) →
    Except AssemblyError ((d : ℕ) × Rows α d)
  | [], d, parts => .ok ⟨d + 1, parts.map some⟩
  | size :: dims, d, parts => do
    let segments ← unpack size parts
    assembleLoop dims (d + 1) (regroup segments)

/-- `assemble` -/
def assemble (dims : List ℕ) (parts : List (List α)) :
    Except AssemblyError ((d : ℕ) × Rows α d) :=
  match dims with
  | [_] => do return ⟨0, ← first parts⟩
  | [size, _] => do
    let segments ← unpack size parts
    return ⟨1, (← first segments).map some⟩
  | dims => assembleLoop (dims.drop 1).dropLast.reverse 0 parts

end JPypeContext

/-! ### When a collection succeeds -/

namespace Rows

/-- The first row of a rectangular array with positive extents. -/
theorem HasShape.head {d : ℕ} {rows : List (Option (Rows α d))} {n : ℕ} {tail : List ℕ}
    (h : HasShape (d + 1) rows (n :: tail)) (hpos : ∀ m ∈ n :: tail, 0 < m) :
    ∃ o rest, rows = some o :: rest ∧ HasShape d o tail ∧ ∀ m ∈ tail, 0 < m := by
  obtain ⟨hlen, hrows⟩ := h
  cases rows with
  | nil => exact absurd hlen (hpos n List.mem_cons_self).ne
  | cons r rest =>
    obtain ⟨o, rfl, ho⟩ := hrows r List.mem_cons_self
    exact ⟨o, rest, rfl, ho, fun m hm ↦ hpos m (List.mem_cons_of_mem n hm)⟩

theorem HasShape.length : ∀ {d : ℕ} {o : Rows α d} {shape : List ℕ}, HasShape d o shape →
    (∀ n ∈ shape, 0 < n) → shape.length = d + 1 := by
  intro d
  induction d with
  | zero =>
    intro (row : List α) shape h _
    rw [hasShape_zero h]
    rfl
  | succ d ih =>
    intro (rows : List (Option (Rows α d))) shape h hpos
    obtain ⟨tail, rfl, -⟩ := hasShape_succ h
    obtain ⟨o, -, -, ho, hpos'⟩ := HasShape.head h hpos
    rw [List.length_cons, ih ho hpos']

/-- The number of innermost arrays. -/
theorem HasShape.length_leaves {d : ℕ} {o : Rows α d} {shape : List ℕ} (h : HasShape d o shape)
    (hpos : ∀ n ∈ shape, 0 < n) : (leaves d o).length = shape.dropLast.prod := by
  have hne : shape ≠ [] := List.ne_nil_of_length_pos (h.length hpos ▸ Nat.succ_pos d)
  have hlast : shape.getLastD 0 = shape.getLast hne := by
    rw [List.getLastD_eq_getLast?, List.getLast?_eq_some_getLast hne]
    rfl
  have hprod : shape.dropLast.prod * shape.getLast hne = shape.prod := by
    conv_rhs => rw [← List.dropLast_append_getLast hne]
    rw [List.prod_append, List.prod_singleton]
  have hcount := length_flatten_of_length_eq (length_of_mem_leaves h)
  rw [length_flatten_leaves h, hlast, ← hprod] at hcount
  exact (Nat.eq_of_mul_eq_mul_right (hpos _ (List.getLast_mem hne)) hcount).symm

/-- No sub-array is null. -/
def NoNull : (d : ℕ) → Rows α d → Prop
  | 0, _ => True
  | d + 1, (rows : List (Option (Rows α d))) => ∀ r ∈ rows, ∃ r', r = some r' ∧ NoNull d r'

end Rows

namespace JPypeContext

open Rows

/-- The extents of a rectangular array are read off its first rows, if the loop is long enough. -/
theorem readShape_of_hasShape : ∀ {i d : ℕ} {o : Rows α d} {shape : List ℕ}, HasShape d o shape →
    (∀ n ∈ shape, 0 < n) → d < i → readShape i d o = some (shape, true) := by
  intro i
  induction i with
  | zero => exact fun _ _ h ↦ absurd h (Nat.not_lt_zero _)
  | succ i ih =>
    intro d o shape h hpos hi
    cases d with
    | zero =>
      obtain rfl := hasShape_zero h
      exact if_neg (hpos _ List.mem_cons_self).ne'
    | succ d =>
      obtain ⟨tail, rfl, -⟩ := hasShape_succ h
      obtain ⟨o', rest, rfl, ho, hpos'⟩ := HasShape.head h hpos
      show (readShape i d o').map _ = _
      rw [ih ho hpos' (Nat.lt_of_succ_lt_succ hi)]
      rfl

/-- When the loop has come to a primitive component type, it has seen all dimensions. -/
theorem lt_of_readShape : ∀ {i d : ℕ} {o : Rows α d} {shape : List ℕ},
    readShape i d o = some (shape, true) → d < i := by
  intro i
  induction i with
  | zero => exact fun h ↦ absurd (congrArg (·.map Prod.snd) h) (by simp [readShape])
  | succ i ih =>
    intro d o shape h
    cases d with
    | zero => exact Nat.succ_pos i
    | succ d =>
      match o, h with
      | some o :: rows, h =>
        obtain ⟨⟨tail, primitive⟩, hread, heq⟩ := Option.map_eq_some_iff.1 h
        obtain rfl : primitive = true := congrArg Prod.snd heq
        exact Nat.succ_lt_succ (ih hread)

/-- The walk over a rectangular array collects its innermost arrays. -/
theorem collect_of_hasShape : ∀ {d : ℕ} {o : Rows α d} {shape : List ℕ} (out : List (List α)),
    HasShape d o shape → collect d o shape out = .ok (out ++ leaves d o) := by
  intro d
  induction d with
  | zero =>
    intro (row : List α) shape out h
    obtain rfl := hasShape_zero h
    exact if_neg (not_not.2 rfl)
  | succ d ih =>
    intro (rows : List (Option (Rows α d))) shape out h
    obtain ⟨tail, rfl, hrows⟩ := hasShape_succ h
    have hloop : rows.foldlM (collectRows d tail) out = .ok (out ++ leaves (d + 1) rows) := by
      rw [leaves_succ]
      clear h
      induction rows generalizing out with
      | nil => exact congrArg Except.ok (List.append_nil out).symm
      | cons r rows ihrows =>
        obtain ⟨o, rfl, ho⟩ := hrows r List.mem_cons_self
        have hrest := ihrows (out ++ leaves d o) fun r hr ↦ hrows r (List.mem_cons_of_mem _ hr)
        rw [List.foldlM_cons, show collectRows d tail out (some o) = _ from ih out ho,
          List.flatMap_cons, ← List.append_assoc]
        exact hrest
    exact (if_neg (not_not.2 rfl)).trans hloop

/-- Without a null sub-array the walk runs into no exception. -/
theorem collect_error : ∀ {d : ℕ} {o : Rows α d} {shape : List ℕ} {out : List (List α)}
    {e : Failure}, NoNull d o → collect d o shape out = .error e → e = .notRectangular := by
  intro d
  induction d with
  | zero =>
    intro (row : List α) shape out e _ h
    match shape, h with
    | [], h => exact (Except.error.inj h).symm
    | [n], h =>
      change (if row.length ≠ n then Except.error Failure.notRectangular else _) = _ at h
      split_ifs at h
      exact (Except.error.inj h).symm
    | _ :: _ :: _, h => exact (Except.error.inj h).symm
  | succ d ih =>
    intro (rows : List (Option (Rows α d))) shape out e hnull h
    have hloop : ∀ {tail : List ℕ} {rows : List (Option (Rows α d))} {out : List (List α)},
        (∀ r ∈ rows, ∃ r', r = some r' ∧ NoNull d r') →
        rows.foldlM (collectRows d tail) out = .error e → e = .notRectangular := by
      intro tail rows out hnull h
      induction rows generalizing out with
      | nil => exact absurd h nofun
      | cons r rows ihrows =>
        obtain ⟨o, rfl, ho⟩ := hnull r List.mem_cons_self
        rw [List.foldlM_cons] at h
        cases hcollect : collectRows d tail out (some o) with
        | error e' =>
          rw [hcollect] at h
          obtain rfl : e' = e := Except.error.inj h
          exact ih ho hcollect
        | ok out' =>
          rw [hcollect] at h
          exact ihrows (fun r hr ↦ hnull r (List.mem_cons_of_mem _ hr)) h
    match shape, h with
    | [], h => exact (Except.error.inj h).symm
    | n :: tail, h =>
      change (if rows.length ≠ n then Except.error Failure.notRectangular
        else rows.foldlM (collectRows d tail) out) = _ at h
      split_ifs at h with hlen
      · exact (Except.error.inj h).symm
      · exact hloop hnull h

/-- `collectRectangular` succeeds exactly on the rectangular arrays with positive extents and at
most four dimensions. -/
theorem collectRectangular_iff {d : ℕ} {o : Rows α d} :
    (∃ c, collectRectangular d o = .ok c) ↔
      d + 1 ≤ 4 ∧ ∃ shape, HasShape d o shape ∧ ∀ n ∈ shape, 0 < n := by
  constructor
  · rintro ⟨c, hc⟩
    obtain ⟨hshape, hpos, -⟩ := collectRectangular_ok hc
    refine ⟨?_, c.shape, hshape, hpos⟩
    rw [collectRectangular] at hc
    cases hread : readShape 5 d o with
    | none =>
      rw [hread] at hc
      cases hc
    | some read =>
      obtain ⟨shape, primitive⟩ := read
      rw [hread] at hc
      change (if primitive = false then _ else if shape.length = 5 then _
        else (collect d o shape []).map _) = _ at hc
      split_ifs at hc with hprimitive hfive
      obtain rfl : primitive = true := by simpa using hprimitive
      have hlt := lt_of_readShape hread
      obtain ⟨out, hcollect, rfl⟩ : ∃ out, collect d o shape [] = .ok out ∧
          ({ shape := shape, parts := out } : Collection α) = c := by
        cases hcollect : collect d o shape [] with
        | error e =>
          rw [hcollect] at hc
          cases hc
        | ok out =>
          rw [hcollect] at hc
          exact ⟨out, rfl, Except.ok.inj hc⟩
      have hlength : shape.length = d + 1 := hshape.length hpos
      omega
  · rintro ⟨hd, shape, hshape, hpos⟩
    have hlength := hshape.length hpos
    refine ⟨{ shape := shape, parts := leaves d o }, ?_⟩
    rw [collectRectangular, readShape_of_hasShape hshape hpos (by omega)]
    show (if true = false then _ else if shape.length = 5 then _
      else (collect d o shape []).map _) = _
    rw [if_neg Bool.true_eq_false_eq_False.elim, if_neg (by omega), collect_of_hasShape [] hshape]
    rfl

theorem collectRectangular_error {d : ℕ} {o : Rows α d} {e : Failure} (hnull : NoNull d o)
    (h : collectRectangular d o = .error e) : e = .notRectangular := by
  rw [collectRectangular] at h
  split at h
  · exact (Except.error.inj h).symm
  · split_ifs at h
    · exact (Except.error.inj h).symm
    · exact (Except.error.inj h).symm
    · rename_i shape _ _ _ _
      cases hcollect : collect d o shape [] with
      | error e' =>
        rw [hcollect] at h
        obtain rfl : e' = e := Except.error.inj h
        exact collect_error hnull hcollect
      | ok out =>
        rw [hcollect] at h
        cases h

/-! ### Assembly -/

/-- Parts that divide evenly are regrouped into segments of the size, in order. -/
theorem unpack_ok {γ : Type} {size count : ℕ} {parts : List γ} (hsize : 0 < size)
    (hcount : 0 < count) (hparts : parts.length = count * size) :
    ∃ segments, unpack size parts = .ok segments ∧ segments.length = count ∧
      (∀ segment ∈ segments, segment.length = size) ∧ segments.flatten = parts := by
  have hne : parts ≠ [] := by
    rintro rfl
    exact (Nat.mul_pos hcount hsize).ne hparts
  refine ⟨blocks size count parts, ?_, length_blocks _ _ _, ?_, ?_⟩
  · rw [unpack, if_neg hne, if_neg hsize.ne', hparts, Nat.mul_div_cancel _ hsize]
  · exact length_of_mem_blocks hparts.ge
  · rw [flatten_blocks, ← hparts, List.take_length]

/-- A segment of rectangular arrays is a rectangular array of one more dimension. -/
theorem hasShape_map_some {d size : ℕ} {shape : List ℕ} {segment : List (Rows α d)}
    (hlen : segment.length = size) (hshape : ∀ o ∈ segment, HasShape d o shape) :
    HasShape (d + 1) (segment.map some) (size :: shape) := by
  refine ⟨(List.length_map some).trans hlen, fun r hr ↦ ?_⟩
  obtain ⟨o, ho, rfl⟩ := List.mem_map.1 hr
  exact ⟨o, rfl, hshape o ho⟩

theorem leaves_map_some {d : ℕ} (segment : List (Rows α d)) :
    leaves (d + 1) (segment.map some) = segment.flatMap (leaves d) := by
  rw [leaves_succ, List.flatMap_map]
  rfl

theorem leaves_regroup {d : ℕ} (segments : List (List (Rows α d))) :
    (regroup segments).flatMap (leaves (d + 1)) = segments.flatten.flatMap (leaves d) := by
  induction segments with
  | nil => rfl
  | cons segment segments ih =>
    show leaves (d + 1) (segment.map some) ++ (regroup segments).flatMap (leaves (d + 1)) = _
    rw [ih, leaves_map_some, List.flatten_cons, List.flatMap_append]

theorem flatMap_leaves_zero (parts : List (List α)) : parts.flatMap (leaves 0) = parts :=
  List.flatMap_singleton' parts

/-- The loop regroups parts of a shape until they are one array, whose innermost arrays are those
of the parts. -/
theorem assembleLoop_ok {n : ℕ} (hn : 0 < n) : ∀ {dims : List ℕ} {d : ℕ} {parts : List (Rows α d)}
    {shape : List ℕ}, (∀ m ∈ dims, 0 < m) → (∀ o ∈ parts, HasShape d o shape) →
    parts.length = n * dims.prod →
    ∃ x, assembleLoop dims d parts = .ok x ∧
      HasShape x.1 x.2 (n :: (dims.reverse ++ shape)) ∧
      leaves x.1 x.2 = parts.flatMap (leaves d) := by
  intro dims
  induction dims with
  | nil =>
    intro d parts shape _ hshape hlen
    rw [List.prod_nil, mul_one] at hlen
    exact ⟨⟨d + 1, parts.map some⟩, rfl, hasShape_map_some hlen hshape, leaves_map_some parts⟩
  | cons size dims ih =>
    intro d parts shape hpos hshape hlen
    have hdims : ∀ m ∈ dims, 0 < m := fun m hm ↦ hpos m (List.mem_cons_of_mem size hm)
    obtain ⟨segments, hunpack, hcount, hsize, hflatten⟩ := unpack_ok
      (hpos size List.mem_cons_self) (Nat.mul_pos hn (List.prod_pos hdims))
      (by rw [hlen, List.prod_cons]; ring)
    have hmem : ∀ segment ∈ segments, ∀ o ∈ segment, HasShape d o shape := fun segment hs o ho ↦
      hshape o (hflatten ▸ List.mem_flatten_of_mem hs ho)
    have hregroup : ∀ o ∈ regroup segments, HasShape (d + 1) o (size :: shape) := by
      intro o ho
      obtain ⟨segment, hs, rfl⟩ := List.mem_map.1 ho
      exact hasShape_map_some (hsize segment hs) (hmem segment hs)
    obtain ⟨x, hx, hxshape, hleaves⟩ := ih hdims hregroup ((List.length_map _).trans hcount)
    refine ⟨x, ?_, ?_, ?_⟩
    · rw [assembleLoop, hunpack]
      exact hx
    · simpa using hxshape
    · rw [hleaves, leaves_regroup, hflatten]

/-- **`assemble`** of the parts of a shape gives an array of that shape with these parts. -/
theorem assemble_ok {shape : List ℕ} {parts : List (List α)} (hne : shape ≠ [])
    (hpos : ∀ n ∈ shape, 0 < n) (hcount : parts.length = shape.dropLast.prod)
    (hlast : ∀ part ∈ parts, part.length = shape.getLastD 0) :
    ∃ x, assemble shape parts = .ok x ∧ HasShape x.1 x.2 shape ∧ leaves x.1 x.2 = parts := by
  have hparts : ∀ part ∈ parts, HasShape 0 part [shape.getLastD 0] := hlast
  match shape with
  | [] => exact absurd rfl hne
  | [n] =>
    obtain ⟨part, rfl⟩ := List.length_eq_one_iff.1 hcount
    exact ⟨⟨0, part⟩, rfl, hparts part List.mem_cons_self, rfl⟩
  | [size, n] =>
    have hsize := hpos size List.mem_cons_self
    rw [List.dropLast_cons_of_ne_nil (List.cons_ne_nil _ _)] at hcount
    obtain ⟨segments, hunpack, hone, hlen, hflatten⟩ := unpack_ok hsize Nat.one_pos
      (by rw [hcount]; simp)
    obtain ⟨segment, rfl⟩ := List.length_eq_one_iff.1 hone
    obtain rfl : segment = parts := by simpa using hflatten
    refine ⟨⟨1, List.map some segment⟩, ?_, ?_, ?_⟩
    · show (unpack size segment >>= fun segments ↦ _) = _
      rw [hunpack]
      rfl
    · exact hasShape_map_some (d := 0) (hlen segment List.mem_cons_self) hparts
    · exact (leaves_map_some (d := 0) segment).trans (flatMap_leaves_zero segment)
  | n₀ :: n₁ :: n₂ :: tail =>
    -- The extents between the first and the last one are those of the loop.
    have hne' : n₁ :: n₂ :: tail ≠ [] := List.cons_ne_nil _ _
    have hsplit := List.dropLast_append_getLast hne'
    have hmid : ∀ n ∈ (n₁ :: n₂ :: tail).dropLast.reverse, 0 < n := fun n hn ↦
      hpos n (List.mem_cons_of_mem _ (List.dropLast_subset _ (List.mem_reverse.1 hn)))
    rw [List.dropLast_cons_of_ne_nil hne', List.prod_cons, ← List.prod_reverse] at hcount
    obtain ⟨x, hx, hshape, hleaves⟩ :=
      assembleLoop_ok (d := 0) (hpos n₀ List.mem_cons_self) hmid hparts hcount
    refine ⟨x, hx, ?_, hleaves.trans (flatMap_leaves_zero parts)⟩
    have hlast' : (n₀ :: n₁ :: n₂ :: tail).getLastD 0 = (n₁ :: n₂ :: tail).getLast hne' := by
      rw [List.getLastD_cons, List.getLastD_eq_getLast?, List.getLast?_eq_some_getLast hne']
      rfl
    rwa [List.reverse_reverse, hlast', hsplit] at hshape

/-- An array is determined by its shape and its innermost arrays. -/
theorem eq_of_leaves {d : ℕ} {o : Rows α d} {shape : List ℕ} {x : (d : ℕ) × Rows α d}
    (hpos : ∀ n ∈ shape, 0 < n) (h : HasShape d o shape) (hx : HasShape x.1 x.2 shape)
    (hleaves : leaves x.1 x.2 = leaves d o) : x = ⟨d, o⟩ := by
  obtain ⟨d', o'⟩ := x
  obtain rfl : d' = d := Nat.succ_injective ((hx.length hpos).symm.trans (h.length hpos))
  refine congrArg (Sigma.mk d') (HasShape.ext hx h fun index hindex ↦ ?_)
  rw [← getElem?_leaves hx hindex, ← getElem?_leaves h hindex]
  exact congrArg (fun parts : List (List α) ↦ parts.flatten[flatIndex shape index]?) hleaves

end JPypeContext

open JPypeContext Rows

/-- A primitive array of at most four dimensions, rectangular and with positive extents. -/
def JavaObject.Rectangular : JavaObject α β → Prop
  | .primitiveArray _ d rows => d + 1 ≤ 4 ∧ ∃ shape, HasShape d rows shape ∧ ∀ n ∈ shape, 0 < n
  | _ => False

/-- No sub-array is null. -/
def JavaObject.NoNullRow : JavaObject α β → Prop
  | .primitiveArray _ d rows => NoNull d rows
  | _ => True

namespace JPypeContext

theorem collectObject_iff (o : JavaObject α β) :
    (∃ r, collectObject o = .ok r) ↔ o.Rectangular := by
  cases o with
  | null => exact ⟨nofun, False.elim⟩
  | notArray => exact ⟨nofun, False.elim⟩
  | referenceArray d rows =>
    refine ⟨?_, False.elim⟩
    rintro ⟨r, hr⟩
    rw [collectObject] at hr
    split at hr <;> cases hr
  | primitiveArray type d rows =>
    refine Iff.trans ?_ collectRectangular_iff
    rw [collectObject]
    cases collectRectangular d rows with
    | error e => exact ⟨nofun, nofun⟩
    | ok c => exact ⟨fun _ ↦ ⟨c, rfl⟩, fun _ ↦ ⟨(type, c), rfl⟩⟩

/-- Without a null sub-array, the other objects give `null`. -/
theorem collectObject_null {o : JavaObject α β} (hnull : o.NoNullRow) (h : ¬o.Rectangular) :
    collectObject o = .error .notRectangular := by
  cases o with
  | null => rfl
  | notArray => rfl
  | referenceArray d rows =>
    rw [collectObject]
    split <;> rfl
  | primitiveArray type d rows =>
    have hfail := mt collectRectangular_iff.1 h
    rw [collectObject]
    cases hcollect : collectRectangular d rows with
    | ok c => exact absurd ⟨c, hcollect⟩ hfail
    | error e =>
      obtain rfl := collectRectangular_error hnull hcollect
      rfl

/-- **Taking apart and putting together.** `collectRectangular` has a result exactly for the
rectangular arrays, and then it is the element type, the shape, and the innermost arrays in
row-major order, from which `assemble` rebuilds the array; and `assemble` puts any parts of a
shape in row-major order. -/
theorem flatten_rebuild :
    (∀ o : JavaObject α β, o.NoNullRow →
      ((∃ r, collectObject o = .ok r) ↔ o.Rectangular) ∧
      (¬o.Rectangular → collectObject o = .error .notRectangular)) ∧
    (∀ (o : JavaObject α β) (type : PrimitiveType) (c : Collection α),
      collectObject o = .ok (type, c) → ∃ d rows, o = .primitiveArray type d rows ∧
        HasShape d rows c.shape ∧ c.parts = leaves d rows ∧
        (∀ index, Within index c.shape →
          c.parts.flatten[flatIndex c.shape index]? = lookup d rows index) ∧
        assemble c.shape c.parts = .ok ⟨d, rows⟩) ∧
    ∀ (shape : List ℕ) (parts : List (List α)), shape ≠ [] → (∀ n ∈ shape, 0 < n) →
      parts.length = shape.dropLast.prod → (∀ part ∈ parts, part.length = shape.getLastD 0) →
      ∃ x, assemble shape parts = .ok x ∧ HasShape x.1 x.2 shape ∧
        ∀ index, Within index shape →
          lookup x.1 x.2 index = parts.flatten[flatIndex shape index]? := by
  refine ⟨fun o hnull ↦ ⟨collectObject_iff o, collectObject_null hnull⟩, ?_, ?_⟩
  · intro o type c hc
    cases o with
    | null => cases hc
    | notArray => cases hc
    | referenceArray d rows =>
      rw [collectObject] at hc
      split at hc <;> cases hc
    | primitiveArray type' d rows =>
      rw [collectObject] at hc
      cases hcollect : collectRectangular d rows with
      | error e =>
        rw [hcollect] at hc
        cases hc
      | ok c' =>
        rw [hcollect] at hc
        obtain ⟨rfl, rfl⟩ := Prod.mk.inj (Except.ok.inj hc)
        obtain ⟨hshape, hpos, hparts⟩ := collectRectangular_ok hcollect
        refine ⟨d, rows, rfl, hshape, hparts, fun index hindex ↦ ?_, ?_⟩
        -- Reading: the parts are the innermost arrays in row-major order.
        · rw [hparts]
          exact getElem?_leaves hshape hindex
        -- Rebuilding: an array of this shape is determined by its innermost arrays.
        · have hne : c'.shape ≠ [] :=
            List.ne_nil_of_length_pos (hshape.length hpos ▸ Nat.succ_pos d)
          obtain ⟨x, hx, hxshape, hleaves⟩ := assemble_ok hne hpos
            (hparts ▸ hshape.length_leaves hpos) (hparts ▸ length_of_mem_leaves hshape)
          rw [hx, eq_of_leaves hpos hshape hxshape (hleaves.trans hparts)]
  · intro shape parts hne hpos hcount hlast
    obtain ⟨x, hx, hshape, hleaves⟩ := assemble_ok hne hpos hcount hlast
    refine ⟨x, hx, hshape, fun index hindex ↦ ?_⟩
    rw [← hleaves]
    exact (getElem?_leaves hshape hindex).symm

/-- `new int[][][] {{{1, 2, 3}}, {{4, 5, 6}}}`, taken apart and rebuilt. -/
def layers : Rows ℤ 2 := [some [some [1, 2, 3]], some [some [4, 5, 6]]]

theorem layers_rebuilt :
    let o : JavaObject ℤ Unit := .primitiveArray .int 2 layers
    ((∃ r, collectObject o = .ok r) ↔ o.Rectangular) ∧
      (∃ d rows, o = .primitiveArray .int d rows ∧ HasShape d rows [2, 1, 3] ∧
        [[1, 2, 3], [4, 5, 6]] = leaves d rows ∧
        (∀ index, Within index [2, 1, 3] →
          [[1, 2, 3], [4, 5, 6]].flatten[flatIndex [2, 1, 3] index]? = lookup d rows index) ∧
        assemble [2, 1, 3] [[1, 2, 3], [4, 5, 6]] = .ok ⟨d, rows⟩) ∧
      ∃ x, assemble [2, 1, 3] [[1, 2, 3], [4, (5 : ℤ), 6]] = .ok x ∧ HasShape x.1 x.2 [2, 1, 3] ∧
        ∀ index, Within index [2, 1, 3] → lookup x.1 x.2 index =
          [[1, 2, 3], [4, 5, 6]].flatten[flatIndex [2, 1, 3] index]? := by
  have hnull : NoNull 2 layers := by
    intro r hr
    simp only [layers, List.mem_cons, List.not_mem_nil, or_false] at hr
    obtain rfl | rfl := hr <;>
      exact ⟨_, rfl, fun row hrow ↦ ⟨_, List.mem_singleton.1 hrow, trivial⟩⟩
  have hall := @flatten_rebuild ℤ Unit
  exact ⟨(hall.1 (.primitiveArray .int 2 layers) hnull).1,
    hall.2.1 (.primitiveArray .int 2 layers) .int ⟨[2, 1, 3], [[1, 2, 3], [4, 5, 6]]⟩ rfl,
    hall.2.2 [2, 1, 3] [[1, 2, 3], [4, 5, 6]] (by decide) (by decide) rfl (by decide)⟩

end JPypeContext

end JPype
