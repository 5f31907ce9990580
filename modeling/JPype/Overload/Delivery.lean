import JPype.Overload.Match
import Mathlib.Data.List.Basic

/-!
# Argument delivery

What `JPMethod::matches` promises, `JPMethod::packArgs` has to keep: slot `k` of the `jvalue`
vector is Java parameter `k`, and it must hold the conversion of the `k`-th argument the user
wrote, whichever of the receiver skip, the static-through-instance offset and the varargs tail
shifted the indices in between.

`Delivers` says so for one call, and `delivers_iff` is the exact answer: for every conversion
layer and every state of the match record, a call delivers unless it is a varargs static method
called through an instance, or a constructor called as if it had a receiver, with enough
arguments to get past the count check (`Misplaced`). The first of these can be written in
Python; the second is not reachable from `PyJPMethod_call`.

The two directions use different facts. Where the arithmetic is right, `matchFixed_spec` and
`packFixed_eq` follow one argument through both functions. Where it is wrong, every path writes
its array, or its last argument, one slot early: the last parameter's slot stays zero
(`packFixed_getElem?_of_le`), unless a missing index stops the call before that.
-/

namespace JPype

variable {Cls Py : Type}

/-! ### Records of one call -/

namespace JPMethodMatch

/-- Two records of one call that differ at most in the recorded conversions and the quality. -/
structure SameCall (mm mm' : JPMethodMatch Cls Py) : Prop where
  objects : mm'.objects = mm.objects
  isVarIndirect : mm'.isVarIndirect = mm.isVarIndirect
  offset : mm'.offset = mm.offset
  skip : mm'.skip = mm.skip

theorem SameCall.refl (mm : JPMethodMatch Cls Py) : SameCall mm mm :=
  ⟨rfl, rfl, rfl, rfl⟩

theorem SameCall.trans {mm₁ mm₂ mm₃ : JPMethodMatch Cls Py} (h₁ : SameCall mm₁ mm₂)
    (h₂ : SameCall mm₂ mm₃) : SameCall mm₁ mm₃ :=
  ⟨h₂.objects.trans h₁.objects, h₂.isVarIndirect.trans h₁.isVarIndirect,
    h₂.offset.trans h₁.offset, h₂.skip.trans h₁.skip⟩

theorem sameCall_record (mm : JPMethodMatch Cls Py) (type : Cls) (j : ℕ) :
    SameCall mm (mm.record type j) :=
  ⟨mm.objects_record type j, rfl, rfl, rfl⟩

end JPMethodMatch

open JPMethodMatch JPMethod

namespace JPMethod

/-! ### What the matching loops do -/

/-- The loop over the varargs tail stays in range, records only on the tail, and reports at
least `_implicit` only when every item of the tail does. -/
theorem matchVarsLoop_spec (conv : Conversions Cls Py) (type : Cls) :
    ∀ (n i : ℕ) (last : MatchType) (mm : JPMethodMatch Cls Py), i + n ≤ mm.objects.length →
      ∃ q mm', matchVarsLoop conv type n i last mm = .ok (q, mm') ∧ SameCall mm mm' ∧
        (∀ j, j < i → mm'.targetAt j = mm.targetAt j) ∧
        (.implicit ≤ q → ∀ j, i ≤ j → j < i + n → ∀ h' : j < mm.objects.length,
          .implicit ≤ conv.findJavaConversion type mm.objects[j]) := by
  intro n
  induction n with
  | zero =>
    intro i last mm _
    exact ⟨last, mm, rfl, SameCall.refl mm, fun _ _ ↦ rfl, fun _ j hij h _ ↦ by omega⟩
  | succ n ih =>
    intro i last mm hlen
    have hi : i < mm.objects.length := by omega
    by_cases hq : conv.findJavaConversion type mm.objects[i] < .implicit
    · refine ⟨.none, mm.record type i, ?_, sameCall_record mm type i, ?_, ?_⟩
      · simp [matchVarsLoop, inspect_of_lt conv mm type hi, hq, bind, Except.bind, pure,
          Except.pure]
      · intro j hj
        rw [targetAt_record, if_neg (by omega)]
      · intro h
        exact absurd h (by decide)
    · obtain ⟨q, mm', hrun, hsame, htarget, hall⟩ :=
        ih (i + 1) (if conv.findJavaConversion type mm.objects[i] < last
          then conv.findJavaConversion type mm.objects[i] else last) (mm.record type i)
          (by rw [objects_record]; omega)
      refine ⟨q, mm', ?_, (sameCall_record mm type i).trans hsame, ?_, ?_⟩
      · simp only [matchVarsLoop, inspect_of_lt conv mm type hi, bind, Except.bind, if_neg hq]
        exact hrun
      · intro j hj
        rw [htarget j (by omega), targetAt_record, if_neg (by omega)]
      · intro himp j hij hj hj'
        rcases Nat.eq_or_lt_of_le hij with rfl | hlt
        · exact not_lt.1 hq
        · have := hall himp j hlt (by omega) (by rw [objects_record]; exact hj')
          simpa only [objects_record] using this

/-- The loop over the fixed parameters stays in range, and when it ends at `_implicit` or
better it has recorded parameter `k`'s class on argument `k + m_Offset`, and nothing else. -/
theorem matchFixed_spec (conv : Conversions Cls Py) :
    ∀ (types : List Cls) (i : ℕ) (mm : JPMethodMatch Cls Py),
      i + mm.offset + types.length ≤ mm.objects.length →
      ∃ mm', matchFixed conv types i mm = .ok mm' ∧ SameCall mm mm' ∧
        (.implicit ≤ mm'.type → .implicit ≤ mm.type ∧
          ∀ k, (h : k < types.length) → mm'.targetAt (i + mm.offset + k) = some types[k]) ∧
        ∀ j, j < i + mm.offset ∨ i + mm.offset + types.length ≤ j →
          mm'.targetAt j = mm.targetAt j := by
  intro types
  induction types with
  | nil =>
    intro i mm _
    exact ⟨mm, rfl, SameCall.refl mm, fun h ↦ ⟨h, fun k hk ↦ absurd hk (Nat.not_lt_zero k)⟩,
      fun _ _ ↦ rfl⟩
  | cons type rest ih =>
    intro i mm hlen
    rw [List.length_cons] at hlen
    have hi : i + mm.offset < mm.objects.length := by omega
    set q := conv.findJavaConversion type mm.objects[i + mm.offset] with hq
    -- the record after this parameter: its class noted, the quality lowered to its own
    set mm₁ : JPMethodMatch Cls Py :=
      if q < mm.type then { mm.record type (i + mm.offset) with type := q }
      else mm.record type (i + mm.offset) with hmm₁
    have hsame : SameCall mm mm₁ := by
      have := sameCall_record mm type (i + mm.offset)
      rw [hmm₁]
      split
      · exact ⟨this.objects, this.isVarIndirect, this.offset, this.skip⟩
      · exact this
    have htarget₁ : ∀ j, mm₁.targetAt j = (mm.record type (i + mm.offset)).targetAt j := by
      intro j
      rw [hmm₁]
      split <;> rfl
    have htype₁ : mm₁.type ≤ mm.type := by
      rw [hmm₁]
      split
      · next h => exact le_of_lt h
      · exact le_refl _
    have hstep : matchFixed conv (type :: rest) i mm =
        if mm₁.type < .implicit then .ok mm₁ else matchFixed conv rest (i + 1) mm₁ := by
      simp only [matchFixed, inspect_of_lt conv mm type hi, bind, Except.bind, pure, Except.pure]
      rfl
    by_cases hlow : mm₁.type < .implicit
    · refine ⟨mm₁, by rw [hstep, if_pos hlow], hsame, fun h ↦ absurd hlow (not_lt.2 h), ?_⟩
      intro j hj
      rw [List.length_cons] at hj
      rw [htarget₁, targetAt_record, if_neg (by omega)]
    · obtain ⟨mm', hrun, hsame', hgood, hframe⟩ := ih (i + 1) mm₁ (by
        rw [hsame.objects, hsame.offset]
        omega)
      rw [hsame.offset] at hgood hframe
      refine ⟨mm', by rw [hstep, if_neg hlow, hrun], hsame.trans hsame', ?_, ?_⟩
      · intro himp
        obtain ⟨h₁, hrest⟩ := hgood himp
        refine ⟨le_trans h₁ htype₁, ?_⟩
        rintro (- | k) hk
        · rw [hframe _ (by omega), htarget₁, targetAt_record, if_pos ⟨by omega, by
            rw [length_arguments]
            omega⟩]
          rfl
        · have := hrest k (by simpa using hk)
          rwa [show i + 1 + mm.offset + k = i + mm.offset + (k + 1) by omega] at this
      · intro j hj
        rw [List.length_cons] at hj
        rw [hframe j (by omega), htarget₁, targetAt_record, if_neg (by omega)]

/-! ### What the packing loop does -/

theorem store_of_lt {v : JValues Cls Py} {k : ℕ} (hk : k < v.length) (x : Delivered Cls Py) :
    store v k x = .ok (v.set k (some x)) :=
  if_pos hk

/-- Packing `n` arguments from index `i` on writes only the slots `i - m_Skip` and up to `n`
further ones. -/
theorem packFixed_getElem?_of_le (mm : JPMethodMatch Cls Py) :
    ∀ (n i : ℕ) (v v' : JValues Cls Py), packFixed mm n i v = .ok v' →
      v'.length = v.length ∧ ∀ j, i + n ≤ j + mm.skip → mm.skip ≤ i → v'[j]? = v[j]? := by
  intro n
  induction n with
  | zero =>
    intro i v v' h
    cases h
    exact ⟨rfl, fun _ _ _ ↦ rfl⟩
  | succ n ih =>
    intro i v v' h
    simp only [packFixed, bind, Except.bind] at h
    split at h
    · cases h
    · next x _ =>
      by_cases hk : i - mm.skip < v.length
      · rw [store_of_lt hk] at h
        obtain ⟨hlen, hframe⟩ := ih _ _ _ h
        refine ⟨by simpa using hlen, fun j hj hi ↦ ?_⟩
        rw [hframe j (by omega) (by omega), List.getElem?_set_ne (by omega)]
      · simp [store, hk] at h

/-- Packing arguments whose recorded classes are `types` fills the slots from `i - m_Skip` on
with exactly the conversions of those arguments, and leaves the others alone. -/
theorem packFixed_eq (mm : JPMethodMatch Cls Py) :
    ∀ (types : List Cls) (i : ℕ) (front back : JValues Cls Py) (mid : JValues Cls Py),
      i + types.length ≤ mm.objects.length → front.length + mm.skip = i →
      mid.length = types.length →
      (∀ k, (h : k < types.length) → mm.targetAt (i + k) = some types[k]) →
      packFixed mm types.length i (front ++ mid ++ back) =
        .ok (front ++ (List.zipWith Delivered.conversion types (mm.objects.drop i)).map some ++
          back) := by
  intro types
  -- `front` is what has been filled, `mid` the slots to fill, `back` what is not touched.
  induction types with
  | nil =>
    intro i front back mid _ _ hmid _
    rw [List.length_nil, List.length_eq_zero_iff] at hmid
    simp [packFixed, hmid]
  | cons type rest ih =>
    intro i front back mid hlen hfront hmid htarget
    obtain ⟨m₀, mid, rfl⟩ : ∃ m₀ mid', mid = m₀ :: mid' := by
      cases mid with
      | nil => simp at hmid
      | cons m₀ mid => exact ⟨m₀, mid, rfl⟩
    rw [List.length_cons] at hlen
    have hi : i < mm.objects.length := by omega
    have hconv : convertArgument mm i = .ok (.conversion type mm.objects[i]) := by
      have h0 := htarget 0 (Nat.zero_lt_succ _)
      have hi' : i < mm.arguments.length := by rwa [length_arguments]
      rw [Nat.add_zero, targetAt, List.getElem?_eq_getElem hi', Option.bind_some] at h0
      rw [convertArgument, List.getElem?_eq_getElem hi']
      simp only [h0]
      simp [objects]
    have hset : (front ++ m₀ :: mid ++ back).set (i - mm.skip)
        (some (.conversion type mm.objects[i])) =
          (front ++ [some (.conversion type mm.objects[i])]) ++ mid ++ back := by
      rw [show i - mm.skip = front.length by omega]
      simp
    have hstep : packFixed mm (type :: rest).length i (front ++ m₀ :: mid ++ back) =
        packFixed mm rest.length (i + 1)
          ((front ++ [some (.conversion type mm.objects[i])]) ++ mid ++ back) := by
      rw [List.length_cons, packFixed]
      simp only [bind, Except.bind, hconv]
      rw [store_of_lt (by simp; omega), hset]
    rw [hstep, ih (i + 1) _ back mid (by omega) (by simp; omega) (by simpa using hmid)
      (fun k hk ↦ by
        have := htarget (k + 1) (by simpa using hk)
        rwa [show i + (k + 1) = i + 1 + k by omega] at this)]
    rw [List.drop_eq_getElem_cons hi, List.zipWith_cons_cons, List.map_cons]
    simp

/-! ### Matching a whole call -/

/-- What an accepted match hands to `packArgs`: either the argument count is the parameter
count and every parameter's class is recorded on its argument, or the tail is left to
`convertToJavaVector`, which then finds every item convertible. -/
structure Accepted (conv : Conversions Cls Py) (m : JPMethod Cls) (mm : JPMethodMatch Cls Py) :
    Prop where
  direct : mm.isVarIndirect = false →
    m.parameterTypes.length + mm.offset = mm.objects.length ∧
      ∀ k, (h : k < m.parameterTypes.length) →
        mm.targetAt (mm.offset + k) = some m.parameterTypes[k]
  indirect : mm.isVarIndirect = true → mm.offset = 0 ∧ ∃ front last,
    m.parameterTypes = front ++ [last] ∧ front.length ≤ mm.objects.length ∧
      (∀ k, (h : k < front.length) → mm.targetAt k = some front[k]) ∧
      ∀ a ∈ mm.objects.drop front.length,
        .implicit ≤ conv.findJavaConversion (conv.getComponentType last) a

theorem reset_objects (m : JPMethod Cls) (mm : JPMethodMatch Cls Py) (callInstance : Bool) :
    (m.reset mm callInstance).objects = mm.objects :=
  rfl

/-- The direct attempt stays in range when no offset is in play, and it leaves the array class
recorded on the last argument if there is one for it. -/
theorem tryDirect_spec (conv : Conversions Cls Py) (n : ℕ) (last : Cls)
    (mm : JPMethodMatch Cls Py) (hoffset : mm.offset = 0) (htype : mm.type = .none) :
    ∃ mm', tryDirect conv (n + 1) mm.objects.length last mm = .ok mm' ∧ SameCall mm mm' ∧
      (.implicit ≤ mm'.type → mm.objects.length = n + 1 ∧ mm'.targetAt n = some last) := by
  rw [tryDirect]
  split
  · next hlen =>
    have hn : n < mm.objects.length := by omega
    refine ⟨{ mm.record last n with type := conv.findJavaConversion last mm.objects[n] }, ?_,
      ?_, fun _ ↦ ⟨hlen, ?_⟩⟩
    · rw [if_neg (by omega), show n + 1 - 1 - mm.offset = n by omega, inspect_of_lt conv mm last hn]
      rfl
    · have := sameCall_record mm last n
      exact ⟨this.objects, this.isVarIndirect, this.offset, this.skip⟩
    · have := targetAt_record mm last n n
      rwa [if_pos ⟨rfl, by rwa [length_arguments]⟩] at this
  · exact ⟨mm, rfl, SameCall.refl mm, fun h ↦ absurd (htype ▸ h) (by decide)⟩

/-- Whatever the direct attempt found, the indirect one keeps it or replaces it by a tail whose
items all convert. -/
theorem tryIndirect_spec (conv : Conversions Cls Py) (n : ℕ) (last : Cls)
    (mm : JPMethodMatch Cls Py) (hoffset : mm.offset = 0) (hlen : n ≤ mm.objects.length) :
    ∃ mm', tryIndirect conv mm.objects.length (n + 1) mm.objects.length last mm = .ok mm' ∧
      mm'.objects = mm.objects ∧ mm'.offset = 0 ∧ mm'.skip = mm.skip ∧
      (.implicit ≤ mm'.type →
        (mm' = mm ∧ n < mm.objects.length) ∨
        (mm'.isVarIndirect = true ∧ ∀ a ∈ mm.objects.drop n,
          .implicit ≤ conv.findJavaConversion (conv.getComponentType last) a)) := by
  rw [tryIndirect]
  split
  · next h =>
    obtain ⟨q, mm', hrun, hsame, -, hall⟩ := matchVarsLoop_spec conv (conv.getComponentType last)
      (mm.objects.length - n) n .exact mm (by omega)
    refine ⟨{ mm' with type := q, isVarIndirect := true }, ?_, hsame.objects,
      hsame.offset.trans hoffset, hsame.skip, fun himp ↦ .inr ⟨rfl, fun a ha ↦ ?_⟩⟩
    · rw [matchVars, show n + 1 - 1 + mm.offset = n by omega, hrun]
      rfl
    · obtain ⟨k, hk, rfl⟩ := List.getElem_of_mem ha
      rw [List.length_drop] at hk
      rw [List.getElem_drop]
      exact hall himp (n + k) (by omega) (by omega) (by omega)
  · split
    · next h =>
      refine ⟨{ mm with isVarIndirect := true, type := .exact }, rfl, rfl, hoffset, rfl,
        fun _ ↦ .inr ⟨rfl, fun a ha ↦ ?_⟩⟩
      rw [List.drop_eq_nil_of_le (by omega)] at ha
      exact absurd ha List.not_mem_nil
    · next h => exact ⟨mm, rfl, rfl, hoffset, rfl, fun _ ↦ .inl ⟨rfl, by omega⟩⟩

/-- The two attempts in a row: what they accept is either the array itself, as last argument,
or a tail whose items all convert. -/
theorem matchVarArgs_spec (conv : Conversions Cls Py) (m : JPMethod Cls) {front : List Cls}
    {last : Cls} (htypes : m.parameterTypes = front ++ [last]) (mm : JPMethodMatch Cls Py)
    (hoffset : mm.offset = 0) (hvar : mm.isVarIndirect = false) :
    ∃ mm', matchVarArgs conv m mm.objects.length mm.objects.length mm = .ok mm' ∧
      mm'.objects = mm.objects ∧ mm'.offset = 0 ∧ mm'.skip = mm.skip ∧
      (.implicit ≤ mm'.type →
        (mm'.isVarIndirect = false ∧ front.length + 1 = mm.objects.length ∧
          mm'.targetAt front.length = some last) ∨
        (mm'.isVarIndirect = true ∧ front.length ≤ mm.objects.length ∧
          ∀ a ∈ mm.objects.drop front.length,
            .implicit ≤ conv.findJavaConversion (conv.getComponentType last) a)) := by
  have htlen : m.parameterTypes.length = front.length + 1 := by simp [htypes]
  have hlast : m.parameterTypes.getLast? = some last := by simp [htypes]
  rcases lt_or_ge mm.objects.length front.length with hfew | hfew
  · refine ⟨{ mm with type := .none }, ?_, rfl, hoffset, rfl,
      fun h ↦ absurd (show MatchType.implicit ≤ .none from h) (by decide)⟩
    simp [matchVarArgs, htlen, hfew]
  obtain ⟨mm₁, hdirect, hsame, hgood⟩ :=
    tryDirect_spec conv front.length last { mm with type := .none } hoffset rfl
  obtain ⟨mm₂, hindirect, hobjects, hoffset₂, hskip, hgood₂⟩ :=
    tryIndirect_spec conv front.length last mm₁ (hsame.offset.trans hoffset)
      (by rw [hsame.objects]; exact hfew)
  rw [hsame.objects] at hindirect hobjects hgood₂
  refine ⟨mm₂, ?_, hobjects, hoffset₂, hskip.trans hsame.skip, fun himp ↦ ?_⟩
  · simp only [matchVarArgs, htlen, hlast, Nat.add_sub_cancel, if_neg (not_lt.2 hfew)]
    rw [show tryDirect conv (front.length + 1) mm.objects.length last _ = _ from hdirect]
    exact hindirect
  · rcases hgood₂ himp with ⟨rfl, -⟩ | ⟨hind, hall⟩
    · obtain ⟨hlen, htarget⟩ := hgood himp
      exact .inl ⟨hsame.isVarIndirect.trans hvar, hlen.symm, htarget⟩
    · exact .inr ⟨hind, hfew, hall⟩

/-- A match without the static-through-instance offset on a varargs method stays in range, and
what it accepts is fit for `packArgs`. -/
theorem matchesCall_varargs (conv : Conversions Cls Py) (m : JPMethod Cls)
    (mm : JPMethodMatch Cls Py) (callInstance : Bool) (hvar : m.isVarArgs = true)
    (hoffset : (m.reset mm callInstance).offset = 0) {front : List Cls} {last : Cls}
    (htypes : m.parameterTypes = front ++ [last]) :
    ∃ mm', m.matchesCall conv mm callInstance = .ok mm' ∧ mm'.objects = mm.objects ∧
      mm'.offset = 0 ∧ mm'.skip = (m.reset mm callInstance).skip ∧
      (.implicit ≤ mm'.type → Accepted conv m mm') := by
  obtain ⟨mm₁, hrun, hobjects, hoffset₁, hskip, hgood⟩ :=
    matchVarArgs_spec conv m htypes (m.reset mm callInstance) hoffset rfl
  rw [reset_objects] at hrun hobjects hgood
  have hstep : m.matchesCall conv mm callInstance =
      if mm₁.type < .implicit then .ok mm₁ else matchFixed conv front 0 mm₁ := by
    simp only [matchesCall, hvar, if_true, hoffset, Nat.sub_zero, length_arguments, hrun, htypes,
      List.dropLast_concat, bind, Except.bind, pure, Except.pure]
  by_cases hlow : mm₁.type < .implicit
  · exact ⟨mm₁, by rw [hstep, if_pos hlow], hobjects, hoffset₁, hskip,
      fun h ↦ absurd hlow (not_lt.2 h)⟩
  have hfew : front.length ≤ mm.objects.length := by
    rcases hgood (not_lt.1 hlow) with ⟨-, hlen, -⟩ | ⟨-, hlen, -⟩ <;> omega
  obtain ⟨mm₂, hfixed, hsame, htargets, hframe⟩ := matchFixed_spec conv front 0 mm₁ (by
    rw [hobjects]
    omega)
  rw [hoffset₁] at htargets hframe
  simp only [Nat.zero_add, Nat.add_zero] at htargets hframe
  refine ⟨mm₂, by rw [hstep, if_neg hlow, hfixed], hsame.objects.trans hobjects,
    hsame.offset.trans hoffset₁, hsame.skip.trans hskip, fun himp ↦ ?_⟩
  obtain ⟨-, htargets⟩ := htargets himp
  rcases hgood (not_lt.1 hlow) with ⟨hind, hlen, hlast⟩ | ⟨hind, -, hall⟩
  · refine ⟨fun _ ↦ ?_, fun h ↦ absurd (h.symm.trans (hsame.isVarIndirect.trans hind)) (by decide)⟩
    have hoffset₂ : mm₂.offset = 0 := hsame.offset.trans hoffset₁
    refine ⟨by rw [htypes, hoffset₂, hsame.objects, hobjects]; simpa using hlen, fun k hk ↦ ?_⟩
    rw [hoffset₂, Nat.zero_add]
    simp only [htypes, List.length_append, List.length_singleton] at hk ⊢
    -- the fixed parameters by the loop, the last one by the direct attempt
    rcases Nat.lt_or_ge k front.length with h | h
    · rw [htargets k h, List.getElem_append_left h]
    · obtain rfl : k = front.length := by omega
      rw [hframe _ (.inr le_rfl), hlast, List.getElem_concat_length rfl]
  · refine ⟨fun h ↦ absurd (h.symm.trans (hsame.isVarIndirect.trans hind)) (by decide), fun _ ↦ ?_⟩
    refine ⟨hsame.offset.trans hoffset₁, front, last, htypes, ?_, htargets, ?_⟩
    · rw [hsame.objects, hobjects]
      exact hfew
    · rw [hsame.objects, hobjects]
      exact hall

/-- The same for a method of fixed arity, whichever way it is called. -/
theorem matchesCall_fixed (conv : Conversions Cls Py) (m : JPMethod Cls)
    (mm : JPMethodMatch Cls Py) (callInstance : Bool) (hvar : m.isVarArgs = false)
    (hoffset : (m.reset mm callInstance).offset ≤ mm.objects.length) :
    ∃ mm', m.matchesCall conv mm callInstance = .ok mm' ∧
      SameCall (m.reset mm callInstance) mm' ∧ (.implicit ≤ mm'.type → Accepted conv m mm') := by
  set mm₀ := m.reset mm callInstance with hmm₀
  have hstep : m.matchesCall conv mm callInstance =
      if mm.objects.length - mm₀.offset ≠ m.parameterTypes.length
        then .ok { mm₀ with type := .none }
        else matchFixed conv m.parameterTypes 0 mm₀ := by
    simp only [matchesCall, hvar, Bool.false_eq_true, if_false, length_arguments, pure, Except.pure]
    rfl
  by_cases hlen : mm.objects.length - mm₀.offset = m.parameterTypes.length
  · obtain ⟨mm', hrun, hsame, htargets, -⟩ := matchFixed_spec conv m.parameterTypes 0 mm₀ (by
      rw [reset_objects]
      omega)
    refine ⟨mm', by rw [hstep, if_neg (not_not.2 hlen), hrun], hsame,
      fun himp ↦ ⟨fun _ ↦ ⟨?_, fun k hk ↦ ?_⟩, fun h ↦ ?_⟩⟩
    · rw [hsame.offset, hsame.objects, reset_objects]
      omega
    · have := (htargets himp).2 k hk
      rwa [Nat.zero_add, ← hsame.offset] at this
    · exact absurd (h.symm.trans hsame.isVarIndirect : true = false) (by decide)
  · exact ⟨{ mm₀ with type := .none }, by rw [hstep, if_pos hlen], ⟨rfl, rfl, rfl, rfl⟩,
      fun h ↦ absurd (show MatchType.implicit ≤ .none from h) (by decide)⟩

/-- A varargs method with too few arguments for its fixed parameters is rejected. -/
theorem matchesCall_few (conv : Conversions Cls Py) (m : JPMethod Cls)
    (mm : JPMethodMatch Cls Py) (callInstance : Bool) (hvar : m.isVarArgs = true)
    (hfew : mm.objects.length - (m.reset mm callInstance).offset < m.parameterTypes.length - 1) :
    ∃ mm', m.matchesCall conv mm callInstance = .ok mm' ∧ mm'.type = .none := by
  refine ⟨{ m.reset mm callInstance with type := .none }, ?_, rfl⟩
  simp only [matchesCall, hvar, if_true, matchVarArgs, length_arguments, if_pos hfew, bind,
    Except.bind, pure, Except.pure]
  exact if_pos (show MatchType.none < .implicit by decide)

/-! ### Packing an accepted match -/

/-- A directly matched call packs each parameter's argument into its slot, where the slots of
the receiver are dropped. -/
theorem packArgs_direct (conv : Conversions Cls Py) (m : JPMethod Cls)
    (mm : JPMethodMatch Cls Py) (hgood : Accepted conv m mm) (hind : mm.isVarIndirect = false)
    (hoffset : mm.offset ≤ mm.skip) (hskip : mm.skip ≤ mm.objects.length) :
    ∃ back, m.packArgs conv mm =
      .ok ((List.zipWith .conversion (m.parameterTypes.drop (mm.skip - mm.offset))
        (mm.objects.drop mm.skip)).map some ++ back) := by
  obtain ⟨hlen, htargets⟩ := hgood.direct hind
  set types := m.parameterTypes.drop (mm.skip - mm.offset) with htypes
  have hn : types.length = mm.objects.length - mm.skip := by
    rw [htypes, List.length_drop]
    omega
  refine ⟨List.replicate (mm.skip - mm.offset + 1) none, ?_⟩
  have hpack := packFixed_eq mm types mm.skip [] (List.replicate (mm.skip - mm.offset + 1) none)
    (List.replicate types.length none) (by omega) (by simp) (by simp) (fun k hk ↦ by
      have hk' : mm.skip - mm.offset + k < m.parameterTypes.length := by
        rw [htypes, List.length_drop] at hk
        omega
      have := htargets _ hk'
      rw [show mm.offset + (mm.skip - mm.offset + k) = mm.skip + k by omega] at this
      simpa [htypes] using this)
  rw [List.nil_append, List.nil_append, ← List.replicate_add,
    show types.length + (mm.skip - mm.offset + 1) = m.parameterTypes.length + 1 by omega] at hpack
  rw [packArgs, hind, if_neg (by decide), ← hn, hpack]

/-- An indirectly matched call packs the fixed parameters into their slots and one array of the
tail's items into the last. -/
theorem packArgs_indirect (conv : Conversions Cls Py) (m : JPMethod Cls)
    (mm : JPMethodMatch Cls Py) (hgood : Accepted conv m mm) (hind : mm.isVarIndirect = true)
    {front : List Cls} {last : Cls} (htypes : m.parameterTypes = front ++ [last])
    (hskip : mm.skip ≤ front.length) :
    ∃ back, m.packArgs conv mm =
      .ok ((List.zipWith Delivered.conversion (front.drop mm.skip) (mm.objects.drop mm.skip) ++
        [Delivered.array (conv.getComponentType last) (mm.objects.drop front.length)]).map some ++
          back) := by
  obtain ⟨-, front', last', htypes', hlen, htargets, hall⟩ := hgood.indirect hind
  obtain ⟨rfl, rfl⟩ : front = front' ∧ last = last' := by
    rw [htypes] at htypes'
    simpa using List.append_inj' htypes' rfl
  set tail := Delivered.array (conv.getComponentType last) (mm.objects.drop front.length)
  have htlen : m.parameterTypes.length = front.length + 1 := by simp [htypes]
  have hlast : m.parameterTypes.getLast? = some last := by simp [htypes]
  have htail : convertToJavaVector conv last mm.objects front.length = .ok tail := by
    rw [convertToJavaVector, if_neg (by omega), if_pos]
    simpa using hall
  have hset : (List.replicate (front.length + 1 + 1) none : JValues Cls Py).set
      (front.length - mm.skip) (some tail) =
        List.replicate (front.length - mm.skip) none ++
          (some tail :: List.replicate (mm.skip + 1) none) := by
    rw [show front.length + 1 + 1 = (front.length - mm.skip) + (mm.skip + 1 + 1) by omega,
      List.replicate_add, List.set_append_right _ _ (by simp)]
    simp [List.replicate_succ]
  have hpack := packFixed_eq mm (front.drop mm.skip) mm.skip []
    (some tail :: List.replicate (mm.skip + 1) none)
    (List.replicate (front.length - mm.skip) none) (by rw [List.length_drop]; omega) (by simp)
    (by simp) (fun k hk ↦ by
      rw [List.length_drop] at hk
      rw [htargets (mm.skip + k) (by omega), List.getElem_drop])
  refine ⟨List.replicate (mm.skip + 1) none, ?_⟩
  rw [List.length_drop] at hpack
  simp only [packArgs, hind, if_true, htlen, hlast, Nat.add_sub_cancel, htail, bind, Except.bind,
    if_neg (not_lt.2 hskip)]
  rw [store_of_lt (by simp; omega)]
  simp only [hset]
  rw [List.nil_append] at hpack
  rw [hpack]
  simp

/-! ### Calls one slot off

When a bound call is made on an executable that takes no receiver, and no offset corrects for
it, everything lands one slot early. The lemmas of this section run such calls under a
conversion layer that accepts everything. -/

/-- Conversions that accept every argument for every class. -/
def acceptAll (Cls Py : Type) : Conversions Cls Py where
  findJavaConversion _ _ := .exact
  getComponentType c := c

/-- With everything accepted, the loop over the tail keeps the quality it was given. -/
theorem matchVarsLoop_acceptAll (type : Cls) :
    ∀ (n i : ℕ) (last : MatchType) (mm : JPMethodMatch Cls Py) {q mm'},
      matchVarsLoop (acceptAll Cls Py) type n i last mm = .ok (q, mm') → q = last := by
  intro n
  induction n with
  | zero =>
    rintro i last mm q mm' h
    cases h
    rfl
  | succ n ih =>
    rintro i last mm q mm' h
    simp only [matchVarsLoop, inspect, bind, Except.bind] at h
    split at h
    · cases h
    · next p hp =>
      split at hp
      · cases hp
      · cases hp
        have hlast : ¬MatchType.exact < last := not_lt.2 (MatchType.le_exact last)
        change matchVarsLoop _ type n (i + 1) (if MatchType.exact < last then .exact else last) _ =
          _ at h
        rw [if_neg hlast] at h
        exact ih _ _ _ h

/-- With everything accepted, the loop over the fixed parameters keeps the quality it was
given. -/
theorem matchFixed_acceptAll :
    ∀ (types : List Cls) (i : ℕ) (mm : JPMethodMatch Cls Py) {mm'},
      matchFixed (acceptAll Cls Py) types i mm = .ok mm' → mm.type = .exact →
        mm'.type = .exact := by
  intro types
  induction types with
  | nil =>
    rintro i mm mm' h htype
    cases h
    exact htype
  | cons type rest ih =>
    rintro i mm mm' h htype
    simp only [matchFixed, inspect, bind, Except.bind, pure, Except.pure] at h
    split at h
    · cases h
    · next p hp =>
      split at hp
      · cases hp
      · cases hp
        have hle : ¬MatchType.exact < mm.type := not_lt.2 (MatchType.le_exact _)
        change (let mm' := if MatchType.exact < mm.type then
            { mm.record type (i + mm.offset) with type := MatchType.exact }
          else mm.record type (i + mm.offset)
          if mm'.type < .implicit then .ok mm' else matchFixed _ rest (i + 1) mm') = _ at h
        rw [if_neg hle] at h
        have htype' : (mm.record type (i + mm.offset)).type = .exact := htype
        simp only [htype', if_neg (show ¬MatchType.exact < .implicit by decide)] at h
        exact ih _ _ h htype'

/-- A varargs match under `acceptAll` with enough arguments is accepted, or reads an argument
that is not there; it leaves alone every record the direct attempt does not make. -/
theorem matchVarArgs_acceptAll (m : JPMethod Cls) {front : List Cls} {last : Cls}
    (htypes : m.parameterTypes = front ++ [last]) (mm : JPMethodMatch Cls Py) (len : ℕ)
    (hlen : len + mm.offset = mm.objects.length) (henough : front.length ≤ len)
    (hvar : mm.isVarIndirect = false) :
    (∃ f, matchVarArgs (acceptAll Cls Py) m mm.objects.length len mm = .error f) ∨
    ∃ mm', matchVarArgs (acceptAll Cls Py) m mm.objects.length len mm = .ok mm' ∧
      mm'.objects = mm.objects ∧ mm'.offset = mm.offset ∧ mm'.skip = mm.skip ∧
      mm'.type = .exact ∧ mm'.isVarIndirect = decide (len ≠ front.length + 1) ∧
      (len = front.length + 1 →
        ∀ j, j + mm.offset ≠ front.length → mm'.targetAt j = mm.targetAt j) := by
  have htlen : m.parameterTypes.length = front.length + 1 := by simp [htypes]
  have hlast : m.parameterTypes.getLast? = some last := by simp [htypes]
  have hrun : matchVarArgs (acceptAll Cls Py) m mm.objects.length len mm =
      tryDirect (acceptAll Cls Py) (front.length + 1) len last { mm with type := .none } >>=
        tryIndirect (acceptAll Cls Py) mm.objects.length (front.length + 1) len last := by
    simp only [matchVarArgs, htlen, hlast, Nat.add_sub_cancel, if_neg (not_lt.2 henough)]
  rcases eq_or_ne len (front.length + 1) with heq | hne
  · -- the direct attempt decides
    rcases Nat.lt_or_ge front.length mm.offset with hout | hin
    · refine .inl ⟨.outOfBounds, ?_⟩
      rw [hrun, tryDirect, if_pos heq]
      simp only [Nat.add_sub_cancel, if_pos hout]
      rfl
    · refine .inr ⟨{ mm.record last (front.length - mm.offset) with type := .exact }, ?_,
        mm.objects_record _ _, rfl, rfl, rfl, by rw [decide_eq_false (by omega)]; exact hvar,
        fun _ j hj ↦ ?_⟩
      · have hbound : front.length - mm.offset < mm.objects.length := by omega
        have := inspect_of_lt (acceptAll Cls Py) { mm with type := .none } last hbound
        rw [hrun, tryDirect, if_pos heq]
        simp only [Nat.add_sub_cancel, if_neg (not_lt.2 hin), this, bind, Except.bind, pure,
          Except.pure]
        rw [tryIndirect, if_neg (fun h ↦ absurd h.1 (show ¬MatchType.exact < .implicit by decide)),
          if_neg (by omega)]
        rfl
      · have := targetAt_record mm last (front.length - mm.offset) j
        rwa [if_neg (by omega)] at this
  · have hdirect : tryDirect (acceptAll Cls Py) (front.length + 1) len last
        { mm with type := .none } = .ok { mm with type := .none } := by
      rw [tryDirect, if_neg hne]
    rw [hrun, hdirect]
    show (∃ f, tryIndirect _ _ _ _ _ _ = _) ∨ ∃ mm', tryIndirect _ _ _ _ _ _ = _ ∧ _
    right
    rcases Nat.lt_or_ge len (front.length + 1) with hempty | htail
    · refine ⟨{ mm with type := .exact, isVarIndirect := true }, ?_, rfl, rfl, rfl, rfl,
        by simp [hne], fun h ↦ absurd h hne⟩
      rw [tryIndirect, if_neg (by omega), if_pos hempty]
    · obtain ⟨q, mm', hloop, hsame, -⟩ := matchVarsLoop_spec (acceptAll Cls Py) last
        (mm.objects.length - (front.length + mm.offset)) (front.length + mm.offset) .exact
        { mm with type := .none } (by show _ ≤ mm.objects.length; omega)
      obtain rfl := matchVarsLoop_acceptAll _ _ _ _ _ hloop
      refine ⟨{ mm' with type := .exact, isVarIndirect := true }, ?_, hsame.objects, hsame.offset,
        hsame.skip, rfl, by simp [hne], fun h ↦ absurd h hne⟩
      rw [tryIndirect, if_pos ⟨show MatchType.none < .implicit by decide, htail⟩, matchVars]
      show matchVarsLoop _ _ (_ - (front.length + 1 - 1 + mm.offset)) _ _ _ >>= _ = _
      rw [Nat.add_sub_cancel, show (acceptAll Cls Py).getComponentType last = last from rfl]
      rw [hloop]
      rfl

/-- The whole match under `acceptAll`, on a fresh record. -/
theorem matchesCall_acceptAll (m : JPMethod Cls) {front : List Cls} {last : Cls}
    (htypes : m.parameterTypes = front ++ [last]) (hvar : m.isVarArgs = true) (args : List Py)
    (callInstance : Bool) (len o : ℕ)
    (ho : (m.reset (ofArgs args : JPMethodMatch Cls Py) callInstance).offset = o)
    (hlen : len + o = args.length) (henough : front.length ≤ len) :
    (∃ f, m.matchesCall (acceptAll Cls Py) (ofArgs args) callInstance = .error f) ∨
    ∃ mm', m.matchesCall (acceptAll Cls Py) (ofArgs args) callInstance = .ok mm' ∧
      mm'.objects = args ∧
      mm'.skip = (m.reset (ofArgs args : JPMethodMatch Cls Py) callInstance).skip ∧
      mm'.type = .exact ∧ mm'.isVarIndirect = decide (len ≠ front.length + 1) ∧
      (len = front.length + 1 → ∀ j, j + o ≠ front.length → o + front.length ≤ j →
        mm'.targetAt j = none) := by
  set mm₀ := m.reset (ofArgs args : JPMethodMatch Cls Py) callInstance with hmm₀
  have hobjects₀ : mm₀.objects = args := objects_ofArgs args
  have hfresh : ∀ j, mm₀.targetAt j = none := targetAt_ofArgs args
  have hcount : (ofArgs args : JPMethodMatch Cls Py).arguments.length = mm₀.objects.length :=
    length_arguments mm₀
  have hrun : m.matchesCall (acceptAll Cls Py) (ofArgs args) callInstance =
      (do
        let mm ← matchVarArgs (acceptAll Cls Py) m mm₀.objects.length len mm₀
        if mm.type < .implicit then return mm
        matchFixed (acceptAll Cls Py) front 0 mm) := by
    simp only [matchesCall, hvar, if_true, ← hmm₀, hcount, htypes, List.dropLast_concat]
    rw [show mm₀.objects.length - mm₀.offset = len by rw [hobjects₀]; omega]
  rcases matchVarArgs_acceptAll m htypes mm₀ len (by rw [hobjects₀, ho]; exact hlen) henough rfl
    with ⟨f, hf⟩ | ⟨mm₁, hok, hobjects, hoffset, hskip, htype, hind, hframe⟩
  · exact .inl ⟨f, by rw [hrun, hf]; rfl⟩
  · obtain ⟨mm₂, hfixed, hsame, -, hframe₂⟩ :=
      matchFixed_spec (acceptAll Cls Py) front 0 mm₁ (by
        rw [hobjects, hobjects₀, hoffset]
        omega)
    refine .inr ⟨mm₂, ?_, by rw [hsame.objects, hobjects, hobjects₀], hsame.skip.trans hskip,
      matchFixed_acceptAll _ _ _ hfixed htype, hsame.isVarIndirect.trans hind,
      fun heq j hj hfar ↦ ?_⟩
    · rw [hrun, hok, ← hfixed]
      show (if mm₁.type < .implicit then _ else _) = _
      rw [htype, if_neg (by decide)]
    · rw [hframe₂ j (by right; omega), hframe heq j (by omega), hfresh]

/-- Packing needs a recorded class on every argument it packs. -/
theorem targetAt_of_packFixed (mm : JPMethodMatch Cls Py) :
    ∀ (n i : ℕ) (v v' : JValues Cls Py), packFixed mm n i v = .ok v' →
      ∀ j, i ≤ j → j < i + n → mm.targetAt j ≠ none := by
  intro n
  induction n with
  | zero =>
    intro i v v' _ j hij hj
    omega
  | succ n ih =>
    intro i v v' h j hij hj
    simp only [packFixed, bind, Except.bind] at h
    split at h
    · cases h
    · next x hx =>
      rcases Nat.eq_or_lt_of_le hij with rfl | hlt
      · rw [convertArgument] at hx
        rw [targetAt]
        split at hx
        · cases hx
        · next a ha =>
          rw [ha, Option.bind_some]
          intro hnone
          simp [hnone] at hx
      · split at h
        · cases h
        · exact ih _ _ _ h j hlt (by omega)

/-- With a receiver skipped that the parameters do not have, the slot of the last parameter is
never written. -/
theorem packArgs_last_slot (conv : Conversions Cls Py) (m : JPMethod Cls)
    (mm : JPMethodMatch Cls Py) {n : ℕ} (htlen : m.parameterTypes.length = n + 1)
    (hskip : mm.skip = 1) (hshort : mm.isVarIndirect = true ∨ mm.objects.length ≤ n + 1)
    {v : JValues Cls Py} (h : m.packArgs conv mm = .ok v) : v[n]? = some none := by
  have hfresh : (List.replicate (n + 1 + 1) none : JValues Cls Py)[n]? = some none := by
    rw [List.getElem?_replicate, if_pos (by omega)]
  simp only [packArgs, htlen, Nat.add_sub_cancel, hskip] at h
  split at h
  · split at h
    · cases h
    · simp only [bind, Except.bind] at h
      split at h
      · cases h
      · split at h
        · cases h
        · next hn =>
          have hk : n - 1 < (List.replicate (n + 1 + 1) none : JValues Cls Py).length := by
            simp
            omega
          rw [store_of_lt hk] at h
          obtain ⟨-, hframe⟩ := packFixed_getElem?_of_le mm _ _ _ _ h
          rw [hframe n (by omega) (by omega), List.getElem?_set_ne (by omega), hfresh]
  · next hind =>
    obtain ⟨-, hframe⟩ := packFixed_getElem?_of_le mm _ _ _ _ h
    have : mm.objects.length ≤ n + 1 := by simpa [hind] using hshort
    rw [hframe n (by omega) (by omega), hfresh]

end JPMethod

/-! ### Delivery -/

/-- The arguments as the user counts them, the receiver excluded: an instance method called
through its class takes its receiver as first argument. -/
def Call.userArgs (c : Call Py) (m : JPMethod Cls) : List Py :=
  match c with
  | .unbound args => if m.isInstance then args.tail else args
  | .bound _ args => args

/-- What the Java parameters of `m` have to be filled with: the conversions of the user's
arguments, in order, or, for an indirectly matched tail, those of the fixed parameters and one
array of the trailing arguments. -/
def expected (conv : Conversions Cls Py) (m : JPMethod Cls) (isVarIndirect : Bool)
    (user : List Py) : List (Delivered Cls Py) :=
  if isVarIndirect then
    List.zipWith .conversion m.javaParameters.dropLast user ++
      m.javaParameters.getLast?.toList.map fun last ↦
        .array (conv.getComponentType last) (user.drop (m.javaParameters.length - 1))
  else
    List.zipWith .conversion m.javaParameters user

/-- **Delivery** of the call `c` to `m`, on a match record `mm` that may remember earlier
overloads: matching stays in range, and if it reports at least `_implicit` then packing
succeeds, every Java parameter is filled, and with what is expected. -/
def Delivers (conv : Conversions Cls Py) (m : JPMethod Cls) (c : Call Py)
    (mm : JPMethodMatch Cls Py) : Prop :=
  ∃ mm', m.matchesCall conv mm c.callInstance = .ok mm' ∧
    (.implicit ≤ mm'.type → ∃ v, m.packArgs conv mm' = .ok v ∧
      (expected conv m mm'.isVarIndirect (c.userArgs m)).length = m.javaParameters.length ∧
      v.take m.javaParameters.length =
        (expected conv m mm'.isVarIndirect (c.userArgs m)).map some)

/-- The calls whose indices do not add up: a varargs static method called through an instance
with enough arguments for its fixed parameters, and a constructor with a receiver in front of
arguments that then pass its count check. -/
def Misplaced (m : JPMethod Cls) (c : Call Py) : Prop :=
  c.callInstance = true ∧
    (m.isStatic = true ∧ m.isVarArgs = true ∧
        m.javaParameters.length ≤ (c.userArgs m).length + 1 ∨
      m.isConstructor = true ∧
        if m.isVarArgs then m.javaParameters.length ≤ (c.userArgs m).length + 2
        else m.javaParameters.length = (c.userArgs m).length + 1)

instance (m : JPMethod Cls) (c : Call Py) : Decidable (Misplaced m c) := by
  unfold Misplaced
  infer_instance

/-- A call that puts a receiver in front exactly where the parameters have one, or skips it by
the offset, lines the Java parameters up with the user's arguments. -/
theorem aligned (m : JPMethod Cls) (c : Call Py) (mm : JPMethodMatch Cls Py)
    (hctor : m.isConstructor = true → c.callInstance = false) :
    m.parameterTypes.drop ((m.reset mm c.callInstance).skip - (m.reset mm c.callInstance).offset) =
        m.javaParameters ∧
      c.vargs.drop (m.reset mm c.callInstance).skip = c.userArgs m ∧
      (m.reset mm c.callInstance).offset ≤ (m.reset mm c.callInstance).skip ∧
      (m.reset mm c.callInstance).skip ≤
        m.parameterTypes.length + (m.reset mm c.callInstance).offset := by
  rcases hkind : m.kind <;> rcases c with args | ⟨self, args⟩ <;>
    simp_all [JPMethod.reset, JPMethod.isStatic, JPMethod.isInstance, JPMethod.isConstructor,
      JPMethod.parameterTypes, Call.callInstance, Call.vargs, Call.userArgs]

/-- Delivery from what packing produced. -/
theorem filled_of_packArgs {conv : Conversions Cls Py} {m : JPMethod Cls}
    {mm : JPMethodMatch Cls Py} {l : List (Delivered Cls Py)}
    (hpack : ∃ back, m.packArgs conv mm = .ok (l.map some ++ back))
    (hlen : l.length = m.javaParameters.length) :
    ∃ v, m.packArgs conv mm = .ok v ∧ l.length = m.javaParameters.length ∧
      v.take m.javaParameters.length = l.map some := by
  obtain ⟨back, hpack⟩ := hpack
  refine ⟨_, hpack, hlen, ?_⟩
  rw [List.take_append_of_le_length (by simp [hlen]), List.take_of_length_le (by simp [hlen])]

/-- The offset skips an argument that is there. -/
theorem offset_le (m : JPMethod Cls) (c : Call Py) (mm : JPMethodMatch Cls Py)
    (hmm : mm.objects = c.vargs) :
    (m.reset mm c.callInstance).offset ≤ mm.objects.length := by
  rw [hmm]
  rcases c with args | ⟨self, args⟩
  · simp [JPMethod.reset, Call.callInstance]
  · simp only [JPMethod.reset, Call.vargs, List.length_cons]
    split <;> omega

/-- Delivery on a method of fixed arity. -/
theorem delivers_fixed (conv : Conversions Cls Py) (m : JPMethod Cls) (c : Call Py)
    (mm : JPMethodMatch Cls Py) (hmm : mm.objects = c.vargs) (hvar : m.isVarArgs = false)
    (hplaced : ¬Misplaced m c) : Delivers conv m c mm := by
  obtain ⟨mm', hrun, hsame, hgood⟩ :=
    matchesCall_fixed conv m mm c.callInstance hvar (offset_le m c mm hmm)
  refine ⟨mm', hrun, fun himp ↦ ?_⟩
  obtain ⟨hlen, -⟩ := (hgood himp).direct hsame.isVarIndirect
  rw [hsame.objects, reset_objects, hmm] at hlen
  -- a constructor with a receiver in front passes the count check only where `Misplaced` says so
  obtain ⟨hJ, huser, hle, hskip⟩ := aligned m c mm (fun hctor ↦ by
    rcases c with args | ⟨self, args⟩
    · rfl
    · refine absurd ⟨rfl, .inr ⟨hctor, ?_⟩⟩ hplaced
      rw [hsame.offset] at hlen
      have hstatic : m.isStatic = false := by
        simp only [isConstructor, decide_eq_true_eq] at hctor
        simp [isStatic, hctor]
      have hinst : m.isInstance = false := by simp [isInstance, hctor]
      simpa [hvar, JPMethod.reset, hstatic, parameterTypes, hinst, Call.vargs, Call.userArgs]
        using hlen)
  have hexp : expected conv m mm'.isVarIndirect (c.userArgs m) =
      List.zipWith .conversion m.javaParameters (c.userArgs m) := by
    rw [show mm'.isVarIndirect = false from hsame.isVarIndirect]
    rfl
  have hpack := packArgs_direct conv m mm' (hgood himp) hsame.isVarIndirect
    (by rw [hsame.offset, hsame.skip]; exact hle)
    (by rw [hsame.skip, hsame.objects, reset_objects, hmm, ← hlen, hsame.offset]; exact hskip)
  rw [hsame.offset, hsame.skip, hsame.objects, reset_objects, hmm, hJ, huser] at hpack
  rw [hexp]
  refine filled_of_packArgs hpack ?_
  rw [List.length_zipWith, ← hJ, ← huser, List.length_drop, List.length_drop, ← hlen, hsame.offset]
  omega

/-- The parameters of a varargs method, with its array at the end. -/
theorem exists_parameterTypes (m : JPMethod Cls) (hvar : m.isVarArgs = true) :
    ∃ fixed last, m.javaParameters = fixed ++ [last] ∧
      m.parameterTypes =
        (if m.isInstance then m.declaringClass :: fixed else fixed) ++ [last] := by
  have hne := m.javaParameters_ne_nil hvar
  refine ⟨m.javaParameters.dropLast, m.javaParameters.getLast hne,
    (List.dropLast_append_getLast hne).symm, ?_⟩
  rw [parameterTypes]
  split <;> simp [List.dropLast_append_getLast hne]

/-- Delivery on a varargs method. -/
theorem delivers_varargs (conv : Conversions Cls Py) (m : JPMethod Cls) (c : Call Py)
    (mm : JPMethodMatch Cls Py) (hmm : mm.objects = c.vargs) (hvar : m.isVarArgs = true)
    (hplaced : ¬Misplaced m c) : Delivers conv m c mm := by
  obtain ⟨fixed, last, hJ, htypes⟩ := exists_parameterTypes m hvar
  by_cases hbound : c.callInstance = true ∧ m.isInstance = false
  · -- a receiver nothing accounts for: only a call with too few arguments is well placed
    obtain ⟨self, args, rfl⟩ : ∃ self args, c = .bound self args := by
      rcases c with args | ⟨self, args⟩
      · exact absurd hbound.1 (by simp [Call.callInstance])
      · exact ⟨self, args, rfl⟩
    have htlen : m.parameterTypes.length = m.javaParameters.length := by
      simp [htypes, hJ, hbound.2]
    obtain ⟨mm', hrun, htype⟩ := matchesCall_few conv m mm true hvar (by
      rw [htlen, hmm]
      rcases hkind : m.kind <;>
        simp_all [Misplaced, JPMethod.reset, isStatic, isConstructor, isInstance,
          Call.callInstance, Call.vargs, Call.userArgs])
    exact ⟨mm', hrun, fun himp ↦ absurd (htype ▸ himp) (by decide)⟩
  · have hoffset : (m.reset mm c.callInstance).offset = 0 := by
      rcases hkind : m.kind <;> simp_all [JPMethod.reset, isStatic, isConstructor, isInstance]
    have hctor : m.isConstructor = true → c.callInstance = false := by
      intro hctor
      simpa [isInstance, hctor] using hbound
    obtain ⟨htypes', huser, -, hskip⟩ := aligned m c mm hctor
    rw [hoffset, Nat.sub_zero] at htypes'
    obtain ⟨mm', hrun, hobjects, hoffset', hskip', hgood⟩ :=
      matchesCall_varargs conv m mm c.callInstance hvar hoffset htypes
    refine ⟨mm', hrun, fun himp ↦ ?_⟩
    rw [hmm] at hobjects
    rcases hind : mm'.isVarIndirect with - | -
    · obtain ⟨hlen, -⟩ := (hgood himp).direct hind
      rw [hoffset', hobjects, Nat.add_zero] at hlen
      have hpack := packArgs_direct conv m mm' (hgood himp) hind (by omega)
        (by rw [hskip', hobjects]; omega)
      rw [hoffset', hskip', hobjects, Nat.sub_zero, htypes', huser] at hpack
      refine filled_of_packArgs hpack ?_
      rw [expected, if_neg (by decide), List.length_zipWith, ← htypes', ← huser, List.length_drop,
        List.length_drop, ← hlen, Nat.min_self]
    · obtain ⟨-, front, last', hfront, hlen, -⟩ := (hgood himp).indirect hind
      rw [hobjects] at hlen
      -- the receiver, where the method has one, is in front of the fixed parameters
      have hskip₀ : (m.reset mm c.callInstance).skip ≤ front.length := by
        rw [htypes] at hfront
        rw [← List.append_inj_left' hfront rfl]
        simp only [JPMethod.reset]
        rcases hinst : m.isInstance with - | -
        · simp [show c.callInstance = false by simpa [hinst] using hbound]
        · simp
      have hpack := packArgs_indirect conv m mm' (hgood himp) hind hfront
        (by rw [hskip']; exact hskip₀)
      have hJ' : m.javaParameters = front.drop (m.reset mm c.callInstance).skip ++ [last'] := by
        rw [← htypes', hfront, List.drop_append_of_le_length hskip₀]
      have hcount : front.length = (m.reset mm c.callInstance).skip +
          (m.javaParameters.length - 1) := by
        simp [hJ', List.length_drop]
        omega
      have hexp : expected conv m true (c.userArgs m) =
          List.zipWith .conversion (front.drop (m.reset mm c.callInstance).skip) (c.userArgs m) ++
            [.array (conv.getComponentType last')
              ((c.userArgs m).drop (m.javaParameters.length - 1))] := by
        simp [expected, hJ']
      rw [hskip', hobjects, hcount, ← List.drop_drop, huser, ← hexp] at hpack
      refine filled_of_packArgs hpack ?_
      rw [hexp, hJ']
      simp only [List.length_append, List.length_zipWith, List.length_singleton, ← huser,
        List.length_drop]
      omega

/-! ### The calls that go wrong -/

/-- A call whose last slot stays zero has not been delivered. -/
theorem not_filled_of_last_slot {v : JValues Cls Py} {l : List (Delivered Cls Py)} {n : ℕ}
    (hslot : v[n]? = some none) (hlen : l.length = n + 1) : v.take (n + 1) ≠ l.map some := by
  intro h
  have hn : (v.take (n + 1))[n]? = some none := by
    rw [List.getElem?_take_of_lt (Nat.lt_succ_self n), hslot]
  rw [h, List.getElem?_map, List.getElem?_eq_getElem (by omega)] at hn
  simp at hn

/-- A misplaced call of a varargs executable, under conversions that accept everything. -/
theorem not_delivers_varargs (m : JPMethod Cls) (self : Py) (args : List Py)
    (hvar : m.isVarArgs = true) (h : Misplaced m (.bound self args)) :
    ¬Delivers (acceptAll Cls Py) m (.bound self args) (ofArgs (self :: args)) := by
  rintro ⟨mm', hrun, hgood⟩
  obtain ⟨fixed, last, hJ, htypes⟩ := exists_parameterTypes m hvar
  have hinst : m.isInstance = false := by
    rcases h.2 with h | h <;> simp [isInstance, h.1]
  rw [hinst, if_neg (by decide)] at htypes
  have htlen : m.parameterTypes.length = fixed.length + 1 := by simp [htypes]
  set o := (m.reset (ofArgs (self :: args) : JPMethodMatch Cls Py) true).offset with ho
  have hoffset : o = if m.isStatic then 1 else 0 := by simp [ho, JPMethod.reset]
  have hskip : (m.reset (ofArgs (self :: args) : JPMethodMatch Cls Py) true).skip = 1 := rfl
  obtain ⟨len, hlen, henough⟩ : ∃ len, len + o = (self :: args).length ∧ fixed.length ≤ len := by
    rcases h.2 with ⟨hstatic, -, hcount⟩ | ⟨hctor, hcount⟩
    · rw [hJ, Call.userArgs] at hcount
      refine ⟨args.length, by rw [hoffset, if_pos hstatic]; rfl, by simpa using hcount⟩
    · have hstatic : ¬m.isStatic = true := by
        simp only [isConstructor, decide_eq_true_eq] at hctor
        simp [isStatic, hctor]
      rw [if_pos hvar, hJ, Call.userArgs] at hcount
      exact ⟨args.length + 1, by rw [hoffset, if_neg hstatic]; rfl, by simpa using hcount⟩
  rcases matchesCall_acceptAll m htypes hvar (self :: args) true len o rfl hlen henough
    with ⟨f, hf⟩ | ⟨mm, hok, hobjects, hskip', htype, hind, hframe⟩
  · exact absurd (hf.symm.trans hrun) (by simp)
  obtain rfl : mm = mm' := by simpa using hok.symm.trans hrun
  obtain ⟨v, hpack, hcount, htake⟩ := hgood (by rw [htype]; decide)
  rw [hJ, List.length_append, List.length_singleton] at hcount htake
  by_cases hshort : mm.isVarIndirect = true ∨ mm.objects.length ≤ fixed.length + 1
  · exact not_filled_of_last_slot
      (packArgs_last_slot _ m mm htlen (hskip'.trans hskip) hshort hpack) hcount htake
  · -- the direct match of a static method has recorded nothing on the last argument
    obtain ⟨hdirect, hlong⟩ := not_or.1 hshort
    have heq : len = fixed.length + 1 := by simpa [hind] using hdirect
    rw [hobjects] at hlong
    have hone : o = 1 := by
      have : o ≤ 1 := by
        rw [hoffset]
        split <;> omega
      omega
    rw [packArgs, if_neg hdirect, hobjects, hskip', hskip] at hpack
    exact targetAt_of_packFixed mm _ _ _ _ hpack (fixed.length + 1) (by omega) (by omega)
      (hframe heq _ (by omega) (by omega))

/-- A misplaced call of an executable of fixed arity, under the same conversions. -/
theorem not_delivers_fixed (m : JPMethod Cls) (self : Py) (args : List Py)
    (hvar : m.isVarArgs = false) (h : Misplaced m (.bound self args)) :
    ¬Delivers (acceptAll Cls Py) m (.bound self args) (ofArgs (self :: args)) := by
  rintro ⟨mm', hrun, hgood⟩
  obtain ⟨hctor, hcount⟩ : m.isConstructor = true ∧ m.javaParameters.length = args.length + 1 := by
    rcases h.2 with ⟨-, hvar', -⟩ | ⟨hctor, hcount⟩
    · exact absurd (hvar.symm.trans hvar') (by decide)
    · exact ⟨hctor, by simpa [hvar, Call.userArgs] using hcount⟩
  have htypes : m.parameterTypes = m.javaParameters := by
    simp [parameterTypes, isInstance, hctor]
  have hoffset : (m.reset (ofArgs (self :: args) : JPMethodMatch Cls Py) true).offset = 0 := by
    simp only [isConstructor, decide_eq_true_eq] at hctor
    simp [JPMethod.reset, isStatic, hctor]
  obtain ⟨mm, hok, hsame, -⟩ := matchesCall_fixed (acceptAll Cls Py) m
    (ofArgs (self :: args)) true hvar (by rw [hoffset]; exact Nat.zero_le _)
  obtain rfl : mm = mm' := by simpa using hok.symm.trans hrun
  have hobjects : mm.objects = self :: args := hsame.objects.trans (objects_ofArgs _)
  have htype : mm.type = .exact := by
    have hcount' : (ofArgs (self :: args) : JPMethodMatch Cls Py).arguments.length - 0 =
        m.parameterTypes.length := by
      rw [length_arguments, objects_ofArgs, htypes, hcount]
      rfl
    simp only [matchesCall, hvar, Bool.false_eq_true, if_false, Call.callInstance, hoffset,
      hcount', ne_eq, not_true_eq_false] at hrun
    exact matchFixed_acceptAll _ _ _ hrun rfl
  obtain ⟨v, hpack, hlen, htake⟩ := hgood (by rw [htype]; decide)
  rw [hcount] at hlen htake
  refine not_filled_of_last_slot (packArgs_last_slot _ m mm (htypes ▸ hcount) hsame.skip (.inr ?_)
    hpack) hlen htake
  rw [hobjects]
  rfl

/-- **Argument delivery.** A call is delivered, whatever the conversions are and whatever an
earlier overload left in the match record, exactly when it is not misplaced. -/
theorem delivers_iff (m : JPMethod Cls) (c : Call Py) :
    (∀ (conv : Conversions Cls Py) (mm : JPMethodMatch Cls Py), mm.objects = c.vargs →
      Delivers conv m c mm) ↔ ¬Misplaced m c := by
  constructor
  · intro h hmis
    rcases c with args | ⟨self, args⟩
    · exact absurd hmis.1 (by simp [Call.callInstance])
    · rcases hvar : m.isVarArgs with - | -
      · exact not_delivers_fixed m self args hvar hmis (h _ _ (objects_ofArgs _))
      · exact not_delivers_varargs m self args hvar hmis (h _ _ (objects_ofArgs _))
  · intro h conv mm hmm
    rcases hvar : m.isVarArgs with - | -
    · exact delivers_fixed conv m c mm hmm hvar h
    · exact delivers_varargs conv m c mm hmm hvar h

/-- `static int callString0(String str, String... args)` of the varargs test class. -/
def callString0 : JPMethod String where
  ptr := 0
  name := "callString0"
  declaringClass := "VarArgs"
  kind := .staticMethod
  isVarArgs := true
  javaParameters := ["String", "String[]"]
  moreSpecificOverloads := []
  javaParameters_ne_nil _ := by decide

/-- Conversions in which every argument but the receiver `var` is a string. -/
def stringConversions : Conversions String String where
  findJavaConversion type arg :=
    if type = "String" ∧ arg ≠ "var" then .exact else .none
  getComponentType _ := "String"

/-- `var.callString0("a", "b")`: matched, and then the first parameter receives the array of
both strings while the array parameter receives nothing. -/
theorem callString0_through_instance :
    ((callString0.matchesCall stringConversions (ofArgs ["var", "a", "b"]) true >>= fun mm ↦
        callString0.packArgs stringConversions mm) =
      .ok [some (.array "String" ["a", "b"]), none, none]) ∧
      ¬Delivers stringConversions callString0 (.bound "var" ["a", "b"])
        (ofArgs ["var", "a", "b"]) := by
  have hmatch : ∃ mm, callString0.matchesCall stringConversions (ofArgs ["var", "a", "b"]) true =
      .ok mm ∧ mm.type = .exact ∧ mm.isVarIndirect = true ∧
      callString0.packArgs stringConversions mm =
        .ok [some (.array "String" ["a", "b"]), none, none] := ⟨_, rfl, rfl, rfl, rfl⟩
  obtain ⟨mm, hok, htype, hind, hpack⟩ := hmatch
  refine ⟨by rw [hok]; exact hpack, ?_⟩
  rintro ⟨mm', hok', hgood⟩
  obtain rfl : mm = mm' := by simpa using hok.symm.trans hok'
  obtain ⟨v, hpack', -, htake⟩ := hgood (by rw [htype]; decide)
  obtain rfl : _ = v := by simpa using hpack.symm.trans hpack'
  simp [callString0, expected, hind, Call.userArgs] at htake

end JPype
