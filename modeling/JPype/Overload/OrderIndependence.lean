import JPype.Overload.Dispatch
import JPype.Overload.Undisputed

/-!
# Independence of the order of overloads

The overloads of a dispatch arrive in an order that the JVM leaves open, up to the one thing the
sort in front of it guarantees: a method stands before the methods it is more specific than.
Resolution does not make up for that. `orders_differ` lists four overload sets, each with two
admissible orders and two results:

* two methods match exactly and neither is more specific, so the first one wins;
* an exact match ends the loop without clearing a tie that came before it;
* a method whose kind agrees with the call takes over without clearing a tie either;
* a method hides a better match, and with it a rival of a third.

In the first and the last the overload that is selected is not undisputed (`Contest.Undisputed`);
in the others a tie is left to it (`Contest.LeftTie`). Away from these resolution is a matter of the
set alone (`selects_perm`).
-/

namespace JPype

open JPMethod JPMethodDispatch

variable {Cls Py H : Type} [DecidableEq H]

/-- The overload a call comes out at, if it comes out at one. -/
def JPMethodDispatch.Outcome.selected : Outcome Cls → Option (JPMethod Cls)
  | .chosen overload => some overload
  | .ambiguous _ => none
  | .noMatch => none

/-- What `findOverload` selects with an empty cache. -/
def selects (rt : Runtime Cls Py H) (self : JPMethodDispatch Cls) (hash : ℕ → H)
    (call : Call Py) : Except Fault (Option (JPMethod Cls)) :=
  (outcome rt self (Cache.empty hash : Cache Unit Cls H) () call).map Outcome.selected

/-- The order of the overloads respects specificity. -/
def Sorted (overloads : List (JPMethod Cls)) : Prop :=
  overloads.Pairwise fun m m' ↦ m'.checkMoreSpecificThan m = false

/-- **Order independence**: two dispatches with the same overloads, in two orders that respect
specificity, select alike. -/
def OrderIndependent (rt : Runtime Cls Py H) : Prop :=
  ∀ (self self' : JPMethodDispatch Cls) (hash : ℕ → H) (call : Call Py),
    self.overloads.Nodup → self.overloads.Perm self'.overloads →
    Sorted self.overloads → Sorted self'.overloads →
    selects rt self hash call = selects rt self' hash call

theorem selected_outcomeOf (picked : Option (JPMethod Cls × MatchType) × List (JPMethod Cls)) :
    (outcomeOf picked).selected = Contest.winnerOf picked := by
  rw [outcomeOf, Contest.winnerOf]
  rcases picked with ⟨best, rivals⟩
  rcases rivals with - | ⟨m, rivals⟩
  · rcases best with - | ⟨m, q⟩ <;> rfl
  · rfl

/-- With an empty cache, `findOverload` selects the winner of the selection by rating. -/
theorem selects_eq (rt : Runtime Cls Py H) (self : JPMethodDispatch Cls) (hash : ℕ → H)
    (call : Call Py) :
    selects rt self hash call =
      (contest Cls call.callInstance).winner (rating rt.conv call) self.overloads := by
  rw [selects, outcome_empty, freshOutcome, Contest.winner]
  generalize Contest.pick _ _ _ _ _ = x
  rcases x with f | picked
  · rfl
  · exact congrArg Except.ok (selected_outcomeOf picked)

/-- **Order independence.** Two dispatches list the same overloads, rated without a fault, in two
orders that respect specificity. They select alike if an overload that one of them selects is
undisputed among the overloads, and the other one leaves no tie to it. -/
theorem selects_perm (rt : Runtime Cls Py H) (self self' : JPMethodDispatch Cls)
    (hash : ℕ → H) (call : Call Py) (quality : JPMethod Cls → MatchType)
    (hrated : ∀ m ∈ self.overloads, m.rating rt.conv call = .ok (quality m))
    (hnodup : self.overloads.Nodup) (hperm : self.overloads.Perm self'.overloads)
    (hsorted : Sorted self.overloads) (hsorted' : Sorted self'.overloads)
    (hself : ∀ m, selects rt self hash call = .ok (some m) →
      (contest Cls call.callInstance).Undisputed quality self.overloads m ∧
        ¬(contest Cls call.callInstance).LeftTie quality self'.overloads m)
    (hself' : ∀ m, selects rt self' hash call = .ok (some m) →
      (contest Cls call.callInstance).Undisputed quality self.overloads m ∧
        ¬(contest Cls call.callInstance).LeftTie quality self.overloads m) :
    selects rt self hash call = selects rt self' hash call := by
  simp only [selects_eq] at hself hself' ⊢
  exact Contest.winner_perm hrated hnodup hperm hsorted hsorted' hself hself'

/-- The condition cannot be weakened by much: an overload that is selected in every order is
undisputed, provided that specificity is transitive, and no order leaves a tie to it. -/
theorem selected_in_every_order_iff (rt : Runtime Cls Py H) (self : JPMethodDispatch Cls)
    (hash : ℕ → H) (call : Call Py) (quality : JPMethod Cls → MatchType)
    (hrated : ∀ m ∈ self.overloads, m.rating rt.conv call = .ok (quality m))
    (hnodup : self.overloads.Nodup) (hsorted : Sorted self.overloads) {m : JPMethod Cls}
    (htrans : ∀ x ∈ self.overloads, ∀ y ∈ self.overloads, x.checkMoreSpecificThan y = true →
      y.checkMoreSpecificThan m = true → x.checkMoreSpecificThan m = true) :
    (∀ l, self.overloads.Perm l → Sorted l →
      selects rt { self with overloads := l } hash call = .ok (some m)) ↔
      (contest Cls call.callInstance).Undisputed quality self.overloads m ∧
        ∀ l, self.overloads.Perm l → Sorted l →
          ¬(contest Cls call.callInstance).LeftTie quality l m := by
  simp only [selects_eq]
  exact Contest.winner_forall_iff (c := contest Cls call.callInstance) hrated hnodup hsorted htrans

/-! ### Four overload sets whose orders differ -/

/-- A class that knows how well the argument converts to it. -/
abbrev RatedClass := MatchType × ℕ

/-- An overload with one parameter. -/
def overloadOn (ptr : ℕ) (kind : MethodKind) (q : MatchType) (moreSpecific : List ℕ) :
    JPMethod RatedClass where
  ptr := ptr
  name := "f"
  declaringClass := (.exact, 0)
  kind := kind
  isVarArgs := false
  javaParameters := [(q, ptr)]
  moreSpecificOverloads := moreSpecific
  javaParameters_ne_nil h := by cases h

/-- The dispatch of `f` with the given overloads. -/
def dispatchOf (overloads : List (JPMethod RatedClass)) : JPMethodDispatch RatedClass where
  name := "f"
  declaringClass := (.exact, 0)
  overloads := overloads
  isConstructor := false

/-- The argument, or the instance, converts to each class as the class says. -/
def ratedRuntime : Runtime RatedClass Unit (Bool × ℕ) where
  conv :=
    { findJavaConversion := fun type _ ↦ type.1
      getComponentType := fun type ↦ type }
  hash callInstance args := (callInstance, args.length)
  typeName _ := "A"
  canonicalName _ := "A"

/-- The ptr of the overload that an order of overloads selects. -/
def selectedPtr (overloads : List (JPMethod RatedClass)) (call : Call Unit) : Option ℕ :=
  match selects ratedRuntime (dispatchOf overloads) (fun _ ↦ (false, 0)) call with
  | .ok (some m) => some m.ptr
  | _ => none

/-- Four overload sets, each in two orders that respect specificity, and what is selected. -/
theorem orders_differ :
    (let e₁ := overloadOn 1 .staticMethod .exact []
      let e₂ := overloadOn 2 .staticMethod .exact []
      selectedPtr [e₁, e₂] (.unbound [()]) = some 1 ∧
        selectedPtr [e₂, e₁] (.unbound [()]) = some 2) ∧
    (let a := overloadOn 1 .staticMethod .implicit []
      let b := overloadOn 2 .staticMethod .implicit []
      let e := overloadOn 3 .staticMethod .exact []
      selectedPtr [e, a, b] (.unbound [()]) = some 3 ∧
        selectedPtr [a, b, e] (.unbound [()]) = none) ∧
    (let a := overloadOn 1 .staticMethod .implicit []
      let b := overloadOn 2 .staticMethod .implicit []
      let p := overloadOn 3 .instanceMethod .implicit []
      selectedPtr [p, a, b] (.bound () [()]) = some 3 ∧
        selectedPtr [a, b, p] (.bound () [()]) = none) ∧
    (let a := overloadOn 1 .staticMethod .implicit [2]
      let b := overloadOn 2 .staticMethod .derived []
      let c := overloadOn 3 .staticMethod .derived []
      selectedPtr [a, b, c] (.unbound [()]) = some 3 ∧
        selectedPtr [a, c, b] (.unbound [()]) = none) ∧
    ¬OrderIndependent ratedRuntime := by
  refine ⟨⟨rfl, rfl⟩, ⟨rfl, rfl⟩, ⟨rfl, rfl⟩, ⟨rfl, rfl⟩, fun h ↦ ?_⟩
  let e₁ := overloadOn 1 .staticMethod .exact []
  let e₂ := overloadOn 2 .staticMethod .exact []
  have hne : e₁ ≠ e₂ := fun he ↦ absurd (congrArg JPMethod.ptr he) (by decide)
  have hsame := h (dispatchOf [e₁, e₂]) (dispatchOf [e₂, e₁]) (fun _ ↦ (false, 0))
    (.unbound [()]) (by simpa [dispatchOf] using hne) (.swap e₂ e₁ [])
    (List.pairwise_pair.2 rfl) (List.pairwise_pair.2 rfl)
  have h₁ : selects ratedRuntime (dispatchOf [e₁, e₂]) (fun _ ↦ (false, 0)) (.unbound [()]) =
      .ok (some e₁) := rfl
  have h₂ : selects ratedRuntime (dispatchOf [e₂, e₁]) (fun _ ↦ (false, 0)) (.unbound [()]) =
      .ok (some e₂) := rfl
  rw [h₁, h₂] at hsame
  exact hne (Option.some.inj (Except.ok.inj hsame))

/-- An exact match, which is more specific than the two overloads below. -/
def exactOverload : JPMethod RatedClass := overloadOn 1 .staticMethod .exact [2, 3]

/-- One of two overloads that tie. -/
def tyingOverload (ptr : ℕ) : JPMethod RatedClass := overloadOn ptr .staticMethod .implicit []

/-- The tie can only come after the exact match, so that either order selects that. -/
theorem exactOverload_selected :
    selects ratedRuntime (dispatchOf [exactOverload, tyingOverload 2, tyingOverload 3])
        (fun _ ↦ (false, 0)) (.unbound [()]) =
      selects ratedRuntime (dispatchOf [exactOverload, tyingOverload 3, tyingOverload 2])
        (fun _ ↦ (false, 0)) (.unbound [()]) := by
  let quality : JPMethod RatedClass → MatchType := fun m ↦ if m.ptr = 1 then .exact else .implicit
  let c : Contest (JPMethod RatedClass) := contest RatedClass false
  have hne : tyingOverload 2 ≠ tyingOverload 3 ∧ exactOverload ≠ tyingOverload 2 ∧
      exactOverload ≠ tyingOverload 3 := by
    refine ⟨fun h ↦ ?_, fun h ↦ ?_, fun h ↦ ?_⟩
    all_goals exact absurd (congrArg JPMethod.ptr h) (by decide)
  have hsorted : ∀ i j, Sorted [exactOverload, tyingOverload i, tyingOverload j] := by
    intro i j
    refine List.pairwise_cons.2 ⟨fun m hm ↦ ?_, List.pairwise_pair.2 rfl⟩
    obtain rfl | rfl := List.mem_pair.1 hm <;> rfl
  have hnodup : [exactOverload, tyingOverload 2, tyingOverload 3].Nodup := by
    simp [hne]
  have hperm : [exactOverload, tyingOverload 2, tyingOverload 3].Perm
      [exactOverload, tyingOverload 3, tyingOverload 2] := .cons _ (.swap _ _ [])
  have hundisputed : c.Undisputed quality [exactOverload, tyingOverload 2, tyingOverload 3]
      exactOverload := by
    refine ⟨List.mem_cons_self, Contest.matching_of_exact rfl, fun _ e he hexact hne ↦ ?_,
      fun h ↦ absurd rfl h⟩
    obtain rfl | rfl := List.mem_pair.1 ((List.mem_cons.1 he).resolve_left hne)
    all_goals exact absurd hexact (by decide)
  -- Whatever stands before the exact match would be hidden by it, so that no order leaves a tie.
  have htie : ∀ l, l.Perm [exactOverload, tyingOverload 2, tyingOverload 3] → Sorted l →
      ¬c.LeftTie quality l exactOverload := by
    intro l hl hord
    have hprec : ∀ x ∈ l, x ≠ exactOverload → c.Precedes l exactOverload x := by
      intro x hx hxe
      refine .single ⟨hl.mem_iff.2 List.mem_cons_self, hx, ?_⟩
      obtain rfl | rfl := List.mem_pair.1 ((List.mem_cons.1 (hl.mem_iff.1 hx)).resolve_left hxe)
      all_goals rfl
    refine Contest.not_leftTie_of_precedes hord (hl.nodup_iff.2 hnodup) fun a ha b hb htie ↦ ?_
    by_cases hae : a = exactOverload
    · exact .inr (hprec b hb fun hbe ↦ htie.1 (hae.trans hbe.symm))
    · exact .inl (hprec a ha hae)
  refine selects_perm ratedRuntime
    (dispatchOf [exactOverload, tyingOverload 2, tyingOverload 3])
    (dispatchOf [exactOverload, tyingOverload 3, tyingOverload 2])
    (fun _ ↦ (false, 0)) (.unbound [()]) quality ?_ hnodup hperm (hsorted 2 3) (hsorted 3 2)
    (fun m hm ↦ ?_) (fun m hm ↦ ?_)
  · intro m hm
    rcases List.mem_cons.1 hm with rfl | hm
    · rfl
    · obtain rfl | rfl := List.mem_pair.1 hm <;> rfl
  · obtain rfl : exactOverload = m := Option.some.inj (Except.ok.inj hm)
    exact ⟨hundisputed, htie _ hperm.symm (hsorted 3 2)⟩
  · obtain rfl : exactOverload = m := Option.some.inj (Except.ok.inj hm)
    exact ⟨hundisputed, htie _ (.refl _) (hsorted 2 3)⟩

end JPype
