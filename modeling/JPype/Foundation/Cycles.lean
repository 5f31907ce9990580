import Mathlib.Logic.Relation
import Mathlib.Tactic.ByContra

/-!
# Cycles of a relation

The elements that lie on a cycle with a given one are all connected with each other. So what each
step among them keeps holds of all of them if of one (`OnCycle.spread`), what holds of some of them
only is lost in some step (`OnCycle.exists_exit`), and a preorder that goes up in each step goes
both ways between any two of them (`OnCycle.related`).
-/

namespace Foundation

open Relation

variable {α : Type*} {r : α → α → Prop} {a b c : α}

/-- `b` lies on a cycle through `a`. -/
def OnCycle (r : α → α → Prop) (a b : α) : Prop :=
  TransGen r a b ∧ TransGen r b a

namespace OnCycle

theorem self (h : TransGen r a a) : OnCycle r a a :=
  ⟨h, h⟩

theorem path (hb : OnCycle r a b) (hc : OnCycle r a c) : TransGen r b c :=
  hb.2.trans hc.1

theorem exists_next (ha : TransGen r a a) : ∃ b, r a b ∧ OnCycle r a b := by
  obtain ⟨b, hab, hba⟩ := TransGen.head'_iff.1 ha
  exact ⟨b, hab, .single hab, TransGen.trans_right hba ha⟩

/-- What the steps on the cycles keep spreads over all of them. -/
theorem spread {p : α → Prop}
    (hstep : ∀ x y, OnCycle r a x → OnCycle r a y → r x y → p x → p y) (hb : OnCycle r a b)
    (hc : OnCycle r a c) (hpb : p b) : p c := by
  have hpath := hb.path hc
  induction hpath using TransGen.head_induction_on with
  | single hstep' => exact hstep _ _ hb hc hstep' hpb
  | head hstep' hpath ih =>
    have hx := hb
    have hy : OnCycle r a _ := ⟨hx.1.tail hstep', hpath.trans hc.2⟩
    exact ih hy (hstep _ _ hx hy hstep' hpb)

/-- What holds of one element and not of another is lost in a step between them. -/
theorem exists_exit {p : α → Prop} (hb : OnCycle r a b) (hc : OnCycle r a c) (hpb : p b)
    (hpc : ¬p c) : ∃ x y, OnCycle r a x ∧ OnCycle r a y ∧ r x y ∧ p x ∧ ¬p y := by
  by_contra hnone
  refine hpc (spread (fun x y hx hy hxy hpx ↦ ?_) hb hc hpb)
  by_contra hpy
  exact hnone ⟨x, y, hx, hy, hxy, hpx, hpy⟩

/-- A preorder that goes up in each step. -/
theorem related (le : α → α → Prop) (hrefl : ∀ x, le x x)
    (htrans : ∀ x y z, le x y → le y z → le x z)
    (hstep : ∀ x y, OnCycle r a x → OnCycle r a y → r x y → le x y) (hb : OnCycle r a b)
    (hc : OnCycle r a c) : le b c :=
  spread (fun x y hx hy hxy hle ↦ htrans b x y hle (hstep x y hx hy hxy)) hb hc (hrefl b)

end OnCycle

end Foundation
