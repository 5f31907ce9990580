import Mathlib.Logic.Relation
import Mathlib.Order.RelClasses

/-!
# Forests

A forest is given by the parent of each node. A node is `Below` its ancestors and itself, and this
is an order because going up comes to an end. `BelowRoot` adds a common root `none` that is above
every node.
-/

namespace Foundation

/-- Nodes with at most one parent each, where going up comes to an end. -/
structure Forest (α : Type*) where
  parent : α → Option α
  wellFounded : WellFounded fun p a ↦ parent a = some p

namespace Forest

variable {α : Type*} (F : Forest α)

/-- `b` is `a` or an ancestor of `a`. -/
def Below (a b : α) : Prop :=
  Relation.ReflTransGen (fun a p ↦ F.parent a = some p) a b

variable {F} {a b c : α}

theorem Below.refl (a : α) : F.Below a a :=
  Relation.ReflTransGen.refl

/-- No node is properly below itself. -/
theorem Below.antisymm (hab : F.Below a b) (hba : F.Below b a) : a = b := by
  rcases Relation.reflTransGen_iff_eq_or_transGen.1 hab with heq | hup
  · exact heq.symm
  · have hloop : Relation.TransGen (fun a p ↦ F.parent a = some p) a a := hup.trans_left hba
    exact absurd (Relation.transGen_swap.1 hloop)
      (F.wellFounded.transGen.asymmetric _ _ (Relation.transGen_swap.1 hloop))

variable (F) in
/-- The order with a root above all nodes. -/
def BelowRoot : Option α → Option α → Prop
  | _, none => True
  | none, some _ => False
  | some a, some b => F.Below a b

theorem BelowRoot.antisymm {x y : Option α} (hxy : F.BelowRoot x y) (hyx : F.BelowRoot y x) :
    x = y := by
  match x, y with
  | none, none => rfl
  | none, some _ => exact hxy.elim
  | some _, none => exact hyx.elim
  | some _, some _ => exact congrArg some (Below.antisymm hxy hyx)

end Forest
end Foundation
