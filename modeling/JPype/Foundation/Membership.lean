import Mathlib.Data.List.Basic

/-!
# Membership in lists of texts

Where they are opened, one instance decides membership in a list, by the equality of its elements,
and one what holds of all elements of a list.
-/

namespace Foundation.Membership

scoped instance (priority := 1100) decidableMem {α : Type*} [DecidableEq α] (a : α) (l : List α) :
    Decidable (a ∈ l) :=
  List.instDecidableMemOfLawfulBEq a l

scoped instance (priority := 1100) decidableBall {α : Type*} {p : α → Prop} [DecidablePred p]
    (l : List α) : Decidable (∀ a ∈ l, p a) :=
  List.decidableBAll p l

end Foundation.Membership
