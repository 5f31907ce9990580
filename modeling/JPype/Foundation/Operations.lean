import Mathlib.Logic.Function.Conjugate

/-!
# Sequences of operations

Operations on a state are performed one after the other. An operation that commutes with those
after it may as well be performed at the end (`perform_insert`).
-/

namespace Foundation

variable {σ : Type*}

/-- The state after the operations, in order. -/
def perform (ops : List (σ → σ)) (s : σ) : σ :=
  ops.foldl (fun s op ↦ op s) s

@[simp]
theorem perform_nil (s : σ) : perform [] s = s :=
  rfl

@[simp]
theorem perform_cons (op : σ → σ) (ops : List (σ → σ)) (s : σ) :
    perform (op :: ops) s = perform ops (op s) :=
  rfl

@[simp]
theorem perform_append (ops ops' : List (σ → σ)) (s : σ) :
    perform (ops ++ ops') s = perform ops' (perform ops s) :=
  List.foldl_append

/-- An operation that commutes with each of a sequence commutes with the sequence. -/
theorem perform_comm {op : σ → σ} {ops : List (σ → σ)} (h : ∀ g ∈ ops, Function.Commute op g)
    (s : σ) : perform ops (op s) = op (perform ops s) := by
  induction ops generalizing s with
  | nil => rfl
  | cons g ops ih =>
    have hg : g (op s) = op (g s) := ((h g List.mem_cons_self) s).symm
    rw [perform_cons, hg, ih (fun g' hg' ↦ h g' (List.mem_cons_of_mem g hg')), perform_cons]

/-- Into a sequence, one may insert an operation that commutes with what follows by performing it
at the end. -/
theorem perform_insert {op : σ → σ} {ops' : List (σ → σ)}
    (h : ∀ g ∈ ops', Function.Commute op g) (ops : List (σ → σ)) (s : σ) :
    perform (ops ++ op :: ops') s = op (perform (ops ++ ops') s) := by
  rw [perform_append, perform_cons, perform_comm h, perform_append]

/-- The operations of all members of a list, in order. -/
theorem foldl_perform {β : Type*} (f : β → List (σ → σ)) (l : List β) (s : σ) :
    l.foldl (fun s b ↦ perform (f b) s) s = perform (l.flatMap f) s := by
  induction l generalizing s with
  | nil => rfl
  | cons b l ih => rw [List.foldl_cons, ih, List.flatMap_cons, perform_append]

end Foundation
