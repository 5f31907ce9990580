import Mathlib.Data.List.Basic
import Mathlib.Data.Int.Notation
import Mathlib.Data.Nat.Notation
import Mathlib.Tactic.Common

/-!
# Input streams

`java.io.InputStream` as its documentation has it: a read delivers at least one byte unless the
stream has ended, but perhaps fewer than asked for, and a skip may stop at any point. The bytes that
a stream has still to deliver are its `content`.

A `StreamReader` is a program that reads from a stream, whichever it is.
-/

namespace JPype

/-- A `java.io.InputStream`, with the states `σ` that reading it goes through. -/
structure InputStream (σ : Type) where
  /-- The bytes that are still to be delivered. -/
  content : σ → List UInt8
  /-- `read()`; at the end of the stream, -1 is `none`. -/
  read : σ → Option UInt8 × σ
  /-- `read(byte[], int, int)`, with the number of bytes asked for. -/
  readArray : ℕ → σ → Option (List UInt8) × σ
  /-- `skip(long)` -/
  skip : ℕ → σ → ℤ × σ
  read_nil : ∀ {s}, content s = [] → (read s).1 = none ∧ content (read s).2 = []
  read_cons : ∀ {s x rest}, content s = x :: rest → (read s).1 = some x ∧ content (read s).2 = rest
  readArray_zero : ∀ {s}, (readArray 0 s).1 = some [] ∧ content (readArray 0 s).2 = content s
  readArray_nil : ∀ {n s}, 0 < n → content s = [] →
    (readArray n s).1 = none ∧ content (readArray n s).2 = []
  /-- Some of the bytes asked for. -/
  readArray_short : ∀ {n s}, 0 < n → content s ≠ [] → ∃ k, 0 < k ∧ k ≤ n ∧ k ≤ (content s).length ∧
    (readArray n s).1 = some ((content s).take k) ∧
    content (readArray n s).2 = (content s).drop k
  /-- No more is skipped than asked for. -/
  skip_short : ∀ {n s}, ∃ k : ℕ, k = (skip n s).1.toNat ∧ k ≤ n ∧ k ≤ (content s).length ∧
    content (skip n s).2 = (content s).drop k

/-- A program that reads from a stream and goes on with what it gets. -/
inductive StreamReader (R : Type) where
  | done (result : R)
  | read (next : Option UInt8 → StreamReader R)
  | readArray (n : ℕ) (next : Option (List UInt8) → StreamReader R)

namespace StreamReader

variable {R σ : Type}

/-- The result of a program on a stream, and the state in which it leaves the stream. -/
def run (is : InputStream σ) : StreamReader R → σ → R × σ
  | done result, s => (result, s)
  | read next, s => run is (next (is.read s).1) (is.read s).2
  | readArray n next, s => run is (next (is.readArray n s).1) (is.readArray n s).2

/-- On any stream that starts with `bytes`, the program reads these and no others, and gives `r`. -/
def Reads (p : StreamReader R) (bytes : List UInt8) (r : R) : Prop :=
  ∀ (σ : Type) (is : InputStream σ) (s : σ) (rest : List UInt8), is.content s = bytes ++ rest →
    (p.run is s).1 = r ∧ is.content (p.run is s).2 = rest

theorem reads_done (r : R) : (done r).Reads [] r :=
  fun _ _ _ _ h ↦ ⟨rfl, h⟩

theorem reads_read {next : Option UInt8 → StreamReader R} {x : UInt8} {bytes : List UInt8} {r : R}
    (h : (next (some x)).Reads bytes r) : (read next).Reads (x :: bytes) r := by
  intro σ is s rest hs
  obtain ⟨hx, hrest⟩ := is.read_cons (show is.content s = x :: (bytes ++ rest) from hs)
  rw [run, hx]
  exact h σ is _ rest hrest

/-- Nothing is read from a stream that has ended. -/
theorem content_run_of_nil (is : InputStream σ) (p : StreamReader R) {s : σ}
    (h : is.content s = []) : is.content (p.run is s).2 = [] := by
  induction p generalizing s with
  | done r => exact h
  | read next ih => exact ih _ (is.read_nil h).2
  | readArray n next ih =>
    rcases Nat.eq_zero_or_pos n with rfl | hn
    · exact ih _ (is.readArray_zero.2.trans h)
    · exact ih _ (is.readArray_nil hn h).2

end StreamReader
end JPype
