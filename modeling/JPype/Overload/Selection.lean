import JPype.Overload.Match
import Mathlib.Data.Prod.Lex

/-!
# Selection among rated candidates

The rule by which overload resolution picks one of several matching candidates, over an
arbitrary type of candidates. A candidate is rated by a `MatchType`, may be preferred (its kind
agrees with the way it is called), and may hide others. `pick` is the left fold the dispatch
runs: candidate by candidate, one best so far and a list of rivals that could not be told from
it.

Candidates are ranked by preference first and quality second. `challenge_cases` says what the fold
does with a candidate by what the best so far hides and by the two ranks.
-/

namespace JPype

/-- What selection knows about its candidates besides their ratings. -/
structure Contest (α : Type) where
  /-- The candidate's kind agrees with the way it is called. -/
  preferred : α → Bool
  /-- The first candidate is more specific than the second. -/
  hides : α → α → Bool

namespace Contest

variable {α ε : Type} (c : Contest α)

/-- Candidate `a`, of quality `q` below exact, against the best so far. -/
def challenge (a : α) (q : MatchType) (best : Option (α × MatchType)) (rivals : List α) :
    Option (α × MatchType) × List α :=
  if q < .implicit then (best, rivals)
  else
    match best with
    | none => (some (a, q), rivals)
    | some (b, qb) =>
      if c.hides b a then (best, rivals)
      else if c.preferred a = true ∧ c.preferred b = false then (some (a, q), rivals)
      else if c.preferred a = false ∧ c.preferred b = true then (best, rivals)
      else if qb < q then (some (a, q), [])
      else if q < qb then (best, rivals)
      else (best, rivals ++ [a])

/-- The fold: an exact match ends it, and it ends with the rivals collected so far. -/
def pick (rate : α → Except ε MatchType) :
    List α → Option (α × MatchType) → List α → Except ε (Option (α × MatchType) × List α)
  | [], best, rivals => .ok (best, rivals)
  | a :: rest, best, rivals => do
    let q ← rate a
    if q = .exact then return (some (a, q), rivals)
    let (best, rivals) := c.challenge a q best rivals
    pick rate rest best rivals

/-- The winner of a fold, if there is one: the best candidate, with no rival. -/
def winnerOf (result : Option (α × MatchType) × List α) : Option α :=
  if result.2 = [] then result.1.map Prod.fst else none

theorem pick_cons {rate : α → Except ε MatchType} {a : α} {q : MatchType} (h : rate a = .ok q)
    (rest : List α) (best : Option (α × MatchType)) (rivals : List α) :
    c.pick rate (a :: rest) best rivals =
      if q = .exact then .ok (some (a, q), rivals)
      else c.pick rate rest (c.challenge a q best rivals).1 (c.challenge a q best rivals).2 := by
  rw [pick, h]
  rfl

variable (quality : α → MatchType)

/-- The candidate takes part. -/
def Matching (a : α) : Prop := MatchType.implicit ≤ quality a

/-- Preference first, quality second. -/
def rank (a : α) : Bool ×ₗ MatchType := toLex (c.preferred a, quality a)

variable {c quality}

theorem rank_lt_of_preferred {a b : α} (ha : c.preferred a = true) (hb : c.preferred b = false) :
    c.rank quality b < c.rank quality a :=
  Prod.Lex.toLex_lt_toLex.2 (.inl (show c.preferred b < c.preferred a by rw [ha, hb]; decide))

theorem rank_lt_of_quality {a b : α} (hp : c.preferred a = c.preferred b)
    (hq : quality a < quality b) : c.rank quality a < c.rank quality b :=
  Prod.Lex.toLex_lt_toLex.2 (.inr ⟨hp, hq⟩)

theorem rank_eq {a b : α} (hp : c.preferred a = c.preferred b) (hq : quality a = quality b) :
    c.rank quality a = c.rank quality b := by
  rw [rank, rank, hp, hq]

/-- A candidate that does not match changes nothing. -/
theorem challenge_of_lt (a : α) {q : MatchType} (hq : q < .implicit)
    (best : Option (α × MatchType)) (rivals : List α) :
    c.challenge a q best rivals = (best, rivals) :=
  if_pos hq

/-- What a matching candidate does to the best so far. -/
theorem challenge_cases (c : Contest α) (quality : α → MatchType) (a b : α)
    (ha : Matching quality a) (rivals : List α) :
    (c.hides b a = true ∧
      c.challenge a (quality a) (some (b, quality b)) rivals = (some (b, quality b), rivals)) ∨
    (c.hides b a = false ∧ c.rank quality a < c.rank quality b ∧
      c.challenge a (quality a) (some (b, quality b)) rivals = (some (b, quality b), rivals)) ∨
    (c.hides b a = false ∧ c.preferred a = true ∧ c.preferred b = false ∧
      c.challenge a (quality a) (some (b, quality b)) rivals = (some (a, quality a), rivals)) ∨
    (c.rank quality b < c.rank quality a ∧
      c.challenge a (quality a) (some (b, quality b)) rivals = (some (a, quality a), [])) ∨
    (c.hides b a = false ∧ c.rank quality a = c.rank quality b ∧
      c.challenge a (quality a) (some (b, quality b)) rivals =
        (some (b, quality b), rivals ++ [a])) := by
  have hmatch : ¬quality a < .implicit := not_lt.2 ha
  rcases hhides : c.hides b a with - | -
  · rcases hpa : c.preferred a with - | - <;> rcases hpb : c.preferred b with - | -
    all_goals simp only [challenge, hmatch, if_false, hhides, Bool.false_eq_true, hpa, hpb]
    rotate_left
    · exact .inr (.inl ⟨trivial, rank_lt_of_preferred hpb hpa, by simp⟩)
    · exact .inr (.inr (.inl ⟨trivial, trivial, trivial, by simp⟩))
    all_goals
      have hp : c.preferred b = c.preferred a := hpb.trans hpa.symm
      rcases lt_trichotomy (quality b) (quality a) with hq | hq | hq
      · exact .inr (.inr (.inr (.inl ⟨rank_lt_of_quality hp hq, by simp [hq]⟩)))
      · exact .inr (.inr (.inr (.inr ⟨trivial, rank_eq hp.symm hq.symm, by simp [hq]⟩)))
      · exact .inr (.inl ⟨trivial, rank_lt_of_quality hp.symm hq, by simp [hq, hq.le]⟩)
  · exact .inl ⟨rfl, by simp [challenge, hmatch, hhides]⟩

end Contest

end JPype
