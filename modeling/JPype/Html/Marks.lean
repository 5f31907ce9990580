import JPype.Html.Blocks

/-!
# Text with marks

In a state of a grammar, some characters are tokens by themselves, and the others are text between
them (`Grammar.Marks`). Where a parser may read a block of text and a mark, it may read a whole text
of both (`Grammar.Reads.process`): between the marks there are runs, which are read in blocks.
-/

namespace JPype.Html

open Unicode

namespace Grammar

variable {σ τ ρ ε : Type}

/-- In a state, the characters of `mark` are tokens, and all others are text. -/
structure Marks (g : Grammar σ τ ρ ε) (text : τ) (state : σ) (mark : Char → Option τ) : Prop where
  runs : g.runs text
  find_mark : ∀ {c token}, mark c = some token → g.runs token = false ∧
    ∃ b, String.utf8EncodeChar c = [b] ∧
      (g.getTokens state).find? (g.matchesByte · b) = some token
  find_text : ∀ {c}, mark c = none → ∀ b ∈ String.utf8EncodeChar c,
    (g.getTokens state).find? (g.matchesByte · b) = some text

/-- Where `reads w`, the text `w` has been read; more text may follow, and the marks that `guard`
allows there. -/
structure Reads (g : Grammar σ τ ρ ε) (text : τ) (state : σ) (mark : Char → Option τ)
    (guard : List Char → Char → Prop) (reads : List Char → Parser σ τ ρ ε → Prop) : Prop
    extends Marks g text state mark where
  state_eq : ∀ {w p}, reads w p → p.state = state
  with_last : ∀ {w p}, reads w p → ∀ last, reads w { p with last := last }
  block : ∀ {w p}, reads w p → ∀ block, ∃ p', g.feedBlock text p block = .ok p' ∧
    reads (w ++ decodeUtf8 block) p' ∧ p'.last = p.last
  mark : ∀ {w p c token}, reads w p → mark c = some token → guard w c →
    ∃ p', g.processToken p (some token) .null = .ok p' ∧ reads (w ++ [c]) p'

/-- No character of the text between the marks lies in two blocks. -/
def UnsplitRuns (mark : Char → Option τ) (filled : ℕ) : List Char → Prop
  | [] => True
  | c :: s =>
    if (mark c).isSome then UnsplitRuns mark 0 s
    else stop filled c ≤ capacity ∧ UnsplitRuns mark (stop filled c) s

instance decidableUnsplitRuns (mark : Char → Option τ) (filled : ℕ) :
    ∀ s, Decidable (UnsplitRuns mark filled s)
  | [] => isTrue trivial
  | c :: s =>
    have := decidableUnsplitRuns mark 0 s
    have := decidableUnsplitRuns mark (stop filled c) s
    inferInstanceAs (Decidable (if (mark c).isSome then _ else _ ∧ _))

/-- The marks of the text `s`, after the text `w`, are allowed. -/
def Allowed (mark : Char → Option τ) (guard : List Char → Char → Prop) (w s : List Char) : Prop :=
  ∀ u c v, s = u ++ c :: v → (mark c).isSome → guard (w ++ u) c

/-- After a text, whose end may be in the buffer. -/
def AfterText (g : Grammar σ τ ρ ε) (state : σ) (reads : List Char → Parser σ τ ρ ε → Prop)
    (w : List Char) (s : Buffered σ τ ρ ε) : Prop :=
  s.1.state = state ∧ ∃ p, g.flushTokens s = .ok (p, []) ∧ p.state = state ∧ reads w p

variable {g : Grammar σ τ ρ ε} {text : τ} {state : σ} {mark : Char → Option τ}
  {guard : List Char → Char → Prop} {reads : List Char → Parser σ τ ρ ε → Prop} {w s : List Char}
  {p : Parser σ τ ρ ε}

theorem UnsplitRuns.of_append {run rest : List Char} (hrun : ∀ c ∈ run, mark c = none) :
    ∀ {filled : ℕ}, UnsplitRuns mark filled (run ++ rest) →
      Unsplit filled run ∧ ∃ filled', UnsplitRuns mark filled' rest := by
  induction run with
  | nil => exact fun h ↦ ⟨trivial, _, h⟩
  | cons c run ih =>
    intro filled h
    obtain ⟨hc, hrun⟩ := List.forall_mem_cons.1 hrun
    rw [List.cons_append, UnsplitRuns, if_neg (by simp [hc])] at h
    obtain ⟨hunsplit, hrest⟩ := ih hrun h.2
    exact ⟨⟨h.1, hunsplit⟩, hrest⟩

/-- Text without marks is one run. -/
theorem unsplitRuns_of_unsplit {run : List Char} (hrun : ∀ c ∈ run, mark c = none) :
    ∀ {filled : ℕ}, Unsplit filled run → UnsplitRuns mark filled run := by
  induction run with
  | nil => exact fun _ ↦ trivial
  | cons c run ih =>
    intro filled h
    obtain ⟨hc, hrun⟩ := List.forall_mem_cons.1 hrun
    rw [UnsplitRuns, if_neg (by simp [hc])]
    exact ⟨h.1, ih hrun h.2⟩

theorem allowed_of_none (hs : ∀ c ∈ s, mark c = none) : Allowed mark guard w s := by
  rintro u c v rfl hc
  rw [hs c (by simp)] at hc
  cases hc

theorem UnsplitRuns.of_mark {filled : ℕ} {c : Char} {rest : List Char} (hc : (mark c).isSome)
    (h : UnsplitRuns mark filled (c :: rest)) : UnsplitRuns mark 0 rest := by
  rwa [UnsplitRuns, if_pos hc] at h

/-- A text is a run, or a run and a mark come first. -/
theorem exists_run (mark : Char → Option τ) (s : List Char) : ∃ run, (∀ c ∈ run, mark c = none) ∧
    (s = run ∨ ∃ c token rest, mark c = some token ∧ s = run ++ c :: rest) := by
  induction s with
  | nil => exact ⟨[], by simp, .inl rfl⟩
  | cons c s ih =>
    cases hc : mark c with
    | some token => exact ⟨[], by simp, .inr ⟨c, token, s, hc, rfl⟩⟩
    | none =>
      obtain ⟨run, hrun, hs⟩ := ih
      refine ⟨c :: run, List.forall_mem_cons.2 ⟨hc, hrun⟩, ?_⟩
      obtain rfl | ⟨d, token, rest, hd, rfl⟩ := hs
      · exact .inl rfl
      · exact .inr ⟨d, token, rest, hd, rfl⟩

theorem Marks.find_run (h : Marks g text state mark) {run : List Char}
    (hrun : ∀ c ∈ run, mark c = none) :
    ∀ b ∈ utf8 run, (g.getTokens state).find? (g.matchesByte · b) = some text := by
  intro b hb
  obtain ⟨c, hc, hb⟩ := List.mem_flatMap.1 hb
  exact h.find_text (hrun c hc) b hb

/-- A token after a text is read as if the text were not in the buffer. -/
theorem AfterText.process_token [DecidableEq τ] {s : Buffered σ τ ρ ε}
    (h : AfterText g state reads w s) {b : UInt8} {token : τ}
    (hfind : (g.getTokens state).find? (g.matchesByte · b) = some token)
    (hruns : g.runs token = false) (rest : List UInt8) :
    ∃ p, reads w p ∧ g.process s (b :: rest) = g.process (p, []) (b :: rest) := by
  obtain ⟨hstate, p, hflush, hstate', hp⟩ := h
  refine ⟨p, hp, ?_⟩
  rw [process, process, List.foldlM_cons, List.foldlM_cons, processByte_eq_mark hstate hfind hruns,
    processByte_eq_mark (s := (p, [])) hstate' hfind hruns, hflush]
  rfl

namespace Reads

variable (h : Reads g text state mark guard reads)

include h

theorem afterText (hp : reads w p) : AfterText g state reads w (p, []) :=
  ⟨h.state_eq hp, p, rfl, h.state_eq hp, hp⟩

theorem feedBlocks (blocks : List (List UInt8)) : ∀ {w : List Char} {p : Parser σ τ ρ ε},
    reads w p → ∃ p', blocks.foldlM (g.feedBlock text) p = .ok p' ∧
      reads (w ++ blocks.flatMap decodeUtf8) p' := by
  induction blocks with
  | nil =>
    intro w p hp
    rw [List.flatMap_nil, List.append_nil]
    exact ⟨p, rfl, hp⟩
  | cons block blocks ih =>
    intro w p hp
    obtain ⟨p₁, hfeed, hp₁, -⟩ := h.block hp block
    obtain ⟨p', hblocks, hp'⟩ := ih hp₁
    rw [List.foldlM_cons, hfeed, List.flatMap_cons, ← List.append_assoc]
    exact ⟨p', hblocks, hp'⟩

variable [DecidableEq τ]

/-- A run of text. -/
theorem process_run {run : List Char} (hp : reads w p) (hrun : ∀ c ∈ run, mark c = none)
    (hunsplit : Unsplit 0 run) :
    ∃ s', g.process (p, []) (utf8 run) = .ok s' ∧ AfterText g state reads (w ++ run) s' := by
  have hisRun : IsRun g text state (fun p ↦ p.last = some text ∧ ∃ w, reads w p) (utf8 run) := by
    refine ⟨h.runs, h.find_run hrun, fun p hp ↦ h.state_eq hp.2.choose_spec, fun p hp ↦ hp.1, ?_⟩
    rintro p p' block ⟨hlast, w, hp⟩ hfeed
    obtain ⟨p₁, hfeed₁, hp₁, hlast₁⟩ := h.block hp block
    rw [hfeed] at hfeed₁
    obtain rfl := Except.ok.inj hfeed₁
    exact ⟨hlast₁.trans hlast, _, hp₁⟩
  obtain ⟨p', hfeed, hp'⟩ : ∃ p', g.feed text p (utf8 run) = .ok p' ∧ reads (w ++ run) p' := by
    have hblocks : ∀ p, reads w p → ∃ p',
        (blocks (utf8 run)).foldlM (g.feedBlock text) p = .ok p' ∧ reads (w ++ run) p' := by
      intro p hp
      have hfeed := h.feedBlocks (blocks (utf8 run)) hp
      rwa [decode_blocks, reread_of_unsplit hunsplit] at hfeed
    rw [feed]
    split
    · exact hblocks p hp
    · exact hblocks _ (h.with_last hp _)
  obtain ⟨hprocess, hstate⟩ :=
    process_text hisRun (h.state_eq hp) ⟨rfl, w, h.with_last hp (some text)⟩
  rw [hfeed] at hprocess
  cases hs : g.process (p, []) (utf8 run) with
  | error e =>
    rw [hs] at hprocess
    cases hprocess
  | ok s' =>
    rw [hs] at hprocess
    exact ⟨s', rfl, hstate s' hs, p', hprocess, h.state_eq hp', hp'⟩

/-- A text, with the marks in it. -/
theorem process (n : ℕ) : ∀ {s w : List Char} {p : Parser σ τ ρ ε}, s.length < n → reads w p →
    UnsplitRuns mark 0 s → Allowed mark guard w s →
      ∃ s', g.process (p, []) (utf8 s) = .ok s' ∧ AfterText g state reads (w ++ s) s' := by
  induction n with
  | zero => exact fun hlt ↦ absurd hlt (Nat.not_lt_zero _)
  | succ n ih =>
    intro s w p hlt hp hunsplit hallowed
    -- a run up to a mark, the mark, and the rest, which is shorter
    obtain ⟨run, hrun, rfl | ⟨c, token, rest, hc, rfl⟩⟩ := exists_run mark s
    · rw [← List.append_nil s] at hunsplit
      exact h.process_run hp hrun (hunsplit.of_append hrun).1
    · obtain ⟨hunsplitRun, filled, hrest⟩ := hunsplit.of_append hrun
      obtain ⟨s₁, hprocess, h₁⟩ := h.process_run hp hrun hunsplitRun
      obtain ⟨hruns, b, hb, hfind⟩ := h.find_mark hc
      obtain ⟨p₁, hp₁, htoken⟩ := h₁.process_token hfind hruns (utf8 rest)
      have hmark : (mark c).isSome := by simp [hc]
      obtain ⟨p₂, hprocess₂, hp₂⟩ := h.mark hp₁ hc (hallowed run c rest rfl hmark)
      have hlt' : rest.length < n := by
        rw [List.length_append, List.length_cons] at hlt
        omega
      obtain ⟨s', hs', h'⟩ := ih hlt' (h.with_last hp₂ (some token)) (hrest.of_mark hmark)
        fun u d v hv hd ↦ by
          have hguard := hallowed (run ++ c :: u) d v (by simp [hv]) hd
          simpa using hguard
      refine ⟨s', ?_, by simpa using h'⟩
      rw [utf8_append, utf8_cons, hb, process_append, hprocess]
      refine htoken.trans ?_
      rw [process_token (by rwa [h.state_eq hp₁]) hruns, hprocess₂]
      exact hs'

/-- A text, and a token after it. -/
theorem process_then (hp : reads w p) (hunsplit : UnsplitRuns mark 0 s)
    (hallowed : Allowed mark guard w s) {c : Char} (hc : (mark c).isSome) (rest : List Char) :
    ∃ p', reads (w ++ s) p' ∧
      g.process (p, []) (utf8 (s ++ c :: rest)) = g.process (p', []) (utf8 (c :: rest)) := by
  obtain ⟨token, hc⟩ := Option.isSome_iff_exists.1 hc
  obtain ⟨s', hprocess, h'⟩ := h.process _ (Nat.lt_succ_self _) hp hunsplit hallowed
  obtain ⟨hruns, b, hb, hfind⟩ := h.find_mark hc
  obtain ⟨p', hp', htoken⟩ := h'.process_token hfind hruns (utf8 rest)
  refine ⟨p', hp', ?_⟩
  rw [utf8_append, utf8_cons, hb, process_append, hprocess]
  exact htoken

end Reads

end Grammar

end JPype.Html
