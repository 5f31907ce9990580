import JPype.Html.Parser

/-!
# Text in blocks

A run of text reaches the rules of a grammar in blocks of up to 1024 bytes, and every block is
decoded by itself (`Grammar.process_text`). A character whose bytes lie in two blocks is lost: it
becomes replacement characters (`decode_blocks`).
-/

namespace JPype.Html

open Unicode

/-! ### Blocks -/

/-- The blocks in which the buffer hands on bytes; `block` is what it has already. -/
def blocksFrom (block : List UInt8) : List UInt8 → List (List UInt8)
  | [] => if block = [] then [] else [block]
  | b :: bytes =>
    if block.length = Grammar.capacity then block :: blocksFrom [b] bytes
    else blocksFrom (block ++ [b]) bytes

/-- The blocks of a run of text. -/
def blocks (bytes : List UInt8) : List (List UInt8) :=
  blocksFrom [] bytes

theorem blocksFrom_append (block : List UInt8) {bytes : List UInt8} (rest : List UInt8)
    (h : block.length + bytes.length ≤ Grammar.capacity) :
    blocksFrom block (bytes ++ rest) = blocksFrom (block ++ bytes) rest := by
  induction bytes generalizing block with
  | nil => rw [List.nil_append, List.append_nil]
  | cons b bytes ih =>
    rw [List.length_cons] at h
    rw [List.cons_append, blocksFrom, if_neg (by omega), ih _ (by simp; omega), List.append_assoc,
      List.singleton_append]

theorem blocksFrom_full {block bytes : List UInt8} (hblock : block.length = Grammar.capacity)
    (hbytes : bytes ≠ []) : blocksFrom block bytes = block :: blocks bytes := by
  obtain ⟨b, bytes, rfl⟩ := List.exists_cons_of_ne_nil hbytes
  rw [blocksFrom, if_pos hblock]
  rfl

/-- Bytes that fit into one block. -/
theorem blocks_of_le {bytes : List UInt8} (h : bytes.length ≤ Grammar.capacity) :
    blocks bytes = if bytes = [] then [] else [bytes] := by
  have hfits : ([] : List UInt8).length + bytes.length ≤ Grammar.capacity := by simpa using h
  have happend := blocksFrom_append [] [] hfits
  rwa [List.append_nil, List.nil_append] at happend

/-- Bytes that do not. -/
theorem blocks_of_lt {bytes : List UInt8} (h : Grammar.capacity < bytes.length) :
    blocks bytes = bytes.take Grammar.capacity :: blocks (bytes.drop Grammar.capacity) := by
  have htake : (bytes.take Grammar.capacity).length = Grammar.capacity := by
    rw [List.length_take]
    omega
  have hdrop : bytes.drop Grammar.capacity ≠ [] := by
    intro hnil
    have := congrArg List.length hnil
    rw [List.length_drop, List.length_nil] at this
    omega
  have happend := blocksFrom_append [] (bytes.drop Grammar.capacity)
    (show _ + (bytes.take Grammar.capacity).length ≤ _ by simp [htake])
  rw [List.take_append_drop, List.nil_append, blocksFrom_full htake hdrop] at happend
  exact happend

theorem blocks_ne_nil {bytes : List UInt8} (h : bytes ≠ []) : blocks bytes ≠ [] := by
  by_cases hle : bytes.length ≤ Grammar.capacity
  · rw [blocks_of_le hle, if_neg h]
    exact List.cons_ne_nil _ _
  · rw [blocks_of_lt (by omega)]
    exact List.cons_ne_nil _ _

/-! ### Texts, read in blocks -/

/-- Where a character ends that begins in a block with `filled` bytes, or in the one after it. -/
def stop (filled : ℕ) (c : Char) : ℕ :=
  (if filled = Grammar.capacity then 0 else filled) + (String.utf8EncodeChar c).length

/-- The bytes of the last block, after the text `s`. -/
def filledBy (filled : ℕ) : List Char → ℕ
  | [] => filled
  | c :: s => filledBy (if stop filled c ≤ Grammar.capacity then stop filled c
      else stop filled c - Grammar.capacity) s

/-- No character of the text lies in two blocks. -/
def Unsplit (filled : ℕ) : List Char → Prop
  | [] => True
  | c :: s => stop filled c ≤ Grammar.capacity ∧ Unsplit (stop filled c) s

/-- What becomes of a text that is read in blocks. -/
def reread (filled : ℕ) : List Char → List Char
  | [] => []
  | c :: s =>
    if stop filled c ≤ Grammar.capacity then c :: reread (stop filled c) s
    else
      List.replicate (stop filled c - Grammar.capacity + 1) replacement ++
        reread (stop filled c - Grammar.capacity) s

instance decidableUnsplit (filled : ℕ) : ∀ s, Decidable (Unsplit filled s)
  | [] => isTrue trivial
  | c :: s =>
    have := decidableUnsplit (stop filled c) s
    inferInstanceAs (Decidable (_ ∧ _))

theorem reread_append (filled : ℕ) (s t : List Char) :
    reread filled (s ++ t) = reread filled s ++ reread (filledBy filled s) t := by
  induction s generalizing filled with
  | nil => rfl
  | cons c s ih =>
    rw [List.cons_append, reread, reread, filledBy]
    split
    · rw [ih, List.cons_append]
    · rw [ih, List.append_assoc]

theorem filledBy_append (filled : ℕ) (s t : List Char) :
    filledBy filled (s ++ t) = filledBy (filledBy filled s) t := by
  induction s generalizing filled with
  | nil => rfl
  | cons c s ih =>
    rw [List.cons_append, filledBy, filledBy, ih]

/-- A character of one byte is not split. -/
theorem stop_le {filled : ℕ} (hfilled : filled ≤ Grammar.capacity) {c : Char}
    (hc : (String.utf8EncodeChar c).length = 1) : stop filled c ≤ Grammar.capacity := by
  rw [stop, hc]
  split
  · decide
  · omega

theorem length_utf8Char_le (c : Char) : (String.utf8EncodeChar c).length ≤ 4 := by
  rw [String.length_utf8EncodeChar]
  exact Char.utf8Size_le_four c

theorem filledBy_le {filled : ℕ} (hfilled : filled ≤ Grammar.capacity) (s : List Char) :
    filledBy filled s ≤ Grammar.capacity := by
  induction s generalizing filled with
  | nil => exact hfilled
  | cons c s ih =>
    have hfour := length_utf8Char_le c
    rw [filledBy]
    refine ih ?_
    split
    · assumption
    · rw [stop, Grammar.capacity] at *
      split <;> omega

theorem reread_of_unsplit {filled : ℕ} {s : List Char} (h : Unsplit filled s) :
    reread filled s = s := by
  induction s generalizing filled with
  | nil => rfl
  | cons c s ih => rw [reread, if_pos h.1, ih h.2]

/-- A text that has no replacement characters and is read as a part of what it was is read as it
is. -/
theorem unsplit_of_isPrefix {filled : ℕ} {s : List Char} (hs : replacement ∉ s)
    (h : s <+: reread filled s) : Unsplit filled s := by
  induction s generalizing filled with
  | nil => trivial
  | cons c s ih =>
    rw [List.mem_cons, not_or] at hs
    rw [reread] at h
    split at h
    · next hle => exact ⟨hle, ih hs.2 (List.cons_prefix_cons.1 h).2⟩
    · rw [List.replicate_succ, List.cons_append] at h
      exact absurd (List.cons_prefix_cons.1 h).1.symm hs.1

theorem mem_reread {filled : ℕ} {s : List Char} {c : Char} (h : c ∈ reread filled s) :
    c ∈ s ∨ c = replacement := by
  induction s generalizing filled with
  | nil => cases h
  | cons d s ih =>
    rw [reread] at h
    split at h
    · obtain rfl | h := List.mem_cons.1 h
      · exact .inl List.mem_cons_self
      · exact (ih h).imp_left (List.mem_cons_of_mem _)
    · obtain h | h := List.mem_append.1 h
      · exact .inr (List.eq_of_mem_replicate h)
      · exact (ih h).imp_left (List.mem_cons_of_mem _)

theorem not_mem_reread {filled : ℕ} {s : List Char} {c : Char} (hc : c ≠ replacement) (h : c ∉ s) :
    c ∉ reread filled s :=
  fun hmem ↦ (mem_reread hmem).elim h hc

/-- A text that is not read as it is has a replacement character. -/
theorem replacement_mem_reread {filled : ℕ} {s : List Char} (h : ¬Unsplit filled s) :
    replacement ∈ reread filled s := by
  induction s generalizing filled with
  | nil => exact absurd trivial h
  | cons c s ih =>
    rw [reread]
    split
    · next hle => exact List.mem_cons_of_mem _ (ih fun hs ↦ h ⟨hle, hs⟩)
    · rw [List.replicate_succ]
      exact List.mem_cons_self

theorem length_le_reread (filled : ℕ) (s : List Char) : s.length ≤ (reread filled s).length := by
  induction s generalizing filled with
  | nil => exact Nat.le_refl _
  | cons c s ih =>
    rw [reread]
    split
    · rw [List.length_cons, List.length_cons]
      exact Nat.succ_le_succ (ih _)
    · have := ih (stop filled c - Grammar.capacity)
      rw [List.length_append, List.length_replicate, List.length_cons]
      omega

theorem reread_ne_nil {filled : ℕ} {s : List Char} (h : s ≠ []) : reread filled s ≠ [] := by
  have hlength := length_le_reread filled s
  intro hnil
  rw [hnil] at hlength
  exact h (List.length_eq_zero_iff.1 (Nat.le_zero.1 hlength))

theorem length_utf8Char_pos (c : Char) : 0 < (String.utf8EncodeChar c).length := by
  rw [← utf8Code_toNat]
  exact List.length_pos_iff.2 (utf8Code_ne_nil _)

/-- A text that fits into the block is not split. -/
theorem unsplit_of_le {filled : ℕ} {s : List Char}
    (h : filled + (utf8 s).length ≤ Grammar.capacity) : Unsplit filled s := by
  induction s generalizing filled with
  | nil => trivial
  | cons c s ih =>
    have hpos := length_utf8Char_pos c
    rw [utf8_cons, List.length_append] at h
    have hstop : stop filled c = filled + (String.utf8EncodeChar c).length := by
      rw [stop, if_neg (by omega)]
    refine ⟨by omega, ih ?_⟩
    omega

/-- What is decoded from a block does not depend on what follows. -/
def Closed (block : List UInt8) : Prop :=
  ∀ rest, decodeUtf8 (block ++ rest) = decodeUtf8 block ++ decodeUtf8 rest

theorem closed_utf8 (s : List Char) : Closed (utf8 s) := by
  intro rest
  rw [decodeUtf8_append, decodeUtf8_encode]

theorem Closed.append {block block' : List UInt8} (h : Closed block) (h' : Closed block') :
    Closed (block ++ block') := by
  intro rest
  rw [List.append_assoc, h, h', h, List.append_assoc]

theorem decodeUtf8_replicate {tail : List UInt8} (h : ∀ b ∈ tail, IsContinuation b) :
    decodeUtf8 tail = List.replicate tail.length replacement := by
  have htails := decodeUtf8_tails h []
  rwa [List.append_nil, show decodeUtf8 [] = [] from rfl, List.append_nil] at htails

/-- A character, cut in two. -/
theorem decode_cut {c : Char} {start rest : List UInt8}
    (h : String.utf8EncodeChar c = start ++ rest) (hstart : start ≠ []) (hrest : rest ≠ []) :
    decodeUtf8 start = [replacement] ∧ Closed rest ∧
      decodeUtf8 rest = List.replicate rest.length replacement := by
  obtain ⟨b, start, rfl⟩ := List.exists_cons_of_ne_nil hstart
  obtain ⟨lead, tail, henc, hisEnc⟩ := exists_isEncoding (toNat_lt c)
  rw [utf8Code_toNat, h, List.cons_append, List.cons.injEq] at henc
  obtain ⟨rfl, rfl⟩ := henc
  have hcont : ∀ b ∈ rest, IsContinuation b :=
    fun b hb ↦ hisEnc.continuation b (List.mem_append_right _ hb)
  refine ⟨decodeUtf8_cut hisEnc hrest, fun more ↦ ?_, decodeUtf8_replicate hcont⟩
  rw [decodeUtf8_tails hcont, decodeUtf8_replicate hcont]

/-- A full block, and an empty one after it. -/
theorem reread_capacity (s : List Char) : reread Grammar.capacity s = reread 0 s := by
  cases s with
  | nil => rfl
  | cons c s =>
    have hstop : stop Grammar.capacity c = stop 0 c := by
      rw [stop, stop, if_pos rfl, if_neg (by decide)]
    rw [reread, reread, hstop]

theorem decode_blocksFrom_nil (block : List UInt8) :
    (blocksFrom block (utf8 [])).flatMap decodeUtf8 =
      decodeUtf8 block ++ reread block.length [] := by
  rw [utf8_nil, blocksFrom, reread, List.append_nil]
  split
  · next h => rw [h]; rfl
  · simp

/-- Decoding text in blocks, after a block that is not full. -/
theorem decode_blocksFrom_of_lt (s : List Char) : ∀ block : List UInt8, Closed block →
    block.length < Grammar.capacity →
    (blocksFrom block (utf8 s)).flatMap decodeUtf8 =
      decodeUtf8 block ++ reread block.length s := by
  induction s with
  | nil => exact fun block _ _ ↦ decode_blocksFrom_nil block
  | cons c s ih =>
    -- the next block may be full
    have ih' : ∀ block : List UInt8, Closed block → block.length ≤ Grammar.capacity →
        (blocksFrom block (utf8 s)).flatMap decodeUtf8 =
          decodeUtf8 block ++ reread block.length s := by
      intro block hclosed hle
      obtain hlt | hfull := Nat.lt_or_eq_of_le hle
      · exact ih block hclosed hlt
      · by_cases hs : utf8 s = []
        · obtain rfl : s = [] := utf8_injective hs
          exact decode_blocksFrom_nil block
        · have hempty := ih [] (fun _ ↦ rfl) (by rw [Grammar.capacity]; decide)
          rw [blocksFrom_full hfull hs, List.flatMap_cons, blocks, hempty, hfull, reread_capacity]
          rfl
    intro block hclosed hlt
    have hstop : stop block.length c = block.length + (String.utf8EncodeChar c).length := by
      rw [stop, if_neg (Nat.ne_of_lt hlt)]
    have hfour := length_utf8Char_le c
    rw [utf8_cons, reread, hstop]
    split
    · next hle =>
      have hchar : Closed (String.utf8EncodeChar c) := by simpa using closed_utf8 [c]
      have hdecode : decodeUtf8 (String.utf8EncodeChar c) = [c] := by
        simpa using decodeUtf8_encode [c]
      rw [blocksFrom_append _ _ hle, ih' _ (hclosed.append hchar) (by simpa using hle),
        List.length_append, hclosed, hdecode, List.append_assoc, List.singleton_append]
    · next hgt =>
      obtain ⟨start, rest, henc, hlen⟩ : ∃ start rest, String.utf8EncodeChar c = start ++ rest ∧
          block.length + start.length = Grammar.capacity :=
        ⟨_, _, (List.take_append_drop (Grammar.capacity - block.length) _).symm, by
          rw [List.length_take]; omega⟩
      rw [henc, List.length_append] at hgt hfour ⊢
      have hrestPos : 0 < rest.length := by omega
      obtain ⟨hstart, hclosed', hrest⟩ := decode_cut henc
        (List.ne_nil_of_length_pos (by omega)) (List.ne_nil_of_length_pos hrestPos)
      have hne : rest ++ utf8 s ≠ [] := by
        intro hnil
        rw [(List.append_eq_nil_iff.1 hnil).1] at hrestPos
        exact absurd hrestPos (Nat.lt_irrefl 0)
      have hfull : (block ++ start).length = Grammar.capacity := by rw [List.length_append, hlen]
      have hsmall : ([] : List UInt8).length + rest.length ≤ Grammar.capacity := by
        rw [Grammar.capacity, List.length_nil]
        omega
      rw [List.append_assoc, blocksFrom_append _ _ (Nat.le_of_eq hlen), blocksFrom_full hfull hne,
        blocks,
        blocksFrom_append _ _ hsmall, List.nil_append, List.flatMap_cons,
        ih' rest hclosed' (by simpa using hsmall), hclosed, hstart, hrest,
        show block.length + (start.length + rest.length) - Grammar.capacity = rest.length by omega,
        List.replicate_succ]
      simp

/-- What is decoded from the blocks of a text. -/
theorem decode_blocks (s : List Char) : (blocks (utf8 s)).flatMap decodeUtf8 = reread 0 s :=
  decode_blocksFrom_of_lt s [] (fun _ ↦ rfl) (by rw [Grammar.capacity]; decide)

/-- The start of a text, in bytes: the characters before, and what remains of the one that is
cut. -/
theorem exists_take_utf8 (s : List Char) (n : ℕ) : ∃ t rest, t <+: s ∧
    (utf8 s).take n = utf8 t ++ rest ∧ (rest = [] ∨ decodeUtf8 rest = [replacement]) := by
  induction s generalizing n with
  | nil => exact ⟨[], [], List.prefix_rfl, by simp, .inl rfl⟩
  | cons c s ih =>
    by_cases hle : (String.utf8EncodeChar c).length ≤ n
    · obtain ⟨t, rest, hprefix, htake, hrest⟩ := ih (n - (String.utf8EncodeChar c).length)
      refine ⟨c :: t, rest, List.cons_prefix_cons.2 ⟨rfl, hprefix⟩, ?_, hrest⟩
      rw [utf8_cons, List.take_append, List.take_of_length_le hle, htake, utf8_cons,
        List.append_assoc]
    · refine ⟨[], (String.utf8EncodeChar c).take n, List.nil_prefix, ?_, ?_⟩
      · rw [utf8_cons, List.take_append_of_le_length (by omega)]
        rfl
      · obtain rfl | hpos := Nat.eq_zero_or_pos n
        · exact .inl List.take_zero
        · refine .inr (decode_cut (List.take_append_drop n _).symm ?_ ?_).1
          · exact List.ne_nil_of_length_pos (by rw [List.length_take]; omega)
          · exact List.ne_nil_of_length_pos (by rw [List.length_drop]; omega)

/-- The first block of a text that has been read in blocks before: all of it, or not the text. -/
theorem exists_blocks (filled : ℕ) {s : List Char} (hs : replacement ∉ s) (hne : s ≠ []) :
    ∃ block rest, blocks (utf8 (reread filled s)) = block :: rest ∧ decodeUtf8 block ≠ [] ∧
      ((utf8 (reread filled s)).length ≤ Grammar.capacity →
        rest = [] ∧ decodeUtf8 block = reread filled s) ∧
      (Grammar.capacity < (utf8 (reread filled s)).length → rest ≠ [] ∧ decodeUtf8 block ≠ s) := by
  obtain hlt | hle := Nat.lt_or_ge Grammar.capacity (utf8 (reread filled s)).length
  · obtain ⟨t, rest, hprefix, htake, hrest⟩ :=
      exists_take_utf8 (reread filled s) Grammar.capacity
    have hlength : (utf8 t ++ rest).length = Grammar.capacity := by
      rw [← htake, List.length_take, Nat.min_eq_left (Nat.le_of_lt hlt)]
    have hdecode : decodeUtf8 (utf8 t ++ rest) = t ++ decodeUtf8 rest := by
      rw [closed_utf8, decodeUtf8_encode]
    refine ⟨_, _, blocks_of_lt hlt, ?_, fun hle ↦ absurd hle (Nat.not_le_of_lt hlt), fun _ ↦
      ⟨?_, ?_⟩⟩
    · rw [htake, hdecode]
      intro hnil
      rw [List.append_eq_nil_iff] at hnil
      obtain rfl | hrest := hrest
      · rw [hnil.1] at hlength
        exact absurd hlength (by decide)
      · rw [hrest] at hnil
        exact absurd hnil.2 (List.cons_ne_nil _ _)
    · refine blocks_ne_nil (List.ne_nil_of_length_pos ?_)
      rw [List.length_drop]
      exact Nat.sub_pos_of_lt hlt
    · rw [htake, hdecode]
      intro heq
      obtain rfl | hrest := hrest
      · -- the block would be all of the text
        obtain rfl : t = s := by rwa [show decodeUtf8 [] = [] from rfl, List.append_nil] at heq
        rw [reread_of_unsplit (unsplit_of_isPrefix hs hprefix), ← hlength, List.append_nil] at hlt
        exact Nat.lt_irrefl _ hlt
      · rw [hrest] at heq
        exact hs (by simp [← heq])
  · have hutf8 : utf8 (reread filled s) ≠ [] := fun hnil ↦ reread_ne_nil hne (utf8_injective hnil)
    refine ⟨_, [], by rw [blocks_of_le hle, if_neg hutf8],
      by rw [decodeUtf8_encode]; exact reread_ne_nil hne,
      fun _ ↦ ⟨rfl, decodeUtf8_encode _⟩, fun hlt ↦ absurd hle (Nat.not_le_of_lt hlt)⟩

/-! ### A run of text -/

namespace Grammar

variable {σ τ ρ ε : Type} [DecidableEq τ] (g : Grammar σ τ ρ ε) (text : τ)

/-- A block of text, as a token. -/
def feedBlock (p : Parser σ τ ρ ε) (block : List UInt8) :
    Attempt (Parser σ τ ρ ε) (Parser σ τ ρ ε) :=
  g.processToken p (some text) (.string (decodeUtf8 block))

/-- The blocks of some bytes, as tokens. -/
def feed (p : Parser σ τ ρ ε) (bytes : List UInt8) : Attempt (Parser σ τ ρ ε) (Parser σ τ ρ ε) :=
  (blocks bytes).foldlM (g.feedBlock text) (if bytes = [] then p else { p with last := some text })

variable {g text} {state : σ} {keeps : Parser σ τ ρ ε → Prop}

/-- The bytes of a run of text, in a state that the text keeps. -/
structure IsRun (g : Grammar σ τ ρ ε) (text : τ) (state : σ) (keeps : Parser σ τ ρ ε → Prop)
    (bytes : List UInt8) : Prop where
  runs : g.runs text
  find : ∀ b ∈ bytes, (g.getTokens state).find? (g.matchesByte · b) = some text
  state_eq : ∀ p, keeps p → p.state = state
  last_eq : ∀ p, keeps p → p.last = some text
  step : ∀ p p' block, keeps p → g.feedBlock text p block = .ok p' → keeps p'

omit [DecidableEq τ] in
theorem IsRun.tail {b : UInt8} {bytes : List UInt8} (h : IsRun g text state keeps (b :: bytes)) :
    IsRun g text state keeps bytes :=
  ⟨h.runs, fun b' hb' ↦ h.find b' (List.mem_cons_of_mem _ hb'), h.state_eq, h.last_eq, h.step⟩

omit [DecidableEq τ] in
theorem flushTokens_eq_feedBlock {p : Parser σ τ ρ ε} (hlast : p.last = some text)
    {block : List UInt8} (hne : block ≠ []) :
    g.flushTokens (p, block) = g.feedBlock text p block >>= fun p ↦ .ok (p, []) := by
  obtain ⟨b, block, rfl⟩ := List.exists_cons_of_ne_nil hne
  rw [flushTokens, feedBlock]
  dsimp only
  rw [hlast]

omit [DecidableEq τ] in
theorem mark_last {p : Parser σ τ ρ ε} (hlast : p.last = some text) :
    { p with last := some text } = p := by
  rw [← hlast]

theorem processByte_text {p : Parser σ τ ρ ε} (hlast : p.last = some text) (hruns : g.runs text)
    {b : UInt8} (hfind : (g.getTokens p.state).find? (g.matchesByte · b) = some text)
    {block : List UInt8} (hne : block ≠ []) :
    g.processByte (p, block) b =
      if block.length = capacity then
        g.feedBlock text p block >>= fun p ↦ .ok ({ p with last := some text }, [b])
      else
        .ok (p, block ++ [b]) := by
  have hflush : g.flushIf (p.last ≠ some text) (p, block) = .ok (p, block) :=
    if_neg (not_not.2 hlast)
  rw [processByte, hfind]
  dsimp only
  rw [if_pos hruns, hflush]
  show (g.flushIf (block.length = capacity) (p, block) >>= _) = _
  rw [flushIf]
  split
  · rw [flushTokens_eq_feedBlock hlast hne]
    cases g.feedBlock text p block <;> rfl
  · show Except.ok ({ p with last := some text }, block ++ [b]) = _
    rw [mark_last hlast]

/-- With bytes in the buffer, a run of text is handed on in blocks. -/
theorem process_block {bytes : List UInt8} (h : IsRun g text state keeps bytes) :
    ∀ (p : Parser σ τ ρ ε) (block : List UInt8), keeps p → block ≠ [] →
      (g.process (p, block) bytes >>= g.flushTokens) =
          ((blocksFrom block bytes).foldlM (g.feedBlock text) p >>= fun p ↦ .ok (p, [])) ∧
        ∀ s, g.process (p, block) bytes = .ok s → s.1.state = state := by
  induction bytes with
  | nil =>
    intro p block hp hne
    refine ⟨?_, fun s hs ↦ ?_⟩
    · rw [blocksFrom, if_neg hne, List.foldlM_cons]
      show g.flushTokens (p, block) = _
      rw [flushTokens_eq_feedBlock (h.last_eq p hp) hne]
      cases g.feedBlock text p block <;> rfl
    · obtain rfl := Except.ok.inj hs
      exact h.state_eq p hp
  | cons b bytes ih =>
    intro p block hp hne
    have hfind : (g.getTokens p.state).find? (g.matchesByte · b) = some text := by
      rw [h.state_eq p hp]
      exact h.find b List.mem_cons_self
    rw [process, List.foldlM_cons, processByte_text (h.last_eq p hp) h.runs hfind hne, blocksFrom]
    split
    · -- the block is full
      rw [List.foldlM_cons]
      cases hfeed : g.feedBlock text p block with
      | error e => exact ⟨rfl, fun s hs ↦ nomatch hs⟩
      | ok p' =>
        have hp' := h.step p p' block hp hfeed
        have hih := ih h.tail p' [b] hp' (List.cons_ne_nil _ _)
        show (g.process ({ p' with last := some text }, [b]) bytes >>= g.flushTokens) = _ ∧
          ∀ s, g.process ({ p' with last := some text }, [b]) bytes = .ok s → _
        rwa [mark_last (h.last_eq p' hp')]
    · exact ih h.tail p (block ++ [b]) hp (by simp)

/-- A run of text, up to the next flush. -/
theorem process_text {bytes : List UInt8} (h : IsRun g text state keeps bytes)
    {p : Parser σ τ ρ ε} (hstate : p.state = state) (hp : keeps { p with last := some text }) :
    (g.process (p, []) bytes >>= g.flushTokens) =
        (g.feed text p bytes >>= fun p ↦ .ok (p, [])) ∧
      ∀ s, g.process (p, []) bytes = .ok s → s.1.state = state := by
  cases bytes with
  | nil =>
    refine ⟨rfl, fun s hs ↦ ?_⟩
    obtain rfl := Except.ok.inj hs
    exact hstate
  | cons b bytes =>
    have hfind : (g.getTokens p.state).find? (g.matchesByte · b) = some text := by
      rw [hstate]
      exact h.find b List.mem_cons_self
    have hbyte : g.processByte (p, []) b = .ok ({ p with last := some text }, [b]) := by
      have hflush : ∀ (c : Prop) [Decidable c], g.flushIf c (p, []) = .ok (p, []) := by
        intro c _
        rw [flushIf]
        split <;> rfl
      rw [processByte, hfind]
      dsimp only
      rw [if_pos h.runs, hflush]
      show (g.flushIf (([] : List UInt8).length = capacity) (p, []) >>= _) = _
      rw [hflush]
      rfl
    have hblock := process_block h.tail { p with last := some text } [b] hp (List.cons_ne_nil _ _)
    rw [process, List.foldlM_cons, hbyte, feed, if_neg (List.cons_ne_nil _ _)]
    exact hblock

/-- A token that is not text. -/
def mark (token : τ) (s : Buffered σ τ ρ ε) : Attempt (Parser σ τ ρ ε) (Buffered σ τ ρ ε) := do
  let p ← g.processToken s.1 (some token) .null
  .ok ({ p with last := some token }, s.2)

/-- A byte that is a token, and not text. -/
theorem processByte_eq_mark {s : Buffered σ τ ρ ε} (hs : s.1.state = state) {b : UInt8} {token : τ}
    (hfind : (g.getTokens state).find? (g.matchesByte · b) = some token)
    (hruns : g.runs token = false) : g.processByte s b = g.flushTokens s >>= g.mark token := by
  rw [processByte, hs, hfind]
  dsimp only
  rw [if_neg (by simp [hruns])]
  rfl

/-- A token that comes after no text. -/
theorem process_token {p : Parser σ τ ρ ε} {b : UInt8} {token : τ}
    (hfind : (g.getTokens p.state).find? (g.matchesByte · b) = some token)
    (hruns : g.runs token = false) (rest : List UInt8) :
    g.process (p, []) (b :: rest) = (do
      let p ← g.processToken p (some token) .null
      g.process ({ p with last := some token }, []) rest) := by
  rw [process, List.foldlM_cons, processByte, hfind]
  dsimp only
  rw [if_neg (by simp [hruns])]
  show (g.processToken p (some token) .null >>= _) >>= _ = _
  rw [bind_assoc]
  rfl

/-- A run of text, and the token that ends it. -/
theorem process_text_then {bytes : List UInt8} (h : IsRun g text state keeps bytes)
    {p : Parser σ τ ρ ε} (hstate : p.state = state) (hp : keeps { p with last := some text })
    {b : UInt8} {token : τ} (hfind : (g.getTokens state).find? (g.matchesByte · b) = some token)
    (hruns : g.runs token = false) (rest : List UInt8) :
    g.process (p, []) (bytes ++ b :: rest) = (do
      let p ← g.feed text p bytes
      let p ← g.processToken p (some token) .null
      g.process ({ p with last := some token }, []) rest) := by
  obtain ⟨hflush, hstate'⟩ := process_text h hstate hp
  rw [process, List.foldlM_append, ← process]
  cases hprocess : g.process (p, []) bytes with
  | error e =>
    rw [hprocess] at hflush
    cases hfeed : g.feed text p bytes with
    | error e' =>
      rw [hfeed] at hflush
      exact congrArg Except.error (Except.error.inj hflush)
    | ok p' =>
      rw [hfeed] at hflush
      cases hflush
  | ok s =>
    rw [hprocess] at hflush
    show (List.foldlM g.processByte s (b :: rest)) = _
    rw [List.foldlM_cons, processByte_eq_mark (hstate' s hprocess) hfind hruns]
    replace hflush : g.flushTokens s = _ := hflush
    rw [hflush]
    cases g.feed text p bytes with
    | error e => rfl
    | ok p' =>
      show ((g.mark token (p', [])) >>= _) = g.processToken p' (some token) .null >>= _
      rw [mark]
      cases g.processToken p' (some token) .null <;> rfl

end Grammar

end JPype.Html
