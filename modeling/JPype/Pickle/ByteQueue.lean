import JPype.Foundation.Traces
import JPype.Pickle.Codec
import Mathlib.Algebra.GroupWithZero.Nat

/-!
# The stream of the decoder, as a queue of bytes

`ByteBufferInputStream` here with its `ByteBuffer`s, their positions, and the arrays that a read
fills. Its reads are those of the decoder's model, on what remains of the buffers (`read_eq`,
`readLoop_eq`), and so every operation does what it does to a queue of bytes (`step_eq`).

After any sequence of operations, what has been delivered is a prefix of what has been put, and the
next operation answers from the rest of it (`lossless`).
-/

namespace JPype.Pickle

open Foundation

/-- What a method of the stream or of its buffers throws, or that its loop does not end. -/
inductive StreamFault where
  | indexOutOfBounds
  | bufferUnderflow
  | endless
  deriving DecidableEq, Repr

/-- A `java.nio.ByteBuffer` that wraps a whole array. -/
structure ByteBuffer where
  bytes : List UInt8
  position : ℕ
  position_le : position ≤ bytes.length

namespace ByteBuffer

/-- `ByteBuffer.wrap` -/
def wrap (bytes : List UInt8) : ByteBuffer :=
  ⟨bytes, 0, Nat.zero_le _⟩

/-- `remaining` -/
def remaining (b : ByteBuffer) : ℕ :=
  b.bytes.length - b.position

/-- The bytes between the position and the limit. -/
def rest (b : ByteBuffer) : List UInt8 :=
  b.bytes.drop b.position

/-- `get()` -/
def get (b : ByteBuffer) : Except StreamFault (UInt8 × ByteBuffer) :=
  if h : b.position < b.bytes.length then
    .ok (b.bytes[b.position], ⟨b.bytes, b.position + 1, h⟩)
  else .error .bufferUnderflow

/-- `get(byte[], int, int)`: the array afterwards, and the buffer. -/
def getArray (b : ByteBuffer) (dst : List UInt8) (offset length : ℕ) :
    Except StreamFault (List UInt8 × ByteBuffer) :=
  if dst.length < offset + length then .error .indexOutOfBounds
  else if h : b.position + length ≤ b.bytes.length then
    .ok (dst.take offset ++ b.rest.take length ++ dst.drop (offset + length),
      ⟨b.bytes, b.position + length, h⟩)
  else .error .bufferUnderflow

@[simp]
theorem length_rest (b : ByteBuffer) : b.rest.length = b.remaining :=
  List.length_drop

@[simp]
theorem rest_wrap (bytes : List UInt8) : (wrap bytes).rest = bytes :=
  rfl

theorem get_of_rest {b : ByteBuffer} {x : UInt8} {xs : List UInt8} (h : b.rest = x :: xs) :
    ∃ b' : ByteBuffer, b.get = .ok (x, b') ∧ b'.rest = xs := by
  have hlt : b.position < b.bytes.length := by
    by_contra hle
    rw [rest, List.drop_of_length_le (Nat.not_lt.1 hle)] at h
    exact absurd h (List.cons_ne_nil x xs).symm
  rw [rest, List.drop_eq_getElem_cons hlt, List.cons.injEq] at h
  exact ⟨⟨b.bytes, b.position + 1, hlt⟩, by rw [get, dif_pos hlt, h.1], h.2⟩

theorem getArray_of_le (b : ByteBuffer) {dst : List UInt8} {offset length : ℕ}
    (hdst : offset + length ≤ dst.length) (hlength : length ≤ b.remaining) :
    ∃ b' : ByteBuffer, b.getArray dst offset length =
        .ok (dst.take offset ++ b.rest.take length ++ dst.drop (offset + length), b') ∧
      b'.rest = b.rest.drop length := by
  have hle : b.position + length ≤ b.bytes.length := by
    have hposition := b.position_le
    rw [remaining] at hlength
    omega
  refine ⟨⟨b.bytes, b.position + length, hle⟩, ?_, ?_⟩
  · rw [getArray, if_neg (Nat.not_lt.2 hdst), dif_pos hle]
  · rw [rest, rest, List.drop_drop]

end ByteBuffer

/-! ### The stream -/

namespace ByteBufferInputStream

/-- `put` -/
def put (bytes : List UInt8) (buffers : List ByteBuffer) : List ByteBuffer :=
  buffers ++ [ByteBuffer.wrap bytes]

/-- `read()` -/
def read : List ByteBuffer → Except StreamFault (ℤ × List ByteBuffer)
  | [] => .ok (-1, [])
  | b :: buffers =>
    if b.remaining = 0 then read buffers
    else do
      let (x, b) ← b.get
      .ok (x.toNat, b :: buffers)

/-- The variables of the loop of `read(byte[], int, int)`, and the buffers. -/
structure Bulk where
  buffers : List ByteBuffer
  buffer : List UInt8
  offset : ℕ
  len : ℕ
  total : ℕ

/-- The loop of `read(byte[], int, int)`. -/
def readLoop : ℕ → Bulk → Except StreamFault Bulk
  | 0, _ => .error .endless
  | fuel + 1, s =>
    match s.buffers with
    | [] => .ok s
    | b :: buffers =>
      if s.len = 0 then .ok s
      else if b.remaining = 0 then readLoop fuel { s with buffers := buffers }
      else do
        let toRead := min s.len b.remaining
        let (buffer, b) ← b.getArray s.buffer s.offset toRead
        readLoop fuel
          { buffers := b :: buffers
            buffer := buffer
            offset := s.offset + toRead
            len := s.len - toRead
            total := s.total + toRead }

/-- `read(byte[], int, int)`: the result and the array, and the buffers. Every buffer takes at most
two turns. -/
def readArray (buffer : List UInt8) (offset len : ℤ) (buffers : List ByteBuffer) :
    Except StreamFault ((ℤ × List UInt8) × List ByteBuffer) :=
  if offset < 0 ∨ len < 0 ∨ buffer.length - offset < len then .error .indexOutOfBounds
  else if len = 0 then .ok ((0, buffer), buffers)
  else do
    let s ← readLoop (2 * buffers.length + 1) ⟨buffers, buffer, offset.toNat, len.toNat, 0⟩
    .ok ((if s.total = 0 then -1 else s.total, s.buffer), s.buffers)

/-- What remains of the buffers: the stream as the decoder has it. -/
def rests (buffers : List ByteBuffer) : List (List UInt8) :=
  buffers.map ByteBuffer.rest

/-- The bytes that have been put and not been read. -/
def pending (buffers : List ByteBuffer) : List UInt8 :=
  (rests buffers).flatten

theorem pending_put (bytes : List UInt8) (buffers : List ByteBuffer) :
    pending (put bytes buffers) = pending buffers ++ bytes := by
  simp [pending, rests, put]

/-- `read()`, on what remains. -/
theorem read_eq (buffers : List ByteBuffer) : ∃ buffers',
    read buffers =
        .ok ((JPype.ByteBufferInputStream.read (rests buffers)).1.elim (-1) fun x ↦ x.toNat,
          buffers') ∧
      rests buffers' = (JPype.ByteBufferInputStream.read (rests buffers)).2 := by
  induction buffers with
  | nil => exact ⟨[], rfl, rfl⟩
  | cons b buffers ih =>
    rw [read, rests, List.map_cons, ← rests]
    cases hrest : b.rest with
    | nil =>
      rw [if_pos (by rw [← b.length_rest, hrest, List.length_nil])]
      exact ih
    | cons x xs =>
      obtain ⟨b', hget, hb'⟩ := ByteBuffer.get_of_rest hrest
      rw [if_neg (by rw [← b.length_rest, hrest, List.length_cons]; omega), hget]
      refine ⟨b' :: buffers, rfl, ?_⟩
      rw [rests, List.map_cons, hb', ← rests]
      rfl

/-- The turns that the buffers take at most. -/
def turns (buffers : List ByteBuffer) : ℕ :=
  (buffers.map fun b ↦ if b.remaining = 0 then 1 else 2).sum

theorem turns_le (buffers : List ByteBuffer) : turns buffers ≤ 2 * buffers.length := by
  induction buffers with
  | nil => exact Nat.le_refl _
  | cons b buffers ih =>
    rw [turns, List.map_cons, List.sum_cons, ← turns, List.length_cons]
    split_ifs <;> omega

/-- An array with bytes written from an index on. -/
def fill (buffer : List UInt8) (offset : ℕ) (bytes : List UInt8) : List UInt8 :=
  buffer.take offset ++ bytes ++ buffer.drop (offset + bytes.length)

/-- What is written after what has been written. -/
theorem fill_fill (buffer : List UInt8) (offset : ℕ) (bytes more : List UInt8)
    (hroom : offset + bytes.length ≤ buffer.length) :
    fill (fill buffer offset bytes) (offset + bytes.length) more =
      fill buffer offset (bytes ++ more) := by
  have hlen : (buffer.take offset ++ bytes).length = offset + bytes.length := by
    rw [List.length_append, List.length_take]
    omega
  rw [fill, fill, ← hlen, List.take_left, List.drop_length_add_append, hlen, List.drop_drop, fill,
    List.length_append, List.append_assoc (buffer.take offset), Nat.add_assoc]

/-- A turn that copies. -/
theorem readLoop_copy (fuel : ℕ) (b : ByteBuffer) (buffers : List ByteBuffer) (total : ℕ)
    {buffer : List UInt8} {offset len : ℕ} (hlen : len ≠ 0) (hb : b.remaining ≠ 0)
    (hroom : offset + len ≤ buffer.length) :
    ∃ b' : ByteBuffer, b'.rest = b.rest.drop (min len b.remaining) ∧
      readLoop (fuel + 1) ⟨b :: buffers, buffer, offset, len, total⟩ =
        readLoop fuel ⟨b' :: buffers, fill buffer offset (b.rest.take (min len b.remaining)),
          offset + min len b.remaining, len - min len b.remaining,
          total + min len b.remaining⟩ := by
  have hle : min len b.remaining ≤ b.remaining := Nat.min_le_right _ _
  have hlt : offset + min len b.remaining ≤ buffer.length := by omega
  obtain ⟨b', hget, hb'⟩ := b.getArray_of_le hlt hle
  have htake : (b.rest.take (min len b.remaining)).length = min len b.remaining := by
    rw [List.length_take, b.length_rest, Nat.min_eq_left hle]
  refine ⟨b', hb', ?_⟩
  rw [readLoop]
  dsimp only
  rw [if_neg hlen, if_neg hb, hget, fill, htake]
  rfl

/-- The loop, on what remains: it ends, and has copied what the decoder's model delivers. -/
theorem readLoop_eq {fuel : ℕ} {s : Bulk} {bytes : List UInt8} {buffers' : List (List UInt8)}
    (hfuel : (if s.len = 0 then 0 else turns s.buffers) < fuel)
    (hroom : s.offset + s.len ≤ s.buffer.length)
    (hdecoder : JPype.ByteBufferInputStream.readLoop s.len (rests s.buffers) = (bytes, buffers')) :
    ∃ s', readLoop fuel s = .ok s' ∧ s'.buffer = fill s.buffer s.offset bytes ∧
      s'.total = s.total + bytes.length ∧ rests s'.buffers = buffers' := by
  -- Each turn copies from the first buffer, or drops it when it is empty.
  induction fuel generalizing s bytes buffers' with
  | zero => exact absurd hfuel (Nat.not_lt_zero _)
  | succ fuel ih =>
    obtain ⟨buffers, buffer, offset, len, total⟩ := s
    dsimp only at hfuel hroom hdecoder ⊢
    have hdone : fill buffer offset [] = buffer := by simp [fill]
    cases buffers with
    | nil =>
      have hnil : JPype.ByteBufferInputStream.readLoop len [] = ([], []) := by
        cases len <;> rw [JPype.ByteBufferInputStream.readLoop]
      obtain ⟨rfl, rfl⟩ := Prod.mk.inj (hnil.symm.trans hdecoder)
      exact ⟨_, rfl, hdone.symm, rfl, rfl⟩
    | cons b buffers =>
      cases len with
      | zero =>
        rw [JPype.ByteBufferInputStream.readLoop] at hdecoder
        obtain ⟨rfl, rfl⟩ := Prod.mk.inj hdecoder
        exact ⟨_, rfl, hdone.symm, rfl, rfl⟩
      | succ len =>
        rw [if_neg (Nat.succ_ne_zero len), turns, List.map_cons, List.sum_cons, ← turns] at hfuel
        rw [rests, List.map_cons, ← rests, JPype.ByteBufferInputStream.readLoop] at hdecoder
        by_cases hempty : b.remaining = 0
        · rw [dif_pos (by rw [b.length_rest, hempty])] at hdecoder
          rw [if_pos hempty] at hfuel
          rw [readLoop]
          dsimp only
          rw [if_neg (Nat.succ_ne_zero len), if_pos hempty]
          refine ih ?_ hroom hdecoder
          rw [if_neg (Nat.succ_ne_zero len)]
          show turns buffers < fuel
          omega
        · rw [dif_neg (by rwa [b.length_rest])] at hdecoder
          dsimp only at hdecoder
          rw [b.length_rest] at hdecoder
          rw [if_neg hempty] at hfuel
          obtain ⟨b', hb', hturn⟩ := readLoop_copy fuel b buffers total
            (Nat.succ_ne_zero len) hempty hroom
          have htoRead : 0 < min (len + 1) b.remaining := by omega
          have hcopied : (b.rest.take (min (len + 1) b.remaining)).length =
              min (len + 1) b.remaining := by
            rw [List.length_take, b.length_rest]
            omega
          have hb'len : b'.remaining = b.remaining - min (len + 1) b.remaining := by
            rw [← b'.length_rest, hb', List.length_drop, b.length_rest]
          rcases hrest : JPype.ByteBufferInputStream.readLoop
            (len + 1 - min (len + 1) b.remaining)
            (b.rest.drop (min (len + 1) b.remaining) :: rests buffers) with ⟨more, rest⟩
          rw [hrest] at hdecoder
          obtain ⟨rfl, rfl⟩ := Prod.mk.inj hdecoder
          -- `n` bytes are copied in this turn; the others are those of the turns to come.
          generalize hn : min (len + 1) b.remaining = n at *
          rw [hturn]
          have hnext : JPype.ByteBufferInputStream.readLoop (len + 1 - n) (rests (b' :: buffers)) =
              (more, rest) := by
            rw [← hrest, rests, List.map_cons, hb', ← rests]
          have hturns : (if len + 1 - n = 0 then 0 else turns (b' :: buffers)) < fuel := by
            rw [turns, List.map_cons, List.sum_cons, ← turns, hb'len]
            split_ifs <;> omega
          have hfits : offset + n + (len + 1 - n) ≤
              (fill buffer offset (b.rest.take n)).length := by
            rw [fill, hcopied, List.length_append, List.length_append, List.length_take, hcopied,
              List.length_drop]
            omega
          obtain ⟨s', hs', hbuffer, htotal, hrests⟩ := ih (s := ⟨b' :: buffers,
            fill buffer offset (b.rest.take n), offset + n, len + 1 - n, total + n⟩)
            hturns hfits hnext
          refine ⟨s', hs', ?_, ?_, hrests⟩
          · have hfilled := fill_fill buffer offset (b.rest.take n) more (by omega)
            rw [hcopied] at hfilled
            exact hbuffer.trans hfilled
          · rw [htotal, List.length_append, hcopied]
            exact Nat.add_assoc _ _ _

/-- `read(byte[], int, int)`, on what is pending. -/
theorem readArray_eq {buffer : List UInt8} {offset len : ℤ} (hoffset : 0 ≤ offset) (hlen : 0 < len)
    (hroom : len ≤ buffer.length - offset) (buffers : List ByteBuffer) : ∃ buffers',
    readArray buffer offset len buffers =
        .ok ((if pending buffers = [] then -1 else (min len.toNat (pending buffers).length : ℕ),
          fill buffer offset.toNat ((pending buffers).take len.toNat)), buffers') ∧
      pending buffers' = (pending buffers).drop len.toNat := by
  obtain ⟨hbytes, hrest⟩ := JPype.ByteBufferInputStream.readLoop_flatten len.toNat (rests buffers)
  rcases hdecoder : JPype.ByteBufferInputStream.readLoop len.toNat (rests buffers)
    with ⟨bytes, rest⟩
  rw [hdecoder] at hbytes hrest
  dsimp only at hbytes hrest
  have hturns : (if len.toNat = 0 then 0 else turns buffers) < 2 * buffers.length + 1 := by
    rw [if_neg (by omega)]
    exact Nat.lt_succ_of_le (turns_le buffers)
  have hfits : offset.toNat + len.toNat ≤ buffer.length := by omega
  obtain ⟨s, hs, hbuffer, htotal, hrests⟩ := readLoop_eq
    (s := ⟨buffers, buffer, offset.toNat, len.toNat, 0⟩) hturns hfits hdecoder
  have htotal : s.total = min len.toNat (pending buffers).length := by
    rw [htotal, hbytes, Nat.zero_add, List.length_take, pending]
  have hempty : s.total = 0 ↔ pending buffers = [] := by
    rw [htotal, ← List.length_eq_zero_iff]
    omega
  refine ⟨s.buffers, ?_, ?_⟩
  · rw [readArray, if_neg (by omega), if_neg (by omega), hs, pending, ← hbytes]
    dsimp only at hbuffer
    rw [← hbuffer]
    refine congrArg (fun r : ℤ ↦ Except.ok ((r, s.buffer), s.buffers)) ?_
    rw [← pending, ← htotal]
    exact if_congr hempty rfl rfl
  · rw [pending, hrests, hrest, pending]

/-! ### Any sequence of operations -/

/-- An operation on the stream, with its arguments. -/
inductive Operation where
  | put (bytes : List UInt8)
  | read
  | readAll (buffer : List UInt8)
  | readArray (buffer : List UInt8) (offset len : ℤ)
  deriving DecidableEq, Repr

/-- What an operation gives: of a read into an array, the result and the array afterwards. -/
inductive Answer where
  | put
  | byte (result : ℤ)
  | array (result : ℤ) (buffer : List UInt8)
  | thrown (fault : StreamFault)
  deriving DecidableEq, Repr

/-- The answer of a read into an array. -/
def bulkAnswer (buffers : List ByteBuffer) :
    Except StreamFault ((ℤ × List UInt8) × List ByteBuffer) → Answer × List ByteBuffer
  | .ok ((result, buffer), buffers) => (.array result buffer, buffers)
  | .error fault => (.thrown fault, buffers)

/-- An operation on the stream. Where it throws the stream stays as it is: only the check of the
arguments throws, before the buffers are touched (`step_eq`). -/
def step (buffers : List ByteBuffer) : Operation → Answer × List ByteBuffer
  | .put bytes => (.put, put bytes buffers)
  | .read =>
    match read buffers with
    | .ok (result, buffers) => (.byte result, buffers)
    | .error fault => (.thrown fault, buffers)
  | .readAll buffer => bulkAnswer buffers (readArray buffer 0 buffer.length buffers)
  | .readArray buffer offset len => bulkAnswer buffers (readArray buffer offset len buffers)

/-! ### A queue of bytes -/

/-- A bulk read from a queue takes the bytes that are available, up to `len`. -/
def queueBulk (available buffer : List UInt8) (offset len : ℤ) : Answer × List UInt8 :=
  if offset < 0 ∨ len < 0 ∨ buffer.length - offset < len then (.thrown .indexOutOfBounds, available)
  else if len = 0 then (.array 0 buffer, available)
  else if available = [] then (.array (-1) buffer, [])
  else
    (.array (min len available.length) (fill buffer offset.toNat (available.take len.toNat)),
      available.drop len.toNat)

/-- An operation on a queue of the bytes that are available. -/
def queueStep (available : List UInt8) : Operation → Answer × List UInt8
  | .put bytes => (.put, available ++ bytes)
  | .read => (.byte (available.head?.elim (-1) fun x ↦ x.toNat), available.tail)
  | .readAll buffer => queueBulk available buffer 0 buffer.length
  | .readArray buffer offset len => queueBulk available buffer offset len

theorem bulkAnswer_eq (buffers : List ByteBuffer) (buffer : List UInt8) (offset len : ℤ) :
    (bulkAnswer buffers (readArray buffer offset len buffers)).1 =
        (queueBulk (pending buffers) buffer offset len).1 ∧
      pending (bulkAnswer buffers (readArray buffer offset len buffers)).2 =
        (queueBulk (pending buffers) buffer offset len).2 := by
  by_cases hbounds : offset < 0 ∨ len < 0 ∨ buffer.length - offset < len
  · rw [readArray, if_pos hbounds, queueBulk, if_pos hbounds]
    exact ⟨rfl, rfl⟩
  by_cases hzero : len = 0
  · rw [readArray, if_neg hbounds, if_pos hzero, queueBulk, if_neg hbounds, if_pos hzero]
    exact ⟨rfl, rfl⟩
  have hroom : len ≤ buffer.length - offset := by omega
  obtain ⟨buffers', heq, hpending⟩ := readArray_eq (by omega) (by omega) hroom buffers
  rw [heq, queueBulk, if_neg hbounds, if_neg hzero, bulkAnswer]
  dsimp only
  by_cases hempty : pending buffers = []
  · rw [if_pos hempty, if_pos hempty, hempty, List.take_nil]
    exact ⟨congrArg (Answer.array (-1)) (by simp [fill]), by rw [hpending, hempty, List.drop_nil]⟩
  · rw [if_neg hempty, if_neg hempty]
    refine ⟨congrArg (Answer.array · _) ?_, hpending⟩
    omega

/-- Every operation does to the stream what it does to a queue of the bytes that are pending. -/
theorem step_eq (buffers : List ByteBuffer) (op : Operation) :
    (step buffers op).1 = (queueStep (pending buffers) op).1 ∧
      pending (step buffers op).2 = (queueStep (pending buffers) op).2 := by
  cases op with
  | put bytes => exact ⟨rfl, pending_put bytes buffers⟩
  | read =>
    obtain ⟨buffers', hread, hrests⟩ := read_eq buffers
    obtain ⟨hhead, htail⟩ := JPype.ByteBufferInputStream.read_flatten (rests buffers)
    rw [step, hread, hhead]
    exact ⟨rfl, by rw [queueStep, pending, hrests, htail, pending]⟩
  | readAll buffer => exact bulkAnswer_eq buffers buffer 0 buffer.length
  | readArray buffer offset len => exact bulkAnswer_eq buffers buffer offset len

/-! ### What is delivered -/

/-- The bytes that an operation puts. -/
def Operation.bytes : Operation → List UInt8
  | .put bytes => bytes
  | _ => []

/-- The bytes that a caller gets: the byte returned, or as many as the result says from `offset` on
in the array. -/
def Answer.taken (offset : ℤ) : Answer → List UInt8
  | .byte result => if result = -1 then [] else [UInt8.ofNat result.toNat]
  | .array result buffer => (buffer.drop offset.toNat).take result.toNat
  | _ => []

/-- The offset at which an operation writes. -/
def Operation.offset : Operation → ℤ
  | .readArray _ offset _ => offset
  | _ => 0

/-- The stream after the operations. -/
def after (buffers : List ByteBuffer) (ops : List Operation) : List ByteBuffer :=
  run (fun buffers op ↦ (step buffers op).2) buffers ops

/-- The bytes that the operations put. -/
def puts (ops : List Operation) : List UInt8 :=
  ops.flatMap Operation.bytes

/-- The bytes that the operations deliver. -/
def delivered (buffers : List ByteBuffer) (ops : List Operation) : List UInt8 :=
  (List.zipWith (fun op answer ↦ answer.taken op.offset) ops
    ((trace step buffers ops).map Prod.fst)).flatten

theorem taken_queueBulk (available buffer : List UInt8) (offset len : ℤ) :
    (queueBulk available buffer offset len).1.taken offset ++
      (queueBulk available buffer offset len).2 = available := by
  rw [queueBulk]
  split_ifs with hbounds hzero hempty
  · rfl
  · rfl
  · exact hempty.symm
  · have hfront : (buffer.take offset.toNat).length = offset.toNat := by
      rw [List.length_take]
      omega
    have hcount : (min len (available.length : ℤ)).toNat = (available.take len.toNat).length := by
      rw [List.length_take]
      omega
    rw [Answer.taken, fill, List.append_assoc, List.drop_left' hfront, hcount, List.take_left,
      List.take_append_drop]

/-- What an operation on the queue delivers comes from its front. -/
theorem taken_queueStep (available : List UInt8) (op : Operation) :
    (queueStep available op).1.taken op.offset ++ (queueStep available op).2 =
      available ++ op.bytes := by
  cases op with
  | put bytes => rfl
  | read =>
    cases available with
    | nil => rfl
    | cons x available =>
      have hx : (x.toNat : ℤ) ≠ -1 := by omega
      rw [queueStep, List.head?_cons, Option.elim_some, Answer.taken, if_neg hx]
      simp [Operation.bytes]
  | readAll buffer => exact (taken_queueBulk _ _ _ _).trans (List.append_nil _).symm
  | readArray buffer offset len => exact (taken_queueBulk _ _ _ _).trans (List.append_nil _).symm

/-- Only an empty queue says that it has ended. -/
theorem queueStep_ended {available buffer : List UInt8} {op : Operation}
    (h : (queueStep available op).1 = .byte (-1) ∨
      (queueStep available op).1 = .array (-1) buffer) : available = [] := by
  have hbulk : ∀ array offset len, (queueBulk available array offset len).1 = .byte (-1) ∨
      (queueBulk available array offset len).1 = .array (-1) buffer → available = [] := by
    intro array offset len h
    by_contra hempty
    rw [queueBulk] at h
    by_cases hbounds : offset < 0 ∨ len < 0 ∨ array.length - offset < len
    · rw [if_pos hbounds] at h
      exact h.elim Answer.noConfusion Answer.noConfusion
    · rw [if_neg hbounds] at h
      by_cases hzero : len = 0
      · rw [if_pos hzero] at h
        exact h.elim Answer.noConfusion fun h ↦ absurd (Answer.array.inj h).1 (by decide)
      · rw [if_neg hzero, if_neg hempty] at h
        refine h.elim Answer.noConfusion fun h ↦ absurd (Answer.array.inj h).1 ?_
        omega
  cases op with
  | put bytes => exact h.elim Answer.noConfusion Answer.noConfusion
  | read =>
    cases available with
    | nil => rfl
    | cons x available =>
      refine h.elim (fun h ↦ absurd (Answer.byte.inj h) ?_) Answer.noConfusion
      rw [List.head?_cons, Option.elim_some]
      omega
  | readAll array => exact hbulk _ _ _ h
  | readArray array offset len => exact hbulk _ _ _ h

theorem delivered_append_pending (buffers : List ByteBuffer) (ops : List Operation) :
    delivered buffers ops ++ pending (after buffers ops) = pending buffers ++ puts ops := by
  induction ops generalizing buffers with
  | nil => exact (List.append_nil _).symm
  | cons op ops ih =>
    obtain ⟨hanswer, hpending⟩ := step_eq buffers op
    have hstep := taken_queueStep (pending buffers) op
    rw [← hanswer, ← hpending] at hstep
    calc delivered buffers (op :: ops) ++ pending (after buffers (op :: ops))
        = (step buffers op).1.taken op.offset ++
            (delivered (step buffers op).2 ops ++ pending (after (step buffers op).2 ops)) := by
          rw [← List.append_assoc]
          rfl
      _ = (step buffers op).1.taken op.offset ++ pending (step buffers op).2 ++ puts ops := by
          rw [ih, List.append_assoc]
      _ = pending buffers ++ puts (op :: ops) := by
          rw [hstep, List.append_assoc]
          rfl

/-- The bytes that have been put by operations on a new stream and have not been delivered. -/
def available (ops : List Operation) : List UInt8 :=
  (puts ops).drop (delivered [] ops).length

/-- What holds of a new stream after operations: what it has delivered is the start of what has been
put, whatever comes next answers as a queue of the rest does, and says that the stream has ended
only when nothing is left. -/
structure Lossless (ops : List Operation) : Prop where
  delivered_prefix : delivered [] ops <+: puts ops
  next : ∀ op, (step (after [] ops) op).1 = (queueStep (available ops) op).1
  ended : ∀ op buffer, (step (after [] ops) op).1 = .byte (-1) ∨
    (step (after [] ops) op).1 = .array (-1) buffer → delivered [] ops = puts ops

theorem pending_after (ops : List Operation) : pending (after [] ops) = available ops := by
  have happend : delivered [] ops ++ pending (after [] ops) = puts ops :=
    delivered_append_pending [] ops
  rw [available, ← happend, List.drop_left]

/-- `ByteBufferInputStream` is a queue of bytes, whatever operations are performed on it. -/
theorem lossless (ops : List Operation) : Lossless ops := by
  have happend : delivered [] ops ++ pending (after [] ops) = puts ops :=
    delivered_append_pending [] ops
  refine ⟨⟨_, happend⟩, fun op ↦ ?_, fun op buffer h ↦ ?_⟩
  · rw [(step_eq _ op).1, pending_after]
  · rw [(step_eq _ op).1] at h
    rw [queueStep_ended h, List.append_nil] at happend
    exact happend

end ByteBufferInputStream

end JPype.Pickle
