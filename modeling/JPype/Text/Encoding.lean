import Mathlib.Algebra.Group.Nat.Defs
import Mathlib.Data.List.Basic

/-!
# The string encodings

`JPEncodingUTF8`, `JPEncodingJavaUTF8` and `transcribe`, which carry every string between Python
(UTF-8) and the JVM (modified UTF-8 of UTF-16).

A byte is a `UInt8`; an `unsigned int` is a natural number, reduced modulo `2 ^ 32` at the one
subtraction that can go below zero. The source stream is the bytes not read yet and the end of
file flag, which reading or peeking at the end sets and which then ends `transcribe`'s loop. The
loop has no bound in the source; here it runs on one unit of fuel for each byte and one more, and
`none` is a loop that needed more.
-/

namespace JPype

/-- What `fetch` returns for a bad coding, `(unsigned int) - 1`, and what `get` and `peek` return
at the end of the stream. -/
def badCoding : ℕ := 0xFFFFFFFF

/-- `std::istream` over a buffer. -/
structure InStream where
  /-- The bytes not extracted yet. -/
  bytes : List UInt8
  /-- `eofbit` -/
  eof : Bool
  deriving DecidableEq, Repr

namespace InStream

/-- `in.get()`. A stream that is not good extracts nothing. -/
def get (s : InStream) : ℕ × InStream :=
  if s.eof then (badCoding, s)
  else
    match s.bytes with
    | [] => (badCoding, { s with eof := true })
    | b :: rest => (b.toNat, { s with bytes := rest })

/-- `in.peek()` -/
def peek (s : InStream) : ℕ × InStream :=
  if s.eof then (badCoding, s)
  else
    match s.bytes with
    | [] => (badCoding, { s with eof := true })
    | b :: _ => (b.toNat, s)

end InStream

/-- `JPEncoding` -/
structure JPEncoding where
  /-- Store a code point in an outgoing buffer: the bytes put. -/
  encode : ℕ → List UInt8
  /-- Retrieve a code point from an incoming buffer. -/
  fetch : InStream → ℕ × InStream

/-- `JPEncodingUTF8::encode` -/
def encodeUTF8 (c : ℕ) : List UInt8 :=
  if c < 0x80 then [.ofNat (c &&& 0xff)]
  else if c < 0x800 then
    [.ofNat (0xc0 + ((c >>> 6) &&& 0x1f)), .ofNat (0x80 + ((c >>> 0) &&& 0x3f))]
  else if c < 0x10000 then
    [.ofNat (0xe0 + ((c >>> 12) &&& 0x0f)), .ofNat (0x80 + ((c >>> 6) &&& 0x3f)),
      .ofNat (0x80 + ((c >>> 0) &&& 0x3f))]
  else if c < 0x110000 then
    [.ofNat (0xf0 + ((c >>> 18) &&& 0x07)), .ofNat (0x80 + ((c >>> 12) &&& 0x3f)),
      .ofNat (0x80 + ((c >>> 6) &&& 0x3f)), .ofNat (0x80 + ((c >>> 0) &&& 0x3f))]
  else []

/-- `JPEncodingUTF8::fetch` -/
def fetchUTF8 (s : InStream) : ℕ × InStream :=
  let (c0, s) := s.get
  if s.eof then (badCoding, s)
  else if c0 &&& 0x80 = 0 then (c0, s)
  else
    let (c1, s) := s.get
    if s.eof then (badCoding, s)
    else if c0 &&& 0xe0 = 0xc0 then
      if c1 &&& 0xc0 = 0x80 then (((c0 &&& 0x1f) <<< 6) + (c1 &&& 0x3f), s)
      else (badCoding, s)
    else
      let (c2, s) := s.get
      if s.eof then (badCoding, s)
      else if c0 &&& 0xf0 = 0xe0 then
        if c1 &&& 0xc0 = 0x80 ∧ c2 &&& 0xc0 = 0x80 then
          (((c0 &&& 0xf) <<< 12) + ((c1 &&& 0x3f) <<< 6) + (c2 &&& 0x3f), s)
        else (badCoding, s)
      else
        let (c3, s) := s.get
        if s.eof then (badCoding, s)
        else if c0 &&& 0xf8 = 0xf0 then
          if c1 &&& 0xc0 = 0x80 ∧ c2 &&& 0xc0 = 0x80 ∧ c3 &&& 0xc0 = 0x80 then
            (((c0 &&& 0xf) <<< 18) + ((c1 &&& 0x3f) <<< 12) + ((c2 &&& 0x3f) <<< 6) +
              (c3 &&& 0x3f), s)
          else (badCoding, s)
        else (badCoding, s)

/-- `JPEncodingJavaUTF8::encode` -/
def encodeJavaUTF8 (c : ℕ) : List UInt8 :=
  if c = 0 then [0xc0, 0x80]
  else if c < 0x80 then [.ofNat (c &&& 0xff)]
  else if c < 0x800 then
    [.ofNat (0xc0 + ((c >>> 6) &&& 0x1f)), .ofNat (0x80 + ((c >>> 0) &&& 0x3f))]
  else if c < 0xd800 ∨ (0xe000 ≤ c ∧ c < 0x10000) then
    [.ofNat (0xe0 + ((c >>> 12) &&& 0x0f)), .ofNat (0x80 + ((c >>> 6) &&& 0x3f)),
      .ofNat (0x80 + ((c >>> 0) &&& 0x3f))]
  else if c < 0x110000 then
    let c := (c + 2 ^ 32 - 0x10000) % 2 ^ 32
    [0xed, .ofNat (0xa0 + ((c >>> 16) &&& 0xf)), .ofNat (0x80 + ((c >>> 10) &&& 0x3f)),
      0xed, .ofNat (0xb0 + ((c >>> 6) &&& 0xf)), .ofNat (0x80 + ((c >>> 0) &&& 0x3f))]
  else []

/-- The end of `JPEncodingJavaUTF8::fetch`, for a code `out` that is a surrogate: unless the next
byte starts three, the surrogate is alone; otherwise those three bytes are taken for the second
half of a pair, whatever they encode. -/
def fetchSecond (out : ℕ) (s : InStream) : ℕ × InStream :=
  let (next, s) := s.peek
  if next = badCoding ∨ next &&& 0xf0 ≠ 0xe0 then (out, s)
  else
    let (c0, s) := s.get
    let (c1, s) := s.get
    let (c2, s) := s.get
    let next := ((c0 &&& 0xf) <<< 12) + ((c1 &&& 0x3f) <<< 6) + (c2 &&& 0x3f)
    if s.eof then (badCoding, s)
    else
      let q1 := out &&& 0x3ff
      let q2 := next &&& 0x3ff
      (0x10000 + (q1 <<< 10) + q2, s)

/-- `JPEncodingJavaUTF8::fetch` -/
def fetchJavaUTF8 (s : InStream) : ℕ × InStream :=
  let (c0, s) := s.get
  if s.eof then (badCoding, s)
  else if c0 &&& 0x80 = 0 then (c0, s)
  else
    let (c1, s) := s.get
    if s.eof then (badCoding, s)
    else if c0 &&& 0xe0 = 0xc0 then
      if c1 &&& 0xc0 = 0x80 then (((c0 &&& 0x1f) <<< 6) + (c1 &&& 0x3f), s)
      else (badCoding, s)
    else
      let (c2, s) := s.get
      if s.eof then (badCoding, s)
      else if c0 &&& 0xf0 = 0xe0 ∧ c1 &&& 0xc0 = 0x80 ∧ c2 &&& 0xc0 = 0x80 then
        let out := ((c0 &&& 0xf) <<< 12) + ((c1 &&& 0x3f) <<< 6) + (c2 &&& 0x3f)
        if out &&& 0xf800 ≠ 0xd800 then (out, s) else fetchSecond out s
      else (badCoding, s)

/-- `JPEncodingUTF8` -/
def JPEncodingUTF8 : JPEncoding where
  encode := encodeUTF8
  fetch := fetchUTF8

/-- `JPEncodingJavaUTF8` -/
def JPEncodingJavaUTF8 : JPEncoding where
  encode := encodeJavaUTF8
  fetch := fetchJavaUTF8

/-- The loop of `transcribe`, with `out` written so far. -/
def transcribeLoop (source target : JPEncoding) :
    ℕ → InStream → List UInt8 → Option (List UInt8)
  | 0, _, _ => none
  | fuel + 1, s, out =>
    if s.eof then some out
    else
      let (coding, s) := source.fetch s
      -- at the end of the stream, and on a bad coding, the string is what has been written
      if coding = badCoding then some out
      else transcribeLoop source target fuel s (out ++ target.encode coding)

/-- `transcribe` past the ASCII bypass. -/
def transcribeSlow (source target : JPEncoding) (bytes : List UInt8) : Option (List UInt8) :=
  transcribeLoop source target (bytes.length + 1) { bytes := bytes, eof := false } []

/-- `transcribe` -/
def transcribe (source target : JPEncoding) (bytes : List UInt8) : Option (List UInt8) :=
  if bytes.any fun b ↦ b.toNat &&& 0x80 ≠ 0 ∨ b = 0 then transcribeSlow source target bytes
  else some bytes

end JPype
