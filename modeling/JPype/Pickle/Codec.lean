import JPype.Java.InputStream

/-!
# Packing and unpacking Java objects

The `Encoder` writes all objects to one object stream and cuts it into arrays, and the `Decoder`
reads them back from one stream. The two classes of Java that do the work, `ObjectOutputStream` and
`ObjectInputStream`, are parameters. Of these it is assumed that an object that has been written can
be read at the point of the stream where it was written (`ReadsBack`).

The buffer of the encoder is reset only when `pack` succeeds, and what `unpack` does not read stays
in the buffers of the decoder. So a failure shifts everything after it, unless the call that throws
wrote nothing or had nothing to read (`unpackAll_intact`).
-/

namespace JPype

/-! ### The stream of the decoder -/

namespace ByteBufferInputStream

/-- `put` -/
def put (bytes : List UInt8) (buffers : List (List UInt8)) : List (List UInt8) :=
  buffers ++ [bytes]

/-- `read()`: buffers that are read up are removed. -/
def read : List (List UInt8) → Option UInt8 × List (List UInt8)
  | [] => (none, [])
  | [] :: buffers => read buffers
  | (x :: b) :: buffers => (some x, b :: buffers)

/-- The loop of `read(byte[], int, int)`, with the bytes that it copies. -/
def readLoop : ℕ → List (List UInt8) → List UInt8 × List (List UInt8)
  | 0, buffers => ([], buffers)
  | _ + 1, [] => ([], [])
  | len + 1, b :: buffers =>
    let toRead := min (len + 1) b.length
    if h : b.length = 0 then readLoop (len + 1) buffers
    else
      let (bytes, buffers) := readLoop (len + 1 - toRead) (b.drop toRead :: buffers)
      (b.take toRead ++ bytes, buffers)
termination_by len buffers => len + buffers.length
decreasing_by all_goals (simp only [List.length_cons]; omega)

/-- `read(byte[], int, int)`, with a valid range. -/
def readArray (len : ℕ) (buffers : List (List UInt8)) :
    Option (List UInt8) × List (List UInt8) :=
  if len = 0 then (some [], buffers)
  else
    let (bytes, buffers) := readLoop len buffers
    (if bytes.length = 0 then none else some bytes, buffers)

/-- `InputStream.skip`, which reads the bytes away. -/
def skip (n : ℕ) (buffers : List (List UInt8)) : ℤ × List (List UInt8) :=
  ((readLoop n buffers).1.length, (readLoop n buffers).2)

theorem read_flatten (buffers : List (List UInt8)) :
    (read buffers).1 = buffers.flatten.head? ∧ (read buffers).2.flatten = buffers.flatten.tail := by
  induction buffers with
  | nil => exact ⟨rfl, rfl⟩
  | cons b buffers ih =>
    cases b with
    | nil => exact ih
    | cons x b => exact ⟨rfl, rfl⟩

/-- The loop goes from one buffer to the next. -/
theorem readLoop_flatten (len : ℕ) (buffers : List (List UInt8)) :
    (readLoop len buffers).1 = buffers.flatten.take len ∧
      (readLoop len buffers).2.flatten = buffers.flatten.drop len := by
  induction len, buffers using readLoop.induct with
  | case1 buffers => simp [readLoop]
  | case2 len => simp [readLoop]
  | case3 len b buffers h ih =>
    obtain rfl : b = [] := List.length_eq_zero_iff.1 h
    simpa [readLoop] using ih
  | case4 len b buffers toRead h bytes rest hrest ih =>
    have hlen : (b.take toRead).length = toRead := by
      rw [List.length_take]
      omega
    have hsplit : (b :: buffers).flatten =
        b.take toRead ++ (b.drop toRead :: buffers).flatten := by
      rw [List.flatten_cons, List.flatten_cons, ← List.append_assoc, List.take_append_drop]
    have hloop : readLoop (len + 1) (b :: buffers) = (b.take toRead ++ bytes, rest) := by
      rw [readLoop, dif_neg h]
      dsimp only
      rw [show readLoop (len + 1 - min (len + 1) b.length) _ = (bytes, rest) from hrest]
    rw [hrest] at ih
    obtain ⟨hbytes, hflat⟩ := ih
    dsimp only at hbytes hflat
    have htake : (b.take toRead).take (len + 1) = b.take toRead :=
      List.take_of_length_le (by omega)
    have hdrop : (b.take toRead).drop (len + 1) = [] := List.drop_of_length_le (by omega)
    rw [hloop, hsplit, List.take_append, List.drop_append, hlen, htake, hdrop, ← hbytes, ← hflat]
    exact ⟨rfl, rfl⟩

/-- The stream keeps the contract of `InputStream`, and is only short at its end. -/
def stream : InputStream (List (List UInt8)) where
  content := List.flatten
  read := read
  readArray := readArray
  skip := skip
  read_nil {s} h := by
    obtain ⟨hfirst, hrest⟩ := read_flatten s
    rw [hfirst, hrest, h]
    exact ⟨rfl, rfl⟩
  read_cons {s x rest} h := by
    obtain ⟨hfirst, hrest⟩ := read_flatten s
    rw [hfirst, hrest, h]
    exact ⟨rfl, rfl⟩
  readArray_zero := ⟨rfl, rfl⟩
  readArray_nil {n s} hn h := by
    obtain ⟨hbytes, hrest⟩ := readLoop_flatten n s
    rw [h, List.take_nil] at hbytes
    rw [h, List.drop_nil] at hrest
    rw [readArray, if_neg (Nat.ne_of_gt hn)]
    refine ⟨?_, hrest⟩
    show (if (readLoop n s).1.length = 0 then none else some (readLoop n s).1) = none
    rw [hbytes]
    rfl
  readArray_short {n s} hn h := by
    obtain ⟨hbytes, hrest⟩ := readLoop_flatten n s
    have hpos : 0 < s.flatten.length := List.length_pos_iff.2 h
    refine ⟨min n s.flatten.length, by omega, by omega, by omega, ?_, ?_⟩
    · rw [readArray, if_neg (Nat.ne_of_gt hn)]
      show (if (readLoop n s).1.length = 0 then none else some (readLoop n s).1) = _
      rw [hbytes, List.length_take, if_neg (by omega), ← List.take_eq_take_min]
    · rw [readArray, if_neg (Nat.ne_of_gt hn)]
      show (readLoop n s).2.flatten = _
      rw [hrest, ← List.drop_eq_drop_min]
  skip_short {n s} := by
    obtain ⟨hbytes, hrest⟩ := readLoop_flatten n s
    refine ⟨min n s.flatten.length, ?_, by omega, by omega, ?_⟩
    · show _ = ((readLoop n s).1.length : ℤ).toNat
      rw [hbytes, List.length_take, Int.toNat_natCast]
    · show (readLoop n s).2.flatten = _
      rw [hrest, ← List.drop_eq_drop_min]

end ByteBufferInputStream
/-! ### Object streams -/

/-- `java.io.ObjectOutputStream`, with its states `W`, and `java.io.ObjectInputStream`, whose state
is given by the bytes that it has read. -/
structure ObjectStreams (Obj W Err : Type) where
  /-- What the constructor of the output stream writes. -/
  header : List UInt8
  initial : W
  /-- What `writeObject` appends until it returns or throws. -/
  writeObject : W → Obj → List UInt8 × Except Err Unit × W
  /-- The constructor of the input stream. -/
  readHeader : StreamReader (Except Err Unit)
  readObject : List UInt8 → StreamReader (Except Err Obj)

/-- `org.jpype.pickle.Encoder` -/
structure Encoder (W : Type) where
  oos : W
  baos : List UInt8

/-- `org.jpype.pickle.Decoder`, with what its object stream has read, if there is one. -/
structure Decoder where
  bb : List (List UInt8)
  ois : Option (List UInt8)

namespace ObjectStreams

variable {Obj W Err : Type} (io : ObjectStreams Obj W Err)

/-- The constructor of `Encoder`. -/
def newEncoder : Encoder W where
  oos := io.initial
  baos := io.header

/-- `Encoder.pack` -/
def pack (encoder : Encoder W) (obj : Obj) : Except Err (List UInt8) × Encoder W :=
  match io.writeObject encoder.oos obj with
  | (bytes, .error e, oos) => (.error e, ⟨oos, encoder.baos ++ bytes⟩)
  | (bytes, .ok (), oos) => (.ok (encoder.baos ++ bytes), ⟨oos, []⟩)

/-- The arrays that a sequence of calls of `pack` returns, each with the object in it. -/
def packAll : Encoder W → List Obj → List (List UInt8 × Obj)
  | _, [] => []
  | encoder, obj :: objs =>
    match io.pack encoder obj with
    | (.error _, encoder) => packAll encoder objs
    | (.ok out, encoder) => (out, obj) :: packAll encoder objs

/-- The constructor of `Decoder`. -/
def newDecoder : Decoder where
  bb := []
  ois := none

/-- `ois.readObject()`, where `ois` has read `read`. -/
def readNext (read : List UInt8) (bb : List (List UInt8)) : Except Err Obj × Decoder :=
  let (result, bb') := (io.readObject read).run ByteBufferInputStream.stream bb
  (result, ⟨bb', some (read ++ bb.flatten.take (bb.flatten.length - bb'.flatten.length))⟩)

/-- `Decoder.unpack` -/
def unpack (decoder : Decoder) (data : List UInt8) : Except Err Obj × Decoder :=
  let bb := ByteBufferInputStream.put data decoder.bb
  match decoder.ois with
  | some read => io.readNext read bb
  | none =>
    match io.readHeader.run ByteBufferInputStream.stream bb with
    | (.error e, bb') => (.error e, ⟨bb', none⟩)
    | (.ok (), bb') =>
      io.readNext (bb.flatten.take (bb.flatten.length - bb'.flatten.length)) bb'

/-- The results of a sequence of calls of `unpack`. -/
def unpackAll : Decoder → List (List UInt8) → List (Except Err Obj)
  | _, [] => []
  | decoder, data :: datas =>
    (io.unpack decoder data).1 :: unpackAll (io.unpack decoder data).2 datas

/-! ### What is assumed and what is claimed -/

/-- `written` is what the output stream has written when it is in the state `w`, if nothing was
written by a call that threw. -/
inductive Point : W → List UInt8 → Prop where
  | start : Point io.initial io.header
  | written {w written obj bytes w'} : Point w written →
      io.writeObject w obj = (bytes, .ok (), w') → Point w' (written ++ bytes)
  | thrown {w written obj e w'} : Point w written →
      io.writeObject w obj = ([], .error e, w') → Point w' written

/-- What has been written successfully can be read at the same point of the stream. -/
structure ReadsBack : Prop where
  readHeader : io.readHeader.Reads io.header (.ok ())
  /-- There is no object stream without a header. -/
  readHeader_nil : ∀ {σ : Type} (is : InputStream σ) {s : σ}, is.content s = [] →
    ∃ e, (io.readHeader.run is s).1 = .error e
  readObject : ∀ {w written obj bytes w'}, io.Point w written →
    io.writeObject w obj = (bytes, .ok (), w') → (io.readObject written).Reads bytes (.ok obj)

/-- In the calls of `pack`, nothing is written by one that throws. -/
def ThrowsClean : Encoder W → List Obj → Prop
  | _, [] => True
  | encoder, obj :: objs =>
    (∀ bytes e w', io.writeObject encoder.oos obj = (bytes, .error e, w') → bytes = []) ∧
      ThrowsClean (io.pack encoder obj).2 objs

/-- The arrays among the calls of `unpack` that were packed, with what is in them. -/
def intact (calls : List (List UInt8 × Option Obj)) : List (List UInt8 × Obj) :=
  calls.filterMap fun call ↦ call.2.map fun obj ↦ (call.1, obj)

/-- Every array that was packed is unpacked to what is in it. -/
def Unpacks (calls : List (List UInt8 × Option Obj)) (results : List (Except Err Obj)) : Prop :=
  calls.Forall₂ (fun call result ↦ ∀ obj, call.2 = some obj → result = .ok obj) results

/-! ### Runs -/

variable {io} {written pending bytes : List UInt8} {obj : Obj} {w w' : W}

/-- The arrays are the consecutive pieces of a stream in which `written` has been written before,
where the first array has `pending` in front. -/
def Chain (io : ObjectStreams Obj W Err) :
    List UInt8 → List UInt8 → List (List UInt8 × Obj) → Prop
  | _, _, [] => True
  | written, pending, (out, obj) :: rest => ∃ bytes, out = pending ++ bytes ∧
      (io.readObject written).Reads bytes (.ok obj) ∧ Chain io (written ++ bytes) [] rest

/-- Calls that throw without writing leave no trace in the arrays. -/
theorem chain_packAll (hio : io.ReadsBack) {objs : List Obj} (hpoint : io.Point w written)
    (hclean : io.ThrowsClean ⟨w, pending⟩ objs) :
    Chain io written pending (io.packAll ⟨w, pending⟩ objs) := by
  induction objs generalizing w written pending with
  | nil => trivial
  | cons obj objs ih =>
    obtain ⟨hthrown, hclean⟩ := hclean
    rcases hwrite : io.writeObject w obj with ⟨bytes, e | _, w'⟩
    · obtain rfl : bytes = [] := hthrown bytes e w' hwrite
      have hpack : io.pack ⟨w, pending⟩ obj = (.error e, ⟨w', pending⟩) := by
        rw [pack, hwrite]
        simp
      rw [hpack] at hclean
      rw [packAll, hpack]
      exact ih (.thrown hpoint hwrite) hclean
    · have hpack : io.pack ⟨w, pending⟩ obj = (.ok (pending ++ bytes), ⟨w', []⟩) := by
        rw [pack, hwrite]
      rw [hpack] at hclean
      rw [packAll, hpack]
      exact ⟨bytes, rfl, hio.readObject hpoint hwrite, ih (.written hpoint hwrite) hclean⟩

/-- Everything has been read, up to the point where `written` had been written; at the beginning,
the header is still `pending`. -/
structure Ready (io : ObjectStreams Obj W Err) (decoder : Decoder) (written pending : List UInt8) :
    Prop where
  bb : decoder.bb.flatten = []
  ois : decoder.ois = some written ∧ pending = [] ∨
    decoder.ois = none ∧ written = io.header ∧ pending = io.header

theorem ready_newDecoder : Ready io newDecoder io.header io.header :=
  ⟨rfl, .inr ⟨rfl, rfl, rfl⟩⟩

theorem flatten_put {bb : List (List UInt8)} (h : bb.flatten = []) (data : List UInt8) :
    (ByteBufferInputStream.put data bb).flatten = data := by
  rw [ByteBufferInputStream.put, List.flatten_append, h, List.flatten_singleton, List.nil_append]

/-- Reading an object that is there. -/
theorem readNext_of_reads {bb : List (List UInt8)} (hbb : bb.flatten = bytes)
    (hreads : (io.readObject written).Reads bytes (.ok obj)) :
    (io.readNext written bb).1 = .ok obj ∧
      Ready io (io.readNext written bb).2 (written ++ bytes) [] := by
  obtain ⟨hresult, hrest⟩ := hreads _ ByteBufferInputStream.stream bb []
    (hbb.trans (List.append_nil bytes).symm)
  have hflat : ((io.readObject written).run ByteBufferInputStream.stream bb).2.flatten = [] := hrest
  rw [readNext]
  refine ⟨hresult, hflat, .inl ⟨?_, rfl⟩⟩
  show some _ = some _
  rw [hflat, hbb, List.length_nil, Nat.sub_zero, List.take_length]

/-- An array that comes next is unpacked to what is in it. -/
theorem unpack_of_reads (hio : io.ReadsBack) {decoder : Decoder}
    (hready : Ready io decoder written pending)
    (hreads : (io.readObject written).Reads bytes (.ok obj)) :
    (io.unpack decoder (pending ++ bytes)).1 = .ok obj ∧
      Ready io (io.unpack decoder (pending ++ bytes)).2 (written ++ bytes) [] := by
  have hput := flatten_put hready.bb (pending ++ bytes)
  obtain ⟨hois, rfl⟩ | ⟨hois, rfl, rfl⟩ := hready.ois
  · rw [unpack, hois]
    exact readNext_of_reads hput hreads
  · -- the first array begins with the header
    obtain ⟨hresult, hrest⟩ := hio.readHeader _ ByteBufferInputStream.stream
      (ByteBufferInputStream.put (io.header ++ bytes) decoder.bb) bytes hput
    rw [unpack, hois]
    rcases hrun : io.readHeader.run ByteBufferInputStream.stream
      (ByteBufferInputStream.put (io.header ++ bytes) decoder.bb) with ⟨e | _, bb'⟩
    · rw [hrun] at hresult
      cases hresult
    · have hflat : bb'.flatten = bytes := by
        rw [hrun] at hrest
        exact hrest
      dsimp only
      rw [hput, hflat, List.length_append, Nat.add_sub_cancel, List.take_left]
      exact readNext_of_reads hflat hreads

/-- A call that has nothing to read changes nothing. -/
theorem unpack_nil (hio : io.ReadsBack) {decoder : Decoder}
    (hready : Ready io decoder written pending) :
    Ready io (io.unpack decoder []).2 written pending := by
  have hput := flatten_put hready.bb []
  obtain ⟨hois, rfl⟩ | ⟨hois, rfl, rfl⟩ := hready.ois
  · have hflat := StreamReader.content_run_of_nil ByteBufferInputStream.stream
      (io.readObject written) hput
    rw [unpack, hois]
    refine ⟨hflat, .inl ⟨?_, rfl⟩⟩
    show some _ = some _
    rw [hput, List.take_nil, List.append_nil]
  · obtain ⟨e, herror⟩ := hio.readHeader_nil ByteBufferInputStream.stream hput
    have hflat := StreamReader.content_run_of_nil ByteBufferInputStream.stream io.readHeader hput
    rw [unpack, hois]
    rcases hrun : io.readHeader.run ByteBufferInputStream.stream
      (ByteBufferInputStream.put [] decoder.bb) with ⟨e' | _, bb'⟩
    · rw [hrun] at hflat
      exact ⟨hflat, .inr ⟨rfl, rfl, rfl⟩⟩
    · rw [hrun] at herror
      cases herror

theorem unpacks_of_chain (hio : io.ReadsBack) {calls : List (List UInt8 × Option Obj)}
    {decoder : Decoder} (hready : Ready io decoder written pending)
    (hchain : Chain io written pending (intact calls))
    (hother : ∀ data, (data, none) ∈ calls → data = []) :
    Unpacks calls (io.unpackAll decoder (calls.map Prod.fst)) := by
  induction calls generalizing decoder written pending with
  | nil => exact .nil
  | cons call calls ih =>
    have hother' : ∀ data, (data, none) ∈ calls → data = [] :=
      fun data hdata ↦ hother data (List.mem_cons_of_mem call hdata)
    obtain ⟨data, _ | obj⟩ := call
    · obtain rfl : data = [] := hother data List.mem_cons_self
      exact .cons (fun obj hobj ↦ nomatch hobj) (ih (unpack_nil hio hready) hchain hother')
    · obtain ⟨bytes, rfl, hreads, hchain⟩ := hchain
      obtain ⟨hresult, hready⟩ := unpack_of_reads hio hready hreads
      refine .cons (fun obj' hobj ↦ ?_) (ih hready hchain hother')
      obtain rfl : obj = obj' := Option.some.inj hobj
      exact hresult

/-- The arrays that are packed are unpacked to what was packed, whatever throws in between, as long
as a `pack` that throws writes nothing and an `unpack` that throws was given nothing. -/
theorem unpackAll_intact (hio : io.ReadsBack) (objs : List Obj)
    (hclean : io.ThrowsClean io.newEncoder objs) {calls : List (List UInt8 × Option Obj)}
    (hcalls : intact calls = io.packAll io.newEncoder objs)
    (hother : ∀ data, (data, none) ∈ calls → data = []) :
    Unpacks calls (io.unpackAll newDecoder (calls.map Prod.fst)) := by
  refine unpacks_of_chain hio ready_newDecoder ?_ hother
  rw [hcalls]
  exact chain_packAll hio .start hclean

/-- Objects that are bytes, each written as it is. Writing zero throws after a byte was written, and
writing one throws before. -/
def byteStreams : ObjectStreams UInt8 Unit Unit where
  header := [172]
  initial := ()
  writeObject _ obj :=
    if obj = 0 then ([9], .error (), ())
    else if obj = 1 then ([], .error (), ())
    else ([obj], .ok (), ())
  readHeader := .read fun
    | none => .done (.error ())
    | some _ => .done (.ok ())
  readObject _ := .read fun
    | none => .done (.error ())
    | some x => .done (.ok x)

theorem readsBack_byteStreams : byteStreams.ReadsBack where
  readHeader := StreamReader.reads_read (StreamReader.reads_done _)
  readHeader_nil is s h := by
    refine ⟨(), ?_⟩
    simp only [byteStreams, StreamReader.run, (is.read_nil h).1]
  readObject {w written obj bytes w'} _ hwrite := by
    have hbytes : bytes = [obj] := by
      simp only [byteStreams] at hwrite
      split_ifs at hwrite
      · cases hwrite
      · cases hwrite
      · exact (congrArg Prod.fst hwrite).symm
    rw [hbytes]
    exact StreamReader.reads_read (StreamReader.reads_done _)

theorem unpackAll_intact_sample :
    Unpacks [([172, 5], some 5), ([], none), ([7], some 7)]
      (byteStreams.unpackAll newDecoder [[172, 5], [], [7]]) :=
  unpackAll_intact readsBack_byteStreams [5, 1, 7]
    ⟨nofun, fun _ _ _ h ↦ (congrArg Prod.fst h).symm, nofun, trivial⟩ rfl (by simp)

/-- After `pack(0)` has thrown, the array of `pack(5)` begins with what `pack(0)` has written; and
after an `unpack` of an array that is cut off has thrown, the next array is not read from its
beginning. -/
theorem not_unpacks : byteStreams.ReadsBack ∧
    ¬ Unpacks ((byteStreams.packAll byteStreams.newEncoder [0, 5]).map (Prod.map id some))
      (byteStreams.unpackAll newDecoder
        ((byteStreams.packAll byteStreams.newEncoder [0, 5]).map Prod.fst)) ∧
    byteStreams.packAll byteStreams.newEncoder [5] = [([172, 5], 5)] ∧
    byteStreams.unpackAll newDecoder [[172], [172, 5]] = [.error (), .ok 172] := by
  refine ⟨readsBack_byteStreams, fun h ↦ ?_, rfl, rfl⟩
  have hresult : (Except.ok 9 : Except Unit UInt8) = .ok 5 := (List.forall₂_cons.1 h).1 5 rfl
  cases hresult

end ObjectStreams
end JPype
