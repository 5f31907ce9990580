import JPype.Java.InputStream
import Mathlib.Algebra.GroupWithZero.Nat

/-!
# Reading the visibility of a class file

`JPypePackage.isPublic` walks through the constant pool of a class file to find the access flags
behind it. The stream may deliver less than it is asked for; `readFully` and `skipFully` go on until
they have everything. What goes wrong are the two 16-bit numbers that are read as signed: the number
of entries, and the length of a string. Up to 32767 the walk ends at the flags
(`isPublic_eq_of_small`); with more entries it does not begin, and the answer is a bit of the first
entry (`isPublic_of_many`).
-/

namespace JPype

/-! ### Class files -/

/-- An entry of the constant pool, as the specification of the virtual machine has it. References to
other entries are kept as bytes. -/
inductive CpInfo where
  | utf8 (bytes : List UInt8) (h : bytes.length < 65536)
  | integer (b : Fin 4 → UInt8)
  | float (b : Fin 4 → UInt8)
  | long (b : Fin 8 → UInt8)
  | double (b : Fin 8 → UInt8)
  | classRef (b : Fin 2 → UInt8)
  | string (b : Fin 2 → UInt8)
  | fieldref (b : Fin 4 → UInt8)
  | methodref (b : Fin 4 → UInt8)
  | interfaceMethodref (b : Fin 4 → UInt8)
  | nameAndType (b : Fin 4 → UInt8)
  | methodHandle (b : Fin 3 → UInt8)
  | methodType (b : Fin 2 → UInt8)
  | dynamic (b : Fin 4 → UInt8)
  | invokeDynamic (b : Fin 4 → UInt8)
  | module (b : Fin 2 → UInt8)
  | package (b : Fin 2 → UInt8)

/-- The two bytes of a 16-bit number. -/
def u2 (n : ℕ) : List UInt8 :=
  [UInt8.ofNat (n / 256), UInt8.ofNat n]

namespace CpInfo

/-- The tag of an entry. -/
def tag : CpInfo → UInt8
  | utf8 _ _ => 1
  | integer _ => 3
  | float _ => 4
  | long _ => 5
  | double _ => 6
  | classRef _ => 7
  | string _ => 8
  | fieldref _ => 9
  | methodref _ => 10
  | interfaceMethodref _ => 11
  | nameAndType _ => 12
  | methodHandle _ => 15
  | methodType _ => 16
  | dynamic _ => 17
  | invokeDynamic _ => 18
  | module _ => 19
  | package _ => 20

/-- What follows the tag. -/
def info : CpInfo → List UInt8
  | utf8 bytes _ => u2 bytes.length ++ bytes
  | integer b | float b | fieldref b | methodref b | interfaceMethodref b | nameAndType b
  | dynamic b | invokeDynamic b => List.ofFn b
  | long b | double b => List.ofFn b
  | classRef b | string b | methodType b | module b | package b => List.ofFn b
  | methodHandle b => List.ofFn b

def toBytes (entry : CpInfo) : List UInt8 :=
  entry.tag :: entry.info

/-- No string is longer than a signed length can say. -/
def IsShort : CpInfo → Prop
  | utf8 bytes _ => bytes.length ≤ 32767
  | _ => True

/-- The number of indices that an entry takes. -/
def slots : CpInfo → ℕ
  | long _ | double _ => 2
  | _ => 1

end CpInfo

/-- A class file. Of what follows the access flags it matters that it is at least the indices of the
class and its superclass. -/
structure ClassFile where
  minor : UInt16
  major : UInt16
  pool : List CpInfo
  accessFlags : UInt16
  rest : List UInt8
  pool_le : (pool.map CpInfo.slots).sum < 65535
  rest_ne_nil : rest ≠ []

namespace ClassFile

/-- `constant_pool_count` -/
def count (file : ClassFile) : ℕ :=
  (file.pool.map CpInfo.slots).sum + 1

def toBytes (file : ClassFile) : List UInt8 :=
  [0xca, 0xfe, 0xba, 0xbe] ++ u2 file.minor.toNat ++ u2 file.major.toNat ++ u2 file.count ++
    (file.pool.flatMap CpInfo.toBytes ++ (u2 file.accessFlags.toNat ++ file.rest))

/-- The bit `ACC_PUBLIC` of the access flags. -/
def accPublic (file : ClassFile) : Bool :=
  file.accessFlags &&& 1 = 1

/-- The lowest bit of the first byte after the tag of the first entry. -/
def firstBit (file : ClassFile) : Bool :=
  match file.pool.flatMap CpInfo.toBytes with
  | _ :: x :: _ => x.toNat % 2 = 1
  | _ => false

end ClassFile
/-! ### Reading and skipping -/

namespace JPypePackage

variable {σ : Type} (is : InputStream σ)

/-- A read that does not fail makes progress. -/
theorem length_pos_of_readArray {n : ℕ} {s s' : σ} {bytes : List UInt8} (hn : n ≠ 0)
    (h : is.readArray n s = (some bytes, s')) : 0 < bytes.length := by
  by_cases hs : is.content s = []
  · have hnone := (is.readArray_nil (Nat.pos_of_ne_zero hn) hs).1
    rw [h] at hnone
    cases hnone
  · obtain ⟨k, hk, -, hle, hsome, -⟩ := is.readArray_short (Nat.pos_of_ne_zero hn) hs
    rw [h] at hsome
    obtain rfl : bytes = (is.content s).take k := Option.some.inj hsome
    rwa [List.length_take_of_le hle]

/-- `readFully`; an `EOFException` is `none`. -/
def readFully (n : ℕ) (s : σ) : Option (List UInt8) × σ :=
  if hn : n = 0 then (some [], s)
  else
    match h : is.readArray n s with
    | (none, s') => (none, s')
    | (some bytes, s') =>
      have := length_pos_of_readArray is hn h
      let (rest, s'') := readFully (n - bytes.length) s'
      (rest.map (bytes ++ ·), s'')
termination_by n

/-- `skipFully`; an `EOFException` is `none`. -/
def skipFully (n : ℤ) (s : σ) : Option σ :=
  if 0 < n then
    match is.skip n.toNat s with
    | (skipped, s') =>
      if skipped ≤ 0 then
        match is.read s' with
        | (none, _) => none
        | (some _, s'') => skipFully (n - 1) s''
      else skipFully (n - skipped) s'
  else some s
termination_by n.toNat

/-- `ByteBuffer.getShort` -/
def getShort (x y : UInt8) : ℤ :=
  ((x.toNat * 256 + y.toNat : ℕ) : ℤ).bmod 65536

/-- `ByteBuffer.getInt` -/
def getInt (x y z w : UInt8) : ℤ :=
  ((((x.toNat * 256 + y.toNat) * 256 + z.toNat) * 256 + w.toNat : ℕ) : ℤ).bmod 4294967296

/-- The bytes that the loop of `isPublic` skips after the first three of an entry; an unknown type
is `none`. -/
def entrySkip (type x y : UInt8) : Option ℤ :=
  match type.toNat with
  | 1 => some (getShort x y)
  | 7 | 8 | 16 | 19 | 20 => some 0
  | 15 => some 1
  | 3 | 4 | 9 | 10 | 11 | 12 | 17 | 18 => some 2
  | 5 | 6 => some 6
  | _ => none

/-- The `i++` for an entry that takes two slots. -/
def extraSlot (type : UInt8) : ℤ :=
  match type.toNat with
  | 5 | 6 => 1
  | _ => 0

theorem extraSlot_nonneg (type : UInt8) : 0 ≤ extraSlot type := by
  rw [extraSlot]
  split <;> decide

/-- The loop of `isPublic`. -/
def walk (cpitems i : ℤ) (s : σ) : Option σ :=
  if i < cpitems - 1 then
    match readFully is 3 s with
    | (some [type, x, y], s') =>
      match (entrySkip type x y).bind (skipFully is · s') with
      | none => none
      | some s'' =>
        have := extraSlot_nonneg type
        walk cpitems (i + extraSlot type + 1) s''
    | _ => none
  else some s
termination_by (cpitems - 1 - i).toNat

/-- `isPublic`, of the stream of a file. -/
def isPublic (s : σ) : Bool :=
  match readFully is 10 s with
  | (some [m₀, m₁, m₂, m₃, _, _, _, _, c₀, c₁], s) =>
    if getInt m₀ m₁ m₂ m₃ ≠ (3405691582 : ℤ).bmod 4294967296 then false
    else
      match walk is (getShort c₀ c₁) 0 s with
      | none => false
      | some s =>
        match readFully is 3 s with
        -- it is public if bit zero is set
        | (some [x, y, _], _) => getShort x y % 2 = 1
        | _ => false
  | _ => false

variable {is} {s : σ} {bytes rest : List UInt8}

/-- Short reads are made up for. -/
theorem readFully_of_content {n : ℕ} (hlen : bytes.length = n) (h : is.content s = bytes ++ rest) :
    ∃ s', readFully is n s = (some bytes, s') ∧ is.content s' = rest := by
  induction n using Nat.strongRecOn generalizing bytes s with
  | _ n ih =>
    rw [readFully]
    by_cases hn : n = 0
    · obtain rfl : bytes = [] := List.length_eq_zero_iff.1 (hlen.trans hn)
      exact ⟨s, dif_pos hn, h⟩
    · have hne : is.content s ≠ [] := by
        rw [h]
        intro hnil
        exact hn (hlen ▸ congrArg List.length (List.append_eq_nil_iff.1 hnil).1)
      obtain ⟨k, hk, hle, -, hsome, hcontent⟩ := is.readArray_short (Nat.pos_of_ne_zero hn) hne
      rw [h, List.take_append_of_le_length (hlen ▸ hle)] at hsome
      rw [h, List.drop_append_of_le_length (hlen ▸ hle)] at hcontent
      have htake : (bytes.take k).length = k := List.length_take_of_le (hlen ▸ hle)
      obtain ⟨s'', hrest, hdone⟩ := ih (n - k) (by omega) (by rw [List.length_drop, hlen]) hcontent
      refine ⟨s'', ?_, hdone⟩
      rw [dif_neg hn]
      split
      · next s' heq =>
        rw [heq] at hsome
        cases hsome
      · next read s' heq =>
        rw [heq] at hsome hrest
        obtain rfl : read = bytes.take k := Option.some.inj hsome
        dsimp only at hrest ⊢
        rw [htake, hrest, Option.map_some, List.take_append_drop]

/-- Short skips are made up for. -/
theorem skipFully_of_content (h : is.content s = bytes ++ rest) :
    ∃ s', skipFully is bytes.length s = some s' ∧ is.content s' = rest := by
  induction hlen : bytes.length using Nat.strongRecOn generalizing bytes s with
  | _ n ih =>
    rw [skipFully]
    cases bytes with
    | nil =>
      obtain rfl : 0 = n := hlen
      exact ⟨s, rfl, h⟩
    | cons x bytes =>
      have hpos : 0 < (n : ℤ) := by
        rw [List.length_cons] at hlen
        omega
      obtain ⟨k, hk, hle, -, hcontent⟩ := is.skip_short (n := (n : ℤ).toNat) (s := s)
      rw [Int.toNat_natCast] at hle
      rw [if_pos hpos]
      rcases hskip : is.skip (n : ℤ).toNat s with ⟨skipped, s'⟩
      rw [hskip] at hk hcontent
      dsimp only at hk hcontent ⊢
      split_ifs with hstalled
      · -- a skip without progress: one byte is read
        obtain rfl : k = 0 := by omega
        obtain ⟨hx, hrest⟩ := is.read_cons (hcontent.trans h)
        rcases hread : is.read s' with ⟨x', s''⟩
        rw [hread] at hx hrest
        obtain rfl : x' = some x := hx
        have hn : (n : ℤ) - 1 = bytes.length := by
          rw [List.length_cons] at hlen
          omega
        dsimp only
        rw [hn]
        exact ih bytes.length (by rw [← hlen]; exact Nat.lt_succ_self _) hrest rfl
      · rw [h, List.drop_append_of_le_length (by rw [hlen]; exact hle)] at hcontent
        have hlength : ((x :: bytes).drop k).length = n - k := by
          rw [List.length_drop, hlen]
        have hn : (n : ℤ) - skipped = (n - k : ℕ) := by omega
        rw [hn]
        exact ih (n - k) (by omega) hcontent hlength

/-- A negative length skips nothing. -/
theorem skipFully_of_nonpos {n : ℤ} (hn : n ≤ 0) (s : σ) : skipFully is n s = some s := by
  rw [skipFully, if_neg (Int.not_lt.2 hn)]

/-! ### The walk through the constant pool -/

theorem getShort_u2 {n : ℕ} (hn : n < 65536) :
    getShort (UInt8.ofNat (n / 256)) (UInt8.ofNat n) = (n : ℤ).bmod 65536 := by
  have hhigh : (UInt8.ofNat (n / 256)).toNat = n / 256 := by
    rw [UInt8.toNat_ofNat']
    omega
  have hlow : (UInt8.ofNat n).toNat = n % 256 := UInt8.toNat_ofNat'
  have hsum : (UInt8.ofNat (n / 256)).toNat * 256 + (UInt8.ofNat n).toNat = n := by
    rw [hhigh, hlow]
    exact Nat.div_add_mod' n 256
  exact congrArg (fun k : ℕ ↦ (k : ℤ).bmod 65536) hsum

/-- Up to 32767 the sign does not matter. -/
theorem bmod_of_small {n : ℕ} (hn : n ≤ 32767) : (n : ℤ).bmod 65536 = n := by
  rw [Int.bmod_def]
  split_ifs <;> omega

theorem exists_info (entry : CpInfo) : ∃ x y more, entry.info = x :: y :: more := by
  have hlength : 2 ≤ entry.info.length := by
    cases entry <;> simp [CpInfo.info, u2]
  match h : entry.info with
  | x :: y :: more => exact ⟨x, y, more, rfl⟩
  | [_] => rw [h] at hlength; cases hlength with | step h => cases h
  | [] => rw [h] at hlength; cases hlength

/-- After the first three bytes of an entry, what is left of it is skipped. -/
theorem entrySkip_tag {entry : CpInfo} (hshort : entry.IsShort) {x y : UInt8} {more : List UInt8}
    (hinfo : entry.info = x :: y :: more) : entrySkip entry.tag x y = some (more.length : ℤ) := by
  have hlength : more.length = entry.info.length - 2 := by
    rw [hinfo]
    rfl
  rw [hlength]
  cases entry with
  | utf8 bytes hlen =>
    obtain ⟨rfl, rfl, rfl⟩ : UInt8.ofNat (bytes.length / 256) = x ∧
        UInt8.ofNat bytes.length = y ∧ bytes = more := by
      simpa [CpInfo.info, u2] using hinfo
    rw [← hlength, ← bmod_of_small hshort, ← getShort_u2 hlen]
    rfl
  | classRef b | string b | methodType b | module b | package b =>
    simp [CpInfo.tag, CpInfo.info, entrySkip]
  | methodHandle b => simp [CpInfo.tag, CpInfo.info, entrySkip]
  | long b | double b => simp [CpInfo.tag, CpInfo.info, entrySkip]
  | integer b | float b | fieldref b | methodref b | interfaceMethodref b | nameAndType b
  | dynamic b | invokeDynamic b => simp [CpInfo.tag, CpInfo.info, entrySkip]

theorem extraSlot_tag (entry : CpInfo) : extraSlot entry.tag + 1 = entry.slots := by
  cases entry <;> rfl

/-- The walk over one entry. -/
theorem walk_step {cpitems i n : ℤ} (hi : i < cpitems - 1) {s₁ s₂ : σ} {type x y : UInt8}
    (hread : readFully is 3 s = (some [type, x, y], s₁)) (hn : entrySkip type x y = some n)
    (hskip : skipFully is n s₁ = some s₂) :
    walk is cpitems i s = walk is cpitems (i + extraSlot type + 1) s₂ := by
  rw [walk, if_pos hi, hread]
  dsimp only
  rw [hn, Option.bind_some, hskip]

/-- The walk ends behind the pool, after as many indices as it has. -/
theorem walk_of_content {pool : List CpInfo} (hshort : ∀ entry ∈ pool, entry.IsShort)
    {cpitems i : ℤ} (hcount : i + (pool.map CpInfo.slots).sum = cpitems - 1)
    (h : is.content s = pool.flatMap CpInfo.toBytes ++ rest) :
    ∃ s', walk is cpitems i s = some s' ∧ is.content s' = rest := by
  induction pool generalizing s i with
  | nil =>
    refine ⟨s, ?_, h⟩
    rw [List.map_nil, List.sum_nil] at hcount
    rw [walk, if_neg (by omega)]
  | cons entry pool ih =>
    rw [List.forall_mem_cons] at hshort
    rw [List.map_cons, List.sum_cons] at hcount
    obtain ⟨x, y, more, hinfo⟩ := exists_info entry
    have hbytes : is.content s =
        [entry.tag, x, y] ++ (more ++ (pool.flatMap CpInfo.toBytes ++ rest)) := by
      rw [h, List.flatMap_cons, CpInfo.toBytes, hinfo]
      simp
    obtain ⟨s₁, hread, hcontent⟩ := readFully_of_content rfl hbytes
    obtain ⟨s₂, hskip, hrest⟩ := skipFully_of_content hcontent
    have hslots := extraSlot_tag entry
    have hpos := extraSlot_nonneg entry.tag
    obtain ⟨s', hwalk, hdone⟩ := ih hshort.2 (i := i + extraSlot entry.tag + 1)
      (by omega) hrest
    refine ⟨s', ?_, hdone⟩
    rw [walk_step (by omega) hread (entrySkip_tag hshort.1 hinfo) hskip]
    exact hwalk

/-! ### The flags -/

theorem getShort_mod_two (x y : UInt8) : getShort x y % 2 = y.toNat % 2 := by
  show ((x.toNat * 256 + y.toNat : ℕ) : ℤ).bmod 65536 % 2 = _
  rw [Int.bmod_def]
  split_ifs <;> omega

theorem accPublic_eq (file : ClassFile) :
    file.accPublic = decide ((UInt8.ofNat file.accessFlags.toNat).toNat % 2 = 1) := by
  rw [ClassFile.accPublic, decide_eq_decide, ← UInt16.toNat_inj, UInt16.toNat_and,
    UInt8.toNat_ofNat']
  have hbit : file.accessFlags.toNat &&& (1 : UInt16).toNat = file.accessFlags.toNat % 2 :=
    Nat.and_one_is_mod _
  rw [hbit, Nat.mod_mod_of_dvd _ (by decide)]
  rfl

/-- What `isPublic` makes of the three bytes at which the walk has ended. -/
theorem isPublic_of_walk {file : ClassFile} {s : σ} (h : is.content s = file.toBytes)
    (x y z : UInt8) (rest : List UInt8)
    (hwalk : ∀ s₁, is.content s₁ =
        file.pool.flatMap CpInfo.toBytes ++ (u2 file.accessFlags.toNat ++ file.rest) →
      ∃ s₂, walk is ((file.count : ℤ).bmod 65536) 0 s₁ = some s₂ ∧
        is.content s₂ = [x, y, z] ++ rest) :
    isPublic is s = decide (y.toNat % 2 = 1) := by
  have hcount : file.count < 65536 := Nat.succ_lt_succ file.pool_le
  obtain ⟨s₁, hread, hcontent⟩ := readFully_of_content rfl h
  obtain ⟨s₂, hs₂, hflags⟩ := hwalk s₁ hcontent
  obtain ⟨s₃, hthree, -⟩ := readFully_of_content rfl hflags
  have hmagic : getInt 0xca 0xfe 0xba 0xbe = (3405691582 : ℤ).bmod 4294967296 := by decide
  rw [isPublic, show readFully is 10 s = _ from hread]
  simp only [u2, List.cons_append, List.nil_append, hmagic, ne_eq, not_true_eq_false, if_false,
    getShort_u2 hcount, hs₂, show readFully is 3 s₂ = _ from hthree, getShort_mod_two]
  rw [decide_eq_decide]
  omega

/-- With up to 32767 entries, the walk ends at the flags. -/
theorem isPublic_eq_of_small {file : ClassFile} {s : σ} (h : is.content s = file.toBytes)
    (hcount : file.count ≤ 32767) (hshort : ∀ entry ∈ file.pool, entry.IsShort) :
    isPublic is s = file.accPublic := by
  obtain ⟨z, rest, hrest⟩ := List.exists_cons_of_ne_nil file.rest_ne_nil
  rw [accPublic_eq]
  refine isPublic_of_walk h (UInt8.ofNat (file.accessFlags.toNat / 256))
    (UInt8.ofNat file.accessFlags.toNat) z rest fun s₁ hs₁ ↦ ?_
  rw [bmod_of_small hcount]
  have hindex : (0 : ℤ) + (file.pool.map CpInfo.slots).sum = file.count - 1 := by
    rw [ClassFile.count]
    push_cast
    omega
  obtain ⟨s₂, hwalk, hs₂⟩ := walk_of_content hshort hindex hs₁
  refine ⟨s₂, hwalk, ?_⟩
  rw [hs₂, hrest]
  rfl

/-- With more entries, the walk does not begin, and the flags are read from the first entry. -/
theorem isPublic_of_many {file : ClassFile} {s : σ} (h : is.content s = file.toBytes)
    (hcount : 32767 < file.count) : isPublic is s = file.firstBit := by
  have hpool : file.pool ≠ [] := by
    intro hnil
    rw [ClassFile.count, hnil] at hcount
    exact absurd hcount (by decide)
  obtain ⟨entry, pool, hpool⟩ := List.exists_cons_of_ne_nil hpool
  obtain ⟨x, y, more, hinfo⟩ := exists_info entry
  have hbytes : file.pool.flatMap CpInfo.toBytes =
      [entry.tag, x, y] ++ (more ++ pool.flatMap CpInfo.toBytes) := by
    rw [hpool, List.flatMap_cons, CpInfo.toBytes, hinfo]
    rfl
  rw [show file.firstBit = decide (x.toNat % 2 = 1) by rw [ClassFile.firstBit, hbytes]; rfl]
  refine isPublic_of_walk h entry.tag x y (more ++ pool.flatMap CpInfo.toBytes ++
    (u2 file.accessFlags.toNat ++ file.rest)) fun s₁ hs₁ ↦ ⟨s₁, ?_, ?_⟩
  · have hnegative : ¬(0 : ℤ) < (file.count : ℤ).bmod 65536 - 1 := by
      have hlt : file.count < 65536 := Nat.succ_lt_succ file.pool_le
      rw [Int.bmod_def]
      split_ifs <;> omega
    rw [walk, if_neg hnegative]
  · rw [hs₁, hbytes, List.append_assoc]

/-- The first bytes of a string that is too long are taken for the flags, if it is the only
entry. -/
theorem isPublic_of_long {file : ClassFile} {s : σ} (h : is.content s = file.toBytes)
    {x y z : UInt8} {bytes : List UInt8} (hlen : (x :: y :: z :: bytes).length < 65536)
    (hlong : 32767 < (x :: y :: z :: bytes).length)
    (hpool : file.pool = [.utf8 (x :: y :: z :: bytes) hlen]) :
    isPublic is s = decide (y.toNat % 2 = 1) := by
  have hcount : file.count = 2 := by
    rw [ClassFile.count, hpool]
    rfl
  refine isPublic_of_walk h x y z (bytes ++ (u2 file.accessFlags.toNat ++ file.rest))
    fun s₁ hs₁ ↦ ?_
  have hentry : is.content s₁ = [1, UInt8.ofNat ((x :: y :: z :: bytes).length / 256),
      UInt8.ofNat (x :: y :: z :: bytes).length] ++
        ([x, y, z] ++ (bytes ++ (u2 file.accessFlags.toNat ++ file.rest))) := by
    rw [hs₁, hpool]
    simp [CpInfo.toBytes, CpInfo.tag, CpInfo.info, u2]
  obtain ⟨s₂, hread, hs₂⟩ := readFully_of_content rfl hentry
  refine ⟨s₂, ?_, hs₂⟩
  -- the length is read as a negative number
  have hskip : ((x :: y :: z :: bytes).length : ℤ).bmod 65536 ≤ 0 := by
    rw [Int.bmod_def]
    split_ifs <;> omega
  have htwo : ((file.count : ℕ) : ℤ).bmod 65536 = 2 := by
    rw [hcount]
    decide
  have hlength : entrySkip 1 (UInt8.ofNat ((x :: y :: z :: bytes).length / 256))
      (UInt8.ofNat (x :: y :: z :: bytes).length) =
        some (((x :: y :: z :: bytes).length : ℤ).bmod 65536) := by
    rw [← getShort_u2 hlen]
    rfl
  rw [htwo, walk_step (by decide) hread hlength (skipFully_of_nonpos hskip s₂)]
  rw [walk, if_neg (by decide)]

/-- If there is no string that is too long, or too many entries, the answer is right exactly if
there are not too many entries or the bit that is read instead is the same. -/
theorem isPublic_eq_iff {file : ClassFile} {s : σ} (h : is.content s = file.toBytes)
    (hshort : file.count ≤ 32767 → ∀ entry ∈ file.pool, entry.IsShort) :
    isPublic is s = file.accPublic ↔ file.count ≤ 32767 ∨ file.firstBit = file.accPublic := by
  rcases Nat.lt_or_ge 32767 file.count with hmany | hcount
  · rw [isPublic_of_many h hmany, or_iff_right (Nat.not_le.2 hmany)]
  · exact iff_of_true (isPublic_eq_of_small h hcount (hshort hcount)) (.inl hcount)

/-- A stream that delivers one byte at a time and skips nothing. -/
def trickle : InputStream (List UInt8) where
  content := id
  read l := (l.head?, l.tail)
  readArray n l := if n = 0 then (some [], l) else (l.head?.map ([·]), l.tail)
  skip _ l := (0, l)
  read_nil {s} h := by
    obtain rfl : s = [] := h
    exact ⟨rfl, rfl⟩
  read_cons {s x rest} h := by
    obtain rfl : s = x :: rest := h
    exact ⟨rfl, rfl⟩
  readArray_zero := ⟨rfl, rfl⟩
  readArray_nil {n s} hn h := by
    obtain rfl : s = [] := h
    rw [if_neg (Nat.ne_of_gt hn)]
    exact ⟨rfl, rfl⟩
  readArray_short {n s} hn h := by
    obtain ⟨x, l, rfl⟩ := List.exists_cons_of_ne_nil h
    rw [if_neg (Nat.ne_of_gt hn)]
    exact ⟨1, Nat.one_pos, hn, Nat.succ_le_succ (Nat.zero_le _), rfl, rfl⟩
  skip_short := ⟨0, rfl, Nat.zero_le _, Nat.zero_le _, rfl⟩

/-- `public class A`, with a constant of two slots. -/
def publicClass : ClassFile where
  minor := 0
  major := 52
  pool := [.utf8 [65] (by decide), .classRef fun _ ↦ 1, .long fun _ ↦ 0]
  accessFlags := 33
  rest := [0, 2]
  pool_le := by decide
  rest_ne_nil := by decide

theorem isPublic_sample : isPublic trickle publicClass.toBytes = publicClass.accPublic := by
  have hcontent : trickle.content publicClass.toBytes = publicClass.toBytes := rfl
  have hshort : ∀ entry ∈ publicClass.pool, entry.IsShort := by
    simp [publicClass, CpInfo.IsShort]
  exact (isPublic_eq_iff hcontent fun _ ↦ hshort).2 (.inl (by decide))

theorem sum_slots_replicate (n : ℕ) (b : Fin 2 → UInt8) :
    ((List.replicate n (CpInfo.classRef b)).map CpInfo.slots).sum = n := by
  induction n with
  | zero => rfl
  | succ n ih => rw [List.replicate_succ, List.map_cons, List.sum_cons, ih]; exact Nat.add_comm 1 n

/-- A public class with `n + 2` indices in its constant pool. -/
def manyEntries (n : ℕ) (hn : n < 65534) : ClassFile where
  minor := 0
  major := 52
  pool := [.classRef fun _ ↦ 2] ++ List.replicate n (.classRef fun _ ↦ 2)
  accessFlags := 33
  rest := [0, 2]
  pool_le := by
    rw [List.map_append, List.sum_append, sum_slots_replicate]
    show 1 + n < 65535
    omega
  rest_ne_nil := by decide

theorem count_manyEntries (n : ℕ) (hn : n < 65534) : (manyEntries n hn).count = n + 2 := by
  show (([CpInfo.classRef fun _ ↦ 2] ++ List.replicate n (CpInfo.classRef fun _ ↦ 2)).map
    CpInfo.slots).sum + 1 = n + 2
  rw [List.map_append, List.sum_append, sum_slots_replicate]
  show 1 + n + 1 = n + 2
  omega

/-- A public class with a constant of `n + 3` bytes. -/
def longString (n : ℕ) (hn : n < 65533) : ClassFile where
  minor := 0
  major := 52
  pool := [.utf8 (0 :: 0 :: 0 :: List.replicate n 0) (by
    rw [List.length_cons, List.length_cons, List.length_cons, List.length_replicate]
    omega)]
  accessFlags := 33
  rest := [0, 2]
  pool_le := by
    show 1 < 65535
    decide
  rest_ne_nil := by decide

theorem not_isPublic :
    isPublic trickle (manyEntries 32766 (by decide)).toBytes = false ∧
      (manyEntries 32766 (by decide)).accPublic = true ∧
      isPublic trickle (longString 32765 (by decide)).toBytes = false ∧
      (longString 32765 (by decide)).accPublic = true := by
  refine ⟨?_, rfl, ?_, rfl⟩
  · have hmany : 32767 < (manyEntries 32766 (by decide)).count := by
      rw [count_manyEntries]
      decide
    have hcontent : trickle.content (manyEntries 32766 (by decide)).toBytes =
        (manyEntries 32766 (by decide)).toBytes := rfl
    exact (isPublic_of_many hcontent hmany).trans rfl
  · have hcontent : trickle.content (longString 32765 (by decide)).toBytes =
        (longString 32765 (by decide)).toBytes := rfl
    have hlength : (0 :: 0 :: 0 :: List.replicate 32765 (0 : UInt8)).length = 32768 := by
      rw [List.length_cons, List.length_cons, List.length_cons, List.length_replicate]
    refine (isPublic_of_long hcontent ?_ ?_ rfl).trans (by decide)
    · rw [hlength]
      decide
    · rw [hlength]
      decide

end JPypePackage
end JPype
