import JPype.Array.BufferIntake
import Mathlib.Data.Nat.Digits.Defs

/-!
# Converters of buffer items

A converter reads an item of a buffer as a C type and casts it to a Java type. If the bytes are
the wrong way round for the machine, it copies them in reverse into a local array first and reads
that; the copy has two, four or eight bytes, by the format. Half precision is widened to a `float`
in a local variable. `convertsAlike_iff` says for which formats an item with its bytes reversed
converts as the item itself, with no other byte read: not for half precision, where the copy has
twice the bytes of the item, and for the two formats of sizes only where they have eight bytes.
-/

namespace JPype

/-- A `jvalue`, by the member that is set. Floating point numbers are given by their bits. -/
inductive JValue where
  | z (value : Bool)
  | b (value : Int8)
  | c (value : UInt16)
  | s (value : Int16)
  | i (value : Int32)
  | j (value : Int64)
  | f (bits : UInt32)
  | d (bits : UInt64)
  deriving DecidableEq

/-- What a converter loads: the value of a C integer, or the bits of a `float` or a `double`. -/
inductive CValue where
  | integer (value : ℤ)
  | float (bits : UInt32)
  | double (bits : UInt64)

/-- What depends on the machine: its byte order, the size of `Py_ssize_t`, and the casts from and
to floating point. -/
structure Platform where
  little : Bool
  ssizeBytes : ℕ
  floatOfInt : ℤ → UInt32
  doubleOfInt : ℤ → UInt64
  doubleOfFloat : UInt32 → UInt64
  floatOfDouble : UInt64 → UInt32
  intOfFloat : PrimitiveType → UInt32 → ℤ
  intOfDouble : PrimitiveType → UInt64 → ℤ

/-! ### Pointers -/

/-- Where a byte is: in memory from the item on, or on the stack from a local array on. -/
inductive Place where
  | item (offset : ℕ)
  | stack (offset : ℕ)
  deriving DecidableEq

/-- A value, and the places that were read for it. The cells of a local array are not among
them. -/
structure Fetched (α : Type) where
  value : α
  reads : List Place
  deriving DecidableEq

/-- What there is to read from an address on. -/
abbrev Pointer := ℕ → Fetched UInt8

/-- The function that converts an item. -/
abbrev Jconverter := Pointer → Fetched JValue

namespace Pointer

/-- The address of an item. -/
def ofItem (memory : Place → UInt8) : Pointer :=
  fun offset ↦ ⟨memory (.item offset), [.item offset]⟩

/-- The address of a local array. Past its end is the rest of the stack. -/
def ofLocal (memory : Place → UInt8) (cells : List UInt8) : Pointer :=
  fun offset ↦
    match cells[offset]? with
    | some byte => ⟨byte, []⟩
    | none => ⟨memory (.stack offset), [.stack offset]⟩

/-- The first `n` bytes. -/
def load (c : Pointer) (n : ℕ) : Fetched (List UInt8) where
  value := (List.range n).map fun offset ↦ (c offset).value
  reads := (List.range n).flatMap fun offset ↦ (c offset).reads

end Pointer

/-! ### C types -/

/-- A C type, by its size and by the value of its bytes, least significant byte first. -/
structure CType where
  size : ℕ
  decode : ℕ → CValue

namespace CType

/-- An unsigned integer type. -/
def unsigned (size : ℕ) : CType :=
  ⟨size, fun n ↦ .integer n⟩

/-- A signed integer type. -/
def signed (size : ℕ) : CType :=
  ⟨size, fun n ↦ .integer ((n : ℤ).bmod (256 ^ size))⟩

/-- `float` -/
def float : CType :=
  ⟨4, fun n ↦ .float (UInt32.ofNat n)⟩

/-- `double` -/
def double : CType :=
  ⟨8, fun n ↦ .double (UInt64.ofNat n)⟩

/-- The value of bytes in the order of the machine. -/
def ofBytes (T : CType) (platform : Platform) (bytes : List UInt8) : CValue :=
  T.decode (Nat.ofDigits 256 ((if platform.little then bytes else bytes.reverse).map UInt8.toNat))

end CType

/-! ### The converters -/

namespace Convert

variable (platform : Platform)

/-- `*(T*) c` followed by a cast. -/
def cast (T : CType) (value : CValue → JValue) : Jconverter :=
  fun c ↦ ⟨value (T.ofBytes platform (c.load T.size).value), (c.load T.size).reads⟩

/-- An integer type's cast of a number. -/
def toInteger (type : PrimitiveType) : CValue → ℤ
  | .integer n => n
  | .float bits => platform.intOfFloat type bits
  | .double bits => platform.intOfDouble type bits

/-- `toZ`. A zero has no bits but the sign. -/
def toZ (T : CType) : Jconverter :=
  cast platform T fun
    | .integer n => .z (n ≠ 0)
    | .float bits => .z (bits &&& 0x7fffffff ≠ 0)
    | .double bits => .z (bits &&& 0x7fffffffffffffff ≠ 0)

/-- `toB` -/
def toB (T : CType) : Jconverter :=
  cast platform T fun x ↦ .b (Int8.ofInt (toInteger platform .byte x))

/-- `toC` -/
def toC (T : CType) : Jconverter :=
  cast platform T fun x ↦ .c (UInt16.ofInt (toInteger platform .char x))

/-- `toS` -/
def toS (T : CType) : Jconverter :=
  cast platform T fun x ↦ .s (Int16.ofInt (toInteger platform .short x))

/-- `toI` -/
def toI (T : CType) : Jconverter :=
  cast platform T fun x ↦ .i (Int32.ofInt (toInteger platform .int x))

/-- `toJ` -/
def toJ (T : CType) : Jconverter :=
  cast platform T fun x ↦ .j (Int64.ofInt (toInteger platform .long x))

/-- `toF` -/
def toF (T : CType) : Jconverter :=
  cast platform T fun
    | .integer n => .f (platform.floatOfInt n)
    | .float bits => .f bits
    | .double bits => .f (platform.floatOfDouble bits)

/-- `toD` -/
def toD (T : CType) : Jconverter :=
  cast platform T fun
    | .integer n => .d (platform.doubleOfInt n)
    | .float bits => .d (platform.doubleOfFloat bits)
    | .double bits => .d bits

/-- The member for a Java type. -/
def toType (T : CType) : PrimitiveType → Jconverter
  | .boolean => toZ platform T
  | .byte => toB platform T
  | .char => toC platform T
  | .short => toS platform T
  | .int => toI platform T
  | .long => toJ platform T
  | .float => toF platform T
  | .double => toD platform T

end Convert

namespace Half

/-- `std::bitset<32>(x).count()` -/
def bitCount (x : UInt32) : ℕ :=
  (List.range 32).countP fun i ↦ x.toNat.testBit i

/-- The bits of the `float`. -/
def widen (i : UInt16) : UInt32 :=
  let sign := (i.toUInt32 &&& 0x8000) >>> 15
  let exp := (i.toUInt32 &&& 0x7C00) >>> 10
  let frac := i.toUInt32 &&& 0x03ff
  let k := sign <<< 31
  if exp = 0 then
    -- subnormal numbers
    if frac ≠ 0 then
      let count := frac
      let count := count ||| (count >>> 1)
      let count := count ||| (count >>> 2)
      let count := count ||| (count >>> 4)
      let count := count ||| (count >>> 8)
      let zeros := UInt32.ofNat (bitCount (~~~count))
      let exp : UInt32 := (127 - zeros + 7) <<< 23
      let frac := (frac <<< (zeros - 8)) &&& 0x7fffff
      k ||| (exp ||| frac)
    else k
  else if exp < 31 then
    -- normal numbers
    k ||| ((exp - 15 + 127) <<< 23 ||| frac <<< 13)
  else if frac = 0 then k ||| 0x7f800000
  else k ||| ((0x7f800001 : UInt32) ||| ((frac &&& 0x200) <<< 12))

/-- The memory of a `uint32_t`. -/
def cells (platform : Platform) (k : UInt32) : List UInt8 :=
  let bytes := (List.range 4).map fun i ↦ UInt8.ofNat (k.toNat >>> (8 * i))
  if platform.little then bytes else bytes.reverse

/-- `Half<func>::convert` -/
def convert (platform : Platform) (memory : Place → UInt8) (func : Jconverter) : Jconverter :=
  fun c ↦
    let i := c.load 2
    let bytes := if platform.little then i.value else i.value.reverse
    let k := widen (UInt16.ofNat (Nat.ofDigits 256 (bytes.map UInt8.toNat)))
    let v := func (.ofLocal memory (cells platform k))
    ⟨v.value, i.reads ++ v.reads⟩

end Half

/-- `Reverse<func>::call2`, `call4` and `call8`, by the size of the local array. -/
def Reverse.call (n : ℕ) (memory : Place → UInt8) (func : Jconverter) : Jconverter :=
  fun c ↦
    let r := (List.range n).map fun offset ↦ c (n - 1 - offset)
    let v := func (.ofLocal memory (r.map Fetched.value))
    ⟨v.value, r.flatMap Fetched.reads ++ v.reads⟩

namespace ItemType

/-- The type that the items of a format are loaded as. For half precision it is the type of the
local variable. -/
def cType (platform : Platform) : ItemType → CType
  | int8 => .signed 1
  | uint8 => .unsigned 1
  | int16 => .signed 2
  | uint16 => .unsigned 2
  | int32 => .signed 4
  | uint32 => .unsigned 4
  | int64 => .signed 8
  | uint64 => .unsigned 8
  | float => .float
  | double => .double
  | half => .float
  | ssize => .signed platform.ssizeBytes
  | size => .unsigned platform.ssizeBytes

/-- The size of an item. -/
def itemSize (platform : Platform) : ItemType → ℕ
  | half => 2
  | item => (item.cType platform).size

/-- The size of the copy that has the bytes in reverse. Single bytes are never reversed. -/
def reverseSize : ItemType → ℕ
  | int8 | uint8 => 1
  | int16 | uint16 => 2
  | int32 | uint32 | float | half => 4
  | int64 | uint64 | double | ssize | size => 8

end ItemType

namespace Converter

/-- The converter without the reversal. -/
def direct (conv : Converter) (platform : Platform) (memory : Place → UInt8) : Jconverter :=
  let convert := Convert.toType platform (conv.item.cType platform) conv.target
  if conv.item = .half then Half.convert platform memory convert else convert

/-- The function that `getConverter` returns, and the memory it runs in. -/
def function (conv : Converter) (platform : Platform) (memory : Place → UInt8) : Jconverter :=
  if conv.reverse then
    Reverse.call conv.item.reverseSize memory (conv.direct platform memory)
  else conv.direct platform memory

end Converter

/-! ### Byte orders -/

/-- The beginnings of a format that stand for the byte order of the machine. -/
def nativeOrders (little : Bool) : List (List Char) :=
  [[], ['@'], ['=']] ++ if little then [['<']] else [['!'], ['>']]

/-- The beginnings of a format that stand for the other byte order. -/
def oppositeOrders (little : Bool) : List (List Char) :=
  if little then [['!'], ['>']] else [['<']]

/-- The places of an item of `n` bytes. -/
def itemPlaces (n : ℕ) : List Place :=
  (List.range n).map .item

/-- The memory has the bytes at the address of the item. -/
def HasBytes (memory : Place → UInt8) (bytes : List UInt8) : Prop :=
  ((Pointer.ofItem memory).load bytes.length).value = bytes

/-- Whatever else is in memory, the one converter makes of an item what the other makes of its
bytes in reverse, and both read the bytes of the item and no others. -/
structure Converter.Alike (platform : Platform) (native opposite : Converter) : Prop where
  value_eq : ∀ (bytes : List UInt8) (memory memory' : Place → UInt8),
    bytes.length = native.item.itemSize platform → HasBytes memory bytes →
    HasBytes memory' bytes.reverse →
    (opposite.function platform memory' (.ofItem memory')).value =
      (native.function platform memory (.ofItem memory)).value
  reads_native : ∀ memory : Place → UInt8,
    (native.function platform memory (.ofItem memory)).reads.Perm
      (itemPlaces (native.item.itemSize platform))
  reads_opposite : ∀ memory : Place → UInt8,
    (opposite.function platform memory (.ofItem memory)).reads.Perm
      (itemPlaces (native.item.itemSize platform))

/-- There are converters for a format in both byte orders, and they convert alike. -/
def ConvertsAlike (platform : Platform) (format : List Char) (itemsize : ℕ)
    (target : PrimitiveType) : Prop :=
  ∀ order ∈ nativeOrders platform.little, ∀ order' ∈ oppositeOrders platform.little,
    ∃ native opposite,
      getConverter platform.little (some (order ++ format)) itemsize target = some native ∧
      getConverter platform.little (some (order' ++ format)) itemsize target = some opposite ∧
      native.Alike platform opposite

/-! ### What is read -/

namespace Pointer

theorem load_ofItem (memory : Place → UInt8) (n : ℕ) :
    (ofItem memory).load n = ⟨(itemPlaces n).map memory, itemPlaces n⟩ := by
  simp only [load, ofItem, itemPlaces, List.map_map, Function.comp_def, ← List.map_eq_flatMap]

/-- All of a local array. -/
theorem load_ofLocal (memory : Place → UInt8) (cells : List UInt8) :
    (ofLocal memory cells).load cells.length = ⟨cells, []⟩ := by
  have hcell : ∀ i (h : i < cells.length), ofLocal memory cells i = ⟨cells[i], []⟩ := by
    intro i h
    rw [ofLocal, List.getElem?_eq_getElem h]
  rw [load, Fetched.mk.injEq]
  constructor
  · refine List.ext_getElem (by simp) fun i _ h ↦ ?_
    rw [List.getElem_map, List.getElem_range, hcell i h]
  · refine List.flatMap_eq_nil_iff.2 fun i hi ↦ ?_
    rw [hcell i (List.mem_range.1 hi)]

/-- Local arrays are apart from the item. -/
theorem item_notMem_load_ofLocal (memory : Place → UInt8) (cells : List UInt8) (n k : ℕ) :
    Place.item k ∉ ((ofLocal memory cells).load n).reads := by
  intro h
  obtain ⟨i, -, hi⟩ := List.mem_flatMap.1 h
  rw [ofLocal] at hi
  split at hi <;> simp at hi

end Pointer

/-- The converter is a function of the bytes that it loads. -/
theorem Convert.exists_toType (platform : Platform) (T : CType) (type : PrimitiveType) :
    ∃ value : CValue → JValue, Convert.toType platform T type = Convert.cast platform T value := by
  cases type <;>
    simp only [toType, toZ, toB, toC, toS, toI, toJ, toF, toD] <;>
    exact ⟨_, rfl⟩

theorem Half.length_cells (platform : Platform) (k : UInt32) :
    (Half.cells platform k).length = 4 := by
  rw [Half.cells]
  split <;> simp

namespace Converter

variable (platform : Platform)

/-- Without a reversal a converter loads the item. -/
theorem exists_direct (conv : Converter) :
    ∃ decode : List UInt8 → JValue, ∀ (memory : Place → UInt8) (c : Pointer),
      conv.direct platform memory c =
        ⟨decode (c.load (conv.item.itemSize platform)).value,
          (c.load (conv.item.itemSize platform)).reads⟩ := by
  obtain ⟨value, hvalue⟩ := Convert.exists_toType platform (conv.item.cType platform) conv.target
  by_cases h : conv.item = .half
  · refine ⟨fun bytes ↦ value (CType.float.ofBytes platform (Half.cells platform (Half.widen
      (UInt16.ofNat (Nat.ofDigits 256
        ((if platform.little then bytes else bytes.reverse).map UInt8.toNat)))))),
      fun memory c ↦ ?_⟩
    have hload : ∀ k, (Pointer.ofLocal memory (Half.cells platform k)).load 4 =
        ⟨Half.cells platform k, []⟩ := fun k ↦ by
      rw [← Half.length_cells platform k, Pointer.load_ofLocal]
    -- the `float` is read from the local variable, which is all in bounds
    rw [direct, if_pos h, hvalue, h]
    simp only [Half.convert, Convert.cast, ItemType.cType, ItemType.itemSize]
    rw [show CType.float.size = 4 from rfl, hload, List.append_nil]
  · refine ⟨fun bytes ↦ value ((conv.item.cType platform).ofBytes platform bytes),
      fun memory c ↦ ?_⟩
    have hsize : conv.item.itemSize platform = (conv.item.cType platform).size := by
      cases hitem : conv.item <;> first | rfl | exact absurd hitem h
    rw [direct, if_neg h, hvalue, hsize]
    rfl

end Converter

/-- The reversal of an item. -/
theorem Reverse.call_ofItem (n : ℕ) (memory : Place → UInt8) (func : Jconverter) :
    Reverse.call n memory func (.ofItem memory) =
      ⟨(func (.ofLocal memory ((itemPlaces n).map memory).reverse)).value,
        (itemPlaces n).reverse ++
          (func (.ofLocal memory ((itemPlaces n).map memory).reverse)).reads⟩ := by
  have hplaces : (itemPlaces n).reverse =
      (List.range n).map fun offset ↦ Place.item (n - 1 - offset) := by
    rw [itemPlaces, ← List.map_reverse, List.range_eq_range', List.reverse_range', List.map_map,
      ← List.range_eq_range']
    simp [Function.comp_def]
  rw [← List.map_reverse, hplaces, Reverse.call]
  simp only [Pointer.ofItem, List.map_map, Function.comp_def, List.flatMap_map,
    ← List.map_eq_flatMap]

namespace Converter

variable (platform : Platform) (item : ItemType) (target : PrimitiveType)

/-- A converter in the order of the machine reads the item. -/
theorem reads_native (memory : Place → UInt8) :
    ((⟨item, false, target⟩ : Converter).function platform memory (.ofItem memory)).reads =
      itemPlaces (item.itemSize platform) := by
  obtain ⟨decode, hdecode⟩ := exists_direct platform ⟨item, false, target⟩
  rw [function, if_neg Bool.false_ne_true, hdecode, Pointer.load_ofItem]

/-- The bytes of the item that a converter with a reversal reads are those that it copies. -/
theorem item_mem_reads_opposite (memory : Place → UInt8) (k : ℕ) :
    Place.item k ∈
        ((⟨item, true, target⟩ : Converter).function platform memory (.ofItem memory)).reads ↔
      k < item.reverseSize := by
  obtain ⟨decode, hdecode⟩ := exists_direct platform ⟨item, true, target⟩
  rw [function, if_pos rfl, Reverse.call_ofItem, hdecode, List.mem_append,
    or_iff_left (Pointer.item_notMem_load_ofLocal memory _ _ k), List.mem_reverse, itemPlaces]
  simp

/-- A copy of the size of the item is what the reversal needs. -/
theorem alike_of_size (h : item.itemSize platform = item.reverseSize) :
    Alike platform ⟨item, false, target⟩ ⟨item, true, target⟩ := by
  obtain ⟨decode, hdecode⟩ := exists_direct platform ⟨item, false, target⟩
  have hopposite : ∀ memory : Place → UInt8,
      (⟨item, true, target⟩ : Converter).function platform memory (.ofItem memory) =
        ⟨decode ((itemPlaces item.reverseSize).map memory).reverse,
          (itemPlaces item.reverseSize).reverse⟩ := by
    intro memory
    have hload := Pointer.load_ofLocal memory ((itemPlaces item.reverseSize).map memory).reverse
    rw [List.length_reverse, List.length_map, itemPlaces, List.length_map,
      List.length_range, ← itemPlaces] at hload
    rw [function, if_pos rfl, Reverse.call_ofItem]
    show Fetched.mk ((direct ⟨item, false, target⟩ platform memory _).value)
      (_ ++ (direct ⟨item, false, target⟩ platform memory _).reads) = _
    rw [hdecode, h, hload, List.append_nil]
  constructor
  · intro bytes memory memory' hlength hbytes hreverse
    rw [HasBytes, List.length_reverse, hlength, Pointer.load_ofItem] at hreverse
    rw [HasBytes, hlength] at hbytes
    rw [hopposite, ← h, function, if_neg Bool.false_ne_true, hdecode, hbytes]
    show decode ((itemPlaces (item.itemSize platform)).map memory').reverse = decode bytes
    rw [show (itemPlaces (item.itemSize platform)).map memory' = bytes.reverse from hreverse,
      List.reverse_reverse]
  · intro memory
    rw [reads_native]
  · intro memory
    rw [hopposite]
    show ((itemPlaces item.reverseSize).reverse).Perm (itemPlaces (item.itemSize platform))
    rw [h]
    exact List.reverse_perm _

theorem alike_reverse_iff :
    Alike platform ⟨item, false, target⟩ ⟨item, true, target⟩ ↔
      item.itemSize platform = item.reverseSize := by
  refine ⟨fun h ↦ ?_, alike_of_size platform item target⟩
  have hmem : ∀ k, k < item.reverseSize ↔ k < item.itemSize platform := by
    intro k
    rw [← item_mem_reads_opposite platform item target (fun _ ↦ 0) k,
      (h.reads_opposite fun _ ↦ 0).mem_iff, itemPlaces]
    simp
  exact (Nat.le_of_not_lt fun hlt ↦ (Nat.lt_irrefl _ ((hmem _).2 hlt)).elim).antisymm
    (Nat.le_of_not_lt fun hlt ↦ (Nat.lt_irrefl _ ((hmem _).1 hlt)).elim)

/-- A single byte is its own reverse. -/
theorem alike_single (h : item.itemSize platform = 1) :
    Alike platform ⟨item, false, target⟩ ⟨item, false, target⟩ := by
  refine ⟨fun bytes memory memory' hlength hbytes hreverse ↦ ?_, fun memory ↦ ?_, fun memory ↦ ?_⟩
  · obtain ⟨decode, hdecode⟩ := exists_direct platform ⟨item, false, target⟩
    have hself : bytes.reverse = bytes := by
      obtain ⟨byte, rfl⟩ := List.length_eq_one_iff.1 (hlength.trans h)
      rfl
    rw [hself, HasBytes, hlength] at hreverse
    rw [HasBytes, hlength] at hbytes
    have hvalue : ∀ m : Place → UInt8,
        ((⟨item, false, target⟩ : Converter).function platform m (.ofItem m)).value =
          decode ((Pointer.ofItem m).load (item.itemSize platform)).value := fun m ↦ by
      rw [function, if_neg Bool.false_ne_true, hdecode]
    rw [hvalue, hvalue, hbytes, hreverse]
  · rw [reads_native]
  · rw [reads_native]

end Converter

/-! ### The formats -/

/-- The item that is read for a format character. -/
def itemOfFormat (c : Char) (itemsize : ℕ) : Option ItemType :=
  formatItem (if itemsize = 8 ∧ c = 'l' then 'q' else if itemsize = 8 ∧ c = 'L' then 'Q' else c)

theorem splitByteOrder_of_formatItem (little : Bool) {c : Char} (h : (formatItem c).isSome)
    (rest : List Char) : splitByteOrder little (c :: rest) = (false, c :: rest) := by
  unfold splitByteOrder
  split
  all_goals first | rfl | simp_all [formatItem]

/-- The converter in the order of the machine, whichever way the format says it. -/
theorem getConverter_native {little : Bool} {order : List Char} (ho : order ∈ nativeOrders little)
    {c : Char} (h : (formatItem c).isSome) (rest : List Char) (itemsize : ℕ)
    (target : PrimitiveType) :
    getConverter little (some (order ++ c :: rest)) itemsize target =
      (itemOfFormat c itemsize).map fun item ↦ ⟨item, false, target⟩ := by
  have hsplit : splitByteOrder little (order ++ c :: rest) = (false, c :: rest) := by
    cases little <;> simp [nativeOrders] at ho <;>
      obtain rfl | rfl | rfl | rfl | rfl := ho <;>
      first | rfl | exact splitByteOrder_of_formatItem _ h rest
  rw [getConverter, Option.getD_some, hsplit]
  simp only [Bool.false_and, itemOfFormat]

/-- The converter in the other order. -/
theorem getConverter_opposite {little : Bool} {order : List Char}
    (ho : order ∈ oppositeOrders little) (c : Char) (rest : List Char) (itemsize : ℕ)
    (target : PrimitiveType) :
    getConverter little (some (order ++ c :: rest)) itemsize target =
      (itemOfFormat c itemsize).map fun item ↦
        ⟨item, item ≠ .int8 && item ≠ .uint8, target⟩ := by
  have hsplit : splitByteOrder little (order ++ c :: rest) = (true, c :: rest) := by
    cases little <;> simp [oppositeOrders] at ho
    · obtain rfl := ho
      rfl
    · obtain rfl | rfl := ho <;> rfl
  rw [getConverter, Option.getD_some, hsplit]
  simp only [Bool.true_and, itemOfFormat]

/-- In which formats the copy has the size of the item. -/
theorem itemSize_eq_iff (platform : Platform) {c : Char} {itemsize : ℕ} {item : ItemType}
    (h : itemOfFormat c itemsize = some item) :
    item.itemSize platform = item.reverseSize ↔
      c ≠ 'e' ∧ (c = 'n' ∨ c = 'N' → platform.ssizeBytes = 8) := by
  have hchar : ∀ d, formatItem d = some item → (item.itemSize platform = item.reverseSize ↔
      d ≠ 'e' ∧ (d = 'n' ∨ d = 'N' → platform.ssizeBytes = 8)) := by
    intro d hd
    unfold formatItem at hd
    split at hd <;> cases hd <;>
      simp [ItemType.itemSize, ItemType.reverseSize, ItemType.cType, CType.signed, CType.unsigned,
        CType.float, CType.double]
  rw [itemOfFormat] at h
  split_ifs at h with hl hL
  · rw [hchar 'q' h, hl.2]
    exact iff_of_true (by simp) (by simp)
  · rw [hchar 'Q' h, hL.2]
    exact iff_of_true (by simp) (by simp)
  · exact hchar c h

theorem exists_itemOfFormat {c : Char} (h : (formatItem c).isSome) (itemsize : ℕ) :
    ∃ item, itemOfFormat c itemsize = some item := by
  rw [itemOfFormat]
  split_ifs
  · exact ⟨.int64, rfl⟩
  · exact ⟨.uint64, rfl⟩
  · exact Option.isSome_iff_exists.1 h

/-- The converters of the two byte orders for an item. -/
theorem Converter.alike_iff (platform : Platform) (item : ItemType) (target : PrimitiveType) :
    Alike platform ⟨item, false, target⟩ ⟨item, item ≠ .int8 && item ≠ .uint8, target⟩ ↔
      item.itemSize platform = item.reverseSize := by
  by_cases hsingle : item = .int8 ∨ item = .uint8
  · obtain rfl | rfl := hsingle <;> exact iff_of_true (alike_single platform _ target rfl) rfl
  · rw [not_or] at hsingle
    rw [show (decide (item ≠ .int8) && decide (item ≠ .uint8)) = true by simp [hsingle]]
    exact alike_reverse_iff platform item target

/-- A format's items convert alike in both byte orders unless they are of half precision, or sizes
of a machine where these have not eight bytes. -/
theorem convertsAlike_iff (platform : Platform) {c : Char} (h : (formatItem c).isSome)
    (rest : List Char) (itemsize : ℕ) (target : PrimitiveType) :
    ConvertsAlike platform (c :: rest) itemsize target ↔
      c ≠ 'e' ∧ (c = 'n' ∨ c = 'N' → platform.ssizeBytes = 8) := by
  obtain ⟨item, hitem⟩ := exists_itemOfFormat h itemsize
  rw [← itemSize_eq_iff platform hitem, ← Converter.alike_iff platform item target]
  constructor
  · intro hall
    obtain ⟨order', ho'⟩ : ∃ order', order' ∈ oppositeOrders platform.little := by
      cases platform.little
      · exact ⟨['<'], List.mem_singleton.2 rfl⟩
      · exact ⟨['!'], List.mem_cons_self⟩
    obtain ⟨native, opposite, hnative, hopposite, halike⟩ :=
      hall [] (List.mem_append_left _ List.mem_cons_self) order' ho'
    rw [getConverter_native (List.mem_append_left _ List.mem_cons_self) h, hitem] at hnative
    rw [getConverter_opposite ho', hitem] at hopposite
    obtain rfl := Option.some.inj hnative
    obtain rfl := Option.some.inj hopposite
    exact halike
  · intro halike order ho order' ho'
    refine ⟨_, _, ?_, ?_, halike⟩
    · rw [getConverter_native ho h, hitem]
      rfl
    · rw [getConverter_opposite ho', hitem]
      rfl

/-- A machine like a PC. Its casts are not used below. -/
def samplePlatform : Platform where
  little := true
  ssizeBytes := 8
  floatOfInt _ := 0
  doubleOfInt _ := 0
  doubleOfFloat _ := 0
  floatOfDouble _ := 0
  intOfFloat _ _ := 0
  intOfDouble _ _ := 0

theorem convertsAlike_sample : ConvertsAlike samplePlatform ['h'] 2 .int :=
  (convertsAlike_iff samplePlatform rfl [] 2 .int).2 (by decide)

/-- The bytes of an item in memory, and zeros after them. -/
def zerosAfter (bytes : List UInt8) : Place → UInt8
  | .item offset => bytes.getD offset 0
  | .stack _ => 0

/-- The number one in half precision. With its bytes in reverse it is read as a zero, from four
bytes. -/
theorem not_convertsAlike : ¬ ConvertsAlike samplePlatform ['e'] 2 .float := by
  intro h
  obtain ⟨native, opposite, hnative, hopposite, halike⟩ := h [] (by decide) ['>'] (by decide)
  obtain rfl := Option.some.inj hnative
  obtain rfl := Option.some.inj hopposite
  have hvalue := halike.value_eq [0x00, 0x3C] (zerosAfter [0x00, 0x3C]) (zerosAfter [0x3C, 0x00])
    rfl rfl rfl
  exact absurd hvalue (by decide)

example :
    (getConverter true (some ['>', 'e']) 2 .float).map (fun conv ↦
        conv.function samplePlatform (zerosAfter [0x3C, 0x00])
          (.ofItem (zerosAfter [0x3C, 0x00]))) =
      some ⟨.f 0, [.item 3, .item 2, .item 1, .item 0]⟩ := by
  decide

end JPype
