import JPype.Foundation.ByteMemory
import JPype.Foundation.FixedWidth
import Mathlib.Data.List.TakeWhile

/-!
# The arguments of the JVM

`startJVM` hands the options to the JVM as C structures that it packs into one block: the header, an
array of options and the strings these point at, every part padded to 32 bytes. The sizes are added
up before the block is taken and the parts are written through pointers into it.

`packOptions_spec` follows the loop that writes the options; `startJVM_initArgs` says that nothing
is written outside the block and that the JVM reads the options that were meant.
-/

namespace JPype.JPContext

open Foundation Block

/-- `std::string`: an option is its bytes. -/
abbrev Bytes := List UInt8

/-- `"--enable-native-access"`. -/
def enableNativeAccess : Bytes :=
  "--enable-native-access".toList.map fun c ↦ UInt8.ofNat c.toNat

/-- `"--enable-native-access=ALL-UNNAMED"`. -/
def allUnnamed : Bytes :=
  "--enable-native-access=ALL-UNNAMED".toList.map fun c ↦ UInt8.ofNat c.toNat

/-- `opt.rfind("--enable-native-access", 0) == 0`. -/
def isNativeAccess (opt : Bytes) : Bool :=
  enableNativeAccess.isPrefixOf opt

/-- One turn of the loop over `args`: the options so far, and `hasNativeAccessOption`. -/
def addOption (jdk21 : Bool) (final : List Bytes × Bool) (opt : Bytes) : List Bytes × Bool :=
  if isNativeAccess opt then
    -- an older JVM would refuse to start with the option, so it is dropped
    if !jdk21 then final else (final.1 ++ [opt], true)
  else (final.1 ++ [opt], final.2)

/-- `finalArgs`: the options the JVM is started with. -/
def finalArgs (jdk21 : Bool) (args : List Bytes) : List Bytes :=
  let final := args.foldl (addOption jdk21) ([], false)
  if jdk21 && !final.2 then final.1 ++ [allUnnamed] else final.1

/-! ### Packing -/

/-- `PAD(x)`: `(x+31) & ~31`, the low five bits cleared. -/
def pad (x : ℕ) : ℕ :=
  (x + 31) >>> 5 <<< 5

/-- `sizeof(JavaVMInitArgs)`: two `jint`, a pointer and a `jboolean`, aligned to 8 bytes. -/
def sizeofInitArgs : ℕ := 24

/-- `sizeof(JavaVMOption)`: two pointers. -/
def sizeofOption : ℕ := 16

/-- `USE_JNI_VERSION`, which is `JNI_VERSION_1_4`. -/
def useJniVersion : ℕ := 0x00010004

/-- `oblock`: where the array of options starts. -/
def oblock : ℕ :=
  pad sizeofInitArgs

/-- `sblock`: where the strings start. -/
def sblock (count : ℕ) : ℕ :=
  oblock + pad (sizeofOption * count + 1)

/-- The bytes of the strings, each with its terminator and padded. -/
def stringsSize (args : List Bytes) : ℕ :=
  (args.map fun arg ↦ pad (arg.length + 1)).sum

/-- `mem`: the memory requirements. -/
def memory (args : List Bytes) : ℕ :=
  sblock args.length + stringsSize args

/-- The `n` bytes that `strncpy(dst, src.c_str(), src.size())` writes: those before the first zero
byte, and zero bytes for the others. -/
def strncpy (src : Bytes) : Bytes :=
  src.takeWhile (· != 0) ++ List.replicate (src.length - (src.takeWhile (· != 0)).length) 0

/-- The loop that packs the options: `o` is the address of `options[i]`, `j` of `block[j]`. -/
def packOptions (b : Block UInt8) (o j : ℕ) : List Bytes → Option (Block UInt8)
  | [] => some b
  | arg :: args => do
    let copied ← b.store j (strncpy arg)
    let linked ← copied.store o (littleEndian 8 j)
    packOptions linked (o + sizeofOption) (j + pad (arg.length + 1)) args

/-- The `memset` of the block and the fields of its header. -/
def packHeader (b : Block UInt8) (ignoreUnrecognized : Bool) (count : ℕ) :
    Option (Block UInt8) := do
  let m ← b.store b.base (List.replicate b.size 0)
  let m ← m.store (b.base + 8) (littleEndian 8 (b.base + oblock))
  let m ← m.store b.base (littleEndian 4 useJniVersion)
  let m ← m.store (b.base + 16) [if ignoreUnrecognized then 1 else 0]
  m.store (b.base + 4) (littleEndian 4 count)

/-- The filling of the block that `malloc` returned. -/
def packArgs (b : Block UInt8) (ignoreUnrecognized : Bool) (args : List Bytes) :
    Option (Block UInt8) := do
  let m ← packHeader b ignoreUnrecognized args.length
  packOptions m (b.base + oblock) (b.base + sblock args.length) args

/-! ### What the JVM reads -/

/-- `JavaVMOption`, with the string it points at. -/
structure JavaVMOption where
  optionString : Bytes
  extraInfo : ℕ
  deriving DecidableEq

/-- `JavaVMInitArgs`, with the options it points at. -/
structure JavaVMInitArgs where
  version : ℕ
  ignoreUnrecognized : Bool
  options : List JavaVMOption
  deriving DecidableEq

/-- The `n` options from the address `o` on. -/
def readOptions (b : Block UInt8) (o : ℕ) : ℕ → Option (List JavaVMOption)
  | 0 => some []
  | n + 1 => do
    let address ← b.loadNat o 8
    let extraInfo ← b.loadNat (o + 8) 8
    let optionString ← b.loadString b.size address
    let options ← readOptions b (o + sizeofOption) n
    some (⟨optionString, extraInfo⟩ :: options)

/-- A number of turns that is held in a `jint`: none when it is negative. -/
def turns (jint : ℕ) : ℕ :=
  ((jint : ℤ).bmod (2 ^ 32)).toNat

/-- The arguments at the address `a`, as `jni.h` lays them out. -/
def readInitArgs (b : Block UInt8) (a : ℕ) : Option JavaVMInitArgs := do
  let version ← b.loadNat a 4
  let nOptions ← b.loadNat (a + 4) 4
  let address ← b.loadNat (a + 8) 8
  let ignoreUnrecognized ← b.loadNat (a + 16) 1
  let options ← readOptions b address (turns nOptions)
  some ⟨version, ignoreUnrecognized != 0, options⟩

/-! ### Sizes -/

theorem pad_eq (x : ℕ) : pad x = (x + 31) / 32 * 32 := by
  simp [pad, Nat.shiftRight_eq_div_pow, Nat.shiftLeft_eq]

theorem le_pad (x : ℕ) : x ≤ pad x := by
  rw [pad_eq]
  omega

theorem oblock_eq : oblock = 32 := by
  decide

theorem sizeofOption_mul_lt_sblock (count : ℕ) : oblock + sizeofOption * count < sblock count := by
  have := le_pad (sizeofOption * count + 1)
  rw [sblock]
  omega

@[simp]
theorem stringsSize_cons (arg : Bytes) (args : List Bytes) :
    stringsSize (arg :: args) = pad (arg.length + 1) + stringsSize args :=
  rfl

theorem length_takeWhile_le (arg : Bytes) : (arg.takeWhile (· != 0)).length ≤ arg.length :=
  (List.takeWhile_prefix _).length_le

@[simp]
theorem length_strncpy (arg : Bytes) : (strncpy arg).length = arg.length := by
  have := length_takeWhile_le arg
  simp only [strncpy, List.length_append, List.length_replicate]
  omega

/-- The copy holds the string before its first zero byte, then zero bytes. -/
theorem getD_strncpy (arg : Bytes) (i : ℕ) :
    (strncpy arg).getD i 0 = (arg.takeWhile (· != 0)).getD i 0 := by
  by_cases hi : i < (arg.takeWhile (· != 0)).length
  · simp [strncpy, List.getElem?_append_left hi]
  · have hle : (arg.takeWhile (· != 0)).length ≤ i := by omega
    rw [strncpy, List.getD_eq_getElem?_getD, List.getElem?_append_right hle,
      List.getD_eq_getElem?_getD, List.getElem?_eq_none hle, List.getElem?_replicate]
    split <;> rfl

/-! ### The loop over the options -/

section Loop

variable {b b' : Block UInt8} {o j : ℕ}

/-- The addresses that the loop writes. -/
def Written (o j : ℕ) (args : List Bytes) (i : ℕ) : Prop :=
  (o ≤ i ∧ i < o + sizeofOption * args.length) ∨ (j ≤ i ∧ i < j + stringsSize args)

/-- The loop may write: the array lies in the block before the strings, these end in it, and all of
it is zero so far. -/
structure Cleared (b : Block UInt8) (o j : ℕ) (args : List Bytes) : Prop where
  base_le : b.base ≤ o
  array_le : o + sizeofOption * args.length ≤ j
  strings_le : j + stringsSize args ≤ b.base + b.size
  zero : ∀ i, Written o j args i → b.cells i = 0

/-- An address is read back. -/
theorem loadNat_eq {a w x : ℕ} (h : b.load a w = some (littleEndian w x)) (hx : x < 256 ^ w) :
    b.loadNat a w = some x := by
  rw [loadNat, h, Option.map_some, ofLittleEndian_littleEndian, Nat.mod_eq_of_lt hx]

theorem readOptions_succ {n address extraInfo : ℕ} {string : Bytes} {options : List JavaVMOption}
    (haddress : b.loadNat o 8 = some address) (hextra : b.loadNat (o + 8) 8 = some extraInfo)
    (hstring : b.loadString b.size address = some string)
    (hoptions : readOptions b (o + sizeofOption) n = some options) :
    readOptions b o (n + 1) = some (⟨string, extraInfo⟩ :: options) := by
  simp only [readOptions, haddress, hextra, hstring, hoptions, Option.bind_eq_bind,
    Option.bind_some]

/-- What one turn writes: the string, and its address in the array. -/
theorem exists_turn {arg : Bytes} {args : List Bytes} (h : Cleared b o j (arg :: args)) :
    ∃ copied linked, b.store j (strncpy arg) = some copied ∧
      copied.store o (littleEndian 8 j) = some linked ∧
      linked.load o 8 = some (littleEndian 8 j) ∧
      (∀ i < arg.length + 1, linked.cells (j + i) = (arg.takeWhile (· != 0)).getD i 0) ∧
      SameOutside (fun i ↦ (o ≤ i ∧ i < o + 8) ∨ (j ≤ i ∧ i < j + arg.length)) b linked := by
  obtain ⟨hbase, harray, hstrings, hzero⟩ := h
  have hpad := le_pad (arg.length + 1)
  rw [List.length_cons, sizeofOption] at harray
  rw [stringsSize_cons] at hstrings
  have hcopy : b.Within j (strncpy arg).length := by
    rw [length_strncpy]
    exact ⟨by omega, by omega⟩
  obtain ⟨copied, hcopied, hread, hsame⟩ := exists_store hcopy
  have hlink : copied.Within o (littleEndian 8 j).length := by
    rw [hsame.within_iff, length_littleEndian]
    exact ⟨hbase, by omega⟩
  obtain ⟨linked, hlinked, haddress, hsame'⟩ := exists_store hlink
  rw [length_strncpy] at hread hsame
  rw [length_littleEndian] at haddress hsame'
  refine ⟨copied, linked, hcopied, hlinked, haddress, fun i hi ↦ ?_,
    (hsame.trans hsame').mono fun i hi ↦ hi.symm⟩
  rw [hsame'.cells_eq _ (by omega), ← getD_strncpy]
  by_cases hlt : i < arg.length
  · rw [List.getD_eq_getElem?_getD, cells_of_load hread hlt]
    rfl
  · -- the terminator is not copied: the byte after the string is zero since the start
    have hlast : i = arg.length := by omega
    subst hlast
    rw [hsame.cells_eq _ (by omega), List.getD_eq_getElem?_getD,
      List.getElem?_eq_none (by rw [length_strncpy])]
    refine hzero _ (.inr ⟨by omega, ?_⟩)
    rw [stringsSize_cons]
    omega

/-- The loop stays in the block, writes the options and strings and nothing else, and every option
is read back. -/
theorem packOptions_spec {args : List Bytes} (h : Cleared b o j args)
    (hspace : b.base + b.size ≤ 2 ^ 64) :
    ∃ b', packOptions b o j args = some b' ∧ SameOutside (Written o j args) b b' ∧
      readOptions b' o args.length = some (args.map fun arg ↦ ⟨arg.takeWhile (· != 0), 0⟩) := by
  induction args generalizing b o j with
  | nil => exact ⟨b, rfl, ⟨rfl, rfl, fun _ _ ↦ rfl⟩, rfl⟩
  | cons arg args ih =>
    obtain ⟨copied, linked, hcopied, hlinked, haddress, hstring, hsame⟩ := exists_turn h
    obtain ⟨hbase, harray, hstrings, hzero⟩ := h
    have hpad := le_pad (arg.length + 1)
    have hlen := length_takeWhile_le arg
    rw [List.length_cons, sizeofOption] at harray
    rw [stringsSize_cons] at hstrings
    have hwritten : ∀ i, Written (o + sizeofOption) (j + pad (arg.length + 1)) args i →
        Written o j (arg :: args) i := by
      intro i
      simp only [Written, sizeofOption, stringsSize_cons, List.length_cons]
      omega
    have hcleared : Cleared linked (o + sizeofOption) (j + pad (arg.length + 1)) args := by
      refine ⟨?_, ?_, ?_, fun i hi ↦ ?_⟩
      · rw [hsame.base_eq]
        omega
      · rw [sizeofOption]
        omega
      · rw [hsame.base_eq, hsame.size_eq]
        omega
      · rw [hsame.cells_eq i ?_]
        · exact hzero i (hwritten i hi)
        · simp only [Written, sizeofOption] at hi
          omega
    obtain ⟨b', hpacked, hsame', hrest⟩ := ih hcleared (by rwa [hsame.base_eq, hsame.size_eq])
    have hall : packOptions b o j (arg :: args) = some b' := by
      rw [packOptions, hcopied]
      exact (congrArg (· >>= _) hlinked).trans hpacked
    -- the later turns write behind this option and behind its string
    have hread : b'.loadNat o 8 = some j := by
      refine loadNat_eq ((hsame'.load_eq fun i hi hlt ↦ ?_).trans haddress) (by omega)
      simp only [Written, sizeofOption]
      omega
    have hextra : b'.loadNat (o + 8) 8 = some 0 := by
      have hzeros : b'.load (o + 8) 8 = some (List.replicate 8 0) := by
        refine load_of_forall ?_ fun i hi hlt ↦ ?_
        · rw [hsame'.within_iff, hsame.within_iff]
          exact ⟨by omega, by omega⟩
        · rw [hsame'.cells_eq i (by simp only [Written, sizeofOption]; omega),
            hsame.cells_eq i (by omega)]
          refine hzero i (.inl ⟨by omega, ?_⟩)
          rw [List.length_cons, sizeofOption]
          omega
      rw [loadNat, hzeros]
      rfl
    have hcells : ∀ i < arg.length + 1,
        b'.cells (j + i) = (arg.takeWhile (· != 0)).getD i 0 := fun i hi ↦ by
      rw [hsame'.cells_eq _ (by simp only [Written, sizeofOption]; omega), hstring i hi]
    have hoption : b'.loadString b'.size j = some (arg.takeWhile (· != 0)) := by
      refine loadString_eq ?_ ?_ (fun i hi ↦ ⟨?_, ?_⟩) ?_
      · rw [hsame'.within_iff, hsame.within_iff]
        exact ⟨by omega, by omega⟩
      · rw [hsame'.size_eq, hsame.size_eq]
        omega
      · rw [hcells i (by omega), List.getD_eq_getElem?_getD, List.getElem?_eq_getElem hi]
        rfl
      · simpa using List.mem_takeWhile_imp (List.getElem_mem hi)
      · rw [hcells _ (by omega), List.getD_eq_getElem?_getD, List.getElem?_eq_none le_rfl]
        rfl
    refine ⟨b', hall, (hsame.trans hsame').mono fun i hi ↦ ?_, ?_⟩
    · rcases hi with hi | hi
      · simp only [Written, sizeofOption, stringsSize_cons, List.length_cons]
        omega
      · exact hwritten i hi
    · exact readOptions_succ hread hextra hoption hrest

end Loop

/-! ### The block -/

/-- The fields of the header, each at its place. -/
structure Header (b : Block UInt8) (ignoreUnrecognized : Bool) (count : ℕ) : Prop where
  version : b.load b.base 4 = some (littleEndian 4 useJniVersion)
  nOptions : b.load (b.base + 4) 4 = some (littleEndian 4 count)
  options : b.load (b.base + 8) 8 = some (littleEndian 8 (b.base + oblock))
  ignoreUnrecognized : b.load (b.base + 16) 1 = some [if ignoreUnrecognized then 1 else 0]

variable {b b' : Block UInt8} {ignoreUnrecognized : Bool} {count : ℕ}

/-- What is written behind the header leaves it as it is. -/
theorem Header.of_sameOutside {p : ℕ → Prop} (h : Header b ignoreUnrecognized count)
    (hsame : SameOutside p b b') (hp : ∀ i, p i → b.base + oblock ≤ i) :
    Header b' ignoreUnrecognized count := by
  have hload : ∀ a n, a + n ≤ b.base + oblock → b'.load a n = b.load a n := fun a n hle ↦
    hsame.load_eq fun i _ hlt hi ↦ by
      have := hp i hi
      omega
  rw [oblock_eq] at hload
  refine ⟨?_, ?_, ?_, ?_⟩ <;> rw [hsame.base_eq, hload _ _ (by omega)]
  exacts [h.version, h.nOptions, h.options, h.ignoreUnrecognized]

/-- The fields are written apart from each other, and the rest of the block is zero. -/
theorem exists_header (hsize : oblock ≤ b.size) (ignoreUnrecognized : Bool) (count : ℕ) :
    ∃ b', packHeader b ignoreUnrecognized count = some b' ∧ b'.base = b.base ∧ b'.size = b.size ∧
      Header b' ignoreUnrecognized count ∧
      ∀ i, b.base + oblock ≤ i → i < b.base + b.size → b'.cells i = 0 := by
  rw [oblock_eq] at hsize ⊢
  -- The block is zeroed, and then the fields are written in the order of the source.
  obtain ⟨b₁, h₁, hzero, s₁⟩ := exists_store (b := b) (a := b.base)
    (l := List.replicate b.size (0 : UInt8)) ⟨le_rfl, by rw [List.length_replicate]⟩
  rw [List.length_replicate] at hzero s₁
  obtain ⟨b₂, h₂, hoptions, s₂⟩ := exists_store (b := b₁) (a := b.base + 8)
    (l := littleEndian 8 (b.base + oblock)) (s₁.within_iff.2 ⟨by omega, by
      rw [length_littleEndian]
      omega⟩)
  rw [length_littleEndian] at hoptions s₂
  obtain ⟨b₃, h₃, hversion, s₃⟩ := exists_store (b := b₂) (a := b.base)
    (l := littleEndian 4 useJniVersion) ((s₁.trans s₂).within_iff.2 ⟨le_rfl, by
      rw [length_littleEndian]
      omega⟩)
  rw [length_littleEndian] at hversion s₃
  obtain ⟨b₄, h₄, hignore, s₄⟩ := exists_store (b := b₃) (a := b.base + 16)
    (l := [if ignoreUnrecognized then (1 : UInt8) else 0])
    (((s₁.trans s₂).trans s₃).within_iff.2 ⟨by omega, by
      rw [List.length_singleton]
      omega⟩)
  rw [List.length_singleton] at hignore s₄
  obtain ⟨b₅, h₅, hcount, s₅⟩ := exists_store (b := b₄) (a := b.base + 4)
    (l := littleEndian 4 count)
    ((((s₁.trans s₂).trans s₃).trans s₄).within_iff.2 ⟨by omega, by
      rw [length_littleEndian]
      omega⟩)
  rw [length_littleEndian] at hcount s₅
  -- Each field is read back past the writes that came after its own.
  have hpacked : packHeader b ignoreUnrecognized count = some b₅ := by
    rw [← h₅]
    simp only [packHeader, h₁, h₂, h₃, h₄, Option.bind_eq_bind, Option.bind_some]
  have hbase : b₅.base = b.base := by
    rw [s₅.base_eq, s₄.base_eq, s₃.base_eq, s₂.base_eq, s₁.base_eq]
  have hsize' : b₅.size = b.size := by
    rw [s₅.size_eq, s₄.size_eq, s₃.size_eq, s₂.size_eq, s₁.size_eq]
  refine ⟨b₅, hpacked, hbase, hsize', ⟨?_, ?_, ?_, ?_⟩, fun i hi hlt ↦ ?_⟩
  · rw [hbase, s₅.load_eq (by omega), s₄.load_eq (by omega), hversion]
  · rw [hbase, hcount]
  · rw [hbase, s₅.load_eq (by omega), s₄.load_eq (by omega), s₃.load_eq (by omega), hoptions]
  · rw [hbase, s₅.load_eq (by omega), hignore]
  · rw [s₅.cells_eq i (by omega), s₄.cells_eq i (by omega), s₃.cells_eq i (by omega),
      s₂.cells_eq i (by omega)]
    have hcell := cells_of_load hzero (i := i - b.base) (by omega)
    rw [List.getElem?_replicate, if_pos (by omega), Nat.add_sub_cancel' (by omega)] at hcell
    exact (Option.some.inj hcell).symm

theorem turns_eq (h : count < 2 ^ 31) : turns count = count := by
  have hfits : Fits 32 (count : ℤ) := ⟨by omega, by exact_mod_cast h⟩
  have hbmod : (count : ℤ).bmod (2 ^ 32) = count := bmod_of_fits (by decide) hfits
  exact (congrArg Int.toNat hbmod).trans (Int.toNat_natCast count)

theorem readInitArgs_of {a version nOptions address flag : ℕ} {options : List JavaVMOption}
    (hversion : b.loadNat a 4 = some version) (hnOptions : b.loadNat (a + 4) 4 = some nOptions)
    (haddress : b.loadNat (a + 8) 8 = some address) (hflag : b.loadNat (a + 16) 1 = some flag)
    (hoptions : readOptions b address (turns nOptions) = some options) :
    readInitArgs b a = some ⟨version, flag != 0, options⟩ :=
  Option.bind_eq_some_iff.2 ⟨version, hversion, Option.bind_eq_some_iff.2 ⟨nOptions, hnOptions,
    Option.bind_eq_some_iff.2 ⟨address, haddress, Option.bind_eq_some_iff.2 ⟨flag, hflag,
      Option.bind_eq_some_iff.2 ⟨options, hoptions, rfl⟩⟩⟩⟩⟩

/-- From a header and the options behind it, the JVM reads the arguments. -/
theorem Header.readInitArgs_eq {options : List JavaVMOption}
    (h : Header b ignoreUnrecognized count) (hcount : count < 2 ^ 31)
    (hspace : b.base + oblock < 2 ^ 64)
    (hoptions : readOptions b (b.base + oblock) count = some options) :
    readInitArgs b b.base = some ⟨useJniVersion, ignoreUnrecognized, options⟩ := by
  have hversion : b.loadNat b.base 4 = some useJniVersion := loadNat_eq h.version (by decide)
  have hnOptions : b.loadNat (b.base + 4) 4 = some count := loadNat_eq h.nOptions (by omega)
  have haddress : b.loadNat (b.base + 8) 8 = some (b.base + oblock) :=
    loadNat_eq h.options (by omega)
  have hflag : b.loadNat (b.base + 16) 1 = some (if ignoreUnrecognized then 1 else 0) := by
    rw [loadNat, h.ignoreUnrecognized]
    cases ignoreUnrecognized <;> simp [ofLittleEndian]
  have hignore : ((if ignoreUnrecognized then 1 else 0) != 0) = ignoreUnrecognized := by
    cases ignoreUnrecognized <;> rfl
  have hread := readInitArgs_of hversion hnOptions haddress hflag
    ((congrArg (readOptions b _) (turns_eq hcount)).trans hoptions)
  rwa [hignore] at hread

/-! ### The options -/

/-- On a JVM that knows the option, the options given, and native access for all unless one of them
is about it; on an older one, those given that are not about it. -/
theorem finalArgs_eq (jdk21 : Bool) (args : List Bytes) :
    finalArgs jdk21 args =
      if jdk21 then if args.any isNativeAccess then args else args ++ [allUnnamed]
      else args.filter (!isNativeAccess ·) := by
  have hloop : ∀ (args final : List Bytes) (has : Bool),
      args.foldl (addOption jdk21) (final, has) =
        (final ++ args.filter fun opt ↦ jdk21 || !isNativeAccess opt,
          has || (jdk21 && args.any isNativeAccess)) := by
    intro args
    induction args with
    | nil => simp
    | cons opt args ih =>
      intro final has
      rw [List.foldl_cons, addOption]
      cases jdk21 <;> cases hopt : isNativeAccess opt <;> simp [ih, hopt]
  rw [finalArgs, hloop]
  cases jdk21
  · simp
  · cases args.any isNativeAccess <;> simp

/-- The block that `startJVM` fills is large enough for all that it writes, whatever it held
before; and at its address the JVM reads the version, the flag and the final options in order, each
up to its first zero byte. -/
theorem startJVM_initArgs (jdk21 ignoreUnrecognized : Bool) (args : List Bytes) (address : ℕ)
    (garbage : ℕ → UInt8) (hcount : (finalArgs jdk21 args).length < 2 ^ 31)
    (hspace : address + memory (finalArgs jdk21 args) ≤ 2 ^ 64) :
    ∃ b, packArgs ⟨address, memory (finalArgs jdk21 args), garbage⟩ ignoreUnrecognized
        (finalArgs jdk21 args) = some b ∧
      readInitArgs b address = some ⟨useJniVersion, ignoreUnrecognized,
        (if jdk21 then if args.any isNativeAccess then args else args ++ [allUnnamed]
          else args.filter (!isNativeAccess ·)).map
          fun opt ↦ ⟨opt.takeWhile (· != 0), 0⟩⟩ := by
  rw [← finalArgs_eq]
  generalize finalArgs jdk21 args = final at hcount hspace
  have hsblock := sizeofOption_mul_lt_sblock final.length
  have hmemory : memory final = sblock final.length + stringsSize final := rfl
  obtain ⟨b, hpacked, hbase, hsize, hheader, hzero⟩ := exists_header
    (b := ⟨address, memory final, garbage⟩) (show oblock ≤ memory final by omega) ignoreUnrecognized
    final.length
  dsimp only at hpacked hbase hsize hzero
  have hcleared : Cleared b (address + oblock) (address + sblock final.length) final := by
    refine ⟨?_, by omega, ?_, fun i hi ↦ hzero i ?_ ?_⟩
    · omega
    · omega
    all_goals
      simp only [Written] at hi ⊢
      omega
  obtain ⟨b', hpacked', hsame, hoptions⟩ := packOptions_spec hcleared (by rwa [hbase, hsize])
  have hheader' : Header b' ignoreUnrecognized final.length := by
    refine hheader.of_sameOutside hsame fun i hi ↦ ?_
    simp only [Written] at hi
    omega
  have hat : b'.base = address := by rw [hsame.base_eq, hbase]
  refine ⟨b', ?_, ?_⟩
  · simp only [packArgs, hpacked, Option.bind_eq_bind, Option.bind_some, hpacked']
  · rw [← hat] at hoptions ⊢
    exact hheader'.readInitArgs_eq hcount (by omega) hoptions

/-- Of two options, one with a zero byte inside, a JVM before 21 gets both up to there. -/
theorem startJVM_initArgs_two : ∃ b,
    packArgs ⟨4096, 160, fun _ ↦ 0xCD⟩ true [[45, 65], [45, 0, 66]] = some b ∧
      readInitArgs b 4096 = some ⟨useJniVersion, true, [⟨[45, 65], 0⟩, ⟨[45], 0⟩]⟩ :=
  startJVM_initArgs false true [[45, 65], [45, 0, 66]] 4096 (fun _ ↦ 0xCD) (by decide) (by decide)

end JPype.JPContext
