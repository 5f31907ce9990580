import JPype.Foundation.Membership
import Mathlib.Algebra.Group.Nat.Defs
import Mathlib.Data.Char
import Mathlib.Data.List.Infix
import Mathlib.Data.List.Lex
import Mathlib.Data.List.Sort

/-!
# Finding the library of the virtual machine

`JVMFinder` asks its methods, one after the other, for the path of the library. A method that finds
nothing raises, and so does one that finds a library that is not supported: both are caught, and the
next method is asked.

One of the methods looks at the home directories in the known locations. The library of a home is
looked up by `find_libjvm`, which raises where it finds none; nothing catches this between one home
and the next, so that the method offers what its first home has, or nothing
(`fromKnownLocations_eq`). On a Mac the last method returns a home directory, and nobody looks for a
library in it (`Method.javahomeBinary`). The search finds a supported library exactly if the first
method that is not refused offers one (`complete_iff`).
-/

namespace JPype.Startup

open scoped Foundation.Membership

/-- A name in a file system. -/
abbrev Name := List Char

/-- What the methods of a finder raise. -/
inductive SearchError (E : Type) where
  | notImplemented
  /-- `JVMNotFoundException` -/
  | notFound (message : Name)
  /-- `JVMNotSupportedException` -/
  | notSupported (message : Name)
  /-- Any other exception, such as an `OSError`. -/
  | other (e : E)
  deriving DecidableEq

/-- `get_jvm_path` goes on after this exception. -/
def SearchError.Caught {E : Type} : SearchError E → Prop
  | .other _ => False
  | _ => True

/-- The functions of `os` and `os.path` that a finder uses, on paths `P`. -/
structure FileSystem (P E : Type) where
  /-- The directories that `os.walk` visits, with the names of the files in them. -/
  walk : P → List (P × List Name)
  exists' : P → Bool
  isdir : P → Bool
  listdir : P → Except E (List Name)
  realpath : P → P
  join : P → Name → P
  /-- `os.path.split(path)[1]`, and `os.path.basename` -/
  basename : P → Name
  /-- `len(path.split(os.sep))` -/
  depth : P → ℕ
  /-- `str.lower` -/
  lower : Name → Name
  /-- `os.path.abspath(os.path.join(os.path.dirname(path), '..'))` -/
  grandparent : P → P
  /-- The empty path is false. -/
  blank : P → Bool

/-- A method of a finder. -/
inductive Method (P E : Type) where
  /-- `_get_from_known_locations` -/
  | knownLocations
  /-- A method that looks for the library in one home directory, if it has one. -/
  | home (javaHome : Option P)
  /-- A method that returns the home directory itself, if it has one. -/
  | bareHome (outcome : Except E (Option P))
  /-- A method that looks up the path of a library, with what it does. -/
  | lookup (outcome : Except (SearchError E) (Option P))

/-- The method looks for the library itself. -/
def Method.Searches {P E : Type} : Method P E → Prop
  | .knownLocations | .home _ => True
  | .bareHome _ | .lookup _ => False

/-- `_get_from_java_home`, where the variable `JAVA_HOME` has the given value. -/
def Method.javaHome {P E : Type} (fs : FileSystem P E) (env : Option P) : Method P E :=
  .home <| (env.filter fun h ↦ ¬fs.blank h ∧ fs.exists' h).map fun h ↦
    if fs.exists' (fs.realpath h) then fs.realpath h else h

/-- `_get_from_bin`, for the given `_java`. -/
def Method.bin {P E : Type} (fs : FileSystem P E) (java : P) : Method P E :=
  .home (if fs.exists' (fs.realpath java) then some (fs.grandparent (fs.realpath java)) else none)

/-- `_javahome_binary`, with `platform.mac_ver()[0]`, the comparison `Version('10.6') <= Version(_)`
and what the tool `java_home` prints. -/
def Method.javahomeBinary {P E : Type} (macVer : Name) (recent : Name → Except E Bool)
    (output : Except E P) : Method P E :=
  .bareHome <|
    match recent (macVer.take 4) with
    | .error e => .error e
    | .ok false => .ok none
    | .ok true => some <$> output

/-- `reg_keys` -/
def regKeys : List Name :=
  ["SOFTWARE\\JavaSoft\\Java Runtime Environment".toList, "SOFTWARE\\JavaSoft\\JRE".toList]

/-- The loop of `_get_from_registry`. At a location `runtimeLib` reads the `RuntimeLib` of the
current version; an `OSError` is passed over. -/
def scanRegistry {P E : Type} (runtimeLib : Name → Except (Option E) P) :
    List Name → Except (SearchError E) (Option P)
  | [] => .ok none
  | location :: locations =>
    match runtimeLib location with
    | .ok jvm => .ok (some jvm)
    | .error none => scanRegistry runtimeLib locations
    | .error (some e) => .error (.other e)

/-- `_get_from_registry`, where the module `winreg` may be missing. -/
def Method.registry {P E : Type} (winreg : Option (Name → Except (Option E) P)) : Method P E :=
  .lookup <|
    match winreg with
    | none => .ok none
    | some runtimeLib => scanRegistry runtimeLib regKeys

/-- `struct.unpack` of a little-endian number of `n` bytes, which raises where there are fewer. -/
def unpack {E : Type} (structError : E) (n : ℕ) (bytes : List UInt8) :
    Except (SearchError E) ℕ :=
  if bytes.length = n then .ok (bytes.foldr (fun b acc ↦ b.toNat + 256 * acc) 0)
  else .error (.other structError)

/-- The end of `_checkJVMArch`, for the `machine` in the header. -/
def checkMachine {E : Type} (is64 : Bool) (machine : ℕ) : Except (SearchError E) Unit :=
  if machine = 332 then
    if is64 then
      .error (.notSupported "JVM mismatch, python is 64 bit and JVM is 32 bit.".toList)
    else .ok ()
  else if machine = 512 ∨ machine = 34404 ∨ machine = 43620 then
    if is64 then .ok ()
    else .error (.notSupported "JVM mismatch, python is 32 bit and JVM is 64 bit.".toList)
  else .error (.notSupported "Unable to determine JVM Type".toList)

/-- `_checkJVMArch`, for a file with the given contents, or which cannot be read. -/
def checkJVMArch {E : Type} (maxsize : ℕ) (structError : E) :
    Except E (List UInt8) → Except (SearchError E) Unit
  | .error e => .error (.other e)
  | .ok bytes =>
    if bytes.take 2 = [77, 90] then do
      let headerOffset ← unpack structError 4 ((bytes.drop 60).take 4)
      let machine ← unpack structError 2 ((bytes.drop (headerOffset + 4)).take 2)
      checkMachine (decide (2 ^ 32 < maxsize)) machine
    else .error (.notSupported "JVM not valid".toList)

/-- `JVMFinder` -/
structure Finder (P E : Type) where
  libfile : Name
  locations : List P
  methods : List (Method P E)
  check : P → Except (SearchError E) Unit

/-- `LinuxJVMFinder`, with its `_java` and `_locations` and the value of `JAVA_HOME`; `check` is
that of `JVMFinder`. -/
def linuxFinder {P E : Type} (fs : FileSystem P E) (java : P) (locations : List P)
    (env : Option P) : Finder P E where
  libfile := "libjvm.so".toList
  locations := locations
  methods := [.javaHome fs env, .bin fs java, .knownLocations]
  check := fun _ ↦ .ok ()

/-- `DarwinJVMFinder`, which has one method more than `LinuxJVMFinder`. -/
def darwinFinder {P E : Type} (fs : FileSystem P E) (java : P) (locations : List P)
    (env : Option P) (macVer : Name) (recent : Name → Except E Bool) (output : Except E P) :
    Finder P E where
  libfile := "libjli.dylib".toList
  locations := locations
  methods :=
    (linuxFinder fs java locations env).methods ++ [.javahomeBinary macVer recent output]
  check := fun _ ↦ .ok ()

/-- `WindowsJVMFinder`, where `read` opens the library. -/
def windowsFinder {P E : Type} (fs : FileSystem P E) (locations : List P) (env : Option P)
    (winreg : Option (Name → Except (Option E) P)) (maxsize : ℕ) (structError : E)
    (read : P → Except E (List UInt8)) : Finder P E where
  libfile := "jvm.dll".toList
  locations := locations
  methods := [.javaHome fs env, .registry winreg]
  check := fun jvm ↦ checkJVMArch maxsize structError (read jvm)

/-- `non_supported_jvm` -/
def nonSupportedJvm : List Name :=
  ["cacao".toList, "jamvm".toList]

/-- `java_names` -/
def javaNames : List Name :=
  ["jre".toList, "jdk".toList, "java".toList]

namespace Finder

variable {P E : Type} (fs : FileSystem P E) (f : Finder P E)

/-- The message for a home with libraries that are not supported; `candidate` is the last one. -/
def brokenMessage (candidate : Name) : Name :=
  "Sorry '".toList ++ candidate ++ ("' is known to be broken. Please ensure your JAVA_HOME " ++
    "contains at least another JVM implementation (eg. server)").toList

/-- The message for a home without a library. -/
def absentMessage : Name :=
  ("Sorry no JVM could be found. Please ensure your JAVA_HOME environment variable is pointing " ++
    "to correct installation.").toList

/-- The loop of `find_libjvm`, with the last candidate that is not supported. -/
def scan : Option Name → List (P × List Name) → Except (SearchError E) P
  | some candidate, [] => .error (.notSupported (brokenMessage candidate))
  | none, [] => .error (.notFound absentMessage)
  | found, (root, names) :: entries =>
    if f.libfile ∈ names then
      if fs.basename root ∈ nonSupportedJvm then scan (some (fs.basename root)) entries
      else .ok (fs.join root f.libfile)
    else scan found entries

/-- `find_libjvm` -/
def findLibjvm (javaHome : P) : Except (SearchError E) P :=
  scan fs f none ((fs.walk javaHome).insertionSort fun a b ↦ fs.depth a.1 ≤ fs.depth b.1)

/-- The inner loop of `find_possible_homes`, with the homes that have been yielded. -/
def homesIn (parent : P) [DecidableEq P] : List Name → List P → List P
  | [], homes => homes
  | childname :: names, homes =>
    let path := fs.realpath (fs.join parent childname)
    if path ∈ homes ∨ ¬fs.isdir path then homesIn parent names homes
    else if javaNames.any fun javaName ↦ decide (javaName <:+: fs.lower (fs.basename path)) then
      homesIn parent names (homes ++ [path])
    else homesIn parent names homes

/-- `find_possible_homes`: the homes that are yielded, and the exception that ends this early. -/
def findPossibleHomes [DecidableEq P] : List P → List P → List P × Option E
  | [], homes => (homes, none)
  | parent :: parents, homes =>
    if fs.exists' parent then
      match fs.listdir parent with
      | .error e => (homes, some e)
      | .ok names =>
        findPossibleHomes parents (homesIn fs parent (names.insertionSort (· ≤ ·)) homes)
    else findPossibleHomes parents homes

/-- `_get_from_known_locations`. The homes are generated on demand, and the first one decides:
`find_libjvm` either raises or returns a path. -/
def fromKnownLocations [DecidableEq P] : Except (SearchError E) (Option P) :=
  match findPossibleHomes fs f.locations [] with
  | (home :: _, _) => some <$> findLibjvm fs f home
  | ([], some e) => .error (.other e)
  | ([], none) => .ok none

/-- `method()` -/
def run [DecidableEq P] : Method P E → Except (SearchError E) (Option P)
  | .knownLocations => fromKnownLocations fs f
  | .home none => .ok none
  | .home (some javaHome) => some <$> findLibjvm fs f javaHome
  | .bareHome outcome => outcome.mapError .other
  | .lookup outcome => outcome

/-- The body of the `try` in `get_jvm_path`: a path that is not empty is checked. -/
def attempt [DecidableEq P] (m : Method P E) : Except (SearchError E) (Option P) :=
  match run fs f m with
  | .ok (some jvm) => if fs.blank jvm then .ok (some jvm) else (fun _ ↦ some jvm) <$> f.check jvm
  | r => r

/-- The message of a search in which every method was refused. -/
def failureMessage : Name :=
  "No JVM shared library file (".toList ++ f.libfile ++
    ") found. Try setting up the JAVA_HOME environment variable properly.".toList

/-- The loop of `get_jvm_path`, with the exception that is remembered. -/
def searchLoop [DecidableEq P] : Option Name → List (Method P E) → Except (SearchError E) P
  | some message, [] => .error (.notSupported message)
  | none, [] => .error (.notFound f.failureMessage)
  | ext, m :: methods =>
    match attempt fs f m with
    | .ok (some jvm) => .ok jvm
    | .ok none => searchLoop ext methods
    | .error (.notSupported message) => searchLoop (some message) methods
    | .error (.other e) => .error (.other e)
    | .error _ => searchLoop ext methods

/-- `get_jvm_path` -/
def getJvmPath [DecidableEq P] : Except (SearchError E) P :=
  searchLoop fs f none f.methods

/-! ### The libraries there are -/

/-- `p` is the path of a library in a directory below `javaHome`, of a kind that is supported. -/
def InHome (javaHome p : P) : Prop :=
  ∃ entry ∈ fs.walk javaHome, f.libfile ∈ entry.2 ∧ fs.basename entry.1 ∉ nonSupportedJvm ∧
    p = fs.join entry.1 f.libfile

/-- The name of a home directory has one of the java names in it. -/
def JavaNamed (path : P) : Prop :=
  ∃ javaName ∈ javaNames, javaName <:+: fs.lower (fs.basename path)

instance (path : P) : Decidable (JavaNamed fs path) :=
  inferInstanceAs (Decidable (∃ _ ∈ _, _))

/-- A home directory in one of the locations. -/
def KnownHome (home : P) : Prop :=
  ∃ parent ∈ f.locations, fs.exists' parent ∧ ∃ names, fs.listdir parent = .ok names ∧
    ∃ childname ∈ names, home = fs.realpath (fs.join parent childname) ∧ fs.isdir home ∧
      JavaNamed fs home

/-- `p` is the path of a supported library. -/
def Supported (p : P) : Prop :=
  (∃ home, InHome fs f home p) ∧ f.check p = .ok ()

/-- The method has to do with the path `p`: it is in one of its home directories, or it is what the
method looks up. -/
def Reaches (p : P) : Method P E → Prop
  | .knownLocations => ∃ home, KnownHome fs f home ∧ InHome fs f home p
  | .home javaHome => ∃ home, javaHome = some home ∧ InHome fs f home p
  | .bareHome outcome => ∃ home, outcome = .ok (some home) ∧ InHome fs f home p
  | .lookup outcome => outcome = .ok (some p)

/-- If a supported library is within reach of a method, the path of one is found. -/
def Complete [DecidableEq P] : Prop :=
  (∃ m ∈ f.methods, ∃ p, Reaches fs f p m ∧ Supported fs f p) →
    ∃ p, getJvmPath fs f = .ok p ∧ Supported fs f p

/-! ### What a method offers -/

/-- The first library in a home directory, the shallowest directories first. -/
def firstLibrary (javaHome : P) : Option P :=
  (((fs.walk javaHome).insertionSort fun a b ↦ fs.depth a.1 ≤ fs.depth b.1).find? fun entry ↦
    f.libfile ∈ entry.2 ∧ fs.basename entry.1 ∉ nonSupportedJvm).map
      fun entry ↦ fs.join entry.1 f.libfile

/-- The first home directory in the locations, unless a location before it cannot be listed. -/
def firstHome : List P → Except E (Option P)
  | [] => .ok none
  | parent :: parents =>
    if fs.exists' parent then
      match fs.listdir parent with
      | .error e => .error e
      | .ok names =>
        match ((names.insertionSort (· ≤ ·)).map fun c ↦ fs.realpath (fs.join parent c)).find?
            fun path ↦ fs.isdir path ∧ JavaNamed fs path with
        | some home => .ok (some home)
        | none => firstHome parents
    else firstHome parents

/-- What a method has to offer: of the known locations, only the library of the first home, and a
bare home as it is. -/
def offer : Method P E → Option P
  | .knownLocations => ((firstHome fs f.locations).toOption.join).bind (firstLibrary fs f)
  | .home javaHome => javaHome.bind (firstLibrary fs f)
  | .bareHome outcome => outcome.toOption.join
  | .lookup outcome => outcome.toOption.join

/-- The method raises what `get_jvm_path` does not catch. -/
def Breaks : Method P E → Prop
  | .knownLocations => ∃ e, firstHome fs f.locations = .error e
  | .home _ => False
  | .bareHome outcome => ∃ e, outcome = .error e
  | .lookup outcome => ∃ e, outcome = .error (.other e)

/-- The search goes on after the method: it offers nothing, or a library that is not supported. -/
def Refused (m : Method P E) : Prop :=
  ¬Breaks fs f m ∧ ∀ p, offer fs f m = some p →
    fs.blank p = false ∧ ∃ e : SearchError E, f.check p = .error e ∧ e.Caught

/-! ### One home -/

theorem scan_of_find?_some {found : Option Name} {entries : List (P × List Name)}
    {entry : P × List Name}
    (h : (entries.find? fun e ↦ f.libfile ∈ e.2 ∧ fs.basename e.1 ∉ nonSupportedJvm) =
      some entry) : scan fs f found entries = .ok (fs.join entry.1 f.libfile) := by
  induction entries generalizing found with
  | nil => cases h
  | cons e entries ih =>
    obtain ⟨root, names⟩ := e
    rw [List.find?_cons] at h
    rw [scan]
    split_ifs with hlib hbad
    · exact ih (by simpa [hlib, hbad] using h)
    · have he : (root, names) = entry := by simpa [hlib, hbad] using h
      rw [← he]
    · exact ih (by simpa [hlib] using h)

/-- A home without a supported library: what is raised is caught, but not before the next method. -/
theorem scan_of_find?_none {found : Option Name} {entries : List (P × List Name)}
    (h : (entries.find? fun e ↦ f.libfile ∈ e.2 ∧ fs.basename e.1 ∉ nonSupportedJvm) = none) :
    ∃ e : SearchError E, scan fs f found entries = .error e ∧ e.Caught := by
  induction entries generalizing found with
  | nil => cases found <;> exact ⟨_, rfl, trivial⟩
  | cons e entries ih =>
    obtain ⟨root, names⟩ := e
    rw [List.find?_cons] at h
    rw [scan]
    split_ifs with hlib hbad
    · exact ih (by simpa [hlib, hbad] using h)
    · simp [hlib, hbad] at h
    · exact ih (by simpa [hlib] using h)

theorem findLibjvm_of_firstLibrary {home p : P} (h : firstLibrary fs f home = some p) :
    findLibjvm fs f home = .ok p := by
  obtain ⟨entry, hentry, rfl⟩ := Option.map_eq_some_iff.mp h
  exact scan_of_find?_some fs f hentry

theorem findLibjvm_of_none {home : P} (h : firstLibrary fs f home = none) :
    ∃ e : SearchError E, findLibjvm fs f home = .error e ∧ e.Caught :=
  scan_of_find?_none fs f (Option.map_eq_none_iff.mp h)

theorem inHome_of_firstLibrary {home p : P} (h : firstLibrary fs f home = some p) :
    InHome fs f home p := by
  obtain ⟨entry, hentry, rfl⟩ := Option.map_eq_some_iff.mp h
  have hprop := List.find?_some hentry
  simp only [decide_eq_true_eq] at hprop
  exact ⟨entry, (List.mem_insertionSort _).mp (List.mem_of_find?_eq_some hentry),
    hprop.1, hprop.2, rfl⟩

/-! ### The homes in the known locations -/

/-- The first home is one of those in the locations. -/
theorem knownHome_of_firstHome {parents : List P} {home : P} (hsub : parents ⊆ f.locations)
    (h : firstHome fs parents = .ok (some home)) : KnownHome fs f home := by
  induction parents with
  | nil => cases h
  | cons parent parents ih =>
    have hparents : parents ⊆ f.locations := fun q hq ↦ hsub (List.mem_cons_of_mem _ hq)
    rw [firstHome] at h
    split_ifs at h with hexists
    · rcases hnames : fs.listdir parent with e | names
      · rw [hnames] at h
        cases h
      · rw [hnames] at h
        dsimp only at h
        split at h
        · rename_i first hfirst
          obtain rfl : first = home := by injection h with h; injection h
          have hprop := List.find?_some hfirst
          simp only [decide_eq_true_eq] at hprop
          obtain ⟨c, hc, rfl⟩ := List.mem_map.mp (List.mem_of_find?_eq_some hfirst)
          exact ⟨parent, hsub List.mem_cons_self, hexists, names, hnames, c,
            (List.mem_insertionSort _).mp hc, rfl, hprop.1, hprop.2⟩
        · exact ih hparents h
    · exact ih hparents h

/-- A method that looks for the library itself offers a library within its reach. -/
theorem reaches_of_offer {m : Method P E} {p : P} (hm : m.Searches)
    (h : offer fs f m = some p) : Reaches fs f p m ∧ ∃ home, InHome fs f home p := by
  rcases m with - | javaHome | outcome | outcome
  · obtain ⟨home, hhome, hp⟩ := Option.bind_eq_some_iff.mp h
    have hlibrary := inHome_of_firstLibrary fs f hp
    rcases hfirst : firstHome fs f.locations with e | found
    · rw [hfirst] at hhome
      cases hhome
    · rw [hfirst] at hhome
      obtain rfl : found = some home := hhome
      have hknown := knownHome_of_firstHome fs f (List.Subset.refl _) hfirst
      exact ⟨⟨home, hknown, hlibrary⟩, home, hlibrary⟩
  · obtain ⟨home, hhome, hp⟩ := Option.bind_eq_some_iff.mp h
    have hlibrary := inHome_of_firstLibrary fs f hp
    exact ⟨⟨home, hhome, hlibrary⟩, home, hlibrary⟩
  · exact hm.elim
  · exact hm.elim

variable [DecidableEq P]

theorem prefix_homesIn (parent : P) (names : List Name) (homes : List P) :
    homes <+: homesIn fs parent names homes := by
  induction names generalizing homes with
  | nil => exact List.prefix_rfl
  | cons c names ih =>
    simp only [homesIn]
    split_ifs
    · exact ih homes
    · exact (List.prefix_append homes _).trans (ih _)
    · exact ih homes

omit [DecidableEq P] in
theorem any_javaNames (path : P) :
    (javaNames.any fun javaName ↦ decide (javaName <:+: fs.lower (fs.basename path))) = true ↔
      JavaNamed fs path := by
  simp [JavaNamed]

theorem head?_homesIn (parent : P) (names : List Name) :
    (homesIn fs parent names []).head? =
      (names.map fun c ↦ fs.realpath (fs.join parent c)).find?
        fun path ↦ fs.isdir path ∧ JavaNamed fs path := by
  induction names with
  | nil => rfl
  | cons c names ih =>
    simp only [homesIn, List.map_cons, List.find?_cons, any_javaNames]
    by_cases hdir : fs.isdir (fs.realpath (fs.join parent c)) = true
    · by_cases hnamed : JavaNamed fs (fs.realpath (fs.join parent c))
      · obtain ⟨later, hlater⟩ := prefix_homesIn fs parent names [fs.realpath (fs.join parent c)]
        have hhead : (homesIn fs parent names [fs.realpath (fs.join parent c)]).head? =
            some (fs.realpath (fs.join parent c)) := by
          rw [← hlater]; rfl
        simp [hdir, hnamed, hhead]
      · simpa [hdir, hnamed] using ih
    · simpa [hdir] using ih

theorem prefix_findPossibleHomes (parents : List P) (homes : List P) :
    homes <+: (findPossibleHomes fs parents homes).1 := by
  induction parents generalizing homes with
  | nil => exact List.prefix_rfl
  | cons parent parents ih =>
    rw [findPossibleHomes]
    split_ifs
    · rcases fs.listdir parent with e | names
      · exact List.prefix_rfl
      · exact (prefix_homesIn fs parent _ homes).trans (ih _)
    · exact ih homes

/-- The first home that is generated, and what is raised if there is none. -/
theorem firstHome_eq (parents : List P) :
    firstHome fs parents =
      match findPossibleHomes fs parents [] with
      | (home :: _, _) => .ok (some home)
      | ([], some e) => .error e
      | ([], none) => .ok none := by
  induction parents with
  | nil => rfl
  | cons parent parents ih =>
    rw [findPossibleHomes, firstHome]
    split_ifs
    · rcases fs.listdir parent with e | names
      · rfl
      · simp only [← head?_homesIn]
        rcases hhomes : homesIn fs parent (names.insertionSort (· ≤ ·)) [] with - | ⟨home, homes⟩
        · exact ih
        · obtain ⟨later, hlater⟩ := prefix_findPossibleHomes fs parents (home :: homes)
          rcases hall : findPossibleHomes fs parents (home :: homes) with ⟨all, e⟩
          rw [hall] at hlater
          obtain rfl : home :: homes ++ later = all := hlater
          rfl
    · exact ih

/-! ### What a method does -/

theorem fromKnownLocations_eq :
    fromKnownLocations fs f =
      match firstHome fs f.locations with
      | .ok (some home) => some <$> findLibjvm fs f home
      | .ok none => .ok none
      | .error e => .error (.other e) := by
  rw [fromKnownLocations, firstHome_eq]
  rcases findPossibleHomes fs f.locations [] with ⟨- | ⟨home, homes⟩, - | e⟩ <;> rfl

omit [DecidableEq P] in
/-- A home that has a library. -/
theorem map_findLibjvm_of_some {home p : P} (h : firstLibrary fs f home = some p) :
    some <$> findLibjvm fs f home = .ok (some p) := by
  rw [findLibjvm_of_firstLibrary fs f h]; rfl

omit [DecidableEq P] in
/-- A home that has none. -/
theorem map_findLibjvm_of_none {home : P} (h : firstLibrary fs f home = none) :
    ∃ e : SearchError E, some <$> findLibjvm fs f home = .error e ∧ e.Caught := by
  obtain ⟨e, he, hcaught⟩ := findLibjvm_of_none fs f h
  exact ⟨e, by rw [he]; rfl, hcaught⟩

/-- A method that offers a path returns it. -/
theorem run_of_offer {m : Method P E} {p : P} (h : offer fs f m = some p) :
    run fs f m = .ok (some p) := by
  rcases m with - | javaHome | outcome | outcome
  · obtain ⟨home, hhome, hp⟩ := Option.bind_eq_some_iff.mp h
    rcases hfirst : firstHome fs f.locations with e | found
    · rw [hfirst] at hhome
      cases hhome
    · rw [hfirst] at hhome
      obtain rfl : found = some home := hhome
      rw [run, fromKnownLocations_eq, hfirst]
      exact map_findLibjvm_of_some fs f hp
  · obtain ⟨home, rfl, hp⟩ := Option.bind_eq_some_iff.mp h
    exact map_findLibjvm_of_some fs f hp
  all_goals
    rcases outcome with e | q
    · cases h
    · obtain rfl : q = some p := h
      rfl

/-- A method that offers nothing and does not break the search returns nothing, or what it raises is
caught. -/
theorem run_of_none {m : Method P E} (hbreaks : ¬Breaks fs f m) (h : offer fs f m = none) :
    run fs f m = .ok none ∨ ∃ e : SearchError E, run fs f m = .error e ∧ e.Caught := by
  rcases m with - | javaHome | outcome | outcome
  · rw [run, fromKnownLocations_eq]
    rcases hfirst : firstHome fs f.locations with e | - | home
    · exact absurd ⟨e, hfirst⟩ hbreaks
    · exact Or.inl rfl
    · rw [offer, hfirst] at h
      exact Or.inr (map_findLibjvm_of_none fs f h)
  · rcases javaHome with - | home
    · exact Or.inl rfl
    · exact Or.inr (map_findLibjvm_of_none fs f h)
  · rcases outcome with e | q
    · exact absurd ⟨e, rfl⟩ hbreaks
    · obtain rfl : q = none := h
      exact Or.inl rfl
  · rcases outcome with e | q
    · refine Or.inr ⟨e, rfl, ?_⟩
      rcases e with - | message | message | e
      · trivial
      · trivial
      · trivial
      · exact absurd ⟨e, rfl⟩ hbreaks
    · obtain rfl : q = none := h
      exact Or.inl rfl

/-- A method that breaks the search. -/
theorem run_of_breaks {m : Method P E} (h : Breaks fs f m) :
    ∃ e, run fs f m = .error (.other e) := by
  rcases m with - | javaHome | outcome | outcome
  · obtain ⟨e, he⟩ := h
    exact ⟨e, by rw [run, fromKnownLocations_eq, he]⟩
  · cases h
  · obtain ⟨e, rfl⟩ := h
    exact ⟨e, rfl⟩
  · exact h

/-! ### One turn of the loop -/

/-- A supported path that is offered is returned. -/
theorem attempt_of_offer {m : Method P E} {p : P} (h : offer fs f m = some p)
    (hcheck : f.check p = .ok ()) : attempt fs f m = .ok (some p) := by
  rw [attempt, run_of_offer fs f h]
  dsimp only
  rw [hcheck]
  exact ite_self _

/-- After a method that is refused, the loop goes on. -/
theorem attempt_of_refused {m : Method P E} (h : Refused fs f m) :
    attempt fs f m = .ok none ∨
      ∃ e : SearchError E, attempt fs f m = .error e ∧ e.Caught := by
  obtain ⟨hbreaks, hoffer⟩ := h
  rcases ho : offer fs f m with - | p
  · rw [attempt]
    rcases run_of_none fs f hbreaks ho with hrun | ⟨e, hrun, hcaught⟩
    · exact Or.inl (by rw [hrun])
    · exact Or.inr ⟨e, by rw [hrun], hcaught⟩
  · obtain ⟨hblank, e, hcheck, hcaught⟩ := hoffer p ho
    refine Or.inr ⟨e, ?_, hcaught⟩
    rw [attempt, run_of_offer fs f ho]
    simp only [hblank, hcheck]
    rfl

/-- A method that is not refused decides the search: with the path it offers, or with an
exception. -/
theorem attempt_of_not_refused {m : Method P E} (h : ¬Refused fs f m) :
    (∃ p, attempt fs f m = .ok (some p) ∧ offer fs f m = some p) ∨
      ∃ e, attempt fs f m = .error (.other e) := by
  by_cases hbreaks : Breaks fs f m
  · obtain ⟨e, he⟩ := run_of_breaks fs f hbreaks
    exact Or.inr ⟨e, by rw [attempt, he]⟩
  · obtain ⟨p, ho, hp⟩ : ∃ p, offer fs f m = some p ∧
        ¬(fs.blank p = false ∧ ∃ e : SearchError E, f.check p = .error e ∧ e.Caught) := by
      simpa [Refused, hbreaks] using h
    rw [attempt, run_of_offer fs f ho]
    rcases hblank : fs.blank p with - | -
    · rcases hcheck : f.check p with e | ⟨⟩
      · have hother : ¬e.Caught := fun hcaught ↦ hp ⟨hblank, e, hcheck, hcaught⟩
        rcases e with - | message | message | e
        · exact absurd trivial hother
        · exact absurd trivial hother
        · exact absurd trivial hother
        · exact Or.inr ⟨e, by simp only [hblank, hcheck]; rfl⟩
      · exact Or.inl ⟨p, by simp only [hblank, hcheck]; rfl, ho⟩
    · exact Or.inl ⟨p, by simp only [hblank, if_true], ho⟩

/-! ### The search -/

/-- A method that is refused is passed over. -/
theorem searchLoop_of_refused {m : Method P E} (h : Refused fs f m) (ext : Option Name)
    (methods : List (Method P E)) :
    ∃ ext', searchLoop fs f ext (m :: methods) = searchLoop fs f ext' methods := by
  rw [searchLoop]
  rcases attempt_of_refused fs f h with hm | ⟨e, hm, hcaught⟩
  · exact ⟨ext, by rw [hm]⟩
  · rw [hm]
    rcases e with - | message | message | e
    · exact ⟨ext, rfl⟩
    · exact ⟨ext, rfl⟩
    · exact ⟨some message, rfl⟩
    · cases hcaught

theorem searchLoop_of_refused_append {before : List (Method P E)}
    (h : ∀ m ∈ before, Refused fs f m) (ext : Option Name) (methods : List (Method P E)) :
    ∃ ext', searchLoop fs f ext (before ++ methods) = searchLoop fs f ext' methods := by
  induction before generalizing ext with
  | nil => exact ⟨ext, rfl⟩
  | cons m before ih =>
    obtain ⟨hm, hbefore⟩ := List.forall_mem_cons.mp h
    obtain ⟨ext₁, hstep⟩ := searchLoop_of_refused fs f hm ext (before ++ methods)
    obtain ⟨ext₂, hrest⟩ := ih hbefore ext₁
    exact ⟨ext₂, hstep.trans hrest⟩

/-- A path is found where the first method that is not refused offers it. -/
theorem exists_of_searchLoop {ext : Option Name} {methods : List (Method P E)} {p : P}
    (h : searchLoop fs f ext methods = .ok p) :
    ∃ before m after, methods = before ++ m :: after ∧ (∀ m' ∈ before, Refused fs f m') ∧
      offer fs f m = some p := by
  induction methods generalizing ext with
  | nil => cases ext <;> cases h
  | cons m methods ih =>
    by_cases hm : Refused fs f m
    · obtain ⟨ext', hstep⟩ := searchLoop_of_refused fs f hm ext methods
      obtain ⟨before, m', after, rfl, hbefore, hoffer⟩ := ih (hstep ▸ h)
      exact ⟨m :: before, m', after, rfl, List.forall_mem_cons.mpr ⟨hm, hbefore⟩, hoffer⟩
    · refine ⟨[], m, methods, rfl, List.forall_mem_nil _, ?_⟩
      rw [searchLoop] at h
      rcases attempt_of_not_refused fs f hm with ⟨q, hq, hoffer⟩ | ⟨e, he⟩
      · rw [hq] at h
        obtain rfl : q = p := by injection h
        exact hoffer
      · rw [he] at h
        cases h

theorem searchLoop_eq_ok_iff {ext : Option Name} {methods : List (Method P E)} {p : P}
    (hcheck : f.check p = .ok ()) :
    searchLoop fs f ext methods = .ok p ↔
      ∃ before m after, methods = before ++ m :: after ∧ (∀ m' ∈ before, Refused fs f m') ∧
        offer fs f m = some p := by
  refine ⟨exists_of_searchLoop fs f, ?_⟩
  rintro ⟨before, m, after, rfl, hbefore, hoffer⟩
  obtain ⟨ext', hskip⟩ := searchLoop_of_refused_append fs f hbefore ext (m :: after)
  rw [hskip, searchLoop, attempt_of_offer fs f hoffer hcheck]

/-- The search is complete exactly if, where a supported library is within reach, the first method
that is not refused offers one. -/
theorem complete_iff :
    Complete fs f ↔ ((∃ m ∈ f.methods, ∃ p, Reaches fs f p m ∧ Supported fs f p) →
      ∃ before m after p, f.methods = before ++ m :: after ∧ (∀ m' ∈ before, Refused fs f m') ∧
        offer fs f m = some p ∧ Supported fs f p) := by
  refine imp_congr_right fun _ ↦ ⟨?_, ?_⟩
  · rintro ⟨p, hp, hsupported⟩
    obtain ⟨before, m, after, hmethods, hbefore, hoffer⟩ := exists_of_searchLoop fs f hp
    exact ⟨before, m, after, p, hmethods, hbefore, hoffer, hsupported⟩
  · rintro ⟨before, m, after, p, hmethods, hbefore, hoffer, hsupported⟩
    refine ⟨p, ?_, hsupported⟩
    exact (searchLoop_eq_ok_iff fs f hsupported.2).mpr
      ⟨before, m, after, hmethods, hbefore, hoffer⟩

/-! ### The finders for Linux and for a Mac -/

omit [DecidableEq P] in
/-- Where every path passes the check, a method is refused if it offers none and raises nothing that
ends the search. -/
theorem refused_iff_of_check {m : Method P E} (hcheck : ∀ p, f.check p = .ok ()) :
    Refused fs f m ↔ ¬Breaks fs f m ∧ offer fs f m = none := by
  refine and_congr_right fun _ ↦ ⟨fun h ↦ ?_, fun h p hp ↦ ?_⟩
  · rw [Option.eq_none_iff_forall_ne_some]
    intro p hp
    obtain ⟨-, e, he, -⟩ := h p hp
    rw [hcheck p] at he
    cases he
  · rw [h] at hp
    cases hp

omit [DecidableEq P] in
/-- What is within reach of a method that looks for the library itself is in a home directory. -/
theorem exists_inHome_of_reaches {m : Method P E} {p : P} (hm : m.Searches)
    (h : Reaches fs f p m) : ∃ home, InHome fs f home p := by
  rcases m with - | javaHome | outcome | outcome
  · obtain ⟨home, -, hhome⟩ := h
    exact ⟨home, hhome⟩
  · obtain ⟨home, -, hhome⟩ := h
    exact ⟨home, hhome⟩
  · exact hm.elim
  · exact hm.elim

/-- Where the methods look for the library themselves and every path passes the check, only a method
that offers none, or raises, can be in the way of one that has a library. -/
theorem complete_iff_of_searches (hsearches : ∀ m ∈ f.methods, m.Searches)
    (hcheck : ∀ p, f.check p = .ok ()) :
    Complete fs f ↔ ((∃ m ∈ f.methods, ∃ p, Reaches fs f p m) →
      ∃ before m after p, f.methods = before ++ m :: after ∧
        (∀ m' ∈ before, ¬Breaks fs f m' ∧ offer fs f m' = none) ∧ offer fs f m = some p) := by
  rw [complete_iff]
  refine imp_congr ⟨?_, ?_⟩ ⟨?_, ?_⟩
  · rintro ⟨m, hm, p, hp, -⟩
    exact ⟨m, hm, p, hp⟩
  · rintro ⟨m, hm, p, hp⟩
    have hlibrary := exists_inHome_of_reaches fs f (hsearches m hm) hp
    exact ⟨m, hm, p, hp, hlibrary, hcheck p⟩
  · rintro ⟨before, m, after, p, hmethods, hbefore, hoffer, -⟩
    exact ⟨before, m, after, p, hmethods,
      fun m' hm' ↦ (refused_iff_of_check fs f hcheck).mp (hbefore m' hm'), hoffer⟩
  · rintro ⟨before, m, after, p, hmethods, hbefore, hoffer⟩
    have hm : m ∈ f.methods := by simp [hmethods]
    have hlibrary := (reaches_of_offer fs f (hsearches m hm) hoffer).2
    exact ⟨before, m, after, p, hmethods,
      fun m' hm' ↦ (refused_iff_of_check fs f hcheck).mpr (hbefore m' hm'), hoffer, hlibrary,
      hcheck p⟩

omit [DecidableEq P] in
/-- The finder for Linux is of this kind. -/
theorem searches_linuxFinder {java : P} {locations : List P} {env : Option P} :
    ∀ m ∈ (linuxFinder fs java locations env).methods, m.Searches := by
  show ∀ m ∈ [Method.javaHome fs env, .bin fs java, .knownLocations], m.Searches
  exact List.forall_mem_cons.mpr ⟨trivial, List.forall_mem_cons.mpr ⟨trivial,
    List.forall_mem_cons.mpr ⟨trivial, List.forall_mem_nil _⟩⟩⟩

/-- On a Mac, where the methods of Linux are all refused, the path is the home directory that
`java_home` prints. -/
theorem getJvmPath_darwinFinder {java home : P} {locations : List P} {env : Option P}
    {macVer : Name} {recent : Name → Except E Bool}
    (hrefused : let f := darwinFinder fs java locations env macVer recent (.ok home)
      ∀ m ∈ (linuxFinder fs java locations env).methods, Refused fs f m)
    (hrecent : recent (macVer.take 4) = .ok true) :
    getJvmPath fs (darwinFinder fs java locations env macVer recent (.ok home)) = .ok home := by
  have hoffer : offer fs (darwinFinder fs java locations env macVer recent (.ok home))
      (.javahomeBinary macVer recent (.ok home)) = some home := by
    rw [Method.javahomeBinary, hrecent]
    rfl
  exact (searchLoop_eq_ok_iff _ _ rfl).mpr ⟨_, _, [], rfl, hrefused, hoffer⟩

/-- A file system without links, of the given directories with their files. A path is the list of
its names, from the root. -/
def treeSystem (dirs : List (List Name × List Name)) : FileSystem (List Name) String where
  walk := fun path ↦ dirs.filter fun d ↦ path <+: d.1
  exists' := fun path ↦ dirs.any fun d ↦ d.1 = path ∨ path ∈ d.2.map fun file ↦ d.1 ++ [file]
  isdir := fun path ↦ dirs.any fun d ↦ d.1 = path
  listdir := fun path ↦
    match dirs.find? fun d ↦ d.1 = path with
    | none => .error "FileNotFoundError"
    | some dir =>
      .ok (dir.2 ++ (dirs.filter fun d ↦ d.1 ≠ [] ∧ d.1.dropLast = path).map
        fun d ↦ d.1.getLastD [])
  realpath := fun path ↦ path
  join := fun path name ↦ path ++ [name]
  basename := fun path ↦ path.getLastD []
  depth := fun path ↦ path.length + 1
  lower := fun name ↦ name.map Char.toLower
  grandparent := fun path ↦ path.dropLast.dropLast
  blank := fun _ ↦ false

/-- The path with the given names. -/
def pathOf (names : List String) : List Name :=
  names.map String.toList

/-- Two installations, the first of which is no more than a directory. -/
def twoHomes : FileSystem (List Name) String :=
  treeSystem [(pathOf ["usr", "lib", "jvm"], []), (pathOf ["usr", "lib", "jvm", "java-11"], []),
    (pathOf ["usr", "lib", "jvm", "java-17"], ["libjvm.so".toList])]

/-- The finder for Linux on this system, without `JAVA_HOME`. -/
def twoHomesFinder : Finder (List Name) String :=
  linuxFinder twoHomes (pathOf ["usr", "bin", "java"])
    [pathOf ["usr", "lib", "jvm"], pathOf ["usr", "java"], pathOf ["opt", "sun"]] none

/-- A Mac with one installation, which is not in the known location. -/
def oneHome : FileSystem (List Name) String :=
  treeSystem [(pathOf ["opt", "openjdk"], []),
    (pathOf ["opt", "openjdk", "lib"], ["libjli.dylib".toList])]

/-- The finder for a Mac on this system, where `java_home` prints the home directory. -/
def oneHomeFinder : Finder (List Name) String :=
  darwinFinder oneHome (pathOf ["usr", "bin", "java"])
    [pathOf ["Library", "Java", "JavaVirtualMachines"]] none "14.1".toList (fun _ ↦ .ok true)
    (.ok (pathOf ["opt", "openjdk"]))

/-- On Linux the library of the second installation is not found, because the first one has none. On
the Mac the home directory is returned, and not the library in it. -/
theorem not_complete_samples :
    ¬Complete twoHomes twoHomesFinder ∧ ¬Complete oneHome oneHomeFinder := by
  constructor
  · intro h
    have hfails : (getJvmPath twoHomes twoHomesFinder).toOption = none := by decide +kernel
    have hhome : KnownHome twoHomes twoHomesFinder (pathOf ["usr", "lib", "jvm", "java-17"]) :=
      ⟨_, List.mem_cons_self, by decide +kernel, _, rfl, "java-17".toList, by decide +kernel,
        by decide +kernel, by decide +kernel, by decide +kernel⟩
    have hlibrary : InHome twoHomes twoHomesFinder (pathOf ["usr", "lib", "jvm", "java-17"])
        (pathOf ["usr", "lib", "jvm", "java-17", "libjvm.so"]) :=
      ⟨(pathOf ["usr", "lib", "jvm", "java-17"], ["libjvm.so".toList]), by decide +kernel,
        by decide +kernel, by decide +kernel, by decide +kernel⟩
    have hmem : Method.knownLocations ∈ twoHomesFinder.methods :=
      List.mem_cons_of_mem _ (List.mem_cons_of_mem _ List.mem_cons_self)
    obtain ⟨p, hp, -⟩ :=
      h ⟨.knownLocations, hmem, _, ⟨_, hhome, hlibrary⟩, ⟨_, hlibrary⟩, rfl⟩
    rw [hp] at hfails
    cases hfails
  · intro h
    have hpath : (getJvmPath oneHome oneHomeFinder).toOption = some (pathOf ["opt", "openjdk"]) :=
      by decide +kernel
    have hlibrary : InHome oneHome oneHomeFinder (pathOf ["opt", "openjdk"])
        (pathOf ["opt", "openjdk", "lib", "libjli.dylib"]) :=
      ⟨(pathOf ["opt", "openjdk", "lib"], ["libjli.dylib".toList]), by decide +kernel,
        by decide +kernel, by decide +kernel, by decide +kernel⟩
    have hmem : Method.bareHome (.ok (some (pathOf ["opt", "openjdk"]))) ∈ oneHomeFinder.methods :=
      List.mem_append_right _ List.mem_cons_self
    obtain ⟨p, hp, ⟨home, entry, -, -, -, hfile⟩, -⟩ :=
      h ⟨_, hmem, _, ⟨_, rfl, hlibrary⟩, ⟨_, hlibrary⟩, rfl⟩
    rw [hp] at hpath
    obtain rfl : p = pathOf ["opt", "openjdk"] := Option.some.inj hpath
    -- A library has the name of the file, and this path has the name of the directory.
    have hname : "openjdk".toList = "libjli.dylib".toList := by
      have hlast := congrArg List.getLast? hfile
      have hjoin : oneHome.join = fun path name ↦ path ++ [name] := rfl
      rw [hjoin, List.getLast?_concat] at hlast
      exact Option.some.inj hlast
    exact absurd hname (by decide)

end Finder

end JPype.Startup
