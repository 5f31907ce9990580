import JPype.Array.Slice
import JPype.Foundation.Joining
import JPype.Text.PercentEncoding

/-!
# The class path of the virtual machine

`startJVM` makes the arguments of the virtual machine. The class path comes from an argument, from
the keyword `classpath`, or from `getClassPath()`. Elements that end in `*` are replaced by jars,
and the result is passed on in one of two ways. If it is ASCII, it is the value of
`-Djava.class.path`. Otherwise it is quoted, and `JPypeClassLoader.initial` reads it back and puts
it into its place.

What the two ways deliver is `effectiveClassPath_direct` and `effectiveClassPath_quoted`: the parts
of all the paths, and those of the parts that are not empty.
-/

namespace JPype

open Foundation Unicode

/-- A Python string that can be encoded. -/
abbrev Text := List Char

/-- `str.isascii` -/
def IsAscii (text : Text) : Prop := ∀ c ∈ text, c.toNat < 0x80

instance (text : Text) : Decidable (IsAscii text) := List.decidableBAll _ text

/-- `os.name` -/
inductive OS where
  | posix
  | nt
  deriving DecidableEq, Repr

/-- `os.pathsep`, `_SEP` and `File.pathSeparator`. -/
def OS.pathsep : OS → Char
  | .posix => ':'
  | .nt => ';'

/-! ### The arguments -/

/-- The option for the class path. -/
def classPathVar : Text := "-Djava.class.path".toList

/-- The option for the class loader. -/
def loaderVar : Text := "-Djava.system.class.loader".toList

/-- A positional argument of `startJVM`. -/
inductive JvmArg where
  | str (text : Text)
  | pyNone
  | object (tag : ℕ)
  deriving DecidableEq, Repr

/-- `str.partition`, for a separator that is not empty. -/
def partition (sep : Text) : Text → Text × Text × Text
  | [] => ([], [], [])
  | c :: rest =>
    if sep.isPrefixOf (c :: rest) then ([], sep, (c :: rest).drop sep.length)
    else
      let (before, found, after) := partition sep rest
      (c :: before, found, after)

/-- What `_getOption` finds in an argument. -/
def JvmArg.value (var : Text) : JvmArg → Option Text
  | .str v =>
    let value := (partition (var ++ ['=']) v).2.2
    if value.isEmpty then none else some value
  | _ => none

/-- `_getOption`, with the arguments that it leaves. -/
def getOption (var : Text) (keep : Bool) : List JvmArg → Option Text × List JvmArg
  | [] => (none, [])
  | v :: args =>
    match v.value var with
    | some value => (some value, if keep then v :: args else args)
    | none =>
      let (value, args) := getOption var keep args
      (value, v :: args)

/-- An element of a sequence that is given as class path. `bytes` is also a path that is bytes. -/
inductive PathElement where
  | str (text : Text)
  | pathLike (text : Text)
  | bytes
  | object
  deriving DecidableEq, Repr

/-- A value for the keyword `classpath`. -/
inductive ClassPath where
  | str (text : Text)
  | pathLike (text : Text)
  | bytesPath
  | sequence (elements : List PathElement)
  | object
  deriving DecidableEq, Repr

/-- `tuple(classpath)`, of what is not a string or a path. -/
def ClassPath.elements : ClassPath → Except PyError (List PathElement)
  | .str text => .ok [.str text]
  | .pathLike text => .ok [.pathLike text]
  | .bytesPath => .ok [.bytes]
  | .sequence elements => .ok elements
  | .object => .error (.typeError "Unknown class path element")

/-- `os.fspath`, for an element of the class path. -/
def PathElement.fspath : PathElement → Except PyError Text
  | .str text | .pathLike text => .ok text
  | .bytes | .object => .error (.typeError "Classpath elements must be strings or Path-like")

/-- `pth.endswith('*')` -/
def IsWild (pth : Text) : Prop := pth.getLast? = some '*'

instance (pth : Text) : Decidable (IsWild pth) := inferInstanceAs (Decidable (_ = _))

/-- What `_expandClassPath` puts out for an element. -/
def expand (glob : Text → List Text) (pth : Text) : List Text :=
  if IsWild pth then glob (pth ++ ".jar".toList) else [pth]

/-- `_expandClassPath` -/
def expandClassPath (glob : Text → List Text) (classpath : ClassPath) :
    Except PyError (List Text) := do
  let elements ← classpath.elements
  let out ← elements.mapM PathElement.fspath
  return out.flatMap (expand glob)

/-- A call of `startJVM`, with what `getClassPath()` would be. The path of the virtual machine is
given as `os.fspath` makes it. -/
structure StartRequest where
  jvmargs : List JvmArg
  jvmpath : Option Text
  classpath : Option ClassPath
  getClassPath : Text

/-- What `startJVM` depends on besides its arguments: `glob.glob`, `getDefaultJVMPath()`, the path
of the support library, and a path that `mkstemp` finds for a copy of it, which `_findTemp` sees to.
A path that holds a path separator could not be in a class path. -/
structure Host (os : OS) where
  glob : Text → List Text
  defaultJVMPath : Text
  supportLib : Text
  tempLib : Text
  glob_nameable : ∀ pattern, ∀ jar ∈ glob pattern, jar ≠ [] ∧ os.pathsep ∉ jar
  supportLib_nameable : supportLib ≠ [] ∧ os.pathsep ∉ supportLib
  tempLib_isAscii : IsAscii tempLib

/-- What `_jpype.startup` is called with. -/
structure Launch where
  jvmpath : Text
  args : List JvmArg
  deriving DecidableEq, Repr

/-- The path of the virtual machine that is given, and the arguments without it. -/
def StartRequest.takeJVMPath (c : StartRequest) : Except PyError (Option Text × List JvmArg) :=
  let given := c.jvmpath.any fun path ↦ !path.isEmpty
  match c.jvmargs with
  | .pyNone :: args =>
    if given then .error (.typeError "jvmpath specified twice") else .ok (none, args)
  | .str v :: args =>
    if v.head? ≠ some '-' then
      if given then .error (.typeError "jvmpath specified twice") else .ok (some v, args)
    else .ok (c.jvmpath, .str v :: args)
  | args => .ok (c.jvmpath, args)

/-- `extra_jvm_args` -/
def Host.extraJvmArgs {os : OS} (host : Host os) (classpath : Text)
    (systemClassLoader : Option Text) : Except PyError (List JvmArg) :=
  if ¬IsAscii classpath then
    if systemClassLoader.isSome then
      .error (.valueError
        "system classloader cannot be specified with non ascii characters in the classpath")
    else if ¬IsAscii host.supportLib ∧ ¬IsAscii host.tempLib then
      .error (.valueError "Unable to find ascii temp directory.")
    else
      let supportLib := if IsAscii host.supportLib then host.supportLib else host.tempLib
      .ok [.str "-Djava.system.class.loader=org.jpype.JPypeClassLoader".toList,
        .str ("-Djava.class.path=".toList ++ supportLib),
        .str ("-Djpype.class.path=".toList ++ quote classpath),
        .str "-Xshare:off".toList]
  else .ok [.str ("-Djava.class.path=".toList ++ classpath)]

/-- The class path that is to be expanded, from the value that `_getOption` found. -/
def StartRequest.chooseClassPath (os : OS) (c : StartRequest) (oldClasspath : Option Text) :
    Except PyError ClassPath :=
  match oldClasspath, c.classpath with
  | some _, some _ => .error (.typeError "classpath specified twice")
  | some old, none => .ok (.sequence ((old.splitOn os.pathsep).map .str))
  | none, some classpath => .ok classpath
  | none, none => .ok (.str c.getClassPath)

/-- The support library is added, and what is empty is left out. -/
def Host.joinClassPath {os : OS} (host : Host os) (javaClassPath : List Text) : Text :=
  [os.pathsep].intercalate
    ((javaClassPath ++ [host.supportLib]).filter fun pth ↦ !pth.isEmpty)

/-- `startJVM`, as far as the call of `_jpype.startup`. -/
def startJVM {os : OS} (host : Host os) (c : StartRequest) : Except PyError Launch := do
  let (jvmpath, jvmArgs) ← c.takeJVMPath
  let jvmpath := (jvmpath.filter fun path ↦ !path.isEmpty).getD host.defaultJVMPath
  let option := getOption classPathVar false jvmArgs
  let jvmArgs := option.2
  let classpath ← c.chooseClassPath os option.1
  let systemClassLoader := (getOption loaderVar true jvmArgs).1
  let javaClassPath ← expandClassPath host.glob classpath
  let extraJvmArgs ← host.extraJvmArgs (host.joinClassPath javaClassPath) systemClassLoader
  return ⟨jvmpath, jvmArgs ++ extraJvmArgs⟩

/-! ### The default -/

/-- The operations of `pathlib`: `Path(text)`, `str(path)`, `path.name` and
`path.parent.glob("*.jar")`. -/
structure PathLib (Path : Type*) where
  ofText : Text → Path
  str : Path → Text
  name : Path → Text
  parentGlob : Path → List Path

/-- The list `out` of `getClassPath`, from `_CLASSPATHS` and the variable `CLASSPATH`. A path is
never equal to the empty string, so the test for that skips nothing. -/
def classPathEntries {Path : Type*} (os : OS) (lib : PathLib Path) (classPaths : List Path)
    (envPath : Option Text) (env : Bool) : List Path :=
  let fromEnv := match envPath with
    | some path => if env ∧ !path.isEmpty then (path.splitOn os.pathsep).map lib.ofText else []
    | none => []
  (classPaths ++ fromEnv).flatMap fun path ↦
    if lib.name path = ['*'] then lib.parentGlob path else [path]

/-- `getClassPath` -/
def getClassPath {Path : Type*} (os : OS) (lib : PathLib Path) (classPaths : List Path)
    (envPath : Option Text) (env : Bool) : Text :=
  [os.pathsep].intercalate ((classPathEntries os lib classPaths envPath env).map lib.str)

/-! ### In the virtual machine -/

/-- The loop of `initial`, in the middle of an element. -/
def initialLoop {URL : Type*} (sep : Char) (toURL : Text → Option URL) : Text → Text → List URL
  | element, [] => if element.isEmpty then [] else (toURL element).toList
  | element, c :: cp =>
    if c = sep then
      (if element.isEmpty then [] else (toURL element).toList) ++ initialLoop sep toURL [] cp
    else initialLoop sep toURL (element ++ [c]) cp

/-- `JPypeClassLoader.initial`, with the value of `jpype.class.path`. A malformed URL is skipped.
There is no path if the decoder throws. -/
def initial {URL : Type*} (os : OS) (toURL : Text → Option URL) (cp : Text) : Option (List URL) :=
  (urlDecode cp).map (initialLoop os.pathsep toURL [])

/-- The value that an argument of the virtual machine gives a system property. -/
def JvmArg.property (name : Text) : JvmArg → Option Text
  | .str v =>
    if ("-D".toList ++ name ++ ['=']).isPrefixOf v then some (v.drop (name.length + 3))
    else if v = "-D".toList ++ name then some []
    else none
  | _ => none

/-- A system property, as the virtual machine sets it: the last argument counts. -/
def property (name : Text) (args : List JvmArg) : Option Text :=
  (args.filterMap (JvmArg.property name)).getLast?

/-- The class path of a virtual machine that has started. If there is a `jpype.class.path`, it takes
the place of `java.class.path`. -/
def effectiveClassPath (os : OS) (args : List JvmArg) : Option (List Text) :=
  match property "jpype.class.path".toList args with
  | some cp => initial os some cp
  | none => (property "java.class.path".toList args).map (List.splitOn os.pathsep)

/-! ### The search for an option -/

theorem partition_append {sep : Text} (hsep : sep ≠ []) (rest : Text) :
    partition sep (sep ++ rest) = ([], sep, rest) := by
  cases sep with
  | nil => exact absurd rfl hsep
  | cons c sep =>
    rw [List.cons_append, partition, if_pos (by simp), ← List.cons_append, List.drop_left]

/-- What comes after the separator does come after it. -/
theorem eq_of_partition {sep v : Text} (h : (partition sep v).2.2 ≠ []) :
    ∃ before, v = before ++ sep ++ (partition sep v).2.2 := by
  induction v with
  | nil => exact absurd rfl h
  | cons c rest ih =>
    rw [partition] at h ⊢
    split at h
    · rename_i hpre
      rw [if_pos hpre]
      exact ⟨[], (List.prefix_iff_eq_append.1 (List.isPrefixOf_iff_prefix.1 hpre)).symm⟩
    · rename_i hpre
      rw [if_neg hpre]
      obtain ⟨before, heq⟩ := ih h
      exact ⟨c :: before, by rw [List.cons_append, List.cons_append, ← heq]⟩

namespace JvmArg

/-- `_getOption` finds text that is somewhere in the argument. -/
theorem eq_of_value {var value : Text} {a : JvmArg} (h : a.value var = some value) :
    value ≠ [] ∧ ∃ before, a = .str (before ++ (var ++ ['=']) ++ value) := by
  cases a with
  | pyNone => exact absurd h.symm (Option.some_ne_none _)
  | object => exact absurd h.symm (Option.some_ne_none _)
  | str v =>
    simp only [JvmArg.value] at h
    split_ifs at h with hempty
    have hvalue := Option.some.inj h
    have hne : (partition (var ++ ['=']) v).2.2 ≠ [] := by simpa using hempty
    obtain ⟨before, heq⟩ := eq_of_partition hne
    rw [hvalue] at hne heq
    exact ⟨hne, before, congrArg _ heq⟩

/-- An option with a value is found. -/
theorem value_str {var value : Text} (h : value ≠ []) :
    (str (var ++ ['='] ++ value)).value var = some value := by
  rw [JvmArg.value, partition_append (by simp)]
  exact if_neg (by simpa using h)

@[simp]
theorem property_str (name value : Text) :
    (str ("-D".toList ++ name ++ ['='] ++ value)).property name = some value := by
  rw [property, if_pos (List.isPrefixOf_iff_prefix.2 (List.prefix_append _ _)),
    List.drop_append_of_le_length (by simp)]
  simp

end JvmArg

theorem getOption_eq (var : Text) (keep : Bool) (args : List JvmArg) :
    getOption var keep args = (args.findSome? (JvmArg.value var),
      if keep then args else args.eraseP fun a ↦ (a.value var).isSome) := by
  induction args with
  | nil => simp [getOption]
  | cons v args ih =>
    cases hv : v.value var with
    | none => cases keep <;> simp [getOption, hv, ih]
    | some value => cases keep <;> simp [getOption, hv]

/-! ### What is passed and what is read -/

theorem property_append_of_none {name : Text} (args : List JvmArg) {extra : List JvmArg}
    (h : ∀ a ∈ extra, a.property name = none) :
    property name (args ++ extra) = property name args := by
  rw [property, List.filterMap_append, List.filterMap_eq_nil_iff.2 h, List.append_nil, property]

theorem property_append_cons {name value : Text} (args : List JvmArg) {a : JvmArg}
    {extra : List JvmArg} (ha : a.property name = some value)
    (h : ∀ a ∈ extra, a.property name = none) :
    property name (args ++ a :: extra) = some value := by
  rw [property, List.filterMap_append, List.filterMap_cons_some ha, List.filterMap_eq_nil_iff.2 h,
    List.getLast?_append]
  rfl

theorem initialLoop_nil {URL : Type*} {sep : Char} (toURL : Text → Option URL) {element : Text}
    (h : sep ∉ element) :
    initialLoop sep toURL element [] = (fields sep element).filterMap toURL := by
  cases element with
  | nil => rfl
  | cons c element =>
    rw [fields_of_notMem h (List.cons_ne_nil _ _), List.filterMap_cons, initialLoop,
      if_neg (by simp)]
    cases toURL (c :: element) <;> rfl

/-- The loop, with an element begun. -/
theorem initialLoop_eq {URL : Type*} {sep : Char} (toURL : Text → Option URL) (cp : Text)
    {element : Text} (h : sep ∉ element) :
    initialLoop sep toURL element cp = (fields sep (element ++ cp)).filterMap toURL := by
  induction cp generalizing element with
  | nil => rw [initialLoop_nil toURL h, List.append_nil]
  | cons c cp ih =>
    obtain rfl | hc := eq_or_ne c sep
    · rw [initialLoop, if_pos rfl, ih List.not_mem_nil, fields_append_cons, List.filterMap_append,
        ← initialLoop_nil toURL h]
      rfl
    · rw [initialLoop, if_neg hc, ih (by simp [h, hc.symm]), List.append_assoc,
        List.singleton_append]

/-- A class path that has been quoted is read by its fields. -/
theorem initial_quote {URL : Type*} (os : OS) (toURL : Text → Option URL) (cp : Text) :
    initial os toURL (quote cp) = some ((fields os.pathsep cp).filterMap toURL) := by
  rw [initial, decode_quote, Option.map_some, initialLoop_eq toURL cp List.not_mem_nil,
    List.nil_append]

/-- The direct way: the last argument is the class path. -/
theorem effectiveClassPath_direct (os : OS) {args : List JvmArg} (cp : Text)
    (h : property "jpype.class.path".toList args = none) :
    effectiveClassPath os (args ++ [.str ("-Djava.class.path=".toList ++ cp)]) =
      some (cp.splitOn os.pathsep) := by
  have hcp : (JvmArg.str ("-Djava.class.path=".toList ++ cp)).property "java.class.path".toList =
      some cp := JvmArg.property_str "java.class.path".toList cp
  have hnone : property "jpype.class.path".toList
      (args ++ [.str ("-Djava.class.path=".toList ++ cp)]) = none := by
    rw [property_append_of_none _ (by simp only [List.forall_mem_singleton]; rfl), h]
  rw [effectiveClassPath, hnone]
  dsimp only
  rw [property_append_cons args hcp (by simp), Option.map_some]

/-- The other way: `initial` finds its own property, whatever the arguments before say. -/
theorem effectiveClassPath_quoted (os : OS) (args : List JvmArg) (lib cp : Text) :
    effectiveClassPath os (args ++
      [.str "-Djava.system.class.loader=org.jpype.JPypeClassLoader".toList,
        .str ("-Djava.class.path=".toList ++ lib), .str ("-Djpype.class.path=".toList ++ quote cp),
        .str "-Xshare:off".toList]) = some (fields os.pathsep cp) := by
  have hcp : (JvmArg.str ("-Djpype.class.path=".toList ++ quote cp)).property
      "jpype.class.path".toList = some (quote cp) :=
    JvmArg.property_str "jpype.class.path".toList (quote cp)
  have hprop : property "jpype.class.path".toList (args ++
      [.str "-Djava.system.class.loader=org.jpype.JPypeClassLoader".toList,
        .str ("-Djava.class.path=".toList ++ lib), .str ("-Djpype.class.path=".toList ++ quote cp),
        .str "-Xshare:off".toList]) = some (quote cp) := by
    rw [List.append_cons, List.append_cons]
    exact property_append_cons _ hcp (by simp only [List.forall_mem_singleton]; rfl)
  rw [effectiveClassPath, hprop]
  dsimp only
  rw [initial_quote, List.filterMap_some]

end JPype
