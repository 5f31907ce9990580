import JPype.Startup.ClassPath

/-!
# The class path that is specified

What a call of `startJVM` specifies: the elements of the last `-Djava.class.path=` that has a value,
or of the keyword, or of the default, with jars for those that end in `*`, and the support library.
`DeliversClassPath` says that the virtual machine gets this class path and the other arguments, or
that there is a conflict.
-/

namespace JPype

open Foundation

/-! ### What a call asks for -/

/-- The value of an argument that is the option `var`. A value that is empty does not count. -/
def JvmArg.optionValue (var : Text) : JvmArg → Option Text
  | .str v =>
    if (var ++ ['=']).isPrefixOf v then
      let value := v.drop (var.length + 1)
      if value.isEmpty then none else some value
    else none
  | _ => none

/-- The argument is for the class path, with a value or without. -/
def JvmArg.IsClassPath : JvmArg → Prop
  | .str v => "-Djava.class.path=".toList <+: v
  | _ => False

instance : DecidablePred JvmArg.IsClassPath
  | .str _ => inferInstanceAs (Decidable (_ <+: _))
  | .pyNone | .object _ => isFalse id

/-- All arguments but those for the class path. -/
def otherArgs (args : List JvmArg) : List JvmArg :=
  args.filter fun a ↦ ¬a.IsClassPath

def PathElement.text : PathElement → Option Text
  | .str text | .pathLike text => some text
  | .bytes | .object => none

/-- The texts of a class path that consists of strings and paths. -/
def ClassPath.texts : ClassPath → Option (List Text)
  | .str text | .pathLike text => some [text]
  | .sequence elements => elements.mapM PathElement.text
  | .bytesPath | .object => none

namespace StartRequest

/-- The first argument is the path of the virtual machine, or asks for the default. -/
def PathFirst (c : StartRequest) : Prop :=
  match c.jvmargs.head? with
  | some .pyNone => True
  | some (.str v) => v.head? ≠ some '-'
  | _ => False

instance (c : StartRequest) : Decidable c.PathFirst := by
  unfold PathFirst
  split <;> infer_instance

/-- The arguments for the virtual machine. -/
def vmArgs (c : StartRequest) : List JvmArg :=
  if c.PathFirst then c.jvmargs.tail else c.jvmargs

/-- The values that the arguments give to an option. -/
def optionValues (var : Text) (c : StartRequest) : List Text :=
  c.vmArgs.filterMap (JvmArg.optionValue var)

/-- The path of the virtual machine is given in both ways. -/
def PathTwice (c : StartRequest) : Prop :=
  c.PathFirst ∧ c.jvmpath.any fun path ↦ !path.isEmpty

/-- The class path is given in both ways. -/
def ClassPathTwice (c : StartRequest) : Prop :=
  c.optionValues classPathVar ≠ [] ∧ c.classpath.isSome

/-- A system class loader is given. -/
def LoaderGiven (c : StartRequest) : Prop :=
  c.optionValues loaderVar ≠ []

/-- The texts of the class path, if `option` is the value that the arguments give it. -/
def textsWith (os : OS) (c : StartRequest) (option : Option Text) : List Text :=
  match option, c.classpath with
  | some value, _ => value.splitOn os.pathsep
  | none, some classpath => classpath.texts.getD []
  | none, none => [c.getClassPath]

/-- The elements of the class path that is asked for. Of several arguments the last one counts, as
in the virtual machine. -/
def elements (os : OS) (c : StartRequest) : List Text :=
  (c.textsWith os (c.optionValues classPathVar).getLast?).flatMap (fields os.pathsep)

end StartRequest

variable {os : OS}

/-- The class path that is asked for, on a given machine. -/
def specified (host : Host os) (c : StartRequest) : List Text :=
  (c.elements os).flatMap (expand host.glob) ++ [host.supportLib]

/-- The conflicts, with the exceptions that tell of them. -/
inductive RealConflict (host : Host os) (c : StartRequest) : PyError → Prop where
  | jvmpath (h : c.PathTwice) : RealConflict host c (.typeError "jvmpath specified twice")
  | classpath (h : c.ClassPathTwice) : RealConflict host c (.typeError "classpath specified twice")
  | notIterable (h : c.classpath = some .object) :
    RealConflict host c (.typeError "Unknown class path element")
  | element {classpath : ClassPath} (h : c.classpath = some classpath) (ho : classpath ≠ .object)
    (ht : classpath.texts = none) :
    RealConflict host c (.typeError "Classpath elements must be strings or Path-like")
  | loader (h : c.LoaderGiven) {element : Text} (he : element ∈ specified host c)
    (ha : ¬IsAscii element) : RealConflict host c (.valueError
      "system classloader cannot be specified with non ascii characters in the classpath")

/-- The call raises for a conflict, or the virtual machine gets the class path that is asked for and
all other arguments, unchanged and in order. -/
def DeliversClassPath (host : Host os) (c : StartRequest) : Prop :=
  match startJVM host c with
  | .error e => RealConflict host c e
  | .ok launch => (∀ e, ¬RealConflict host c e) ∧
    effectiveClassPath os launch.args = some (specified host c) ∧
    otherArgs c.vmArgs <+: otherArgs launch.args

/-! ### What a call gets -/

namespace StartRequest

/-- `_getOption` takes this for the class path: the text after the first `-Djava.class.path=`. -/
def found (c : StartRequest) : Option Text :=
  c.vmArgs.findSome? (JvmArg.value classPathVar)

/-- The arguments without the one that the class path is taken from. -/
def remaining (c : StartRequest) : List JvmArg :=
  c.vmArgs.eraseP fun a ↦ (a.value classPathVar).isSome

/-- There is text after a `-Djava.system.class.loader=`. -/
def LoaderRead (c : StartRequest) : Prop :=
  (c.remaining.findSome? (JvmArg.value loaderVar)).isSome

instance (c : StartRequest) : Decidable c.LoaderRead := inferInstanceAs (Decidable (_ = true))

/-- The texts that are given to `_expandClassPath`. -/
def read (os : OS) (c : StartRequest) : List Text :=
  c.textsWith os c.found

/-- The class path as one text. -/
def joined (host : Host os) (c : StartRequest) : Text :=
  host.joinClassPath ((c.read os).flatMap (expand host.glob))

/-- The keyword is neither a string nor a path nor a sequence of these. -/
def IllTyped (c : StartRequest) : Prop :=
  ∃ classpath, c.classpath = some classpath ∧ classpath.texts = none

/-- There is a value for the class path in the text of the arguments, and one by keyword. -/
def FoundTwice (c : StartRequest) : Prop :=
  c.found.isSome ∧ c.classpath.isSome

/-- No exception is raised before the class path is expanded. -/
structure Accepted (c : StartRequest) : Prop where
  path : ¬c.PathTwice
  found : ¬c.FoundTwice
  typed : ¬c.IllTyped

end StartRequest

/-! ### The call, step by step -/

theorem JvmArg.optionValue_eq_some {var value : Text} {a : JvmArg} :
    a.optionValue var = some value ↔ value ≠ [] ∧ a = .str (var ++ ['='] ++ value) := by
  cases a with
  | pyNone => simp [optionValue]
  | object => simp [optionValue]
  | str v =>
    rw [optionValue, JvmArg.str.injEq]
    constructor
    · intro h
      dsimp only at h
      split_ifs at h with hpre hempty
      have hdrop := List.prefix_iff_eq_append.1 (List.isPrefixOf_iff_prefix.1 hpre)
      rw [List.length_append, List.length_singleton, Option.some.inj h] at hdrop
      refine ⟨?_, hdrop.symm⟩
      rintro rfl
      exact hempty (by simp [Option.some.inj h])
    · rintro ⟨hne, rfl⟩
      have hdrop : (var ++ ['='] ++ value).drop (var.length + 1) = value :=
        List.drop_left' (by simp)
      rw [if_pos (by simp), hdrop]
      exact if_neg (by simpa using hne)

/-- An option that has a value is found. -/
theorem JvmArg.value_of_optionValue {var value : Text} {a : JvmArg}
    (h : a.optionValue var = some value) : a.value var = some value := by
  obtain ⟨hne, rfl⟩ := optionValue_eq_some.1 h
  exact value_str hne

theorem mapM_fspath (elements : List PathElement) :
    elements.mapM PathElement.fspath = match elements.mapM PathElement.text with
      | some texts => .ok texts
      | none => .error (.typeError "Classpath elements must be strings or Path-like") := by
  induction elements with
  | nil => rfl
  | cons e elements ih =>
    rw [List.mapM_cons, List.mapM_cons, ih]
    cases e <;> cases elements.mapM PathElement.text <;> rfl

theorem expandClassPath_eq (glob : Text → List Text) (classpath : ClassPath) :
    expandClassPath glob classpath = match classpath.texts with
      | some texts => .ok (texts.flatMap (expand glob))
      | none => .error (.typeError (if classpath = .object then "Unknown class path element"
        else "Classpath elements must be strings or Path-like")) := by
  cases classpath with
  | sequence elements =>
    show (do
      let out ← elements.mapM PathElement.fspath
      return out.flatMap (expand glob) : Except PyError (List Text)) = _
    rw [mapM_fspath, ClassPath.texts]
    cases elements.mapM PathElement.text <;> rfl
  | _ => rfl

namespace StartRequest

variable {c : StartRequest}

theorem takeJVMPath_of_twice (h : c.PathTwice) :
    c.takeJVMPath = .error (.typeError "jvmpath specified twice") := by
  obtain ⟨hfirst, hgiven⟩ := h
  rw [PathFirst] at hfirst
  rw [takeJVMPath]
  split at hfirst
  · rename_i hhead
    obtain ⟨args, hargs⟩ := List.head?_eq_some_iff.1 hhead
    simp [hargs, hgiven]
  · rename_i v hhead
    obtain ⟨args, hargs⟩ := List.head?_eq_some_iff.1 hhead
    simp [hargs, hgiven, hfirst]
  · exact hfirst.elim

theorem takeJVMPath_of_not_twice (h : ¬c.PathTwice) :
    ∃ path, c.takeJVMPath = .ok (path, c.vmArgs) := by
  rw [PathTwice, not_and] at h
  rw [takeJVMPath, vmArgs]
  rcases hargs : c.jvmargs with _ | ⟨_ | _ | _, args⟩ <;>
    simp_all [PathFirst]
  split_ifs <;> simp_all

theorem startJVM_of_pathTwice (host : Host os) (h : c.PathTwice) :
    startJVM host c = .error (.typeError "jvmpath specified twice") := by
  rw [startJVM, takeJVMPath_of_twice h]
  rfl

/-- `startJVM`, once the path of the virtual machine is settled. -/
theorem startJVM_of_not_pathTwice (host : Host os) (hpath : ¬c.PathTwice) :
    ∃ path, startJVM host c =
      ((c.chooseClassPath os c.found).bind (expandClassPath host.glob)).bind fun out ↦
        (host.extraJvmArgs (host.joinClassPath out)
          (c.remaining.findSome? (JvmArg.value loaderVar))).map
            fun extra ↦ ⟨path, c.remaining ++ extra⟩ := by
  obtain ⟨path, hpath⟩ := takeJVMPath_of_not_twice hpath
  have hfound : getOption classPathVar false c.vmArgs = (c.found, c.remaining) :=
    getOption_eq _ _ _
  refine ⟨(path.filter fun path ↦ !path.isEmpty).getD host.defaultJVMPath, ?_⟩
  rw [startJVM, hpath]
  show (do
    let classpath ← c.chooseClassPath os (getOption classPathVar false c.vmArgs).1
    let out ← expandClassPath host.glob classpath
    let extra ← host.extraJvmArgs (host.joinClassPath out)
      (getOption loaderVar true
        (getOption classPathVar false c.vmArgs).2).1
    return ⟨(path.filter fun path ↦ !path.isEmpty).getD host.defaultJVMPath,
      (getOption classPathVar false c.vmArgs).2 ++ extra⟩ : Except PyError Launch) = _
  rw [hfound, getOption_eq]
  cases c.chooseClassPath os c.found with
  | error e => rfl
  | ok classpath =>
    show (expandClassPath host.glob classpath).bind _ = (expandClassPath host.glob classpath).bind _
    cases expandClassPath host.glob classpath with
    | error e => rfl
    | ok out =>
      show (host.extraJvmArgs _ _).bind _ = (host.extraJvmArgs _ _).map _
      cases host.extraJvmArgs _ _ <;> rfl

theorem startJVM_of_foundTwice (host : Host os) (hpath : ¬c.PathTwice) (h : c.FoundTwice) :
    startJVM host c = .error (.typeError "classpath specified twice") := by
  obtain ⟨path, hstart⟩ := startJVM_of_not_pathTwice host hpath
  obtain ⟨value, hvalue⟩ := Option.isSome_iff_exists.1 h.1
  obtain ⟨classpath, hclasspath⟩ := Option.isSome_iff_exists.1 h.2
  unfold chooseClassPath at hstart
  rw [hstart, hvalue, hclasspath]
  rfl

theorem startJVM_of_illTyped (host : Host os) (hpath : ¬c.PathTwice) (hfound : ¬c.FoundTwice)
    {classpath : ClassPath} (hclasspath : c.classpath = some classpath)
    (htexts : classpath.texts = none) :
    startJVM host c = .error (.typeError (if classpath = .object then "Unknown class path element"
      else "Classpath elements must be strings or Path-like")) := by
  obtain ⟨path, hstart⟩ := startJVM_of_not_pathTwice host hpath
  have hnone : c.found = none := by
    rw [← Option.not_isSome_iff_eq_none]
    exact fun h ↦ hfound ⟨h, by rw [hclasspath]; rfl⟩
  unfold chooseClassPath at hstart
  rw [hstart, hnone, hclasspath]
  show ((expandClassPath host.glob classpath).bind _) = _
  rw [expandClassPath_eq, htexts]
  rfl

namespace Accepted

theorem startJVM_eq (h : c.Accepted) (host : Host os) :
    ∃ path, startJVM host c =
      (host.extraJvmArgs (c.joined host)
        (c.remaining.findSome? (JvmArg.value loaderVar))).map
          fun extra ↦ ⟨path, c.remaining ++ extra⟩ := by
  obtain ⟨path, hstart⟩ := startJVM_of_not_pathTwice host h.path
  refine ⟨path, ?_⟩
  have hout : (c.chooseClassPath os c.found).bind (expandClassPath host.glob) =
      .ok ((c.read os).flatMap (expand host.glob)) := by
    unfold chooseClassPath read textsWith
    cases hvalue : c.found with
    | some value =>
      have hnone : c.classpath = none := by
        rw [← Option.not_isSome_iff_eq_none]
        exact fun hsome ↦ h.found ⟨by rw [hvalue]; rfl, hsome⟩
      rw [hnone]
      show expandClassPath host.glob _ = _
      have htexts : (ClassPath.sequence ((value.splitOn os.pathsep).map .str)).texts =
          some (value.splitOn os.pathsep) := by
        rw [ClassPath.texts]
        induction value.splitOn os.pathsep with
        | nil => rfl
        | cons text texts ih =>
          rw [List.map_cons, List.mapM_cons, ih]
          rfl
      rw [expandClassPath_eq, htexts]
    | none =>
      cases hclasspath : c.classpath with
      | none => rfl
      | some classpath =>
        obtain ⟨texts, htexts⟩ := Option.ne_none_iff_exists'.1
          fun hnone ↦ h.typed ⟨classpath, hclasspath, hnone⟩
        show expandClassPath host.glob classpath =
          .ok ((classpath.texts.getD []).flatMap (expand host.glob))
        rw [expandClassPath_eq, htexts]
        rfl
  rw [hstart, hout]
  rfl

/-- An ASCII class path is passed directly. -/
theorem startJVM_direct (h : c.Accepted) {host : Host os} (ha : IsAscii (c.joined host)) :
    ∃ path, startJVM host c = .ok ⟨path, c.remaining ++
      [.str ("-Djava.class.path=".toList ++ c.joined host)]⟩ := by
  obtain ⟨path, hstart⟩ := h.startJVM_eq host
  rw [Host.extraJvmArgs, if_neg (not_not.2 ha)] at hstart
  exact ⟨path, hstart⟩

/-- Any other class path is quoted. -/
theorem startJVM_quoted (h : c.Accepted) {host : Host os} (ha : ¬IsAscii (c.joined host))
    (hl : ¬c.LoaderRead) : ∃ path lib, startJVM host c = .ok ⟨path, c.remaining ++
      [.str "-Djava.system.class.loader=org.jpype.JPypeClassLoader".toList,
        .str ("-Djava.class.path=".toList ++ lib),
        .str ("-Djpype.class.path=".toList ++ Unicode.quote (c.joined host)),
        .str "-Xshare:off".toList]⟩ := by
  obtain ⟨path, hstart⟩ := h.startJVM_eq host
  rw [LoaderRead] at hl
  rw [Host.extraJvmArgs, if_pos ha, if_neg hl, if_neg (fun hlib ↦ hlib.2 host.tempLib_isAscii)]
    at hstart
  exact ⟨path, _, hstart⟩

/-- But not with a system class loader. -/
theorem startJVM_refused (h : c.Accepted) {host : Host os} (ha : ¬IsAscii (c.joined host))
    (hl : c.LoaderRead) : startJVM host c = .error (.valueError
      "system classloader cannot be specified with non ascii characters in the classpath") := by
  obtain ⟨path, hstart⟩ := h.startJVM_eq host
  rw [LoaderRead] at hl
  rw [Host.extraJvmArgs, if_pos ha, if_pos hl] at hstart
  exact hstart

end Accepted

/-! ### The class path that is delivered -/

/-- The elements of the class path, as they come out of `_expandClassPath`. -/
theorem fields_joined (host : Host os) :
    fields os.pathsep (c.joined host) =
      (c.read os).flatMap (fun text ↦ (expand host.glob text).flatMap (fields os.pathsep)) ++
        [host.supportLib] := by
  obtain ⟨hne, hsep⟩ := host.supportLib_nameable
  rw [joined, Host.joinClassPath, fields_intercalate, flatMap_fields_filter, List.flatMap_append,
    List.flatMap_assoc, List.flatMap_singleton, fields_of_notMem hsep hne]

theorem splitOn_joined (host : Host os) :
    (c.joined host).splitOn os.pathsep =
      (((c.read os).flatMap (expand host.glob) ++ [host.supportLib]).filter fun pth ↦
        !pth.isEmpty).flatMap (List.splitOn os.pathsep) := by
  obtain ⟨hne, -⟩ := host.supportLib_nameable
  refine splitOn_intercalate_flatMap (List.ne_nil_of_mem (a := host.supportLib) ?_)
  exact List.mem_filter.2 ⟨List.mem_append_right _ (List.mem_singleton_self _), by simpa using hne⟩

end StartRequest

theorem OS.isAscii_pathsep (os : OS) : os.pathsep.toNat < 0x80 := by
  cases os <;> decide

/-- Empty elements aside, a text is ASCII if its elements are. -/
theorem isAscii_iff_fields (os : OS) {text : Text} :
    IsAscii text ↔ ∀ element ∈ fields os.pathsep text, IsAscii element := by
  have hsplit : IsAscii text ↔ ∀ element ∈ text.splitOn os.pathsep, IsAscii element :=
    (forall_mem_splitOn (P := fun c : Char ↦ c.toNat < 0x80) os.isAscii_pathsep).symm
  rw [hsplit]
  constructor
  · exact fun h element he ↦ h element (mem_fields.1 he).1
  · intro h element he
    obtain rfl | hne := eq_or_ne element []
    · exact fun c hc ↦ absurd hc List.not_mem_nil
    · exact h element (mem_fields.2 ⟨he, hne⟩)

end JPype
