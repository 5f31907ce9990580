import JPype.Foundation.Runs
import JPype.Package.Directories
import Mathlib.Data.List.Nodup
import Mathlib.Data.List.Dedup

/-!
# The directories of a jar

`JPypeClassLoader` scans the jars that are added to it and records the directories of their entries,
for jars that have no entries for directories. The scan ends at the first entry that is a directory,
and what comes before is recorded by then. A directory of the jar is found once, therefore, where it
has an entry or is recorded, and not both (`supplied_iff`).
-/

namespace JPype.JPypeClassLoader

open Foundation Unicode PackageManager
open scoped Foundation.Membership

abbrev Text := List Char

/-- An entry of a jar. The name of a directory has a slash at its end. -/
structure JarEntry where
  name : Text
  components : List Text
  isComponents : IsComponents components
  name_eq : name = joinSlash components ∨ name = joinSlash components ++ ['/']

namespace JarEntry

variable (e : JarEntry)

/-- `next.isDirectory()` -/
def isDirectory : Bool := ['/'].isSuffixOf e.name

/-- `name.startsWith("META-INF/")` -/
def inMetaInf : Bool := "META-INF/".toList.isPrefixOf e.name

end JarEntry

/-- What is at a path. -/
inductive File where
  | missing
  | directory
  /-- `new JarFile` fails. -/
  | unreadable
  | jar (entries : List JarEntry)

inductive Url where
  | file (path : Text)
  /-- `jar:`, the path of an archive, `!/` and the text for an entry. -/
  | jar (archive text : Text)
  | other (text : Text)
  deriving DecidableEq

/-- `map` -/
abbrev Resources := Text → Option (List Url)

structure Loader where
  /-- The class path of `URLClassLoader`. -/
  classPath : List Url
  map : Resources

/-- `addResource` -/
def addResource (map : Resources) (name : Text) (url : Url) : Resources :=
  Function.update map name (some ((map name).getD [] ++ [url]))

/-! ### Scanning -/

/-- The state of a scan: the names that it has recorded, and the map of the loader. -/
structure Scan where
  urls : List Text
  map : Resources

/-- `name.substring(0, i)` for each `i` that `name.indexOf("/", i)` comes to. -/
def beforeSlashes (done : Text) : Text → List Text
  | [] => []
  | c :: rest =>
    if c = '/' then done :: beforeSlashes (done ++ [c]) rest else beforeSlashes (done ++ [c]) rest

/-- The body of the inner loop. -/
def record (path : Text) (s : Scan) (name : Text) : Scan :=
  if name ∈ s.urls then s
  else ⟨name :: s.urls, addResource s.map name (.jar path (name ++ ['/']))⟩

/-- The loop of `scanJar`. -/
def scanEntries (path : Text) : List JarEntry → Scan → Scan
  | [], s => s
  | e :: rest, s =>
    if e.inMetaInf then scanEntries path rest s
    else if e.isDirectory then s
    else scanEntries path rest (run (record path) s (beforeSlashes [] e.name))

variable (files : Text → File)

/-- `scanJar` -/
def scanJar (path : Text) (map : Resources) : Resources :=
  match files path with
  | .jar entries => (scanEntries path entries ⟨[], map⟩).map
  | _ => map

/-- `addURL`, where what is no file has no path. -/
def addURL (l : Loader) (url : Url) : Loader :=
  match url with
  | .file path => ⟨l.classPath ++ [url], scanJar files path l.map⟩
  | _ => ⟨l.classPath ++ [url], l.map⟩

/-- The URLs of a name, with what `super.findResources` finds on the class path. -/
def findResources (super : List Url → Text → List Url) (l : Loader) (name : Text) : List Url :=
  super l.classPath name ++
    (l.map (if ['/'].isSuffixOf name then name.dropLast else name)).getD []

/-! ### Directories -/

/-- The directory lies above the entry. -/
def JarEntry.IsBelow (e : JarEntry) (dir : Text) : Prop :=
  ∃ parts more, parts ≠ [] ∧ more ≠ [] ∧ e.components = parts ++ more ∧ dir = joinSlash parts

/-- The URL is one of a directory in an archive. What follows `#` is not of the entry, and escapes
are decoded; there may be a slash at the end. -/
def Url.IsOf (path dir : Text) : Url → Prop
  | .jar archive text => archive = path ∧
      (decodePercent (text.takeWhile (· ≠ '#')) = some dir ∨
        decodePercent (text.takeWhile (· ≠ '#')) = some (dir ++ ['/']))
  | _ => False

instance (path dir : Text) : DecidablePred (Url.IsOf path dir)
  | .jar _ _ => inferInstanceAs (Decidable (_ ∧ _))
  | .file _ => inferInstanceAs (Decidable False)
  | .other _ => inferInstanceAs (Decidable False)

/-- The directory has an entry. -/
def Listed (entries : List JarEntry) (dir : Text) : Prop :=
  ∃ e ∈ entries, e.name = dir ++ ['/']

instance (entries : List JarEntry) (dir : Text) : Decidable (Listed entries dir) :=
  inferInstanceAs (Decidable (∃ e ∈ entries, _))

/-- What stands before the first directory, outside `META-INF`. -/
def early (entries : List JarEntry) : List JarEntry :=
  (entries.filter fun e ↦ !e.inMetaInf).takeWhile fun e ↦ !e.isDirectory

/-- A text that stands for itself in a URL. -/
def IsPlain (dir : Text) : Prop := '#' ∉ dir ∧ '%' ∉ dir

instance (dir : Text) : Decidable (IsPlain dir) := inferInstanceAs (Decidable (_ ∧ _))

/-- Each directory above an entry is found once, with and without a slash at its end. -/
def Supplied (find : Text → List Url) (path : Text) (entries : List JarEntry) : Prop :=
  ∀ e ∈ entries, e.inMetaInf = false → ∀ dir, e.IsBelow dir → ∀ name,
    name = dir ∨ name = dir ++ ['/'] → (find name).countP (Url.IsOf path dir) = 1

/-- `URLClassLoader` finds a directory of a jar once if it has an entry, and else not at all. -/
def FindsEntries (super : List Url → Text → List Url) : Prop :=
  ∀ {classPath path entries}, .file path ∈ classPath → files path = .jar entries →
    ∀ {parts}, IsComponents parts → ∀ name,
    name = joinSlash parts ∨ name = joinSlash parts ++ ['/'] →
    (super classPath name).countP (Url.IsOf path (joinSlash parts)) =
      if Listed entries (joinSlash parts) then 1 else 0

/-! ### The separators of a name -/

/-- The directories of a name are its parts before a slash. -/
theorem mem_beforeSlashes {dir done text : Text} :
    dir ∈ beforeSlashes done text ↔ ∃ l r, text = l ++ '/' :: r ∧ dir = done ++ l := by
  induction text generalizing done with
  | nil => simp [beforeSlashes]
  | cons c text ih =>
    have hrest : dir ∈ beforeSlashes (done ++ [c]) text ↔
        ∃ l r, c :: text = c :: l ++ '/' :: r ∧ dir = done ++ c :: l := by
      simp [ih]
    rw [beforeSlashes]
    constructor
    · intro h
      split at h
      · next hc =>
        rcases List.mem_cons.mp h with rfl | h
        · exact ⟨[], text, by rw [hc, List.nil_append], (List.append_nil _).symm⟩
        · obtain ⟨l, r, htext, hdir⟩ := hrest.mp h
          exact ⟨c :: l, r, htext, hdir⟩
      · obtain ⟨l, r, htext, hdir⟩ := hrest.mp h
        exact ⟨c :: l, r, htext, hdir⟩
    · rintro ⟨l, r, htext, hdir⟩
      cases l with
      | nil =>
        rw [List.nil_append] at htext
        rw [if_pos (List.cons.inj htext).1, hdir, List.append_nil]
        exact List.mem_cons_self
      | cons d l =>
        obtain rfl := (List.cons.inj htext).1
        have hmem := hrest.mpr ⟨l, r, htext, hdir⟩
        split
        · exact List.mem_cons_of_mem _ hmem
        · exact hmem

theorem joinSlash_append {parts more : List Text} (hparts : parts ≠ []) (hmore : more ≠ []) :
    joinSlash (parts ++ more) = joinSlash parts ++ '/' :: joinSlash more := by
  refine (List.cons.inj (?_ : '/' :: joinSlash (parts ++ more) = '/' :: _)).2
  rw [← below_eq (List.append_ne_nil_of_left_ne_nil hparts _), below_append, below_eq hparts,
    below_eq hmore, List.cons_append]

/-- A name has the components that it is written with. -/
theorem splitOn_joinSlash {parts : List Text} (h : IsComponents parts) :
    (joinSlash parts).splitOn '/' = parts :=
  List.splitOn_intercalate _ (fun _ ↦ h.not_mem) h.ne_nil

namespace JarEntry

variable {e : JarEntry}

/-- Only the name of a directory ends with a slash. -/
theorem name_of_not_isDirectory (h : e.isDirectory = false) : e.name = joinSlash e.components := by
  refine e.name_eq.resolve_right fun hname ↦ ?_
  rw [isDirectory, hname, List.isSuffixOf_iff_suffix.mpr (List.suffix_append _ _)] at h
  exact absurd h.symm Bool.false_ne_true

/-- A directory above an entry has components itself. -/
theorem IsBelow.isComponents {dir : Text} (h : e.IsBelow dir) :
    ∃ parts, IsComponents parts ∧ dir = joinSlash parts := by
  obtain ⟨parts, more, hparts, -, hcomponents, rfl⟩ := h
  have hmem : ∀ {part}, part ∈ parts → part ∈ e.components := fun hpart ↦
    hcomponents ▸ List.mem_append_left _ hpart
  exact ⟨parts, ⟨hparts, fun hpart ↦ e.isComponents.part_ne_nil (hmem hpart),
    fun hpart ↦ e.isComponents.not_mem (hmem hpart)⟩, rfl⟩

/-- What stands before a separator is a directory above the entry. -/
theorem mem_beforeSlashes_iff {dir : Text} :
    dir ∈ beforeSlashes [] (joinSlash e.components) ↔ e.IsBelow dir := by
  rw [mem_beforeSlashes]
  constructor
  · rintro ⟨l, r, hname, hdir⟩
    refine ⟨l.splitOn '/', r.splitOn '/', List.splitOn_ne_nil _ _, List.splitOn_ne_nil _ _, ?_, ?_⟩
    · rw [← splitOn_joinSlash e.isComponents, hname, List.splitOn_append_cons_self]
    · rw [joinSlash, List.intercalate_splitOn, hdir, List.nil_append]
  · rintro ⟨parts, more, hparts, hmore, hcomponents, rfl⟩
    exact ⟨joinSlash parts, joinSlash more, by rw [hcomponents, joinSlash_append hparts hmore],
      (List.nil_append _).symm⟩

instance (dir : Text) : Decidable (e.IsBelow dir) := decidable_of_iff _ mem_beforeSlashes_iff

end JarEntry

/-- A file that stands before the first directory lies below the directory. -/
def Recorded (entries : List JarEntry) (dir : Text) : Prop :=
  ∃ e ∈ early entries, e.IsBelow dir

instance (entries : List JarEntry) (dir : Text) : Decidable (Recorded entries dir) :=
  inferInstanceAs (Decidable (∃ e ∈ early entries, _))

/-! ### What a scan records -/

section Scan

variable {path : Text} {map : Resources} {s : Scan}

/-- The map has a URL more for each name that is recorded. -/
def Scan.Records (path : Text) (map : Resources) (s : Scan) : Prop :=
  ∀ dir, (s.map dir).getD [] =
    (map dir).getD [] ++ if dir ∈ s.urls then [.jar path (dir ++ ['/'])] else []

/-- A file records the directories above it, each once for a scan. -/
theorem records_record (s : Scan) (name : Text) (h : s.Records path map) :
    (record path s name).Records path map := by
  intro dir
  rw [record]
  split
  · exact h dir
  · next hname =>
    by_cases hdir : dir = name
    · rw [hdir, if_pos List.mem_cons_self]
      have hbefore := h name
      rw [if_neg hname, List.append_nil] at hbefore
      rw [← hbefore]
      show ((addResource s.map name _) name).getD [] = _
      rw [addResource, Function.update_self, Option.getD_some]
    · show ((addResource s.map name _) dir).getD [] = _
      rw [addResource, Function.update_of_ne hdir, h dir]
      simp [hdir]

/-- The names that have been recorded, with one more. -/
theorem mem_urls_record {dir name : Text} :
    dir ∈ (record path s name).urls ↔ dir ∈ s.urls ∨ dir = name := by
  rw [record]
  split
  · next hname =>
    exact ⟨.inl, fun h ↦ h.elim id fun heq ↦ heq ▸ hname⟩
  · rw [List.mem_cons, or_comm]

theorem mem_urls_run {dir : Text} (names : List Text) :
    dir ∈ (run (record path) s names).urls ↔ dir ∈ s.urls ∨ dir ∈ names := by
  induction names generalizing s with
  | nil => simp
  | cons name names ih => rw [run_cons, ih, mem_urls_record, List.mem_cons, or_assoc]

/-- A scan records what it has not recorded before. -/
theorem records_scanEntries (entries : List JarEntry) (h : s.Records path map) :
    (scanEntries path entries s).Records path map := by
  fun_induction scanEntries path entries s with
  | case1 => exact h
  | case2 _ _ _ _ ih => exact ih h
  | case3 => exact h
  | case4 e rest s _ _ ih => exact ih (invariant_run records_record _ s h)

theorem early_cons_meta {e : JarEntry} (h : e.inMetaInf = true) (rest : List JarEntry) :
    early (e :: rest) = early rest := by
  rw [early, List.filter_cons_of_neg (by simp [h]), early]

theorem early_cons_directory {e : JarEntry} (h : ¬e.inMetaInf = true) (hdir : e.isDirectory = true)
    (rest : List JarEntry) : early (e :: rest) = [] := by
  rw [early, List.filter_cons_of_pos (by simp [h]), List.takeWhile_cons_of_neg (by simp [hdir])]

theorem early_cons_file {e : JarEntry} (h : ¬e.inMetaInf = true) (hdir : ¬e.isDirectory = true)
    (rest : List JarEntry) : early (e :: rest) = e :: early rest := by
  rw [early, List.filter_cons_of_pos (by simp [h]), List.takeWhile_cons_of_pos (by simp [hdir]),
    early]

/-- What a scan records are the directories above the files that it comes to. -/
theorem mem_urls_scanEntries {dir : Text} (entries : List JarEntry) :
    dir ∈ (scanEntries path entries s).urls ↔ dir ∈ s.urls ∨ Recorded entries dir := by
  fun_induction scanEntries path entries s with
  | case1 => simp [Recorded, early]
  | case2 e rest s hmeta ih => rw [ih, Recorded, Recorded, early_cons_meta hmeta]
  | case3 e rest s hmeta hdir =>
    rw [Recorded, early_cons_directory hmeta hdir]
    simp
  | case4 e rest s hmeta hdir ih =>
    rw [ih, mem_urls_run,
      JarEntry.name_of_not_isDirectory (Bool.eq_false_of_not_eq_true hdir),
      JarEntry.mem_beforeSlashes_iff, Recorded, Recorded, early_cons_file hmeta hdir,
      List.exists_mem_cons_iff, or_assoc]

end Scan

/-! ### What is found -/

theorem takeWhile_hash {l : Text} (h : '#' ∉ l) (r : Text) :
    (l ++ r).takeWhile (· ≠ '#') = l ++ r.takeWhile (· ≠ '#') :=
  List.takeWhile_append_of_pos fun _ hc ↦ decide_eq_true fun heq ↦ h (heq ▸ hc)

/-- The URL that is recorded for a directory is one of it only if its name needs no escapes. -/
theorem isOf_recorded_iff {path archive dir : Text} :
    (Url.jar archive (dir ++ ['/'])).IsOf path dir ↔ archive = path ∧ IsPlain dir := by
  refine and_congr_right fun _ ↦ ⟨fun h ↦ ?_, fun h ↦ .inr ?_⟩
  · -- what is read would be shorter otherwise
    obtain ⟨out, hout, hdecode⟩ : ∃ out : List Char, dir.length ≤ out.length ∧
        decodePercent ((dir ++ ['/']).takeWhile (· ≠ '#')) = some out := by
      rcases h with h | h
      · exact ⟨dir, Nat.le_refl _, h⟩
      · exact ⟨_, by simp, h⟩
    have hlength := length_of_decodePercent hdecode
    have hhash : '#' ∉ dir := by
      intro hmem
      obtain ⟨l, r, rfl, hl⟩ := List.eq_append_cons_of_mem hmem
      rw [List.append_assoc, takeWhile_hash hl, List.cons_append,
        List.takeWhile_cons_of_neg (by decide), List.append_nil] at hlength
      rw [List.length_append, List.length_cons] at hout
      omega
    refine ⟨hhash, fun hmem ↦ ?_⟩
    have hcount := List.count_pos_iff.mpr hmem
    rw [takeWhile_hash hhash, List.takeWhile_cons_of_pos (by decide), List.takeWhile_nil,
      List.count_append, List.length_append, List.length_singleton] at hlength
    omega
  · rw [takeWhile_hash h.1, List.takeWhile_cons_of_pos (by decide), List.takeWhile_nil]
    refine decodePercent_of_notMem fun hmem ↦ ?_
    rcases List.mem_append.mp hmem with hmem | hmem
    · exact h.2 hmem
    · exact absurd (List.mem_singleton.mp hmem) (by decide)

section

variable {files : Text → File} {path : Text} {entries : List JarEntry} {dir : Text}

/-- A scan of a jar adds one location to each directory that it records. -/
theorem scanJar_getD (h : files path = .jar entries) (map : Resources) (dir : Text) :
    (scanJar files path map dir).getD [] = (map dir).getD [] ++
      if Recorded entries dir then [.jar path (dir ++ ['/'])] else [] := by
  have hstart : Scan.Records path map ⟨[], map⟩ := fun dir ↦ by simp
  have hrecords := records_scanEntries entries hstart dir
  simp only [mem_urls_scanEntries, List.not_mem_nil, false_or] at hrecords
  rw [scanJar, h]
  exact hrecords

/-- How many URLs the map has for a directory of an archive. -/
def recordedCount (path dir : Text) (map : Resources) : ℕ :=
  ((map dir).getD []).countP (Url.IsOf path dir)

/-- How often a directory of a jar is recorded, after the scan of one jar. -/
theorem recordedCount_scanJar (hjar : files path = .jar entries) (map : Resources)
    (path' : Text) : recordedCount path dir (scanJar files path' map) =
      recordedCount path dir map +
        if path' = path ∧ Recorded entries dir ∧ IsPlain dir then 1 else 0 := by
  by_cases hpath : path' = path
  · subst hpath
    rw [recordedCount, scanJar_getD hjar, List.countP_append, ← recordedCount]
    by_cases hrecorded : Recorded entries dir
    · rw [if_pos hrecorded, List.countP_singleton]
      simp [isOf_recorded_iff, hrecorded]
    · simp [hrecorded]
  · rw [if_neg fun h ↦ hpath h.1, Nat.add_zero]
    cases hfile : files path' with
    | jar entries' =>
      rw [recordedCount, scanJar_getD hfile, List.countP_append, ← recordedCount]
      refine Nat.add_eq_left.mpr (List.countP_eq_zero.mpr fun url hurl ↦ ?_)
      split at hurl
      · rw [List.mem_singleton.mp hurl, decide_eq_true_iff, isOf_recorded_iff]
        exact fun h ↦ hpath h.1
      · exact absurd hurl List.not_mem_nil
    | _ => rw [scanJar, hfile]

/-- How often it is recorded, after one URL more. -/
theorem recordedCount_addURL (hjar : files path = .jar entries) (l : Loader) (url : Url) :
    recordedCount path dir (addURL files l url).map = recordedCount path dir l.map +
      if url = .file path ∧ Recorded entries dir ∧ IsPlain dir then 1 else 0 := by
  cases url with
  | file path' =>
    rw [addURL, recordedCount_scanJar hjar]
    simp
  | _ => simp [addURL]

/-- Each time the jar is added, the directory is recorded again. -/
theorem recordedCount_run (hjar : files path = .jar entries) (urls : List Url) (l : Loader) :
    recordedCount path dir (run (addURL files) l urls).map = recordedCount path dir l.map +
      if Recorded entries dir ∧ IsPlain dir then urls.count (.file path) else 0 := by
  induction urls generalizing l with
  | nil => simp
  | cons url urls ih =>
    rw [run_cons, ih, recordedCount_addURL hjar, List.count_cons]
    by_cases hrecorded : Recorded entries dir ∧ IsPlain dir
    · simp only [hrecorded, and_true, if_true, beq_iff_eq]
      omega
    · simp [hrecorded]

/-- The loader looks into the URLs in the order in which they were added. -/
theorem classPath_run (urls : List Url) (l : Loader) :
    (run (addURL files) l urls).classPath = l.classPath ++ urls := by
  induction urls generalizing l with
  | nil => simp
  | cons url urls ih =>
    have hstep : (addURL files l url).classPath = l.classPath ++ [url] := by
      cases url <;> rfl
    rw [run_cons, ih, hstep, List.append_assoc, List.singleton_append]

theorem not_suffix_joinSlash {parts : List Text} (h : IsComponents parts) :
    ¬['/'] <:+ joinSlash parts := by
  rintro ⟨l, hl⟩
  have hsplit := splitOn_joinSlash h
  rw [← hl, List.splitOn_append_cons_self, List.splitOn_nil] at hsplit
  exact h.part_ne_nil (hsplit ▸ List.mem_append_right _ (List.mem_singleton_self _)) rfl

/-- A directory is looked for with or without a slash at the end. -/
theorem stripped_eq {parts : List Text} (h : IsComponents parts) {name : Text}
    (hname : name = joinSlash parts ∨ name = joinSlash parts ++ ['/']) :
    (if ['/'].isSuffixOf name then name.dropLast else name) = joinSlash parts := by
  rcases hname with rfl | rfl
  · exact if_neg (mt List.isSuffixOf_iff_suffix.mp (not_suffix_joinSlash h))
  · rw [if_pos (List.isSuffixOf_iff_suffix.mpr (List.suffix_append _ _)), List.dropLast_concat]

/-- A directory is looked up with and without a slash at its end. -/
theorem findResources_eq {super : List Url → Text → List Url} (l : Loader) {parts : List Text}
    (h : IsComponents parts) {name : Text}
    (hname : name = joinSlash parts ∨ name = joinSlash parts ++ ['/']) :
    findResources super l name = super l.classPath name ++ (l.map (joinSlash parts)).getD [] := by
  rw [findResources, stripped_eq h hname]

/-- How often a directory of a jar is found. -/
theorem countP_findResources {super : List Url → Text → List Url}
    (hsuper : FindsEntries files super) {initial urls : List Url} (hmem : .file path ∈ urls)
    (hjar : files path = .jar entries) {parts : List Text} (hparts : IsComponents parts)
    {name : Text} (hname : name = joinSlash parts ∨ name = joinSlash parts ++ ['/']) :
    (findResources super (run (addURL files) ⟨initial, fun _ ↦ none⟩ urls) name).countP
        (Url.IsOf path (joinSlash parts)) =
      (if Listed entries (joinSlash parts) then 1 else 0) +
        if Recorded entries (joinSlash parts) ∧ IsPlain (joinSlash parts)
          then urls.count (.file path) else 0 := by
  have hrun : recordedCount path (joinSlash parts) _ = _ :=
    recordedCount_run hjar urls ⟨initial, fun _ ↦ none⟩
  have hclassPath : .file path ∈ (run (addURL files) ⟨initial, fun _ ↦ none⟩ urls).classPath := by
    rw [classPath_run]
    exact List.mem_append_right _ hmem
  rw [findResources_eq _ hparts hname, List.countP_append, hsuper hclassPath hjar hparts name hname,
    ← recordedCount, hrun]
  simp [recordedCount]

/-- A directory of a jar is found once if it is listed or recorded, and not both, and if the jar is
added once where it is recorded. -/
theorem countP_findResources_eq_one_iff {super : List Url → Text → List Url}
    (hsuper : FindsEntries files super) {initial urls : List Url} (hmem : .file path ∈ urls)
    (hjar : files path = .jar entries) {parts : List Text} (hparts : IsComponents parts)
    {name : Text} (hname : name = joinSlash parts ∨ name = joinSlash parts ++ ['/']) :
    (findResources super (run (addURL files) ⟨initial, fun _ ↦ none⟩ urls) name).countP
        (Url.IsOf path (joinSlash parts)) = 1 ↔
      (Listed entries (joinSlash parts) ∧
          ¬(Recorded entries (joinSlash parts) ∧ IsPlain (joinSlash parts))) ∨
        (¬Listed entries (joinSlash parts) ∧
          (Recorded entries (joinSlash parts) ∧ IsPlain (joinSlash parts)) ∧
          urls.count (.file path) = 1) := by
  have hpos : 0 < urls.count (.file path) := List.count_pos_iff.mpr hmem
  rw [countP_findResources hsuper hmem hjar hparts hname]
  by_cases hlisted : Listed entries (joinSlash parts) <;>
    by_cases hrecorded : Recorded entries (joinSlash parts) ∧ IsPlain (joinSlash parts)
  · rw [if_pos hlisted, if_pos hrecorded]
    exact ⟨fun h ↦ absurd h (by omega), fun h ↦ h.elim (fun h ↦ absurd hrecorded h.2)
      fun h ↦ absurd hlisted h.1⟩
  · rw [if_pos hlisted, if_neg hrecorded]
    exact ⟨fun _ ↦ .inl ⟨hlisted, hrecorded⟩, fun _ ↦ rfl⟩
  · rw [if_neg hlisted, if_pos hrecorded, Nat.zero_add]
    exact ⟨fun h ↦ .inr ⟨hlisted, hrecorded, h⟩, fun h ↦ h.elim (fun h ↦ absurd h.1 hlisted)
      fun h ↦ h.2.2⟩
  · rw [if_neg hlisted, if_neg hrecorded]
    exact ⟨fun h ↦ absurd h (by omega), fun h ↦ h.elim (fun h ↦ absurd h.1 hlisted)
      fun h ↦ absurd h.2.1 hrecorded⟩

end

/-! ### Jars -/

/-- What `URLClassLoader` finds of an archive. -/
def findEntry (files : Text → File) (name dir : Text) : Url → Option Url
  | .file path =>
    match files path with
    | .jar entries => if Listed entries dir then some (.jar path (quote name)) else none
    | _ => none
  | _ => none

/-- What `URLClassLoader` finds in the archives of the class path. -/
def findEntries (files : Text → File) (classPath : List Url) (name : Text) : List Url :=
  classPath.dedup.filterMap
    (findEntry files name (if ['/'].isSuffixOf name then name.dropLast else name))

/-- The URL of an entry that is quoted is read back as that entry. -/
theorem isOf_quote_iff {path archive dir name : Text} :
    (Url.jar archive (quote name)).IsOf path dir ↔
      archive = path ∧ (name = dir ∨ name = dir ++ ['/']) := by
  have htake : (quote name).takeWhile (· ≠ '#') = quote name :=
    List.takeWhile_eq_self_iff.mpr fun c hc ↦ decide_eq_true fun heq : c = '#' ↦
      notMem_quote (by decide) (by decide) name (heq ▸ hc)
  rw [Url.IsOf, htake, decodePercent_quote, Option.some_inj, Option.some_inj]

/-- A jar finds the directories that are listed in it. -/
theorem findEntry_isOf_iff {files : Text → File} {path name dir : Text} {entries : List JarEntry}
    (hjar : files path = .jar entries) (hname : name = dir ∨ name = dir ++ ['/']) (url : Url) :
    (∃ found, findEntry files name dir url = some found ∧ found.IsOf path dir) ↔
      url = .file path ∧ Listed entries dir := by
  constructor
  · rintro ⟨found, hfound, hof⟩
    cases url with
    | file path' =>
      rw [findEntry] at hfound
      cases hfile : files path' with
      | jar entries' =>
        simp only [hfile, Option.ite_none_right_eq_some, Option.some_inj] at hfound
        obtain ⟨hlisted, rfl⟩ := hfound
        obtain rfl := (isOf_quote_iff.mp hof).1
        rw [hjar] at hfile
        obtain rfl := File.jar.inj hfile
        exact ⟨rfl, hlisted⟩
      | _ => simp [hfile] at hfound
    | _ => simp [findEntry] at hfound
  · rintro ⟨rfl, hlisted⟩
    refine ⟨.jar path (quote name), ?_, isOf_quote_iff.mpr ⟨rfl, hname⟩⟩
    simp only [findEntry, hjar]
    rw [if_pos hlisted]

/-- The lookup of `URLClassLoader` finds entries as it is asked to. -/
theorem findsEntries_findEntries (files : Text → File) :
    FindsEntries files (findEntries files) := by
  intro classPath path entries hmem hjar parts hparts name hname
  have hcount : classPath.dedup.count (.file path) = 1 :=
    List.count_eq_one_of_mem (List.nodup_dedup _) (List.mem_dedup.mpr hmem)
  have hfound : ∀ url, ((findEntry files name (joinSlash parts) url).map fun url ↦
        decide (url.IsOf path (joinSlash parts))).getD false = true ↔
      url = .file path ∧ Listed entries (joinSlash parts) := by
    intro url
    rw [← findEntry_isOf_iff hjar hname]
    cases findEntry files name (joinSlash parts) url <;> simp
  rw [findEntries, stripped_eq hparts hname, List.countP_filterMap]
  split
  · next hlisted =>
    rw [← hcount, List.count]
    exact List.countP_congr fun url _ ↦ (hfound url).trans
      ((and_iff_left hlisted).trans beq_iff_eq.symm)
  · next hlisted =>
    exact List.countP_eq_zero.mpr fun url _ h ↦ hlisted ((hfound url).mp h).2

/-- A jar with no directories but `META-INF/`, and one with `a/` after the first file. -/
def sampleFiles : Text → File :=
  let entry (components : List Text) (h : IsComponents components) (slash : Bool) : JarEntry :=
    ⟨joinSlash components ++ if slash then ['/'] else [], components, h, by cases slash <;> simp⟩
  fun path ↦
    if path = "/flat.jar".toList then
      .jar [entry ["META-INF".toList] ⟨by decide, by decide, by decide⟩ true,
        entry ["a".toList, "b".toList, "X".toList] ⟨by decide, by decide, by decide⟩ false,
        entry ["a".toList, "Y".toList] ⟨by decide, by decide, by decide⟩ false]
    else if path = "/mixed.jar".toList then
      .jar [entry ["a".toList, "Y".toList] ⟨by decide, by decide, by decide⟩ false,
        entry ["a".toList] ⟨by decide, by decide, by decide⟩ true,
        entry ["a".toList, "b".toList, "X".toList] ⟨by decide, by decide, by decide⟩ false]
    else .missing

/-- The entries of a jar. -/
def File.entries : File → List JarEntry
  | .jar entries => entries
  | _ => []

/-- Both jars on the class path. -/
def sampleLoader : Loader :=
  run (addURL sampleFiles) ⟨[], fun _ ↦ none⟩
    [.file "/flat.jar".toList, .file "/mixed.jar".toList]

end JPype.JPypeClassLoader
