import JPype.Foundation.Joining
import JPype.Package.Contents

/-!
# The directories of a package

A root, an overlay or a module may have the directory of a package, and `isPackage` finds out
whether any of them has (`World.isPackage_eq`). The class loader answers for the roots; its URI
leads to the directory unless the path of an archive has a `!/` (`World.resourcePath_eq`). For the
modules `isPackage` rests on their index: what lies above a directory is in the index, down to the
third level (`World.contains_of_isDirectory`).
-/

namespace JPype.PackageManager

open scoped Foundation.Membership

/-- The path of a package. -/
def joinSlash (parts : List Text) : Text :=
  ['/'].intercalate parts

/-- The names of a path, of which there is at least one. -/
structure IsComponents (parts : List Text) : Prop where
  ne_nil : parts ≠ []
  part_ne_nil : ∀ {part}, part ∈ parts → part ≠ []
  not_mem : ∀ {part}, part ∈ parts → '/' ∉ part

/-- What is appended to a directory for these names. -/
def below (parts : List Text) : Text :=
  parts.flatMap ('/' :: ·)

theorem below_append (parts more : List Text) : below (parts ++ more) = below parts ++ below more :=
  List.flatMap_append

theorem below_eq {parts : List Text} (h : parts ≠ []) : below parts = '/' :: joinSlash parts := by
  induction parts with
  | nil => exact absurd rfl h
  | cons part parts ih =>
    by_cases hparts : parts = []
    · rw [hparts]
      simp [below, joinSlash]
    · rw [joinSlash, List.intercalate_cons_of_ne_nil hparts, below, List.flatMap_cons, ← below,
        ih hparts, joinSlash]
      simp

/-- Splitting gives the names back. -/
theorem splitSlash_joinSlash {parts : List Text} (h : IsComponents parts) :
    splitSlash (joinSlash parts) = parts :=
  Foundation.rdropWhile_splitOn_intercalate h.ne_nil
    fun _ hpart ↦ ⟨h.not_mem hpart, h.part_ne_nil hpart⟩

theorem search_joinSlash {parts : List Text} (h : IsComponents parts) :
    World.search (joinSlash parts) = joinSlash (parts.take 3) := by
  rw [World.search, splitSlash_joinSlash h]
  split
  · rfl
  · next hlength => rw [List.take_of_length_le (Nat.le_of_not_lt hlength)]

/-! ### Where the text of a URI is cut -/

theorem breakBang_cons {c : Char} (h : c ≠ '!') (text : Text) :
    breakBang (c :: text) = (breakBang text).map fun parts ↦ (c :: parts.1, parts.2) := by
  rw [breakBang]
  rintro _ rfl
  exact absurd rfl h

/-- An archive is found in the text of a URI, unless its own path looks like the end of one. -/
theorem breakBang_append {text : Text} (h : ¬"!/".toList <:+: text) (rest : Text) :
    breakBang (text ++ '!' :: '/' :: rest) = some (text, '/' :: rest) := by
  induction text with
  | nil => rfl
  | cons c text ih =>
    have htext : ¬"!/".toList <:+: text := fun htail ↦ h (htail.trans (List.infix_cons_iff.mpr
      (.inr List.infix_rfl)))
    rw [List.cons_append, breakBang, ih htext]
    · rfl
    · rintro tail rfl heq
      cases text with
      | nil => exact absurd (List.head_eq_of_cons_eq heq) (by decide)
      | cons d text =>
        obtain rfl : d = '/' := List.head_eq_of_cons_eq heq
        exact h ⟨[], text, rfl⟩

/-- The path of the archive is not cut itself. -/
def Root.Whole : Root → Prop
  | .directory _ => True
  | .archive jar => ¬"!/".toList <:+: jar.path

theorem Root.entry_eq (jar : Archive) (path : Text) :
    ∃ rest, Root.entry jar path = '/' :: rest := by
  rw [Root.entry]
  split
  · exact ⟨path, rfl⟩
  · exact ⟨_, rfl⟩

/-! ### Where a package is -/

/-- A place of the directory of a package. -/
inductive World.Holds (w : World) (path : Text) : Location → Prop
  | root {root l} : root ∈ w.roots → l ∈ root.directories path → w.Holds path l
  | platform {archive} : archive ∈ w.bases → w.Holds path (.jar archive ('/' :: path))
  | module {module} : module ∈ w.modules → w.Holds path (.jrt (module ++ '/' :: path))

/-- Some root or module has the directory. -/
def World.HasDirectory (w : World) (path : Text) : Prop :=
  ∃ l, w.Holds path l ∧ w.isDirectory l = true

theorem Root.location_mem (root : Root) (path : Text) :
    root.location path ∈ root.directories path := by
  cases root with
  | directory root => exact List.mem_singleton_self _
  | archive jar =>
    show Location.jar jar.path (Root.entry jar path) ∈ _
    rw [Root.entry]
    split
    · exact List.mem_cons_self
    · next version hreport =>
      exact List.mem_cons_of_mem _ (List.mem_map_of_mem (jar.mem_overlays hreport))

theorem Root.base_mem (root : Root) (path : Text) : root.base path ∈ root.directories path := by
  cases root with
  | directory root => exact List.mem_singleton_self _
  | archive jar => exact List.mem_cons_self

theorem Version.entry_append (version : Version) (path : Text) (name : Text) :
    version.entry path ++ '/' :: name = version.entry (path ++ '/' :: name) := by
  unfold Version.entry
  -- the literal is not to be unfolded
  generalize "/META-INF/versions/".toList = overlays
  rw [List.append_assoc, List.append_assoc, List.cons_append]

/-- A directory in the directory of a package is one of a package below it. -/
theorem Root.child_mem {root : Root} {path : Text} {l : Location} (h : l ∈ root.directories path)
    (name : Text) : l.child name ∈ root.directories (path ++ '/' :: name) := by
  cases root with
  | directory root =>
    rw [List.mem_singleton.mp h]
    simp [Location.child, Root.directories]
  | archive jar =>
    rcases List.mem_cons.mp h with rfl | h
    · exact List.mem_cons_self
    · obtain ⟨version, hversion, rfl⟩ := List.mem_map.mp h
      show Location.jar jar.path (version.entry path ++ '/' :: name) ∈ _
      rw [version.entry_append]
      exact List.mem_cons_of_mem _ (List.mem_map.mpr ⟨version, hversion, rfl⟩)

theorem World.Holds.child {w : World} {path : Text} {l : Location} (h : w.Holds path l)
    (name : Text) : w.Holds (path ++ '/' :: name) (l.child name) := by
  cases h with
  | root hroot hl => exact .root hroot (Root.child_mem hl name)
  | platform harchive => exact .platform harchive
  | @module module hmodule =>
    have hchild : (Location.jrt (module ++ '/' :: path)).child name =
        .jrt (module ++ '/' :: (path ++ '/' :: name)) := by
      simp [Location.child]
    rw [hchild]
    exact .module hmodule

namespace World

variable (w : World)

/-! ### The index of a module -/

variable {w} {module : Text}

/-- What lies above a directory of a module is a directory, too. -/
theorem isDirectory_above (hmodule : module ∈ w.modules) (dir : Text) (parts : List Text)
    {more : List Text} (hmore : ∀ part ∈ more, part ≠ [] ∧ '/' ∉ part)
    (h : w.isDirectory (.jrt (module ++ dir ++ below (parts ++ more))) = true) :
    w.isDirectory (.jrt (module ++ dir ++ below parts)) = true := by
  induction more using List.reverseRecOn with
  | nil => rwa [List.append_nil] at h
  | append_singleton more part ih =>
    refine ih (fun part hpart ↦ hmore part (List.mem_append_left _ hpart)) ?_
    have hpart := hmore part (List.mem_append_right _ (List.mem_singleton_self part))
    have hlast : module ++ dir ++ below (parts ++ (more ++ [part])) =
        module ++ (dir ++ below (parts ++ more)) ++ '/' :: part := by
      simp [below]
    rw [hlast] at h
    obtain ⟨names, hnames, -⟩ := w.mem_listing hmodule hpart.1 hpart.2 h
    rw [isDirectory, List.append_assoc, hnames]
    rfl

/-- A directory is in the index, unless it lies deeper than the index is made. The induction is on
the names, each of which is one level of `listPackages`. -/
theorem mem_listPackages (hmodule : module ∈ w.modules) {parts : List Text}
    (hparts : IsComponents parts) {depth : ℕ} (hdepth : parts.length ≤ depth) {dir : Text}
    (h : w.isDirectory (.jrt (module ++ dir ++ below parts)) = true) :
    (dir ++ below parts).tail ∈ w.listPackages module depth dir := by
  induction parts generalizing depth dir with
  | nil => exact absurd rfl hparts.ne_nil
  | cons part parts ih =>
    obtain ⟨depth, rfl⟩ : ∃ d, depth = d + 1 :=
      Nat.exists_eq_add_of_le' (Nat.le_trans (Nat.succ_pos _) hdepth)
    have hpart := hparts.part_ne_nil List.mem_cons_self
    have hslash := hparts.not_mem List.mem_cons_self
    have hdir : w.isDirectory (.jrt (module ++ dir ++ '/' :: part)) = true := by
      have := isDirectory_above hmodule dir [part] (fun p hp ↦
        ⟨hparts.part_ne_nil (List.mem_cons_of_mem _ hp),
          hparts.not_mem (List.mem_cons_of_mem _ hp)⟩) h
      simpa [below] using this
    obtain ⟨names, hnames, hmem⟩ := w.mem_listing hmodule hpart hslash hdir
    have hfilter : part ∈ names.filter fun name ↦
        w.isDirectory (.jrt (module ++ dir ++ '/' :: name)) :=
      List.mem_filter.mpr ⟨hmem, hdir⟩
    rw [listPackages, hnames]
    refine List.mem_flatMap.mpr ⟨part, hfilter, ?_⟩
    have hbelow : dir ++ below (part :: parts) = dir ++ '/' :: part ++ below parts := by
      simp [below]
    rw [hbelow]
    by_cases hrest : parts = []
    · rw [hrest]
      simp [below]
    · refine List.mem_cons_of_mem _ (ih ⟨hrest, fun hp ↦ hparts.part_ne_nil
        (List.mem_cons_of_mem _ hp), fun hp ↦ hparts.not_mem (List.mem_cons_of_mem _ hp)⟩
        (Nat.le_of_succ_le_succ hdepth) ?_)
      rw [List.append_assoc module, ← hbelow, ← List.append_assoc]
      exact h

/-- The index has what is looked for in it, for every directory of the module. -/
theorem contains_of_isDirectory (hmodule : module ∈ w.modules) {parts : List Text}
    (hparts : IsComponents parts)
    (h : w.isDirectory (.jrt (module ++ '/' :: joinSlash parts)) = true) :
    w.contains module (search (joinSlash parts)) = true := by
  have hne : parts.take 3 ≠ [] := by
    simpa using hparts.ne_nil
  have htake : IsComponents (parts.take 3) :=
    ⟨hne, fun hp ↦ hparts.part_ne_nil (List.mem_of_mem_take hp),
      fun hp ↦ hparts.not_mem (List.mem_of_mem_take hp)⟩
  have habove : w.isDirectory (.jrt (module ++ [] ++ below (parts.take 3))) = true := by
    refine isDirectory_above hmodule [] (parts.take 3)
      (fun p (hp : p ∈ parts.drop 3) ↦ ⟨hparts.part_ne_nil (List.mem_of_mem_drop hp),
        hparts.not_mem (List.mem_of_mem_drop hp)⟩) ?_
    rw [List.take_append_drop, below_eq hparts.ne_nil, List.append_nil]
    exact h
  have := mem_listPackages hmodule htake (List.length_take_le 3 parts) habove
  rw [search_joinSlash hparts, contains, decide_eq_true_iff]
  rwa [List.nil_append, below_eq hne, List.tail_cons] at this

/-- The modules with a directory are found. -/
theorem mem_moduleDirectories {parts : List Text} (hparts : IsComponents parts) {l : Location} :
    l ∈ w.moduleDirectories (joinSlash parts) ↔
      ∃ module ∈ w.modules, l = .jrt (module ++ '/' :: joinSlash parts) ∧
        w.isDirectory l = true := by
  simp only [moduleDirectories, List.mem_filter, List.mem_map]
  constructor
  · rintro ⟨⟨module, ⟨hmodule, -⟩, rfl⟩, hdir⟩
    exact ⟨module, hmodule, rfl, hdir⟩
  · rintro ⟨module, hmodule, rfl, hdir⟩
    exact ⟨⟨module, ⟨hmodule, contains_of_isDirectory hmodule hparts hdir⟩, rfl⟩, hdir⟩

/-! ### What the class loader reports -/

theorem mem_resources {root : Root} {path : Text} : root ∈ w.resources path ↔
    root ∈ w.roots ∧
      (w.isDirectory (root.location path) = true ∨ w.isFile (root.location path) = true) := by
  rw [resources, List.mem_filter, Bool.or_eq_true]

theorem isArchive_of_mem_resources {jar : Archive} {path : Text}
    (h : .archive jar ∈ w.resources path) : w.isArchive jar.path = true := by
  rcases (mem_resources.mp h).2 with hdir | hfile
  · exact w.isArchive_of_listing hdir
  · exact w.isArchive_of_isFile hfile

/-- The URI of what a root has leads to it. -/
theorem resourcePath_eq {root : Root} {path : Text} (hroot : root ∈ w.resources path)
    (hwhole : root.Whole) : w.resourcePath root path = .ok (root.location path) := by
  cases root with
  | directory root => rfl
  | archive jar =>
    obtain ⟨rest, hrest⟩ := Root.entry_eq jar path
    rw [resourcePath, Root.location, hrest]
    simp only [breakBang_append hwhole]
    exact if_pos (.inl (isArchive_of_mem_resources hroot))

/-- Where all URIs lead to what the roots have, one of them leads to a directory if a root has
one. -/
theorem anyDirectory_eq {path : Text} {roots : List Root}
    (h : ∀ root ∈ roots, w.resourcePath root path = .ok (root.location path)) :
    w.anyDirectory path roots =
      .ok (roots.any fun root ↦ w.isDirectory (root.location path)) := by
  induction roots with
  | nil => rfl
  | cons root roots ih =>
    obtain ⟨hroot, hroots⟩ := List.forall_mem_cons.mp h
    rw [anyDirectory, hroot, List.any_cons, ih hroots]
    show (if _ then _ else _) = _
    split
    · next hdir => rw [hdir, Bool.true_or]
    · next hdir => rw [Bool.eq_false_iff.mpr hdir, Bool.false_or]

/-! ### Packages -/

/-- A root or an overlay has the directory if the class loader reports one. -/
theorem any_resources_iff {path : Text} :
    ((w.resources path).any fun root ↦ w.isDirectory (root.location path)) = true ↔
      ∃ root ∈ w.roots, ∃ l ∈ root.directories path, w.isDirectory l = true := by
  rw [List.any_eq_true]
  constructor
  · rintro ⟨root, hmem, hdir⟩
    exact ⟨root, (mem_resources.mp hmem).1, _, root.location_mem path, hdir⟩
  · rintro ⟨root, hroot, l, hl, hdir⟩
    have hlocation : w.isDirectory (root.location path) = true := w.reports hroot hl hdir
    exact ⟨root, mem_resources.mpr ⟨hroot, .inl hlocation⟩, hlocation⟩

theorem isModulePackage_iff {parts : List Text} (hparts : IsComponents parts) :
    w.isModulePackage (joinSlash parts) = true ↔
      ∃ module ∈ w.modules, w.isDirectory (.jrt (module ++ '/' :: joinSlash parts)) = true := by
  rw [isModulePackage, Bool.not_eq_true', List.isEmpty_eq_false_iff_exists_mem]
  constructor
  · rintro ⟨l, hl⟩
    obtain ⟨module, hmodule, rfl, hdir⟩ := (mem_moduleDirectories hparts).mp hl
    exact ⟨module, hmodule, hdir⟩
  · rintro ⟨module, hmodule, hdir⟩
    exact ⟨_, (mem_moduleDirectories hparts).mpr ⟨module, hmodule, rfl, hdir⟩⟩

theorem isBasePackage_iff {path : Text} (hpath : path ≠ []) :
    w.isBasePackage path = true ↔
      ∃ archive ∈ w.bases, w.isDirectory (.jar archive ('/' :: path)) = true := by
  rw [isBasePackage, Bool.and_eq_true, List.any_eq_true]
  exact and_iff_right (by simpa using hpath)

theorem hasDirectory_iff {path : Text} : w.HasDirectory path ↔
    (∃ root ∈ w.roots, ∃ l ∈ root.directories path, w.isDirectory l = true) ∨
      (∃ archive ∈ w.bases, w.isDirectory (.jar archive ('/' :: path)) = true) ∨
        ∃ module ∈ w.modules, w.isDirectory (.jrt (module ++ '/' :: path)) = true := by
  constructor
  · rintro ⟨l, hholds, hdir⟩
    cases hholds with
    | root hroot hl => exact .inl ⟨_, hroot, _, hl, hdir⟩
    | platform harchive => exact .inr (.inl ⟨_, harchive, hdir⟩)
    | module hmodule => exact .inr (.inr ⟨_, hmodule, hdir⟩)
  · rintro (⟨root, hroot, l, hl, hdir⟩ | ⟨archive, harchive, hdir⟩ | ⟨module, hmodule, hdir⟩)
    · exact ⟨l, .root hroot hl, hdir⟩
    · exact ⟨_, .platform harchive, hdir⟩
    · exact ⟨_, .module hmodule, hdir⟩

theorem joinSlash_ne_nil {parts : List Text} (h : IsComponents parts) : joinSlash parts ≠ [] := by
  intro heq
  have hsplit := splitSlash_joinSlash h
  rw [heq] at hsplit
  obtain rfl : parts = [[]] := hsplit.symm
  exact h.part_ne_nil (List.mem_singleton_self _) rfl

/-- `isPackage` is true for what some root or module has a directory of. -/
theorem isPackage_eq {name : Text} {parts : List Text} (hparts : IsComponents parts)
    (hname : slashes name = joinSlash parts)
    (h : ∀ root ∈ w.resources (joinSlash parts), root.Whole) :
    ∃ found, w.isPackage name = .ok found ∧
      (found = true ↔ w.HasDirectory (joinSlash parts)) := by
  rw [isPackage, hname, hasDirectory_iff, ← isModulePackage_iff hparts,
    ← isBasePackage_iff (joinSlash_ne_nil hparts), ← any_resources_iff]
  split
  · next hbefore =>
    rw [Bool.or_eq_true] at hbefore
    exact ⟨true, rfl, iff_of_true rfl (.inr hbefore.symm)⟩
  · next hbefore =>
    rw [Bool.or_eq_true, not_or] at hbefore
    refine ⟨_, anyDirectory_eq fun root hroot ↦ resourcePath_eq hroot (h root hroot), ?_⟩
    rw [or_iff_left (not_or.mpr hbefore.symm)]

end World

end JPype.PackageManager
