import JPype.Package.Collecting

/-!
# Listing and lookup of packages

What a package lists is what its directories have, and every name that it lists can be looked up
(`World.Complete`). Where the paths of what is collected survive, this is so if what no overlay that
is reported has is collected elsewhere, and if every name that is shown is looked up as it is and
found (`World.complete_iff_covered`).
-/

namespace JPype.PackageManager

open Unicode Import
open scoped Foundation.Membership

namespace World

variable (w : World)

/-! ### The specification -/

/-- A directory has a subdirectory, or the file of a class that is not nested. -/
inductive Has (l : Location) : Text → Prop
  | subdirectory {names filename name} : w.listing l = some names → filename ∈ names →
      w.isDirectory (l.child filename) = true → '/' ∉ name →
      filename = name ∨ filename = name ++ ['/'] → Has l name
  | classFile {names name} : w.listing l = some names → name ++ ".class".toList ∈ names →
      w.isDirectory (l.child (name ++ ".class".toList)) = false → '$' ∉ name → Has l name

/-- What listing and lookup promise for a package. -/
structure Complete (n : PackageName) : Prop where
  isPackage_eq : ∃ found, w.isPackage n.text = .ok found ∧ (found = true ↔ w.HasDirectory n.path)
  collects : ∃ contents, w.getContentMap n.text = .ok contents ∧
    ∀ l, w.Holds n.path l → ∀ name, w.Has l name → wrap name ∈ contents.map Prod.fst
  resolves : ∃ keys, w.getContents n.text = .ok keys ∧
    ∀ key ∈ keys, ∃ object, w.getObject n.text key = .ok (some object)

/-- What an overlay has that is not reported is collected elsewhere. -/
def Covered (n : PackageName) : Prop :=
  ∀ jar, .archive jar ∈ w.roots → ∀ version ∈ jar.overlays, jar.report n.path ≠ some version →
    ∀ name, w.Has (.jar jar.path (version.entry n.path)) name →
      ∃ item ∈ w.found n.path, wrap item.1 = wrap name

/-- What a key stands for is shown if it is a directory or a public class. -/
def Shown (path name : Text) (file : Location) : Prop :=
  ∃ before after, w.found path = before ++ (name, file) :: after ∧
    (∀ item ∈ after, wrap item.1 ≠ wrap name) ∧
    (w.isDirectory file = true ∨ w.isPublic file = true)

/-- The name that is looked up for a file of this name. -/
def lookupName (n : PackageName) (name : Text) : Text :=
  n.text ++ '.' :: keywordUnwrap (wrap name)

/-- There is a package of this name, or else a public class. -/
def Found (name : Text) : Prop :=
  w.isPackage name = .ok true ∨ w.isPackage name = .ok false ∧ w.publicClass name = true

end World

/-- The name of a file is looked up as it is. -/
structure IsRegular (name : Text) : Prop where
  dot : '.' ∉ name
  underscore : ∀ keyword ∈ keywords, name ≠ keyword ++ ['_']

/-- What is shown is a directory whose name is looked up as it is and whose reported URIs lead to
what the roots have, or else a package or a public class is found for its name. -/
def World.Resolvable (w : World) (n : PackageName) : Prop :=
  ∀ name file, w.Shown n.path name file →
    IsRegular name ∧ w.isDirectory file = true ∧
        (∀ root ∈ w.resources (n.path ++ '/' :: name), root.Whole) ∨
      w.Found (World.lookupName n name)

/-! ### Names -/

theorem keywordUnwrap_wrap {name : Text} (h : ∀ keyword ∈ keywords, name ≠ keyword ++ ['_']) :
    keywordUnwrap (wrap name) = name := by
  rw [wrap]
  split
  · next hkeyword =>
    rw [keywordUnwrap, List.dropLast_concat, if_pos ⟨List.getLast?_concat, hkeyword⟩]
  · refine if_neg fun ⟨hlast, hkeyword⟩ ↦ h _ hkeyword ?_
    exact (List.dropLast_append_getLast? _ hlast).symm

theorem IsRegular.lookupName_eq {name : Text} (h : IsRegular name) (n : PackageName) :
    World.lookupName n name = n.text ++ '.' :: name := by
  rw [World.lookupName, keywordUnwrap_wrap h.underscore]

theorem joinSlash_concat {parts : List Text} (h : parts ≠ []) (name : Text) :
    joinSlash (parts ++ [name]) = joinSlash parts ++ '/' :: name := by
  have hbelow : '/' :: joinSlash (parts ++ [name]) = '/' :: (joinSlash parts ++ '/' :: name) := by
    rw [← below_eq (List.append_ne_nil_of_right_ne_nil _ (List.cons_ne_nil _ _)), below_append,
      below_eq h, below, List.flatMap_singleton, List.cons_append]
  exact List.tail_eq_of_cons_eq hbelow

namespace World

variable {w : World} {n : PackageName}

/-! ### What is collected -/

theorem mem_entries {dir : Location} {name : Text} {file : Location} :
    (name, file) ∈ w.entries dir ↔ ∃ names filename, w.listing dir = some names ∧
      filename ∈ names ∧ w.entryName dir filename = some name ∧ file = dir.child filename := by
  rw [entries, List.mem_filterMap]
  cases hlisting : w.listing dir with
  | none => simp
  | some names =>
    constructor
    · rintro ⟨filename, hmem, heq⟩
      obtain ⟨_, hname, hitem⟩ := Option.map_eq_some_iff.mp heq
      obtain ⟨rfl, rfl⟩ := Prod.mk.inj hitem
      exact ⟨names, filename, rfl, hmem, hname, rfl⟩
    · rintro ⟨_, filename, hnames, hmem, hname, rfl⟩
      obtain rfl := Option.some.inj hnames
      exact ⟨filename, hmem, by rw [hname]; rfl⟩

/-- What a directory has is collected in it. -/
theorem exists_mem_entries {l : Location} {name : Text} (h : w.Has l name) :
    ∃ file, (name, file) ∈ w.entries l := by
  cases h with
  | @subdirectory names filename name hlisting hmem hdir hslash heq =>
    refine ⟨_, mem_entries.mpr ⟨names, filename, hlisting, hmem, ?_, rfl⟩⟩
    rw [entryName, if_pos hdir]
    rcases heq with rfl | rfl
    · rw [if_neg fun hlast ↦ hslash (List.mem_of_getLast? hlast)]
    · rw [if_pos List.getLast?_concat, List.dropLast_concat]
  | @classFile names name hlisting hmem hdir hdollar =>
    refine ⟨_, mem_entries.mpr ⟨names, _, hlisting, hmem, ?_, rfl⟩⟩
    have hclass : '$' ∉ name ++ ".class".toList := fun hmem ↦
      (List.mem_append.mp hmem).elim hdollar (by decide)
    rw [entryName, if_neg (by rw [hdir]; decide), if_neg hclass, if_pos (List.suffix_append _ _),
      List.length_append]
    exact congrArg some (List.take_left' rfl)

/-- A file without a name of a directory has the name of a class file. -/
theorem suffix_of_entryName {dir : Location} {filename name : Text}
    (h : w.entryName dir filename = some name) (hdir : ¬w.isDirectory (dir.child filename) = true) :
    ".class".toList <:+ filename := by
  rw [entryName, if_neg hdir] at h
  split at h
  · cases h
  · split at h
    · assumption
    · cases h

theorem suffix_part (dir : Location) (filename : Text) :
    filename <:+ (dir.child filename).uri.part := by
  cases dir with
  | file path =>
    exact (List.suffix_cons _ _).trans ((List.suffix_append _ _).trans (List.suffix_append _ _))
  | jar archive entry =>
    exact (List.suffix_cons _ _).trans ((List.suffix_append _ _).trans
      ((List.suffix_cons _ _).trans (List.suffix_append _ _)))
  | jrt path => exact (List.suffix_cons _ _).trans (List.suffix_append _ _)

/-- A subdirectory has its name, perhaps with a slash. -/
theorem isDirectory_of_entryName {dir : Location} {names : List Text} {filename name : Text}
    (hlisting : w.listing dir = some names) (hmem : filename ∈ names)
    (h : w.entryName dir filename = some name) (hdir : w.isDirectory (dir.child filename) = true) :
    name ≠ [] ∧ '/' ∉ name ∧ w.isDirectory (dir.child name) = true := by
  rw [entryName, if_pos hdir, Option.some_inj] at h
  obtain ⟨base, hne, hslash, rfl | rfl⟩ := w.name_eq hlisting hmem
  · rw [if_neg fun hlast ↦ hslash (List.mem_of_getLast? hlast)] at h
    subst h
    exact ⟨hne, hslash, hdir⟩
  · rw [if_pos List.getLast?_concat, List.dropLast_concat] at h
    subst h
    exact ⟨hne, hslash, w.isSome_of_slash hdir⟩

/-! ### What is visited -/

theorem holds_of_mem_visited {path : Text} {l : Location} (h : l ∈ w.visited path) :
    w.Holds path l := by
  rcases List.mem_append.mp h with h | h
  · obtain ⟨root, hroot, hl⟩ := List.mem_flatMap.mp h
    refine .root (mem_resources.mp hroot).1 ?_
    cases root with
    | directory root => exact hl
    | archive jar =>
      rw [Root.visited] at hl
      split at hl
      · rcases List.mem_cons.mp hl with rfl | hl
        · exact Root.base_mem (.archive jar) path
        · rw [List.mem_singleton.mp hl]
          exact Root.location_mem (.archive jar) path
      · rw [List.mem_singleton.mp hl]
        exact Root.location_mem (.archive jar) path
  · rcases List.mem_append.mp h with h | h
    · obtain ⟨archive, harchive, rfl⟩ := List.mem_map.mp h
      exact .platform harchive
    · obtain ⟨module, hmodule, rfl⟩ := List.mem_map.mp (List.mem_filter.mp h).1
      exact .module (List.mem_filter.mp hmodule).1

/-- A directory of a package is visited, unless it is in an overlay that is not reported. -/
theorem mem_visited_or {l : Location} (h : w.Holds n.path l) (hdir : w.isDirectory l = true) :
    l ∈ w.visited n.path ∨ ∃ jar, .archive jar ∈ w.roots ∧ ∃ version ∈ jar.overlays,
      jar.report n.path ≠ some version ∧ l = .jar jar.path (version.entry n.path) := by
  have hvisited {root : Root} (hroot : root ∈ w.roots) (hl : l ∈ root.directories n.path)
      (hmem : l ∈ root.visited n.path) : l ∈ w.visited n.path :=
    List.mem_append_left _ (List.mem_flatMap.mpr
      ⟨root, mem_resources.mpr ⟨hroot, .inl (w.reports hroot hl hdir)⟩, hmem⟩)
  cases h with
  | @root root _ hroot hl =>
    cases root with
    | directory root => exact .inl (hvisited hroot hl hl)
    | archive jar =>
      rcases List.mem_cons.mp hl with hbase | hoverlay
      · refine .inl (hvisited hroot hl ?_)
        rw [Root.visited, hbase]
        split
        · exact List.mem_cons_self
        · next hreport =>
          rw [Root.entry, Option.not_isSome_iff_eq_none.mp hreport]
          exact List.mem_cons_self
      · obtain ⟨version, hversion, rfl⟩ := List.mem_map.mp hoverlay
        by_cases hreport : jar.report n.path = some version
        · refine .inl (hvisited hroot hl ?_)
          rw [Root.visited, Root.entry, hreport]
          exact List.mem_cons_of_mem _ (List.mem_singleton_self _)
        · exact .inr ⟨jar, hroot, version, hversion, hreport, rfl⟩
  | platform harchive =>
    exact .inl (List.mem_append_right _ (List.mem_append_left _ (List.mem_map.mpr
      ⟨_, harchive, rfl⟩)))
  | module hmodule =>
    exact .inl (List.mem_append_right _ (List.mem_append_right _
      ((mem_moduleDirectories n.isComponents).mpr ⟨_, hmodule, rfl, hdir⟩)))

/-! ### What is reported -/

/-- Where every URI has a path, what is reported are directories and public classes. -/
theorem reported_eq {contents : Contents}
    (h : ∀ item ∈ contents, ∃ file, w.getPath item.2 = .ok file) :
    ∃ keys, w.reported contents = .ok keys ∧ ∀ key, key ∈ keys ↔
      ∃ uri file, (key, uri) ∈ contents ∧ w.getPath uri = .ok file ∧
        (w.isDirectory file = true ∨ ".class".toList <:+ uri.part ∧ w.isPublic file = true) := by
  induction contents with
  | nil => exact ⟨[], rfl, by simp⟩
  | cons item contents ih =>
    obtain ⟨key, uri⟩ := item
    obtain ⟨⟨file, hfile⟩, hcontents⟩ := List.forall_mem_cons.mp h
    obtain ⟨keys, hkeys, hmem⟩ := ih hcontents
    rw [reported, hfile, hkeys]
    by_cases hshown : w.isDirectory file = true ∨
        ".class".toList <:+ uri.part ∧ w.isPublic file = true
    · refine ⟨key :: keys, if_pos hshown, fun other ↦ ?_⟩
      rw [List.mem_cons, hmem]
      constructor
      · rintro (rfl | ⟨uri, file, hitem, hother⟩)
        · exact ⟨uri, file, List.mem_cons_self, hfile, hshown⟩
        · exact ⟨uri, file, List.mem_cons_of_mem _ hitem, hother⟩
      · rintro ⟨uri, file, hitem, hother⟩
        rcases List.mem_cons.mp hitem with heq | hitem
        · exact .inl (congrArg Prod.fst heq)
        · exact .inr ⟨uri, file, hitem, hother⟩
    · refine ⟨keys, if_neg hshown, fun other ↦ ?_⟩
      rw [hmem]
      constructor
      · rintro ⟨uri, file, hitem, hother⟩
        exact ⟨uri, file, List.mem_cons_of_mem _ hitem, hother⟩
      · rintro ⟨_, other, hitem, hother, hshown'⟩
        rcases List.mem_cons.mp hitem with heq | hitem
        · obtain ⟨-, rfl⟩ := Prod.mk.inj heq
          obtain rfl := Except.ok.inj (hfile.symm.trans hother)
          exact absurd hshown' hshown
        · exact ⟨_, other, hitem, hother, hshown'⟩

/-- A URI of the map is that of what was collected. -/
theorem getPath_found (h : w.Sound n) {name : Text} {file : Location}
    (hmem : (name, file) ∈ w.found n.path) : w.getPath file.uri = .ok file := by
  obtain ⟨dir, hdir, hentry⟩ := List.mem_flatMap.mp hmem
  refine getPath_uri (h.survives dir hdir _ hentry).1 fun archive entry heq ↦ ?_
  obtain ⟨names, filename, hlisting, -, -, rfl⟩ := mem_entries.mp hentry
  have hholds := holds_of_mem_visited hdir
  cases dir with
  | file path => cases heq
  | jar archive above =>
    obtain ⟨rfl, rfl⟩ := Location.jar.inj heq
    refine ⟨w.isArchive_of_listing (Option.isSome_of_eq_some hlisting), ?_⟩
    have habove : ∃ rest, above = '/' :: rest := by
      cases hholds with
      | @root root _ hroot hl =>
        cases root with
        | directory root => cases List.mem_singleton.mp hl
        | archive jar =>
          rcases List.mem_cons.mp hl with heq | hl
          · exact ⟨_, (Location.jar.inj heq).2⟩
          · obtain ⟨version, -, heq⟩ := List.mem_map.mp hl
            exact ⟨_, (Location.jar.inj heq).2.symm⟩
      | platform harchive => exact ⟨_, rfl⟩
    obtain ⟨rest, rfl⟩ := habove
    exact ⟨_, rfl⟩
  | jrt path => cases heq

/-- The keys that are reported are those of what is shown. -/
theorem getContents_eq (h : w.Sound n) : ∃ keys, w.getContents n.text = .ok keys ∧
    ∀ key, key ∈ keys ↔ ∃ name file, key = wrap name ∧ w.Shown n.path name file := by
  have hpaths : ∀ item ∈ putAll (w.found n.path) [], ∃ file, w.getPath item.2 = .ok file := by
    rintro ⟨key, uri⟩ hitem
    obtain ⟨before, name, file, after, hfound, -, -, rfl⟩ := mem_putAll.mp hitem
    exact ⟨file, getPath_found h (hfound ▸ List.mem_append_right _ List.mem_cons_self)⟩
  obtain ⟨keys, hkeys, hmem⟩ := reported_eq hpaths
  rw [getContents, getContentMap_eq h]
  refine ⟨keys, hkeys, fun key ↦ (hmem key).trans ?_⟩
  constructor
  · rintro ⟨uri, other, hitem, hother, hshown⟩
    obtain ⟨before, name, file, after, hfound, hafter, rfl, rfl⟩ := mem_putAll.mp hitem
    have hfile := getPath_found h (hfound ▸ List.mem_append_right _ List.mem_cons_self)
    obtain rfl := Except.ok.inj (hfile.symm.trans hother)
    exact ⟨name, file, rfl, before, after, hfound, hafter, hshown.imp_right And.right⟩
  · rintro ⟨name, file, rfl, before, after, hfound, hafter, hshown⟩
    have hmem : (name, file) ∈ w.found n.path :=
      hfound ▸ List.mem_append_right _ List.mem_cons_self
    refine ⟨file.uri, file, mem_putAll.mpr ⟨before, name, file, after, hfound, hafter, rfl, rfl⟩,
      getPath_found h hmem, ?_⟩
    by_cases hdir : w.isDirectory file = true
    · exact .inl hdir
    -- what is no directory is collected for the name of a class file
    · obtain ⟨dir, -, hentry⟩ := List.mem_flatMap.mp hmem
      obtain ⟨names, filename, -, -, hname, rfl⟩ := mem_entries.mp hentry
      exact .inr ⟨(suffix_of_entryName hname hdir).trans (suffix_part dir filename),
        hshown.resolve_left hdir⟩

theorem getObject_eq_some_iff {name : Text} :
    (∃ object, w.getObject n.text (wrap name) = .ok (some object)) ↔
      w.Found (lookupName n name) := by
  rw [getObject, ← lookupName, Found]
  split
  · next hfault => simp [hfault]
  · next hpackage => exact iff_of_true ⟨_, rfl⟩ (.inl hpackage)
  · next hpackage =>
    rw [hpackage]
    split
    · next hclass => exact iff_of_true ⟨_, rfl⟩ (.inr ⟨rfl, hclass⟩)
    · next hclass => simp [hclass]

/-- A directory whose name is looked up as it is is a package. -/
theorem isPackage_of_regular {name : Text} {file : Location} (hregular : IsRegular name)
    (hmem : (name, file) ∈ w.found n.path) (hdir : w.isDirectory file = true)
    (hwhole : ∀ root ∈ w.resources (n.path ++ '/' :: name), root.Whole) :
    w.isPackage (lookupName n name) = .ok true := by
  obtain ⟨dir, hvisited, hentry⟩ := List.mem_flatMap.mp hmem
  obtain ⟨names, filename, hlisting, hfilename, hname, rfl⟩ := mem_entries.mp hentry
  obtain ⟨hne, hslash, hchild⟩ := isDirectory_of_entryName hlisting hfilename hname hdir
  have hparts : IsComponents (n.parts ++ [name]) := by
    refine ⟨List.append_ne_nil_of_left_ne_nil n.ne_nil _, fun hpart ↦ ?_, fun hpart ↦ ?_⟩
    · rcases List.mem_append.mp hpart with hpart | hpart
      · exact n.part_ne_nil hpart
      · exact List.mem_singleton.mp hpart ▸ hne
    · rcases List.mem_append.mp hpart with hpart | hpart
      · exact n.isComponents.not_mem hpart
      · exact List.mem_singleton.mp hpart ▸ hslash
  have hpath : joinSlash (n.parts ++ [name]) = n.path ++ '/' :: name :=
    joinSlash_concat n.ne_nil name
  have hslashes : slashes (lookupName n name) = joinSlash (n.parts ++ [name]) := by
    rw [hregular.lookupName_eq, hpath, ← n.slashes_text]
    show List.map _ (n.text ++ '.' :: name) = _
    rw [List.map_append, List.map_cons, if_pos rfl]
    exact congrArg (slashes n.text ++ '/' :: ·) (slashes_of_notMem hregular.dot)
  have hholds : w.HasDirectory (joinSlash (n.parts ++ [name])) :=
    ⟨dir.child name, hpath ▸ (holds_of_mem_visited hvisited).child name, hchild⟩
  obtain ⟨found, hfound, hiff⟩ := isPackage_eq hparts hslashes (hpath ▸ hwhole)
  rw [hfound, hiff.mpr hholds]

/-! ### Completeness -/

theorem covered_iff : w.Covered n ↔ ∀ l, w.Holds n.path l → ∀ name, w.Has l name →
    wrap name ∈ (putAll (w.found n.path) []).map Prod.fst := by
  simp only [mem_keys_putAll]
  constructor
  · intro hcovered l hholds name hhas
    obtain ⟨file, hentry⟩ := exists_mem_entries hhas
    have hdir : w.isDirectory l = true := by
      obtain ⟨names, filename, hlisting, -⟩ := mem_entries.mp hentry
      exact Option.isSome_of_eq_some hlisting
    rcases mem_visited_or hholds hdir with hvisited | ⟨jar, hjar, version, hversion, hreport, rfl⟩
    · exact ⟨_, List.mem_flatMap.mpr ⟨l, hvisited, hentry⟩, rfl⟩
    · exact hcovered jar hjar version hversion hreport name hhas
  · intro hall jar hjar version hversion _ name hhas
    exact hall _ (.root hjar (List.mem_cons_of_mem _ (List.mem_map.mpr ⟨version, hversion, rfl⟩)))
      name hhas

end World

/-! ### An archive with an overlay, before a directory -/

/-- Java 9 -/
def nine : Version where
  text := ['9']
  isDigit := by decide

/-- An archive that has the directory `org` in an overlay, too. -/
def overlaidJar (path : Text) : Archive where
  path := path
  overlays := [nine]
  report dir := if dir = "org".toList then some nine else none
  mem_overlays h := by
    split at h
    · exact Option.some_inj.mp h ▸ List.mem_singleton_self _
    · cases h

/-- What is listed in the archive and in the directory. -/
def sampleListing (path : Text) (l : Location) : Option (List Text) :=
  if l = .jar path "/org".toList ∨ l = .jar path "/META-INF/versions/9/org".toList then
    some ["A.class".toList]
  else if l = .file "/classes/org".toList then some ["C.class".toList]
  else none

theorem sampleListing_cases {path : Text} {l : Location} {names : List Text}
    (h : sampleListing path l = some names) :
    (l = .jar path "/org".toList ∨ l = .jar path "/META-INF/versions/9/org".toList) ∧
        names = ["A.class".toList] ∨
      l = .file "/classes/org".toList ∧ names = ["C.class".toList] := by
  rw [sampleListing] at h
  split at h
  · next hl => exact .inl ⟨hl, (Option.some.inj h).symm⟩
  · split at h
    · next hl => exact .inr ⟨hl, (Option.some.inj h).symm⟩
    · cases h

theorem Version.entry_inj (version : Version) {path other : Text}
    (h : version.entry path = version.entry other) : path = other := by
  unfold Version.entry at h
  generalize "/META-INF/versions/".toList = overlays at h
  exact List.tail_eq_of_cons_eq (List.append_cancel_left (List.append_cancel_left h))

theorem ne_of_slash {dir name text : Text} (h : text.getLast? ≠ some '/') :
    dir ++ '/' :: (name ++ ['/']) ≠ text := by
  rintro rfl
  rw [← List.cons_append, ← List.append_assoc, List.getLast?_concat] at h
  exact h rfl

/-- A class path of the archive and of a directory. -/
def sample (path : Text) : World where
  listing := sampleListing path
  isFile l := l = .jar path "/org/A.class".toList ∨ l = .file "/classes/org/C.class".toList
  isArchive archive := archive = path
  creates _ := false
  isPublic _ := true
  isPublicClass _ := true
  toASCII := some
  roots := [.archive (overlaidJar path), .directory "/classes".toList]
  bases := []
  modules := []
  isArchive_of_listing h := by
    obtain ⟨names, hnames⟩ := Option.isSome_iff_exists.mp h
    rcases sampleListing_cases hnames with ⟨heq | heq, -⟩ | ⟨heq, -⟩
    · exact decide_eq_true (Location.jar.inj heq).1
    · exact decide_eq_true (Location.jar.inj heq).1
    · cases heq
  isArchive_of_isFile h := by
    rcases of_decide_eq_true h with heq | heq
    · exact decide_eq_true (Location.jar.inj heq).1
    · cases heq
  name_eq h filename hmem := by
    rcases sampleListing_cases h with ⟨-, rfl⟩ | ⟨-, rfl⟩
    · exact ⟨"A.class".toList, by decide, by decide, .inl (List.mem_singleton.mp hmem)⟩
    · exact ⟨"C.class".toList, by decide, by decide, .inl (List.mem_singleton.mp hmem)⟩
  isSome_of_slash {l name} h := by
    obtain ⟨names, hnames⟩ := Option.isSome_iff_exists.mp h
    cases l with
    | file path =>
      rcases sampleListing_cases hnames with ⟨heq | heq, -⟩ | ⟨heq, -⟩
      · cases heq
      · cases heq
      · exact absurd (Location.file.inj heq) (ne_of_slash (by decide))
    | jar archive entry =>
      rcases sampleListing_cases hnames with ⟨heq | heq, -⟩ | ⟨heq, -⟩
      · exact absurd (Location.jar.inj heq).2 (ne_of_slash (by decide))
      · exact absurd (Location.jar.inj heq).2 (ne_of_slash (by decide))
      · cases heq
    | jrt path =>
      rcases sampleListing_cases hnames with ⟨heq | heq, -⟩ | ⟨heq, -⟩ <;> cases heq
  mem_listing h := absurd h List.not_mem_nil
  reports {root} hroot {dir l} hl h := by
    rcases List.mem_cons.mp hroot with rfl | hroot
    · by_cases hdir : dir = "org".toList
      · rw [hdir]
        exact Option.isSome_of_eq_some (if_pos (.inr rfl))
      · have hbase : (Root.archive (overlaidJar path)).location dir = .jar path ('/' :: dir) := by
          show Location.jar path (Root.entry (overlaidJar path) dir) = _
          rw [Root.entry, show (overlaidJar path).report dir = none from if_neg hdir]
        rw [hbase]
        rcases List.mem_cons.mp hl with rfl | hl
        · exact h
        · obtain rfl := List.mem_singleton.mp hl
          obtain ⟨names, hnames⟩ := Option.isSome_iff_exists.mp h
          rcases sampleListing_cases hnames with ⟨heq | heq, -⟩ | ⟨heq, -⟩
          · have hoverlay : "/META-INF/versions/".toList <+: nine.entry dir :=
              List.prefix_append _ _
            rw [show nine.entry dir = "/org".toList from (Location.jar.inj heq).2] at hoverlay
            exact absurd hoverlay (by decide)
          · have hentry : nine.entry dir = nine.entry "org".toList :=
              (Location.jar.inj heq).2.trans (by decide)
            exact absurd (nine.entry_inj hentry) hdir
          · cases heq
    · obtain rfl := List.mem_singleton.mp hroot
      obtain rfl := List.mem_singleton.mp hl
      exact h

/-- `org` -/
def org : PackageName where
  parts := ["org".toList]
  ne_nil := List.cons_ne_nil _ _
  part_ne_nil h := List.mem_singleton.mp h ▸ by decide
  plain h := by
    have hchars : ∀ c ∈ "./%#".toList, c ∉ "org".toList := by decide
    rw [List.mem_singleton.mp h]
    exact @hchars

theorem World.sample_sound : (sample "/lib/x.jar".toList).Sound org := by
  constructor
  · intro root hroot
    rcases List.mem_cons.mp (mem_resources.mp hroot).1 with rfl | hroot
    · show ¬"!/".toList <:+: "/lib/x.jar".toList
      decide
    · obtain rfl := List.mem_singleton.mp hroot
      exact trivial
  · intro root hroot
    rcases List.mem_cons.mp (mem_resources.mp hroot).1 with rfl | hroot
    · have huric : ∀ c ∈ "/lib/x.jar".toList ++ "org".toList, IsUric c := by decide
      have hchars : ∀ c ∈ "!#%?[]".toList, c ∉ "/lib/x.jar".toList := by decide
      exact ⟨huric, hchars⟩
    · obtain rfl := List.mem_singleton.mp hroot
      show ¬Marked ("/classes".toList ++ '/' :: "org".toList)
      rw [Marked]
      decide
  · rintro dir - ⟨name, file⟩ hitem
    obtain ⟨names, filename, hlisting, hmem, -, rfl⟩ := mem_entries.mp hitem
    refine ⟨?_, rfl⟩
    rcases sampleListing_cases hlisting with ⟨rfl | rfl, rfl⟩ | ⟨rfl, rfl⟩
    · obtain rfl := List.mem_singleton.mp hmem
      refine ⟨?_, ?_, ?_⟩ <;> decide
    · obtain rfl := List.mem_singleton.mp hmem
      refine ⟨?_, ?_, ?_⟩ <;> decide
    · obtain rfl := List.mem_singleton.mp hmem
      show ∀ c ∈ "%?[]".toList, c ∉ "/classes/org".toList ++ '/' :: "C.class".toList
      decide

end JPype.PackageManager
