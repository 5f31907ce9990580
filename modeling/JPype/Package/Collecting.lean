import JPype.Foundation.Joining
import JPype.Package.Listing

/-!
# Collecting the contents of a package

`getContentMap` goes through the directories that the class loader reports, through the platform and
through the modules. Where the paths of the roots survive the way through the texts of URIs,
everything in these directories is collected, in this order (`World.getContentMap_eq`).
-/

namespace JPype.PackageManager

open Unicode
open scoped Foundation.Membership

/-! ### Overlays -/

/-- The text looks like one in an overlay. -/
def Marked (text : Text) : Prop :=
  "/META-INF/versions/".toList <+: (text.dropWhile (· ≠ '!')).tail

namespace Root

/-- What is reported for a root is understood: the path of an archive with an overlay survives
without being encoded again, and no other text looks like one in an overlay. -/
def Sound (path : Text) : Root → Prop
  | .directory root => ¬Marked (root ++ '/' :: path)
  | .archive jar =>
    if (jar.report path).isSome then
      (∀ c ∈ jar.path ++ path, IsUric c) ∧ ∀ c ∈ "!#%?[]".toList, c ∉ jar.path
    else ¬Marked ((Root.archive jar).schemePart path)

/-- The directories of a root that are visited: the one that is reported, and the one under it. -/
def visited (path : Text) : Root → List Location
  | .directory root => [.file (root ++ '/' :: path)]
  | .archive jar =>
    if (jar.report path).isSome then [.jar jar.path ('/' :: path), .jar jar.path (entry jar path)]
    else [.jar jar.path (entry jar path)]

end Root

theorem takeWhile_ne {text : Text} {c : Char} (h : c ∉ text) (rest : Text) :
    (text ++ c :: rest).takeWhile (· ≠ c) = text := by
  have hne : ∀ d ∈ text, decide (d ≠ c) = true := fun d hd ↦
    decide_eq_true (ne_of_mem_of_not_mem hd h)
  rw [List.takeWhile_append_of_pos hne, List.takeWhile_cons_of_neg (by simp), List.append_nil]

theorem dropWhile_ne {text : Text} {c : Char} (h : c ∉ text) (rest : Text) :
    (text ++ c :: rest).dropWhile (· ≠ c) = c :: rest := by
  have hne : ∀ d ∈ text, decide (d ≠ c) = true := fun d hd ↦
    decide_eq_true (ne_of_mem_of_not_mem hd h)
  rw [List.dropWhile_append_of_pos hne, List.dropWhile_cons_of_neg (by simp)]

theorem takeWhile_of_notMem {text : Text} {c : Char} (h : c ∉ text) :
    text.takeWhile (· ≠ c) = text :=
  List.takeWhile_eq_self_iff.mpr fun _ hd ↦ decide_eq_true (ne_of_mem_of_not_mem hd h)

theorem dropWhile_of_notMem {text : Text} {c : Char} (h : c ∉ text) :
    text.dropWhile (· ≠ c) = [] :=
  List.dropWhile_eq_nil_iff.mpr fun _ hd ↦ decide_eq_true (ne_of_mem_of_not_mem hd h)

theorem PackageName.notMem_path (n : PackageName) : ∀ c ∈ "%#".toList, c ∉ n.path := by
  have hchars : ∀ c ∈ "%#".toList, '/' ≠ c ∧ c ∈ "./%#".toList := by decide
  intro c hc
  have := (Foundation.forall_mem_intercalate (P := fun d ↦ d ≠ c) (hchars c hc).1).mpr
    fun part hpart d hd ↦ ne_of_mem_of_not_mem hd (n.plain hpart (hchars c hc).2)
  exact fun hmem ↦ this c hmem rfl

theorem Version.drop_entry (version : Version) (path : Text) :
    (version.entry path).drop 19 = version.text ++ '/' :: path := by
  have hlength : "/META-INF/versions/".toList.length = 19 := by decide
  unfold Version.entry
  generalize "/META-INF/versions/".toList = overlays at hlength
  exact List.drop_left' hlength

theorem filePath_eq {path : Text} (huric : ∀ c ∈ path, IsUric c)
    (hchars : ∀ c ∈ "#%?[]".toList, c ∉ path) : filePath path = .ok path := by
  have hhash := hchars '#' (by decide)
  have hbracketed : ¬Bracketed path :=
    not_bracketed fun c hc ↦ hchars c (List.mem_cons_of_mem _ hc)
  rw [filePath, takeWhile_of_notMem hhash, dropWhile_of_notMem hhash,
    if_pos ⟨legal_of_forall huric, rfl, hbracketed⟩,
    if_neg (not_or.mpr ⟨hchars '?' (by decide), hhash⟩),
    decodePercent_of_notMem (hchars '%' (by decide))]

namespace World

variable {w : World} {path : Text}

theorem overlaid_of_not_marked {root : Root} (h : ¬Marked (root.schemePart path)) :
    w.overlaid root path = .ok none := by
  rw [overlaid]
  rw [Marked] at h
  split
  · rfl
  · next after heq =>
    rw [heq] at h
    exact if_neg h

/-- The overlay is cut out of the text of what is reported. -/
theorem overlaid_of_report {jar : Archive} {version : Version}
    (hreport : jar.report path = some version) (harchive : w.isArchive jar.path = true)
    (hsound : (Root.archive jar).Sound path) (hpath : ∀ c ∈ "%#".toList, c ∉ path) :
    w.overlaid (.archive jar) path = .ok (some (.jar jar.path ('/' :: path))) := by
  obtain ⟨huric, hchars⟩ : (∀ c ∈ jar.path ++ path, IsUric c) ∧
      ∀ c ∈ "!#%?[]".toList, c ∉ jar.path := by
    rw [Root.Sound, hreport] at hsound
    exact hsound
  have huricPath : ∀ c ∈ jar.path, IsUric c := fun c hc ↦ huric c (List.mem_append_left _ hc)
  have hbang : '!' ∉ "file:".toList ++ jar.path := fun hmem ↦
    (List.mem_append.mp hmem).elim (by decide) (hchars _ (by decide))
  have hhash : '#' ∉ "file:".toList ++ jar.path ++ '!' :: '/' :: path := by
    simp only [List.mem_append, List.mem_cons, not_or]
    exact ⟨⟨by decide, hchars _ (by decide)⟩, by decide, by decide, hpath _ (by decide)⟩
  have hlegal : legal ("file:".toList ++ jar.path ++ '!' :: '/' :: path) = true := by
    have hscheme : ∀ c ∈ "file:".toList, IsUric c := by decide
    refine legal_of_forall fun c hc ↦ ?_
    rcases List.mem_append.mp hc with hc | hc
    · exact (List.mem_append.mp hc).elim (hscheme c) (huricPath c)
    · rcases List.mem_cons.mp hc with rfl | hc
      · decide
      · rcases List.mem_cons.mp hc with rfl | hc
        · decide
        · exact huric c (List.mem_append_right _ hc)
  have hbreak : breakBang ("file:".toList ++ jar.path ++ '!' :: '/' :: path) =
      some ("file:".toList ++ jar.path, '/' :: path) :=
    breakBang_append (fun htail ↦ hbang (htail.subset (by decide))) path
  -- What is left after the cut is a legal text, which names the archive and the package.
  have hcut : w.cutPath (.archive jar) ("file:".toList ++ jar.path ++ '!' :: '/' :: path) =
      .ok (.jar jar.path ('/' :: path)) := by
    have hfile : filePath (("file:".toList ++ jar.path).drop 5) = .ok jar.path :=
      filePath_eq huricPath fun c hc ↦ hchars c (List.mem_cons_of_mem _ hc)
    have hentry : decodePercent ('/' :: path) = some ('/' :: path) :=
      decodePercent_of_notMem fun hmem ↦
        (List.mem_cons.mp hmem).elim (by decide) (hpath _ (by decide))
    rw [cutPath, takeWhile_of_notMem hhash, dropWhile_of_notMem hhash, if_pos ⟨hlegal, rfl⟩,
      hbreak]
    simp only [hfile, hentry]
    exact if_pos (.inl harchive)
  have hscheme : (Root.archive jar).schemePart path =
      "file:".toList ++ jar.path ++ '!' :: version.entry path := by
    rw [Root.schemePart, Root.entry, hreport, List.append_assoc]
  -- The cut takes the version away, up to the slash behind its number.
  have hversion : '/' ∉ version.text := fun hmem ↦
    absurd (version.isDigit '/' hmem) (by decide)
  have hrest : ((version.entry path).drop 19).dropWhile (· ≠ '/') = '/' :: path := by
    rw [version.drop_entry]
    exact dropWhile_ne hversion path
  have hmarked : "/META-INF/versions/".toList <+: version.entry path := List.prefix_append _ _
  rw [overlaid, hscheme, dropWhile_ne hbang, takeWhile_ne hbang]
  show (if _ then _ else _) = _
  rw [if_pos hmarked, hrest]
  show some <$> w.cutPath _ _ = _
  rw [hcut]
  rfl

/-! ### Collecting -/

variable (w) in
/-- What is collected in a directory, with the names in Java. -/
def entries (dir : Location) : List (Text × Location) :=
  ((w.listing dir).getD []).filterMap fun filename ↦
    (w.entryName dir filename).map (·, dir.child filename)

variable (w) in
/-- The paths of what is collected in a directory survive the way through a URI. -/
def Survives (dir : Location) : Prop :=
  ∀ item ∈ w.entries dir, item.2.Plain ∧ w.toASCII item.2.uri.part = some item.2.uri.part

theorem collectNames_eq {dir : Location} {names : List Text}
    (h : ∀ filename ∈ names, (w.entryName dir filename).isSome →
      w.toURI (dir.child filename) = .ok (dir.child filename).uri) (out : Contents) :
    w.collectNames dir names out = .ok (putAll (names.filterMap fun filename ↦
      (w.entryName dir filename).map (·, dir.child filename)) out) := by
  induction names generalizing out with
  | nil => rfl
  | cons filename names ih =>
    obtain ⟨hfilename, hnames⟩ := List.forall_mem_cons.mp h
    rw [collectNames]
    cases hname : w.entryName dir filename with
    | none =>
      rw [List.filterMap_cons_none (by rw [hname]; rfl)]
      exact ih hnames out
    | some name =>
      rw [List.filterMap_cons_some (by rw [hname]; rfl)]
      simp only [hfilename (hname ▸ rfl)]
      exact ih hnames _

/-- Everything in a directory is collected, and where there is no directory, nothing. -/
theorem collectContents_eq {dir : Location} (h : w.Survives dir) (out : Contents) :
    w.collectContents dir out = .ok (putAll (w.entries dir) out) := by
  rw [Survives, entries] at h
  rw [collectContents, entries]
  cases hlisting : w.listing dir with
  | none => rfl
  | some names =>
    rw [hlisting] at h
    refine collectNames_eq (fun filename hfilename hname ↦ ?_) out
    obtain ⟨name, hname⟩ := Option.isSome_iff_exists.mp hname
    obtain ⟨hplain, hascii⟩ := h (name, dir.child filename)
      (List.mem_filterMap.mpr ⟨filename, hfilename, by rw [hname]; rfl⟩)
    exact toURI_eq hplain hascii

theorem collectAll_eq {dirs : List Location} (h : ∀ dir ∈ dirs, w.Survives dir) (out : Contents) :
    w.collectAll dirs out = .ok (putAll (dirs.flatMap w.entries) out) := by
  induction dirs generalizing out with
  | nil => rfl
  | cons dir dirs ih =>
    obtain ⟨hdir, hdirs⟩ := List.forall_mem_cons.mp h
    rw [collectAll, collectContents_eq hdir, List.flatMap_cons, putAll_append]
    exact ih hdirs _

/-- One turn of the loop: the directory under an overlay comes first, if there is an overlay. -/
theorem overlaid_eq {root : Root} (hroot : root ∈ w.resources path) (hsound : root.Sound path)
    (hpath : ∀ c ∈ "%#".toList, c ∉ path) :
    ∃ base, w.overlaid root path = .ok base ∧
      root.visited path = base.toList ++ [root.location path] := by
  cases root with
  | directory root => exact ⟨none, overlaid_of_not_marked hsound, rfl⟩
  | archive jar =>
    cases hreport : jar.report path with
    | none =>
      have hmarked : ¬Marked ((Root.archive jar).schemePart path) := by
        rw [Root.Sound, hreport] at hsound
        exact hsound
      refine ⟨none, overlaid_of_not_marked hmarked, ?_⟩
      rw [Root.visited, hreport]
      rfl
    | some version =>
      refine ⟨_, overlaid_of_report hreport (isArchive_of_mem_resources hroot) hsound hpath, ?_⟩
      rw [Root.visited, hreport]
      rfl

theorem jarLoop_eq {roots : List Root} (hpath : ∀ c ∈ "%#".toList, c ∉ path)
    (h : ∀ root ∈ roots, root ∈ w.resources path ∧ root.Whole ∧ root.Sound path ∧
      ∀ dir ∈ root.visited path, w.Survives dir) (out : Contents) :
    w.jarLoop path roots out =
      .ok (putAll ((roots.flatMap (Root.visited path)).flatMap w.entries) out) := by
  induction roots generalizing out with
  | nil => rfl
  | cons root roots ih =>
    obtain ⟨⟨hroot, hwhole, hsound, hsurvives⟩, hroots⟩ := List.forall_mem_cons.mp h
    obtain ⟨base, hbase, hvisited⟩ := overlaid_eq hroot hsound hpath
    have hlocation : w.Survives (root.location path) :=
      hsurvives _ (hvisited ▸ List.mem_append_right _ (List.mem_singleton_self _))
    have hcollect : base.elim (.ok out) (fun dir ↦ w.collectContents dir out) =
        .ok (putAll (base.toList.flatMap w.entries) out) := by
      cases base with
      | none => rfl
      | some dir =>
        rw [Option.toList_some, List.flatMap_singleton]
        exact collectContents_eq (hsurvives _ (hvisited ▸ List.mem_cons_self)) out
    rw [jarLoop, hbase]
    simp only [hcollect, resourcePath_eq hroot hwhole, collectContents_eq hlocation]
    rw [ih hroots, List.flatMap_cons, hvisited, List.flatMap_append, List.flatMap_append,
      List.flatMap_singleton, putAll_append, putAll_append]

variable (w) in
/-- The directories that are visited for a package. -/
def visited (path : Text) : List Location :=
  (w.resources path).flatMap (Root.visited path) ++
    (w.bases.map (fun archive ↦ .jar archive ('/' :: path)) ++ w.moduleDirectories path)

variable (w) in
/-- What is collected for a package, in this order. -/
def found (path : Text) : List (Text × Location) :=
  (w.visited path).flatMap w.entries

variable (w) in
/-- What the class loader reports for a package is understood, and the paths of what is collected
survive. -/
structure Sound (n : PackageName) : Prop where
  whole : ∀ root ∈ w.resources n.path, root.Whole
  root : ∀ root ∈ w.resources n.path, root.Sound n.path
  survives : ∀ dir ∈ w.visited n.path, w.Survives dir

/-- Everything in the directories of a package is put into the map. -/
theorem getContentMap_eq {n : PackageName} (h : w.Sound n) :
    w.getContentMap n.text = .ok (putAll (w.found n.path) []) := by
  have hjar := jarLoop_eq n.notMem_path (fun root hroot ↦ ⟨hroot, h.whole root hroot,
    h.root root hroot, fun dir hdir ↦ h.survives dir (List.mem_append_left _
      (List.mem_flatMap.mpr ⟨root, hroot, hdir⟩))⟩) []
  have hbase := collectAll_eq fun dir hdir ↦ h.survives dir
    (List.mem_append_right _ (List.mem_append_left _ hdir))
  have hmodule := collectAll_eq fun dir hdir ↦ h.survives dir
    (List.mem_append_right _ (List.mem_append_right _ hdir))
  rw [getContentMap, n.slashes_text, getJarContents, hjar]
  simp only [getBaseContents, hbase, getModuleContents, hmodule]
  rw [found, visited, List.flatMap_append, List.flatMap_append, putAll_append, putAll_append]

end World

end JPype.PackageManager
