import JPype.Package.Directories

/-!
# Listing a package

The directories that `getContentMap` visits are collected one after the other, and what is collected
last under a key is what the key stands for (`mem_putAll`).
-/

namespace JPype.PackageManager

open Unicode Import
open scoped Foundation.Membership

/-- A dotted name. Its components are identifiers, which have none of these characters. -/
structure PackageName where
  parts : List Text
  ne_nil : parts ≠ []
  part_ne_nil : ∀ {part}, part ∈ parts → part ≠ []
  plain : ∀ {part}, part ∈ parts → ∀ {c}, c ∈ "./%#".toList → c ∉ part

namespace PackageName

def text (n : PackageName) : Text :=
  ['.'].intercalate n.parts

def path (n : PackageName) : Text :=
  joinSlash n.parts

theorem isComponents (n : PackageName) : IsComponents n.parts :=
  ⟨n.ne_nil, n.part_ne_nil, fun hpart ↦ n.plain hpart (by decide)⟩

end PackageName

theorem slashes_of_notMem {name : Text} (h : '.' ∉ name) : slashes name = name := by
  refine (List.map_congr_left fun c hc ↦ if_neg ?_).trans (List.map_id name)
  rintro rfl
  exact h hc

theorem slashes_intercalate {parts : List Text} (h : ∀ part ∈ parts, '.' ∉ part) :
    slashes (['.'].intercalate parts) = joinSlash parts := by
  induction parts with
  | nil => rfl
  | cons part parts ih =>
    obtain ⟨hpart, hparts⟩ := List.forall_mem_cons.mp h
    by_cases hne : parts = []
    · rw [hne, joinSlash, List.intercalate_singleton, List.intercalate_singleton,
        slashes_of_notMem hpart]
    · rw [joinSlash, List.intercalate_cons_of_ne_nil hne, List.intercalate_cons_of_ne_nil hne,
        ← joinSlash, ← ih hparts]
      simp only [slashes, List.map_append]
      rw [← slashes, slashes_of_notMem hpart]
      rfl

theorem PackageName.slashes_text (n : PackageName) : slashes n.text = n.path :=
  slashes_intercalate fun _ hpart ↦ n.plain hpart (by decide)

/-! ### What is put last -/

theorem Contents.mem_put {out : Contents} {key : Text} {uri : Uri} {item : Text × Uri} :
    item ∈ out.put key uri ↔ item ∈ out ∧ item.1 ≠ key ∨ item = (key, uri) := by
  rw [Contents.put, List.mem_append, List.mem_filter, List.mem_singleton, decide_eq_true_iff]

/-- Files are put under the names that they have in Python. -/
def putAll (items : List (Text × Location)) (out : Contents) : Contents :=
  items.foldl (fun out item ↦ out.put (wrap item.1) item.2.uri) out

theorem putAll_append (items more : List (Text × Location)) (out : Contents) :
    putAll (items ++ more) out = putAll more (putAll items out) :=
  List.foldl_append

/-- What a key stands for is what was put last under it. -/
theorem mem_putAll {items : List (Text × Location)} {key : Text} {uri : Uri} :
    (key, uri) ∈ putAll items [] ↔ ∃ before name file after,
      items = before ++ (name, file) :: after ∧ (∀ item ∈ after, wrap item.1 ≠ wrap name) ∧
        key = wrap name ∧ uri = file.uri := by
  induction items using List.reverseRecOn with
  | nil => simp [putAll]
  | append_singleton items last ih =>
    rw [putAll_append]
    show (key, uri) ∈ (putAll items []).put (wrap last.1) last.2.uri ↔ _
    rw [Contents.mem_put, ih]
    constructor
    · rintro (⟨⟨before, name, file, after, rfl, hafter, rfl, rfl⟩, hne⟩ | heq)
      · refine ⟨before, name, file, after ++ [last], by simp, ?_, rfl, rfl⟩
        intro item hitem
        rcases List.mem_append.mp hitem with hitem | hitem
        · exact hafter item hitem
        · rw [List.mem_singleton.mp hitem]
          exact hne.symm
      · obtain ⟨rfl, rfl⟩ := Prod.mk.inj heq
        exact ⟨items, last.1, last.2, [], rfl, fun item hitem ↦ absurd hitem List.not_mem_nil, rfl,
          rfl⟩
    · rintro ⟨before, name, file, after, heq, hafter, rfl, rfl⟩
      obtain rfl | ⟨after, item, rfl⟩ := after.eq_nil_or_concat'
      · obtain ⟨-, hlast⟩ := List.append_inj' heq rfl
        rw [List.singleton_inj.mp hlast]
        exact .inr rfl
      · rw [← List.cons_append, ← List.append_assoc] at heq
        obtain ⟨rfl, hlast⟩ := List.append_inj' heq rfl
        rw [List.singleton_inj.mp hlast]
        exact .inl ⟨⟨before, name, file, after, rfl,
          fun item hitem ↦ hafter item (List.mem_append_left _ hitem), rfl, rfl⟩,
          (hafter item (List.mem_append_right _ (List.mem_singleton_self item))).symm⟩

/-- Everything that is put has a key. -/
theorem mem_keys_putAll {items : List (Text × Location)} {key : Text} :
    key ∈ (putAll items []).map Prod.fst ↔ ∃ item ∈ items, wrap item.1 = key := by
  induction items using List.reverseRecOn with
  | nil => simp [putAll]
  | append_singleton items last ih =>
    rw [putAll_append]
    show key ∈ ((putAll items []).put (wrap last.1) last.2.uri).map Prod.fst ↔ _
    simp only [List.mem_map, Contents.mem_put] at ih ⊢
    constructor
    · rintro ⟨item, ⟨hitem, -⟩ | rfl, rfl⟩
      · obtain ⟨found, hfound, heq⟩ := ih.mp ⟨item, hitem, rfl⟩
        exact ⟨found, List.mem_append_left _ hfound, heq⟩
      · exact ⟨last, List.mem_append_right _ (List.mem_singleton_self last), rfl⟩
    · rintro ⟨found, hfound, rfl⟩
      by_cases hlast : wrap found.1 = wrap last.1
      · exact ⟨_, .inr rfl, hlast.symm⟩
      · rcases List.mem_append.mp hfound with hfound | hfound
        · obtain ⟨item, hitem, heq⟩ := ih.mpr ⟨found, hfound, rfl⟩
          exact ⟨item, .inl ⟨hitem, heq ▸ hlast⟩, heq⟩
        · exact absurd (congrArg (wrap ·.1) (List.mem_singleton.mp hfound)) hlast

/-! ### URIs of files -/

/-- The text of the URI can be decoded once more, and is the one of a path. -/
def Location.Plain : Location → Prop
  | .file path => ∀ c ∈ "%?[]".toList, c ∉ path
  | .jar archive entry =>
    (∀ c ∈ "%?[]".toList, c ∉ archive) ∧ ¬"!/".toList <:+: archive ∧ '%' ∉ entry
  | .jrt path => ∀ c ∈ "%?[]".toList, c ∉ path

theorem not_bracketed {raw : Text} (h : ∀ c ∈ "%?[]".toList, c ∉ raw) : ¬Bracketed raw := by
  rintro (hmem | hmem)
  · exact h '[' (by decide) ((List.takeWhile_sublist _).subset hmem)
  · exact h ']' (by decide) ((List.takeWhile_sublist _).subset hmem)

theorem World.toURI_eq {w : World} {file : Location} (hplain : file.Plain)
    (hascii : w.toASCII file.uri.part = some file.uri.part) : w.toURI file = .ok file.uri := by
  have hdecode {text : Text} (htext : '%' ∉ text) (hascii : w.toASCII text = some text) :
      (decodePercent text).bind (fun raw ↦ (w.toASCII raw).map (raw, ·)) = some (text, text) := by
    rw [decodePercent_of_notMem htext]
    show (w.toASCII text).map (text, ·) = _
    rw [hascii]
    rfl
  cases file with
  | file path =>
    have hscheme : ∀ c ∈ "%?[]".toList, c ∉ "//".toList := by decide
    have hslashes : ∀ c ∈ "%?[]".toList, c ∉ "//".toList ++ path := fun c hc hmem ↦
      (List.mem_append.mp hmem).elim (hscheme c hc) (hplain c hc)
    rw [toURI, show (Location.file path).uri.part = "//".toList ++ path from rfl,
      hdecode (hslashes _ (by decide)) hascii]
    exact if_neg (not_bracketed hslashes)
  | jar archive entry =>
    have hpercent : '%' ∉ "file://".toList ++ archive ++ '!' :: entry := by
      simp only [List.mem_append, List.mem_cons, not_or]
      exact ⟨⟨by decide, hplain.1 _ (by decide)⟩, by decide, hplain.2.2⟩
    rw [toURI, show (Location.jar archive entry).uri.part =
      "file://".toList ++ archive ++ '!' :: entry from rfl, hdecode hpercent hascii]
    rfl
  | jrt path =>
    rw [toURI, show (Location.jrt path).uri.part = path from rfl,
      hdecode (hplain _ (by decide)) hascii]
    exact if_neg (not_bracketed hplain)

/-- The path of a URI is that of the file that it was made from. -/
theorem World.getPath_uri {w : World} {file : Location} (hplain : file.Plain)
    (hopen : ∀ archive entry, file = .jar archive entry →
      w.isArchive archive = true ∧ ∃ rest, entry = '/' :: rest) :
    w.getPath file.uri = .ok file := by
  cases file with
  | file path =>
    have hquery : '?' ∉ "//".toList ++ path := fun hmem ↦
      (List.mem_append.mp hmem).elim (by decide) (hplain _ (by decide))
    exact if_neg hquery
  | jar archive entry =>
    obtain ⟨harchive, rest, rfl⟩ := hopen archive entry rfl
    have hbang : breakBang ("file://".toList ++ archive ++ '!' :: '/' :: rest) =
        some ("file://".toList ++ archive, '/' :: rest) := by
      show breakBang ('f' :: 'i' :: 'l' :: 'e' :: ':' :: '/' :: '/' ::
        (archive ++ '!' :: '/' :: rest)) = _
      iterate 7 rw [breakBang_cons (by decide)]
      rw [breakBang_append hplain.2.1]
      rfl
    have hscheme : ∀ c ∈ "%?[]".toList, c ∉ "file://".toList := by decide
    have hchars {c : Char} (hc : c ∈ "%?[]".toList) : c ∉ "file://".toList ++ archive := fun hmem ↦
      (List.mem_append.mp hmem).elim (hscheme c hc) (hplain.1 c hc)
    rw [show (Location.jar archive ('/' :: rest)).uri =
      .jar ("file://".toList ++ archive ++ '!' :: '/' :: rest) from rfl, getPath, hbang]
    show (if _ then _ else w.openJar archive ('/' :: rest)) = _
    rw [if_neg (by rintro (h | h | h) <;> exact hchars (by decide) h), openJar,
      if_pos (.inl harchive)]
  | jrt path => exact if_neg (hplain _ (by decide))

end JPype.PackageManager
