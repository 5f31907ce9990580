import JPype.Import.Packages
import JPype.Text.JavaUri
import Mathlib.Data.List.DropRight

/-!
# The contents of Java packages

`JPypePackageManager` looks for the directories of a package in the roots of the class path and in
the modules, and `JPypePackage` lists what it finds there and looks up single names. Modules have an
index of their packages, three levels deep. Archives may have overlays for versions of Java; the
class loader may report the directory in an overlay, and the one that lies under it is then found by
cutting the overlay out of the text of the URI.
-/

namespace JPype.PackageManager

open Unicode Import
open scoped Foundation.Membership

abbrev Text := List Char

/-! ### Files -/

/-- Where a file is: in the default file system, in an archive, or in a module. -/
inductive Location where
  | file (path : Text)
  | jar (archive entry : Text)
  | jrt (path : Text)
  deriving DecidableEq

/-- `path.resolve(name)` -/
def Location.child (name : Text) : Location → Location
  | .file path => .file (path ++ '/' :: name)
  | .jar archive entry => .jar archive (entry ++ '/' :: name)
  | .jrt path => .jrt (path ++ '/' :: name)

/-- A version of Java that an overlay is for. -/
structure Version where
  text : Text
  isDigit : ∀ c ∈ text, c.isDigit = true

/-- The directory of an archive in one of its overlays. -/
def Version.entry (version : Version) (path : Text) : Text :=
  "/META-INF/versions/".toList ++ (version.text ++ '/' :: path)

/-- An archive of the class path, with the overlays for the Java that runs. The class loader reports
one of them where it has the file, which depends on the file. -/
structure Archive where
  path : Text
  overlays : List Version
  report : Text → Option Version
  mem_overlays : ∀ {path version}, report path = some version → version ∈ overlays

/-- A root of the class path. -/
inductive Root where
  | directory (path : Text)
  | archive (jar : Archive)

namespace Root

/-- The entry of an archive that is reported. -/
def entry (jar : Archive) (path : Text) : Text :=
  match jar.report path with
  | none => '/' :: path
  | some version => version.entry path

/-- What the class loader reports. -/
def location (path : Text) : Root → Location
  | .directory root => .file (root ++ '/' :: path)
  | .archive jar => .jar jar.path (entry jar path)

/-- What is in no overlay. -/
def base (path : Text) : Root → Location
  | .directory root => .file (root ++ '/' :: path)
  | .archive jar => .jar jar.path ('/' :: path)

/-- `getSchemeSpecificPart()` of the URI that is reported, in which the escapes are decoded. -/
def schemePart (path : Text) : Root → Text
  | .directory root => root ++ '/' :: path
  | .archive jar => "file:".toList ++ (jar.path ++ '!' :: entry jar path)

/-- The base and all overlays. -/
def directories (path : Text) : Root → List Location
  | .directory root => [.file (root ++ '/' :: path)]
  | .archive jar => .jar jar.path ('/' :: path) ::
      jar.overlays.map fun version ↦ .jar jar.path (version.entry path)

end Root

/-- The file systems, and the class path. -/
structure World where
  /-- `Files.newDirectoryStream`, nothing if this is no directory. -/
  listing : Location → Option (List Text)
  /-- There is a file that is no directory. -/
  isFile : Location → Bool
  /-- There is an archive at this path. -/
  isArchive : Text → Bool
  /-- `newFileSystem` makes an archive at this path, where there is none. -/
  creates : Text → Bool
  /-- What `JPypePackage.isPublic` reads in the file of a class. -/
  isPublic : Location → Bool
  /-- `Modifier.isPublic(cls.getModifiers())`, for the class that is loaded from a file. -/
  isPublicClass : Location → Bool
  /-- What the text of a URI is after `toASCIIString`, which changes it to a normal form. -/
  toASCII : Text → Option Text
  roots : List Root
  /-- The archives with the classes of the platform, before Java 9. -/
  bases : List Text
  /-- The roots of the modules. -/
  modules : List Text
  isArchive_of_listing : ∀ {archive entry}, (listing (.jar archive entry)).isSome →
    isArchive archive
  isArchive_of_isFile : ∀ {archive entry}, isFile (.jar archive entry) → isArchive archive
  /-- The name of a directory may have a slash at its end. -/
  name_eq : ∀ {l names}, listing l = some names → ∀ {filename}, filename ∈ names →
    ∃ name, name ≠ [] ∧ '/' ∉ name ∧ (filename = name ∨ filename = name ++ ['/'])
  isSome_of_slash : ∀ {l : Location} {name}, (listing (l.child (name ++ ['/']))).isSome →
    (listing (l.child name)).isSome
  /-- A directory of a module is listed in the one above it. -/
  mem_listing : ∀ {module}, module ∈ modules → ∀ {dir name}, name ≠ [] → '/' ∉ name →
    (listing (.jrt (module ++ dir ++ '/' :: name))).isSome →
    ∃ names, listing (.jrt (module ++ dir)) = some names ∧ name ∈ names
  /-- The class loader reports a directory for every root that has it. -/
  reports : ∀ {root}, root ∈ roots → ∀ {path l}, l ∈ root.directories path →
    (listing l).isSome → (listing (root.location path)).isSome

/-- `URISyntaxException`, or an exception that is not checked. -/
inductive Fault where
  | uriSyntax
  | runtime
  deriving DecidableEq

/-! ### URIs -/

/-- The text up to the first `!/`, and from the slash on. -/
def breakBang : Text → Option (Text × Text)
  | '!' :: '/' :: rest => some ([], '/' :: rest)
  | c :: rest => (breakBang rest).map fun parts ↦ (c :: parts.1, parts.2)
  | [] => none

/-- A bracket is not allowed in the path of a URI. -/
def Bracketed (raw : Text) : Prop :=
  '[' ∈ raw.takeWhile (· ≠ '?') ∨ ']' ∈ raw.takeWhile (· ≠ '?')

instance (raw : Text) : Decidable (Bracketed raw) := inferInstanceAs (Decidable (_ ∨ _))

/-- `Paths.get(new URI("file:" + text))` -/
def filePath (text : Text) : Except Fault Text :=
  if legal (text.takeWhile (· ≠ '#')) ∧ legal (text.dropWhile (· ≠ '#')).tail ∧
      ¬Bracketed (text.takeWhile (· ≠ '#')) then
    -- a URI with a query or a fragment is no path
    if '?' ∈ text ∨ '#' ∈ text then .error .runtime
    else
      match decodePercent text with
      | none => .error .runtime
      | some path => .ok path
  else .error .uriSyntax

/-- A `URI` of `toURI`, with its scheme specific part, decoded. -/
inductive Uri where
  | file (part : Text)
  | jar (part : Text)
  | jrt (part : Text)
  deriving DecidableEq

/-- The scheme specific part. -/
def Uri.part : Uri → Text
  | .file part => part
  | .jar part => part
  | .jrt part => part

/-- `path.toUri()` -/
def Location.uri : Location → Uri
  | .file path => .file ("//".toList ++ path)
  | .jar archive entry => .jar ("file://".toList ++ archive ++ '!' :: entry)
  | .jrt path => .jrt path

/-- `s.split("/")`: without the empty parts at the end, unless there is nothing to split. -/
def splitSlash (s : Text) : List Text :=
  if '/' ∈ s then (s.splitOn '/').rdropWhile List.isEmpty else [s]

/-- `JPypeKeywords.wrap` -/
def wrap (name : Text) : Text :=
  if name ∈ keywords then name ++ ['_'] else name

/-- `name.replace(".", "/")` -/
def slashes (name : Text) : Text :=
  name.map fun c ↦ if c = '.' then '/' else c

/-- A `HashMap` with what was put into it last. -/
abbrev Contents := List (Text × Uri)

/-- `out.put(key, uri)` -/
def Contents.put (out : Contents) (key : Text) (uri : Uri) : Contents :=
  out.filter (fun item ↦ item.1 ≠ key) ++ [(key, uri)]

namespace World

variable (w : World)

/-- `Files.isDirectory` -/
def isDirectory (l : Location) : Bool :=
  (w.listing l).isSome

/-- The file system of an archive, which is made if there is none. -/
def openJar (archive entry : Text) : Except Fault Location :=
  if w.isArchive archive ∨ w.creates archive then .ok (.jar archive entry) else .error .runtime

/-- `toURI`: the scheme specific part, which is decoded, is decoded once more before it is encoded.
What goes wrong is wrapped into a `RuntimeException`. -/
def toURI (l : Location) : Except Fault Uri :=
  match (decodePercent l.uri.part).bind fun text ↦ (w.toASCII text).map (text, ·) with
  | none => .error .runtime
  | some (text, ascii) =>
    match l with
    | .file _ => if Bracketed text then .error .runtime else .ok (.file ascii)
    | .jar _ _ => .ok (.jar ascii)
    | .jrt _ => if Bracketed text then .error .runtime else .ok (.jrt ascii)

/-- `getPath`, for a URI of `toURI`. -/
def getPath : Uri → Except Fault Location
  | .file part => if '?' ∈ part then .error .runtime else .ok (.file (part.drop 2))
  | .jar part =>
    match breakBang part with
    | none => .error .runtime
    | some (archive, entry) =>
      -- the URI of the archive is taken out of the text
      if '?' ∈ archive ∨ '[' ∈ archive ∨ ']' ∈ archive then .error .runtime
      else w.openJar (archive.drop 7) entry
  | .jrt part => if '?' ∈ part then .error .runtime else .ok (.jrt part)

/-! ### Collecting -/

/-- What a file of a directory is known as: subdirectories, and classes that are not nested. -/
def entryName (dir : Location) (filename : Text) : Option Text :=
  if w.isDirectory (dir.child filename) then
    some (if filename.getLast? = some '/' then filename.dropLast else filename)
  else if '$' ∈ filename then none
  else if ".class".toList <:+ filename then some (filename.take (filename.length - 6))
  else none

/-- The loop of `collectContents`. -/
def collectNames (dir : Location) : List Text → Contents → Except Fault Contents
  | [], out => .ok out
  | filename :: names, out =>
    match w.entryName dir filename with
    | none => collectNames dir names out
    | some name =>
      match w.toURI (dir.child filename) with
      | .error e => .error e
      | .ok uri => collectNames dir names (out.put (wrap name) uri)

/-- `collectContents`. The `IOException` for what is no directory is caught. -/
def collectContents (dir : Location) (out : Contents) : Except Fault Contents :=
  match w.listing dir with
  | none => .ok out
  | some names => w.collectNames dir names out

/-! ### Modules -/

/-- `listPackages` of a module, with the depth that is left. -/
def listPackages (module : Text) : ℕ → Text → List Text
  | 0, _ => []
  | depth + 1, dir =>
    match w.listing (.jrt (module ++ dir)) with
    | none => []
    | some names =>
      (names.filter fun name ↦ w.isDirectory (.jrt (module ++ dir ++ '/' :: name))).flatMap
        fun name ↦ (dir ++ '/' :: name).tail :: listPackages module depth (dir ++ '/' :: name)

/-- `ModuleDirectory.contains` -/
def contains (module : Text) (path : Text) : Bool :=
  decide (path ∈ w.listPackages module 3 [])

/-- What is looked for in the index of a module: no more than three components. -/
def search (path : Text) : Text :=
  if 3 < (splitSlash path).length then ['/'].intercalate ((splitSlash path).take 3) else path

/-- The modules with this directory, as `isModulePackage` and `getModuleContents` find them. -/
def moduleDirectories (path : Text) : List Location :=
  ((w.modules.filter fun module ↦ w.contains module (search path)).map
    fun module ↦ .jrt (module ++ '/' :: path)).filter w.isDirectory

/-! ### The class path -/

/-- `getResources`: the roots with a directory or a file at this path. -/
def resources (path : Text) : List Root :=
  w.roots.filter fun root ↦ w.isDirectory (root.location path) || w.isFile (root.location path)

/-- `getPath(resource)`: the text of the URI is cut at the first `!/`, which may be in the path of
the archive. -/
def resourcePath (root : Root) (path : Text) : Except Fault Location :=
  match root.location path with
  | .jar archive entry =>
    match breakBang (archive ++ '!' :: entry) with
    | none => .error .runtime
    | some (archive, entry) => w.openJar archive entry
  | l => .ok l

/-- The directory for a text out of which an overlay is cut, as the text of a URI:
`getPath(new URI(resource.getScheme() + ":" + schemePart))`. -/
def cutPath (root : Root) (text : Text) : Except Fault Location :=
  match root with
  | .directory _ => .file <$> filePath text
  | .archive _ =>
    if legal (text.takeWhile (· ≠ '#')) ∧ legal (text.dropWhile (· ≠ '#')).tail then
      match breakBang (text.takeWhile (· ≠ '#')) with
      | none => .error .runtime
      | some (archive, entry) =>
        match filePath (archive.drop 5), decodePercent entry with
        | .ok path, some entry => w.openJar path entry
        | _, _ => .error .runtime
    else .error .uriSyntax

/-- The directory under an overlay, if the text of the resource looks like one. -/
def overlaid (root : Root) (path : Text) : Except Fault (Option Location) :=
  match (root.schemePart path).dropWhile (· ≠ '!') with
  | [] => .ok none
  | _ :: after =>
    if "/META-INF/versions/".toList <+: after then
      match (after.drop 19).dropWhile (· ≠ '/') with
      -- `substring(-1)`
      | [] => .error .runtime
      | rest =>
        some <$> w.cutPath root ((root.schemePart path).takeWhile (· ≠ '!') ++ '!' :: rest)
    else .ok none

/-- The loop of `getJarContents`. A URI with a syntax error ends it, with what there is. -/
def jarLoop (path : Text) : List Root → Contents → Except Fault Contents
  | [], out => .ok out
  | root :: rest, out =>
    match w.overlaid root path with
    | .error .uriSyntax => .ok out
    | .error .runtime => .error .runtime
    | .ok base =>
      match base.elim (.ok out) fun dir ↦ w.collectContents dir out with
      | .error e => .error e
      | .ok out =>
        match w.resourcePath root path with
        | .error e => .error e
        | .ok dir =>
          match w.collectContents dir out with
          | .error e => .error e
          | .ok out => jarLoop path rest out

/-- `getJarContents` -/
def getJarContents (path : Text) (out : Contents) : Except Fault Contents :=
  w.jarLoop path (w.resources path) out

/-- The directories of a list are collected, one after the other. -/
def collectAll : List Location → Contents → Except Fault Contents
  | [], out => .ok out
  | dir :: dirs, out =>
    match w.collectContents dir out with
    | .error e => .error e
    | .ok out => collectAll dirs out

/-- `getBaseContents` -/
def getBaseContents (path : Text) (out : Contents) : Except Fault Contents :=
  w.collectAll (w.bases.map fun archive ↦ .jar archive ('/' :: path)) out

/-- `getModuleContents` -/
def getModuleContents (path : Text) (out : Contents) : Except Fault Contents :=
  w.collectAll (w.moduleDirectories path) out

/-- `getContentMap` -/
def getContentMap (packageName : Text) : Except Fault Contents :=
  match w.getJarContents (slashes packageName) [] with
  | .error e => .error e
  | .ok out =>
    match w.getBaseContents (slashes packageName) out with
    | .error e => .error e
    | .ok out => w.getModuleContents (slashes packageName) out

/-! ### Packages -/

/-- `isModulePackage` -/
def isModulePackage (path : Text) : Bool :=
  !(w.moduleDirectories path).isEmpty

/-- `isBasePackage` -/
def isBasePackage (path : Text) : Bool :=
  !path.isEmpty && w.bases.any fun archive ↦ w.isDirectory (.jar archive ('/' :: path))

/-- The loop of `isJarPackage`. -/
def anyDirectory (path : Text) : List Root → Except Fault Bool
  | [] => .ok false
  | root :: rest =>
    match w.resourcePath root path with
    | .error e => .error e
    | .ok dir => if w.isDirectory dir then .ok true else anyDirectory path rest

/-- `isJarPackage` -/
def isJarPackage (path : Text) : Except Fault Bool :=
  w.anyDirectory path (w.resources path)

/-- `isPackage`, where there is a file system for archives. -/
def isPackage (name : Text) : Except Fault Bool :=
  if w.isModulePackage (slashes name) || w.isBasePackage (slashes name) then .ok true
  else w.isJarPackage (slashes name)

/-- What `Class.forName` finds: the first file for the class, in the modules and the archives of the
platform before the roots. -/
def classFile (name : Text) : Option Location :=
  let path := slashes name ++ ".class".toList
  (w.modules.map (fun module ↦ Location.jrt (module ++ '/' :: path)) ++
    w.bases.map (fun archive ↦ Location.jar archive ('/' :: path)) ++
    w.roots.map (Root.location path)).find? w.isFile

/-- There is a class of this name, which is public. -/
def publicClass (name : Text) : Bool :=
  (w.classFile name).any w.isPublicClass

/-- `JPypePackage.getObject`: the name of a package, or of a public class. -/
def getObject (pkg name : Text) : Except Fault (Option (Text ⊕ Text)) :=
  let basename := pkg ++ '.' :: keywordUnwrap name
  match w.isPackage basename with
  | .error e => .error e
  | .ok true => .ok (some (.inl basename))
  | .ok false => .ok (if w.publicClass basename then some (.inr basename) else none)

/-- The loop of `getContents`. -/
def reported : Contents → Except Fault (List Text)
  | [] => .ok []
  | (key, uri) :: contents =>
    match w.getPath uri with
    | .error e => .error e
    | .ok p =>
      if w.isDirectory p ∨ ".class".toList <:+ uri.part ∧ w.isPublic p then
        (key :: ·) <$> reported contents
      else reported contents

/-- `JPypePackage.getContents` of the package of this name. -/
def getContents (pkg : Text) : Except Fault (List Text) :=
  match w.getContentMap pkg with
  | .error e => .error e
  | .ok contents => w.reported contents

end World

end JPype.PackageManager
