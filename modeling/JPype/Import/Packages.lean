import JPype.Foundation.Hoare
import JPype.Foundation.Membership
import Mathlib.Data.List.Infix

/-!
# Java packages as Python modules

A Java package is a Python module, `_jpype._JPackage`. Its attributes are looked up in Java and kept
in the dictionary of the module. The loader `_JImportLoader` makes `import` do the same: it looks
for the attribute in the module of the parent, and `importlib` registers what it returns.

Where a Java name is a keyword of Python, an underscore is appended to it. Attributes are kept and
packages are named with the underscore, but the loader takes it off the name that it gives to
`importlib`.
-/

namespace JPype.Import

open scoped Foundation.Membership

/-- A component of a dotted name. -/
abbrev Attr := List Char

/-- A dotted name. The last component comes first, so that the tail is the name of the parent. -/
abbrev Dotted := List Attr

/-! ### Keywords -/

/-- `_KEYWORDS`, which `JPypeKeywords` is given at the start. -/
def keywords : List Attr :=
  ["False", "None", "True", "and", "as", "assert", "async", "await", "break", "class", "continue",
    "def", "del", "elif", "else", "except", "exec", "finally", "for", "from", "global", "if",
    "import", "in", "is", "lambda", "nonlocal", "not", "or", "pass", "print", "raise", "return",
    "try", "while", "with", "yield"].map String.toList

/-- `_keywordUnwrap` of `imports.py`, and `JPypeKeywords.unwrap` -/
def keywordUnwrap (name : Attr) : Attr :=
  if name.getLast? = some '_' ∧ name.dropLast ∈ keywords then name.dropLast else name

/-- `unwrap` of `imports.py`, and `JPypeKeywords.safepkg` -/
def unwrap (name : Dotted) : Dotted :=
  if ∃ attr ∈ name, '_' ∈ attr then name.map keywordUnwrap else name

/-! ### Objects -/

/-- What there is in Java, and what Python has for every module. -/
structure World where
  /-- `JPypePackageManager.isPackage` -/
  isPackage : Dotted → Bool
  /-- `Class.forName` finds a class, and it is public. -/
  isPublicClass : Dotted → Bool
  /-- The type of packages has this attribute. -/
  typeAttribute : Attr → Bool
  /-- The value of this attribute takes attributes itself. -/
  takesAttributes : Attr → Bool

/-- A Python object. `PyJPPackage_new` makes one package for each name and keeps it, and there is
one class object for each Java class; so these are told apart by their names. -/
inductive Obj where
  | package (name : Dotted)
  | javaClass (name : Dotted)
  /-- `_JExceptionHandler` -/
  | handler
  /-- The capsule with the Java object of a package. -/
  | capsule
  /-- The value of an attribute of the type. -/
  | typeAttribute (attr : Attr)
  deriving DecidableEq

/-- A package or a class. -/
def Obj.IsJava : Obj → Prop
  | .package _ => True
  | .javaClass _ => True
  | _ => False

/-- `sys.modules`, as far as the loader fills it, and the dictionaries of the packages. -/
structure State where
  modules : Dotted → Option Obj
  dict : Dotted → Attr → Option Obj

inductive PyError where
  | attributeError
  | valueError
  | keyError
  | importError
  | moduleNotFoundError
  deriving DecidableEq

namespace State

/-- Nothing has been imported. -/
def initial : State where
  modules := fun _ ↦ none
  dict := fun _ _ ↦ none

/-- An item of the dictionary of a package. -/
def setItem (s : State) (self : Dotted) (attr : Attr) (o : Obj) : State where
  modules := s.modules
  dict := fun self' attr' ↦ if self' = self ∧ attr' = attr then some o else s.dict self' attr'

/-- An entry of `sys.modules`. -/
def setModule (s : State) (name : Dotted) (o : Obj) : State where
  modules := fun name' ↦ if name' = name then some o else s.modules name'
  dict := s.dict

@[simp]
theorem modules_setItem (s : State) (self : Dotted) (attr : Attr) (o : Obj) :
    (s.setItem self attr o).modules = s.modules := rfl

@[simp]
theorem dict_setModule (s : State) (name : Dotted) (o : Obj) :
    (s.setModule name o).dict = s.dict := rfl

@[simp]
theorem dict_setItem_self (s : State) (self : Dotted) (attr : Attr) (o : Obj) :
    (s.setItem self attr o).dict self attr = some o :=
  if_pos ⟨rfl, rfl⟩

@[simp]
theorem modules_setModule_self (s : State) (name : Dotted) (o : Obj) :
    (s.setModule name o).modules name = some o :=
  if_pos rfl

end State

abbrev PyProgram (α : Type) := Foundation.Program State PyError α

/-- The key of the handler in the dictionary of a package. -/
def handlerKey : Attr := "_handler".toList

/-- The key of the Java object in the dictionary of a package. -/
def jpackageKey : Attr := "_jpackage".toList

/-- `attrName.compare(0, 2, "__") == 0` -/
def IsPrivate (attr : Attr) : Prop :=
  "__".toList <+: attr

instance (attr : Attr) : Decidable (IsPrivate attr) :=
  inferInstanceAs (Decidable (_ <+: _))

namespace World

variable (w : World)

/-! ### Attributes of a package -/

/-- `getPackage` -/
def getPackage (self : Dotted) : PyProgram Unit := do
  match (← get).dict self jpackageKey with
  | some .capsule => pure ()
  | some _ => throw .valueError
  | none =>
    if w.isPackage (unwrap self) then modify (·.setItem self jpackageKey .capsule)
    else throw .attributeError

/-- `JPypePackage.getObject` of the package `pkg`, and the Python object that is made of it: for a
package, which comes as its name, the package named after the module and the attribute. -/
def getObject (self : Dotted) (attr : Attr) : Option Obj :=
  if w.isPackage (keywordUnwrap attr :: unwrap self) then some (.package (attr :: self))
  else if w.isPublicClass (keywordUnwrap attr :: unwrap self) then
    some (.javaClass (keywordUnwrap attr :: unwrap self))
  else none

/-- `PyJPPackage_getattro` -/
def getattro (self : Dotted) (attr : Attr) : PyProgram Obj := do
  match (← get).dict self attr with
  | some out => pure out
  | none =>
    if IsPrivate attr then
      if w.typeAttribute attr then pure (.typeAttribute attr) else throw .attributeError
    else do
      w.getPackage self
      match w.getObject self attr with
      | none => throw .attributeError
      | some out => do
        modify (·.setItem self attr out)
        pure out

/-- An attribute of an object; only those of packages are looked up here. -/
def getAttr (o : Obj) (attr : Attr) : PyProgram Obj :=
  match o with
  | .package self => w.getattro self attr
  | _ => throw .attributeError

/-- `hasattr` of a package -/
def hasattr (self : Dotted) (attr : Attr) : PyProgram Bool :=
  tryCatch (do let _ ← w.getattro self attr; pure true) fun e ↦
    if e = .attributeError then pure false else throw e

/-! ### The loader -/

/-- The top level domains that are registered from the start, under their own names. -/
def domains : List Dotted :=
  ["com", "gov", "java", "org", "mil", "edu", "net"].map fun mod ↦ [mod.toList]

/-- `_JImportLoader.find_spec`, with the name of the module spec. For a name without a dot that is
no package, `base` is looked up under the empty name, which is never registered. -/
def findSpec : Dotted → PyProgram (Option Dotted)
  | [] => pure none
  | [top] =>
    if w.isPackage (unwrap [top]) then pure (some [top])
    else if [top] ∈ domains then throw .importError
    else pure none
  | child :: parent => do
    match (← get).modules parent with
    | some (.package base) =>
      if ← w.hasattr base child then pure (some (unwrap (child :: parent))) else throw .importError
    | _ => pure none

/-- `rc._handler = _JExceptionHandler` -/
def setHandler : Obj → PyProgram Unit
  | .package self => modify (·.setItem self handlerKey .handler)
  | .javaClass _ => pure ()
  | .handler => pure ()
  | .capsule => throw .attributeError
  | .typeAttribute attr => if w.takesAttributes attr then pure () else throw .attributeError

/-- The object for a module spec: the package of this name, or the attribute of the parent. -/
def specObject : Dotted → PyProgram Obj
  | [] => throw .keyError
  | [top] => pure (.package [top])
  | child :: parent => do
    match (← get).modules parent with
    | none => throw .keyError
    | some o => w.getAttr o child

/-- `_JImportLoader.create_module` -/
def createModule (spec : Dotted) : PyProgram Obj := do
  let rc ← w.specObject spec
  w.setHandler rc
  pure rc

/-! ### `importlib` -/

/-- The module of a spec is registered under the name of the spec. -/
def load (spec : Dotted) : PyProgram Obj := do
  let module ← w.createModule spec
  modify (·.setModule spec module)
  pure module

/-- `setattr(parent_module, child, module)` -/
def bindInParent (child : Attr) (parent : Dotted) (module : Obj) : PyProgram Unit := do
  match (← get).modules parent with
  | some (.package self) => modify (·.setItem self child module)
  | _ => pure ()

/-- The part of the import that runs after that of the parent. -/
def importChild (child : Attr) (parent : Dotted) : PyProgram Obj := do
  match (← get).modules (child :: parent) with
  | some module => pure module
  | none => do
    match (← get).modules parent with
    | none => throw .keyError
    | some (.package _) => do
      match ← w.findSpec (child :: parent) with
      | none => throw .moduleNotFoundError
      | some spec => do
        let module ← w.load spec
        bindInParent child parent module
        pure module
    -- Only packages have a `__path__`.
    | some _ => throw .moduleNotFoundError

/-- `importlib.import_module`, where only the loader finds anything -/
def importName : Dotted → PyProgram Obj
  | [] => throw .moduleNotFoundError
  | [top] => do
    match (← get).modules [top] with
    | some module => pure module
    | none => do
      match ← w.findSpec [top] with
      | none => throw .moduleNotFoundError
      | some spec => w.load spec
  | child :: parent => do
    match (← get).modules (child :: parent) with
    | some module => pure module
    | none => do
      let _ ← importName parent
      w.importChild child parent

/-- The attributes along the components, from the package of the first one. -/
def navigate : Dotted → PyProgram Obj
  | [] => throw .attributeError
  | [top] => pure (.package [top])
  | child :: parent => do
    let o ← navigate parent
    w.getAttr o child

end World

/-- An import, or an access to an attribute of a package. -/
inductive Action where
  | importName (name : Dotted)
  | access (self : Dotted) (attr : Attr)

/-- What an action does to the state, whether it is successful or not. -/
def World.step (w : World) (s : State) : Action → State
  | .importName name => ((w.importName name).exec s).2
  | .access self attr => ((w.getattro self attr).exec s).2

/-- The state after a history. -/
def World.run (w : World) (actions : List Action) : State :=
  actions.foldl w.step .initial

end JPype.Import
