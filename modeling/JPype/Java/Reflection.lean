import Mathlib.Data.List.Basic
import Mathlib.Data.List.Nodup

/-!
# What Java reflection tells

The classes of a virtual machine as reflection shows them: their members, their place in the
hierarchy, and which of them are primitive. Reflection is not part of the repository; what
`java.lang.Class` documents about the members it returns are fields of `Reflection`.
-/

namespace JPype

/-- The primitive types, `void` apart. -/
inductive PrimitiveType where
  | boolean
  | char
  | byte
  | short
  | int
  | long
  | float
  | double
  deriving DecidableEq, Repr

/-- Which of the three kinds of executable a method or constructor is, as its modifier bits say. -/
inductive MethodKind where
  | staticMethod
  | instanceMethod
  | constructor
  deriving DecidableEq, Repr

/-- `java.lang.reflect.Executable`, with the parts by which `equals` compares two of them. -/
structure Executable (Cls : Type) where
  name : String
  declaringClass : Cls
  parameterTypes : List Cls
  returnType : Cls
  kind : MethodKind
  isPublic : Bool
  isVarArgs : Bool
  /-- A varargs executable declares its array parameter. -/
  parameterTypes_ne_nil : isVarArgs = true → parameterTypes ≠ []
  deriving DecidableEq

/-- `java.lang.reflect.Field`. -/
structure Field (Cls : Type) where
  name : String
  type : Cls
  isPublic : Bool

/-- `java.lang.Class`, as far as it is asked. A query that fails for want of a class file
(`LinkageError`) is `none`. -/
structure Reflection (Cls : Type) where
  isPrimitive : Cls → Bool
  isArray : Cls → Bool
  isSynthetic : Cls → Bool
  isAnonymousClass : Cls → Bool
  getSimpleName : Cls → String
  getComponentType : Cls → Cls
  /-- `isAssignableFrom c₁ c₂`: a value of `c₂` is one of `c₁`. -/
  isAssignableFrom : Cls → Cls → Bool
  getSuperclass : Cls → Option Cls
  getInterfaces : Cls → List Cls
  /-- All public methods, inherited ones included. -/
  getMethods : Cls → Option (List (Executable Cls))
  getDeclaredMethods : Cls → Option (List (Executable Cls))
  getDeclaredConstructors : Cls → Option (List (Executable Cls))
  /-- All public fields, inherited ones included. -/
  getFields : Cls → Option (List (Field Cls))
  getDeclaredFields : Cls → Option (List (Field Cls))
  /-- `none` where the documentation has `NoSuchMethodException`. -/
  getMethod : Cls → String → List Cls → Option (Executable Cls)
  toString : Executable Cls → String
  /-- `Byte.TYPE` and its siblings. -/
  TYPE : PrimitiveType → Cls
  /-- `Byte.class` and its siblings. -/
  box : PrimitiveType → Cls
  /-- `Void.TYPE` -/
  voidTYPE : Cls
  /-- A class literal of the source, by its name. -/
  literal : String → Cls
  getMethods_nodup : ∀ {c ms}, getMethods c = some ms → ms.Nodup
  getMethods_kind : ∀ {c ms}, getMethods c = some ms → ∀ m ∈ ms, m.kind ≠ .constructor
  getDeclaredConstructors_nodup :
    ∀ {c ms}, getDeclaredConstructors c = some ms → ms.Nodup
  getDeclaredConstructors_kind :
    ∀ {c ms}, getDeclaredConstructors c = some ms → ∀ m ∈ ms, m.kind = .constructor
  getDeclaredConstructors_declaringClass :
    ∀ {c ms}, getDeclaredConstructors c = some ms → ∀ m ∈ ms, m.declaringClass = c

end JPype
