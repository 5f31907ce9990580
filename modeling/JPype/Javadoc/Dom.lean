import JPype.Html.Decode
import JPype.Javadoc.FormatWidth

/-!
# The document of a javadoc

The nodes of a document, and the traversals of `DomUtilities`. What `traverseDFS` does at a node may
show the parent of the node, and how it goes on: the node may be replaced, the parent renamed, or
emptied, and then nothing is left to visit.
-/

namespace JPype.Javadoc

open Html.HtmlGrammar (isSpace trim)

abbrev Text := List Char

/-- `org.w3c.dom.Node`: a text, or an element with its attributes. -/
inductive Node where
  | text (value : Text)
  | element (name : Text) (attributes : List (Text × Text)) (children : List Node)

mutual

/-- `getTextContent` -/
def Node.textContent : Node → Text
  | .text value => value
  | .element _ _ children => textContents children

/-- `getTextContent` of the node with these children. -/
def textContents : List Node → Text
  | [] => []
  | child :: rest => child.textContent ++ textContents rest

end

/-- `getAttribute`, empty if there is none. -/
def getAttribute (attributes : List (Text × Text)) (name : Text) : Text :=
  (attributes.lookup name).getD []

/-- `containsNL` -/
def containsNL (children : List Node) : Bool :=
  children.any fun
    | .text value => '\n' ∈ value
    | .element .. => false

/-- `removeWhitespace`: only what is directly below the node. -/
def removeWhitespace (children : List Node) : List Node :=
  children.map fun
    | .text value => .text (collapse false value)
    | child => child

/-! ### Traversing -/

/-- What an operator does to the parent of a node, which gets a name. -/
inductive Outcome where
  /-- These stand for the node. -/
  | replace (name : Text) (nodes : List Node)
  /-- These are all that is left below the parent. -/
  | clear (name : Text) (nodes : List Node)

section

variable (operator : Text → List (Text × Text) → Node → Outcome)

mutual

/-- The node after `traverseDFS`. -/
def traverseDFS : Node → Node
  | .text value => .text value
  | .element name attributes children =>
    let below := traverseBelow name attributes [] children
    .element below.1 attributes below.2

/-- The loop of `traverseDFS`, with the name of the node and the children that are done. A child
that has been removed has no parent and no next one. -/
def traverseBelow (name : Text) (attributes : List (Text × Text)) (done : List Node) :
    List Node → Text × List Node
  | [] => (name, done)
  | child :: rest =>
    match operator name attributes (traverseDFS child) with
    | .replace name nodes => traverseBelow name attributes (done ++ nodes) rest
    | .clear name nodes => (name, nodes)

end

end

variable {ε : Type} (decode : Text → Except ε Text)

mutual

/-- `fixEntities` below a node. -/
def fixEntities : Node → Except ε Node
  | .text value => return .text (← decode value)
  | .element name attributes children => return .element name attributes (← fixBelow children)

def fixBelow : List Node → Except ε (List Node)
  | [] => return []
  | child :: rest => return (← fixEntities child) :: (← fixBelow rest)

end

end JPype.Javadoc
