import JPype.Html.TreeHandler

/-!
# Writing a document

`org.jpype.html.HtmlWriter` writes a node with what is below it: names, values and texts as they
are, an element without children with `/>`, and a void element without an end. The default charset
of its `OutputStreamWriter` is taken to be UTF-8, as that of the parser is. What it writes can be
read back on conditions only (`Readable`, in the module on the round trip).
-/

namespace JPype.Html

/-- `org.w3c.dom.Node`, with what is below it. -/
inductive DomTree where
  | element (tagName : List Char) (attributes : List (List Char × List Char))
      (childNodes : List DomTree)
  | text (data : List Char)
  | comment (data : List Char)
  | cdataSection (data : List Char)
  | processingInstruction (target data : List Char)

namespace HtmlWriter

/-- The attributes of `writeElement`. -/
def writeAttributes (attributes : List (List Char × List Char)) : List Char :=
  attributes.flatMap fun (name, value) ↦ ' ' :: (name ++ '=' :: '"' :: (value ++ ['"']))

/-- `writeDirective` -/
def writeDirective (target data : List Char) : List Char :=
  '<' :: '!' :: (target ++ ' ' :: (data ++ ['>']))

/-- `writeComment` -/
def writeComment (data : List Char) : List Char :=
  "<!--".toList ++ (data ++ "-->".toList)

/-- `writeCData` -/
def writeCData (data : List Char) : List Char :=
  "<![CDATA[".toList ++ (data ++ "]]>".toList)

mutual

/-- `write`, with `writeElement` and `writeText`. -/
def write : DomTree → List Char
  | .element name attributes children =>
    '<' :: (name ++ writeAttributes attributes ++
      if name ∈ voidElements then ['>']
      else if children.length = 0 then ['/', '>']
      else '>' :: (writeChildren children ++ '<' :: '/' :: (name ++ ['>'])))
  | .text data => data
  | .comment data => writeComment data
  | .cdataSection data => writeCData data
  | .processingInstruction target data => writeDirective target data

/-- `writeChildren` -/
def writeChildren : List DomTree → List Char
  | [] => []
  | child :: children => write child ++ writeChildren children

end

end HtmlWriter

end JPype.Html
