import LintEngine.Error
import LintEngine.Tree.Builder
import LintEngine.Xml.Entity
import LintEngine.Xml.Markup

/-!
From XML to the program model: a document of elements with their attributes.
Comments stay in the source text, where directives are looked for.
-/

namespace LintEngine.Xml

/-- The namespace and the local name of a qualified name. -/
def splitName (name : List Char) : Option String × String :=
  match name.dropWhile (· != ':') with
  | [] => (none, String.ofList name)
  | _ :: rest => (some (String.ofList (name.takeWhile (· != ':'))), String.ofList rest)

/-- The byte position of the first occurrence of `piece`. -/
def find? (piece : List Char) (text : List Char) : Option Nat :=
  (Text.indexOfChars? piece text).map fun i => Text.byteLength (text.take i)

/-- The part of the source between two offsets, empty if there is none. -/
def slice (source : List Char) (start stop : Nat) : List Char :=
  (Text.sliceChars? source start stop).getD []

/-- Where a piece of markup begins: at the first bracket of what was read. -/
def markupStart (source : List Char) (e : Event) : Nat :=
  match find? ['<'] (slice source e.before e.after) with
  | some i => e.before + i
  | none => e.before

/-- The length of a text up to the end of its first quoted part. -/
def quotedEnd? (text : List Char) : Option Nat :=
  match text.dropWhile fun c => c != '"' && c != '\'' with
  | [] => none
  | q :: rest =>
    let before := text.takeWhile fun c => c != '"' && c != '\''
    if rest.contains q then
      some (Text.byteLength before + 1 + Text.byteLength (rest.takeWhile (· != q)) + 1)
    else none

/-- The node of an attribute of a tag. Its text is looked for in the tag: it
starts at the first place that reads like its key with an equals sign, and
ends after the quoted part that follows. -/
def attributePayload (tag : List Char) (start stop : Nat) (a : RawAttribute) : Payload :=
  let offset := (find? (a.key ++ ['=']) tag).getD 0
  let (space, name) := splitName a.key
  { kind := .xmlAttribute
    start := start + offset
    stop := ((quotedEnd? (slice tag offset (Text.byteLength tag))).map (start + offset + ·)).getD stop
    name := some name
    space := space
    value := some (String.ofList ((unescape? a.value).getD a.value)) }

/-- Adds an element with its attributes and descends into it. -/
def enterElement (source : List Char) (e : Event) (content : List Char) (b : Builder) :
    Except XmlError Builder := do
  let start := markupStart source e
  let (space, name) := splitName (tagName content)
  let b := b.enter
    { kind := .xmlElement, start, stop := e.after, name := some name, space := space }
  let tag := slice source start e.after
  return (← attributes content).foldl (fun b a => b.leaf (attributePayload tag start e.after a)) b

/-- Lets the current element end at an offset, and leaves it. -/
def closeElement (stop : Nat) (b : Builder) : Builder :=
  let b := if b.opened.isEmpty then b
    else { b with nodes := b.nodes.modify b.current fun n => { n with stop := stop } }
  b.leave

def addEvent (source : List Char) (b : Builder) (e : Event) : Except XmlError Builder :=
  match e.markup with
  | .opening content => enterElement source e content b
  | .single content => (enterElement source e content b).map Builder.leave
  | .closing _ => .ok (closeElement e.after b)
  | .other => .ok b

/-- The tree of an XML file. -/
def toTree (file : Path) (scope : Scope) (source : String) : Except LintError Tree :=
  let start := Builder.start file .xml scope (some source) {}
  match (events source).bind fun es => es.foldlM (addEvent source.toList) start with
  | .ok b => .ok b.build
  | .error e => .error (.parse file e.message)

end LintEngine.Xml
