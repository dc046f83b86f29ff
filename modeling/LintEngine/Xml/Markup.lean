import LintEngine.Text.Basic

/-!
Reading XML as a sequence of events. Text, comments and the like are passed
over; a start tag is delivered with its content, an end tag with its name.

End tags must match the open start tags. An element that is still open at
the end of the input is no error.
-/

namespace LintEngine.Xml

inductive XmlError where
  | unclosedMarkup
  | unknownMarkup
  | danglingReference
  | unmatchedEnd
  | badAttribute
deriving DecidableEq, Repr, Inhabited

def XmlError.message : XmlError → String
  | unclosedMarkup => "markup is not closed"
  | unknownMarkup => "unknown kind of markup"
  | danglingReference => "reference is not closed"
  | unmatchedEnd => "end tag matches no start tag"
  | badAttribute => "attribute without a quoted value"

/-- What a piece of input says. -/
inductive Markup where
  /-- A start tag, with the text between its brackets. -/
  | opening (content : List Char)
  /-- A tag that closes itself, with the text before its slash. -/
  | single (content : List Char)
  | closing (name : List Char)
  /-- Text, comments, instructions and declarations. -/
  | other
deriving Repr, Inhabited

def isSpace (c : Char) : Bool := c == ' ' || c == '\t' || c == '\n' || c == '\r'

/-- Splits before the first occurrence of `piece`, and drops it. -/
def splitAtPiece (piece : List Char) : List Char → Option (List Char × List Char)
  | [] => if piece.isEmpty then some ([], []) else none
  | c :: cs =>
    match piece.isPrefixOf? (c :: cs) with
    | some rest => some ([], rest)
    | none => (splitAtPiece piece cs).map fun (front, rest) => (c :: front, rest)

/-- Splits at the bracket that ends a tag; brackets in quotes do not count. -/
def splitTag : (quote : Option Char) → List Char → Option (List Char × List Char)
  | _, [] => none
  | none, '>' :: cs => some ([], cs)
  | none, c :: cs =>
    let quote := if c == '"' || c == '\'' then some c else none
    (splitTag quote cs).map fun (front, rest) => (c :: front, rest)
  | some q, c :: cs =>
    (splitTag (if c == q then none else some q) cs).map fun (front, rest) => (c :: front, rest)

/-- The input after a declaration whose nested brackets close. -/
def skipDeclaration : Nat → List Char → Option (List Char)
  | _, [] => none
  | depth, '<' :: cs => skipDeclaration (depth + 1) cs
  | depth, '>' :: cs => if depth = 0 then some cs else skipDeclaration (depth - 1) cs
  | depth, _ :: cs => skipDeclaration depth cs

def dropPiece? (piece : String) (cs : List Char) : Option (List Char) := piece.toList.isPrefixOf? cs

/-- The input after a comment, given what follows its opening. -/
def skipComment (cs : List Char) : Except XmlError (Markup × List Char) :=
  match splitAtPiece "-->".toList cs with
  | some (_, rest) => .ok (.other, rest)
  | none => .error .unclosedMarkup

/-- Markup that starts with `<!`. -/
def bang (cs : List Char) : Except XmlError (Markup × List Char) :=
  match dropPiece? "--" cs with
  | some rest => skipComment rest
  | none => match dropPiece? "[CDATA[" cs with
    | some rest => match splitAtPiece "]]>".toList rest with
      | some (_, rest) => .ok (.other, rest)
      | none => .error .unclosedMarkup
    | none =>
      if (cs.take 7).map Char.toLower == "doctype".toList then
        match skipDeclaration 0 (cs.drop 7) with
        | some rest =>
          if ((cs.drop 7).dropWhile isSpace).head? == some '>' then .error .unknownMarkup
          else .ok (.other, rest)
        | none => .error .unclosedMarkup
      else .error .unknownMarkup

/-- Markup after its opening bracket. -/
def markup (cs : List Char) : Except XmlError (Markup × List Char) :=
  match cs with
  | [] => .error .unclosedMarkup
  | '!' :: cs => bang cs
  | '?' :: _ => match splitAtPiece "?>".toList cs with
    | some (content, rest) => if content.isEmpty then .error .unclosedMarkup else .ok (.other, rest)
    | none => .error .unclosedMarkup
  | '/' :: cs => match splitAtPiece ['>'] cs with
    | some (name, rest) => .ok (.closing (Text.dropEndWhile isSpace name), rest)
    | none => .error .unclosedMarkup
  | cs => match splitTag none cs with
    | some (content, rest) =>
      if content.getLast? == some '/' then .ok (.single content.dropLast, rest)
      else .ok (.opening content, rest)
    | none => .error .unclosedMarkup

/-- The next piece of input and what follows it; `none` at the end. White
space before a piece belongs to it. -/
def next (input : List Char) : Except XmlError (Option (Markup × List Char)) :=
  match input.dropWhile isSpace with
  | [] => .ok none
  | '<' :: cs => (markup cs).map some
  | '&' :: cs =>
    match cs.dropWhile fun c => c != ';' && c != '&' && c != '<' with
    | ';' :: rest => .ok (some (.other, rest))
    | _ => .error .danglingReference
  | cs => .ok (some (.other, cs.dropWhile fun c => c != '<' && c != '&'))

/-- The name of a tag. -/
def tagName (content : List Char) : List Char := content.takeWhile fun c => !isSpace c

/-- A piece of markup with the offsets at which reading it began and ended. -/
structure Event where
  markup : Markup
  before : Nat
  after : Nat
deriving Repr, Inhabited

/-- The open elements after a piece of markup. -/
def track (opened : List (List Char)) : Markup → Except XmlError (List (List Char))
  | .opening content => .ok (tagName content :: opened)
  | .closing name =>
    match opened with
    | top :: rest => if top == name then .ok rest else .error .unmatchedEnd
    | [] => .error .unmatchedEnd
  | _ => .ok opened

/-- Reads events from an offset on. Each one takes at least one character. -/
def eventsFrom : Nat → (opened : List (List Char)) → (offset : Nat) → List Char →
    Except XmlError (List Event)
  | 0, _, _, _ => .ok []
  | n + 1, opened, offset, input => do
    match ← next input with
    | none => return []
    | some (m, rest) =>
      let opened ← track opened m
      let after := offset + (Text.byteLength input - Text.byteLength rest)
      let later ← eventsFrom n opened after rest
      return { markup := m, before := offset, after } :: later

/-- The events of a document. A byte order mark in front is not part of it. -/
def events (source : String) : Except XmlError (List Event) :=
  let input := Text.unmarked source.toList
  eventsFrom (input.length + 1) [] 0 input

/-! ### Attributes -/

/-- An attribute as written: its key, and its value without the quotes. -/
structure RawAttribute where
  key : List Char
  value : List Char
deriving Repr, Inhabited

/-- The value of an attribute, after its equals sign. -/
def attributeValue? (cs : List Char) : Option (List Char × List Char) :=
  match cs.dropWhile isSpace with
  | '"' :: cs => splitAtPiece ['"'] cs
  | '\'' :: cs => splitAtPiece ['\''] cs
  | _ => none

/-- One attribute. Its key has at least one character and ends at white space
or at the equals sign. -/
def attribute? : List Char → Option (RawAttribute × List Char)
  | [] => none
  | c :: cs =>
    let key := cs.takeWhile fun d => d != '=' && !isSpace d
    match (cs.drop key.length).dropWhile isSpace with
    | '=' :: rest => (attributeValue? rest).map fun (value, rest) => (⟨c :: key, value⟩, rest)
    | _ => none

/-- The attributes of a tag, in order. -/
def attributesFrom : Nat → List Char → Except XmlError (List RawAttribute)
  | 0, _ => .ok []
  | n + 1, cs =>
    match cs.dropWhile isSpace with
    | [] => .ok []
    | cs => match attribute? cs with
      | some (a, rest) => (attributesFrom n rest).map (a :: ·)
      | none => .error .badAttribute

def attributes (content : List Char) : Except XmlError (List RawAttribute) :=
  attributesFrom content.length (content.drop (tagName content).length)

end LintEngine.Xml
