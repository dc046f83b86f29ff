import LintEngine.Config.Basic
import LintEngine.Expr

/-!
Suppression: whether a finding at a node is dropped, and by what.

A directive is an annotation on a declaration, the attribute `tools:ignore` of
an XML element, or a comment before a statement or declaration. It covers the
node that carries it and everything below. The search goes from the node
outward and takes the first directive that names the issue.
-/

namespace LintEngine

/-- A directive that suppresses a finding. -/
inductive Suppression where
  /-- An annotation on a declaration. -/
  | onDeclaration (node : NodeId)
  /-- The attribute `tools:ignore` of an element. -/
  | onElement (element : NodeId)
  | comment (line : Nat)
deriving DecidableEq, Repr, Inhabited

inductive DropReason where
  | disabled
  | notFatal
  | suppressed (by_ : Suppression)
deriving DecidableEq, Repr, Inhabited

inductive Verdict where
  | keep (severity : Severity)
  | drop (reason : DropReason)
deriving DecidableEq, Repr, Inhabited

def Verdict.isKept : Verdict → Bool
  | .keep _ => true
  | .drop _ => false

namespace Suppression

/-! ### Tokens -/

/-- Equality up to the case of ASCII letters. -/
def sameLetters (a b : String) : Bool :=
  a.toList.map Char.toLower == b.toList.map Char.toLower

/-- The words that name an issue: its id, `all`, and its categories. -/
def namesOf (i : Issue) : List String :=
  [i.id, "all", i.category.name] ++ (i.category.parent.map (·.name)).toList

/-- Whether a token names an issue. Inspections of an editor write the id with
`AndroidLint` before it. -/
def tokenMatches (token : String) (i : Issue) : Bool :=
  let token := Text.trim token
  let token := (Text.dropPrefix? "AndroidLint" token).getD token
  !token.isEmpty && (namesOf i).any (sameLetters token)

/-! ### Annotations and attributes -/

def suppressingAnnotations : List String :=
  ["android.annotation.SuppressLint", "java.lang.SuppressWarnings"]

/-- The strings in the arguments of an annotation node. -/
def annotationTokens (t : Tree) (id : NodeId) : List String :=
  (t.childrenOfKind id .annotationArgument).flatMap fun arg =>
    ((t.children arg).head?.map fun v => (Expr.ofNode t v).strings).getD []

def declarationSuppresses (t : Tree) (declaration : NodeId) (i : Issue) : Bool :=
  (t.annotations declaration).any fun a =>
    let name := (t.name a).getD ""
    suppressingAnnotations.any (fun q => name == q || name == Text.lastField '.' q) &&
      (annotationTokens t a).any fun token => tokenMatches token i

def elementSuppresses (t : Tree) (element : NodeId) (i : Issue) : Bool :=
  (t.children element).any fun c =>
    let n := t.node c
    n.kind == .xmlAttribute && n.space == some "tools" && n.name == some "ignore" &&
      n.value.any fun v => (Text.split ',' v).any fun token => tokenMatches token i

/-! ### Comments -/

/-- What can open a comment. -/
def markers : List (List Char) := ["//".toList, "#".toList, "<!--".toList]

def directiveWords : List (List Char) := ["noinspection".toList, "suppress".toList]

/-- The characters of a list of ids. -/
def isListChar (c : Char) : Bool :=
  c.isAlphanum || c == '_' || c == ':' || c == ',' || c == '-' || c == ' '

/-- What is left of a text after one of several words. -/
def afterWord? (words : List (List Char)) (cs : List Char) : Option (List Char) :=
  (words.find? (·.isPrefixOf cs)).map fun w => cs.drop w.length

/-- The list of ids of a directive that starts at the head of a text. -/
def directiveHere? (cs : List Char) : Option (List Char) := do
  let afterMarker ← afterWord? markers cs
  let afterName ← afterWord? directiveWords (afterMarker.dropWhile Text.isBlank)
  if afterName.head?.any Text.isBlank then
    some ((afterName.dropWhile Text.isBlank).takeWhile isListChar)
  else none

/-- The lists of ids of all directives in a line. -/
def directives : List Char → List (List Char)
  | [] => []
  | c :: cs => (directiveHere? (c :: cs)).toList ++ directives cs

/-- The tokens of a list of ids. -/
def listTokens (list : List Char) : List String :=
  (Text.splitChars (fun c => c == ',' || c == ' ') list).map String.ofList

/-- Whether a directive in a line names an issue. -/
def lineMatches (i : Issue) (line : List Char) : Bool :=
  (directives line).any fun list => (listTokens list).any fun token => tokenMatches token i

/-- The closest line that is not blank, of the lines above line `n`; the
nearest comes first. -/
def lineAbove? : Nat → List (List Char) → Option (Nat × List Char)
  | _, [] => none
  | n, l :: ls => if l.all Text.isBlank then lineAbove? (n - 1) ls else some (n - 1, l)

/-- The number of the line whose comment suppresses an issue at a node: the
node's own line, as far as it stands before the node, or the closest line
above that is not blank. -/
def commentLine? (t : Tree) (id : NodeId) (i : Issue) : Option Nat := do
  let source ← t.source
  let n := t.node id
  let before ← Text.takeBytes? source.toList (min n.start source.utf8ByteSize)
  match (Text.splitChars (· == '\n') before).reverse with
  | [] => none
  | own :: above =>
    if lineMatches i own then some n.line
    else match lineAbove? n.line above with
      | some (k, l) => if lineMatches i l then some k else none
      | none => none

/-- The kinds of node before which a comment counts. -/
def carriesComments (k : NodeKind) : Bool :=
  k.isDeclaration || [.expressionStatement, .ret, .ifStatement, .loop, .switch, .tryStatement,
    .throw, .xmlElement, .dependency].contains k

end Suppression

namespace Config

open Suppression

variable (c : Config)

/-- The directive that a node itself carries against an issue. -/
def directiveOn (i : Issue) (t : Tree) (id : NodeId) : Option Suppression :=
  let kind := t.kind id
  if kind.isDeclaration && declarationSuppresses t id i then some (.onDeclaration id)
  else if kind == .xmlElement && elementSuppresses t id i then some (.onElement id)
  else if c.commentSuppression && carriesComments kind then (commentLine? t id i).map .comment
  else none

/-- The innermost directive against an issue at a node. -/
def suppressionAt (i : Issue) (t : Tree) (id : NodeId) : Option Suppression :=
  (t.selfAndAncestors id).findSome? (c.directiveOn i t)

/-- Whether a finding of an issue at a node is kept. -/
def check (i : Issue) (t : Tree) (id : Option NodeId) : Verdict :=
  let severity := c.severityFor i
  if severity == .ignore then .drop .disabled
  else if c.fatalOnly && severity != .fatal then .drop .notFatal
  else match id.bind (c.suppressionAt i t) with
    | some s => .drop (.suppressed s)
    | none => .keep severity

end Config

end LintEngine
