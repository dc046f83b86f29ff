import LintEngine.Literal
import LintEngine.Path
import LintEngine.Tree.Kind

/-!
The program model: one tree per unit, stored as an array of nodes. A node is
named by its index; links are indices too, so a tree owns all its nodes.

A tree made by `Builder` has its nodes in pre-order. A child therefore has a
larger index than its parent. The walks below follow a link only in that
direction, which is what makes them terminate on every array of nodes.
-/

namespace LintEngine

abbrev NodeId := Nat

/-- What a node says about the program, apart from its links. -/
structure Payload where
  kind : NodeKind := .other
  /-- The byte offsets of the node's text. -/
  start : Nat := 0
  stop : Nat := 0
  /-- Line and column count from 1; 0 stands for "not yet known". -/
  line : Nat := 0
  column : Nat := 0
  /-- Identifier, method name, annotation name, tag or attribute name. -/
  name : Option String := none
  /-- The declared, created or cast-to type, as written. -/
  typeName : Option String := none
  superclass : Option String := none
  interfaces : List String := []
  classKind : Option ClassKind := none
  operator : Option String := none
  literal : Option Literal := none
  modifiers : Modifiers := {}
  /-- The namespace of an attribute or the group of a dependency. -/
  space : Option String := none
  /-- The value of an attribute or the version of a dependency. -/
  value : Option String := none
deriving Inhabited

structure Node extends Payload where
  parent : Option NodeId := none
  children : List NodeId := []
  /-- The receiver of a call or the qualifier of a selection, one of the
  children. -/
  qualifier : Option NodeId := none
deriving Inhabited

/-- The names that a unit sees through its package and imports. -/
structure Imports where
  package : String := ""
  /-- Qualified names of single types. -/
  single : List String := []
  /-- Packages imported with all their types. -/
  wildcards : List String := []
  /-- Static imports, as qualified names. -/
  static : List String := []
deriving DecidableEq, Inhabited, Repr

namespace Imports

/-- Adds an import as it is written between the keyword and the semicolon. -/
def add (ctx : Imports) (written : String) (isStatic : Bool) : Imports :=
  let path := Text.trim written
  if isStatic then { ctx with static := ctx.static ++ [path] }
  else match Text.dropSuffix? ".*" path with
    | some package => { ctx with wildcards := ctx.wildcards ++ [package] }
    | none => { ctx with single := ctx.single ++ [path] }

/-- The first single-type import with the given simple name. -/
def explicit (ctx : Imports) (simple : String) : Option String :=
  ctx.single.find? fun i => Text.lastField '.' i == simple

end Imports

/-- A position that a report can show. -/
structure Location where
  file : Path
  start : Nat := 0
  stop : Nat := 0
  line : Nat := 0
  column : Nat := 0
deriving Inhabited, BEq, Repr

namespace Location

/-- The whole project, for findings without an anchor. -/
def project (root : Path) : Location := { file := root }

/-- The start of a file, for findings about the file as a whole. -/
def fileStart (file : Path) : Location := { file, line := 1, column := 1 }

def render (l : Location) : String :=
  l.file.text ++ ":" ++ toString l.line ++ ":" ++ toString l.column

end Location

/-- One unit. -/
structure Tree where
  file : Path
  phase : Phase
  scope : Scope
  /-- The text of the unit; compiled input has none. -/
  source : Option String := none
  imports : Imports := {}
  nodes : Array Node
deriving Inhabited

namespace Tree

variable (t : Tree)

def size : Nat := t.nodes.size

/-- The node with an index; outside the tree, a node that says nothing. -/
def node (id : NodeId) : Node := t.nodes.getD id {}

def kind (id : NodeId) : NodeKind := (t.node id).kind

def parent (id : NodeId) : Option NodeId := (t.node id).parent

def children (id : NodeId) : List NodeId := (t.node id).children

def name (id : NodeId) : Option String := (t.node id).name

def typeName (id : NodeId) : Option String := (t.node id).typeName

def qualifier (id : NodeId) : Option NodeId := (t.node id).qualifier

/-- The root has index 0. -/
def root : NodeId := 0

/-- All indices, in order. -/
def ids : List NodeId := List.range t.size

/-! ### Walking up and down -/

/-- The strict ancestors, innermost first. -/
def ancestors (id : NodeId) : List NodeId :=
  match t.parent id with
  | some p => if p < id then p :: ancestors p else []
  | none => []
termination_by id

def selfAndAncestors (id : NodeId) : List NodeId := id :: t.ancestors id

/-- A link from a node to one of its children, which stands later in the
array. -/
abbrev Below (id c : NodeId) : Prop := id < c ∧ c < t.size

theorem size_sub_lt_of_below {t : Tree} {id c : NodeId} (h : t.Below id c) :
    t.size - c < t.size - id :=
  Nat.sub_lt_sub_left (Nat.lt_trans h.1 h.2) h.1

/-- The node and everything below it, in pre-order. -/
def descendants (id : NodeId) : List NodeId :=
  id :: (t.children id).flatMap fun c => if _ : t.Below id c then descendants c else []
termination_by t.size - id
decreasing_by exact size_sub_lt_of_below ‹_›

/-- The nearest strict ancestor of a kind. -/
def enclosing (id : NodeId) (kind : NodeKind) : Option NodeId :=
  (t.ancestors id).find? fun a => t.kind a == kind

def enclosingClass (id : NodeId) : Option NodeId := t.enclosing id .classDecl

/-- The nearest enclosing method or lambda inside the enclosing class. -/
def enclosingMethod (id : NodeId) : Option NodeId :=
  ((t.ancestors id).takeWhile fun a => t.kind a != .classDecl).find? fun a =>
    t.kind a == .method || t.kind a == .lambda

/-! ### Parts of a node -/

def childrenOfKind (id : NodeId) (kind : NodeKind) : List NodeId :=
  (t.children id).filter fun c => t.kind c == kind

def annotations (id : NodeId) : List NodeId := t.childrenOfKind id .annotationUse

def parameters (id : NodeId) : List NodeId := t.childrenOfKind id .parameter

/-- The initializer of a field or local variable. -/
def initializer (id : NodeId) : Option NodeId :=
  match t.kind id with
  | .field | .localVariable => (t.children id).reverse.find? fun c => t.kind c != .annotationUse
  | _ => none

/-- The arguments of a call or a constructor call, without the receiver and
without an anonymous class body. -/
def arguments (id : NodeId) : List NodeId :=
  (t.children id).filter fun c => some c != t.qualifier id && t.kind c != .classDecl

/-- What parentheses and casts pass on. -/
def skipParentheses (id : NodeId) : NodeId :=
  if (t.kind id).isTransparent then
    match (t.children id).getLast? with
    | some inner => if _ : t.Below id inner then skipParentheses inner else inner
    | none => id
  else id
termination_by t.size - id
decreasing_by exact size_sub_lt_of_below ‹_›

/-- The nearest strict ancestor that is neither parenthesis nor cast. -/
def skipParenthesesUp (id : NodeId) : Option NodeId :=
  (t.ancestors id).find? fun a => !(t.kind a).isTransparent

def sourceText (id : NodeId) : Option String :=
  t.source.bind fun s => Text.slice? s (t.node id).start (t.node id).stop

def location (id : NodeId) : Location :=
  let n := t.node id
  { file := t.file, start := n.start, stop := n.stop, line := n.line, column := n.column }

/-! ### Names -/

/-- The declaration of a name that one scope offers to a node below its child
`child`: a field of a class, a parameter of a method or lambda, and elsewhere
the last variable declared before `child`. -/
def declaredIn (scope child : NodeId) (name : String) : Option NodeId :=
  let isNamed := fun c => t.name c == some name
  match t.kind scope with
  | .classDecl => (t.children scope).find? fun c => t.kind c == .field && isNamed c
  | .method | .lambda => (t.children scope).find? fun c => t.kind c == .parameter && isNamed c
  | _ =>
    let earlier :=
      if (t.children scope).contains child then (t.children scope).takeWhile (· != child) else []
    earlier.reverse.find? fun c =>
      (t.kind c == .localVariable || t.kind c == .parameter) && isNamed c

/-- Searches scopes from the inside out; `child` is the node that leads from
the first scope toward the use of the name. -/
def resolveThrough (name : String) : NodeId → List NodeId → Option NodeId
  | _, [] => none
  | child, scope :: scopes =>
    match t.declaredIn scope child name with
    | some d => some d
    | none => resolveThrough name scope scopes

/-- The declaration that a simple name refers to, by the scopes around its
use. -/
def resolveLocal (name : String) (use : NodeId) : Option NodeId :=
  t.resolveThrough name use (t.ancestors use)

/-- The names of a class and the classes around it, outermost first; `none`
if one of them has no name. -/
def classNames (id : NodeId) : Option (List String) := do
  let own ← t.name id
  let outer ← ((t.ancestors id).filter fun a => t.kind a == .classDecl).mapM t.name
  return (own :: outer).reverse

/-- The dotted name of a class declaration. -/
def qualifiedClassName (id : NodeId) : Option String := do
  let names ← t.classNames id
  let dotted := Text.join "." names
  return if t.imports.package.isEmpty then dotted else t.imports.package ++ "." ++ dotted

/-- The dotted text of a chain of selections such as `android.os.Build`. -/
def dottedName (id : NodeId) : Option String :=
  match t.kind id with
  | .reference => t.name id
  | .select =>
    match t.name id with
    | none => none
    | some name =>
      match t.qualifier id with
      | none => some name
      | some q =>
        if _ : t.Below id q then (dottedName q).map (· ++ "." ++ name) else none
  | _ => none
termination_by t.size - id
decreasing_by exact size_sub_lt_of_below ‹_›

end Tree

end LintEngine
