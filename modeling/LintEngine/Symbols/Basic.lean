import LintEngine.Expr
import LintEngine.Text.Case

/-!
Symbols: what is known about classes and their members independently of the
unit that declares them.
-/

namespace LintEngine

/-- Where a class is known from. -/
inductive Origin where
  | source
  | compiled
deriving DecidableEq, Repr, Inhabited

/-- An annotation as written on a declaration. -/
structure Annotation where
  /-- The qualified name where it can be resolved, else the written one. -/
  name : String
  /-- Attribute values in the order of writing; a bare value is named
  `value`. -/
  attributes : List (String × Expr) := []
  /-- The node of an annotation in the unit under analysis. -/
  node : Option NodeId := none
  /-- The class whose scope gives meaning to names in attribute values. -/
  context : Option String := none
deriving Inhabited, BEq

namespace Annotation

/-- Reads an annotation node. -/
def ofNode (t : Tree) (id : NodeId) (context : Option String) : Annotation where
  name := (t.name id).getD ""
  attributes := (t.childrenOfKind id .annotationArgument).map fun arg =>
    ((t.name arg).getD "value", ((t.children arg).head?.map (Expr.ofNode t)).getD .unknown)
  node := some id
  context := context

def attribute? (a : Annotation) (name : String) : Option Expr :=
  (a.attributes.find? (·.1 == name)).map (·.2)

def value? (a : Annotation) : Option Expr := a.attribute? "value"

def simpleName (a : Annotation) : String := Text.lastField '.' a.name

/-- Whether the annotation is the one with a qualified name. An unresolved
name matches by its simple name. -/
def is (a : Annotation) (qualified : String) : Bool :=
  a.name == qualified ||
    (!a.name.toList.contains '.' && Text.lastField '.' qualified == a.name)

end Annotation

structure FieldSymbol where
  name : String
  typeName : Option String := none
  modifiers : Modifiers := {}
  initializer : Option Expr := none
  annotations : List Annotation := []
deriving Inhabited, BEq

structure ParameterSymbol where
  name : String := ""
  typeName : Option String := none
  annotations : List Annotation := []
deriving Inhabited, BEq

structure MethodSymbol where
  name : String
  /-- Constructors have no return type. -/
  returnType : Option String := none
  parameters : List ParameterSymbol := []
  annotations : List Annotation := []
  modifiers : Modifiers := {}
deriving Inhabited, BEq

namespace MethodSymbol

def isConstructor (m : MethodSymbol) : Bool := m.returnType.isNone

def arity (m : MethodSymbol) : Nat := m.parameters.length

/-- The last parameter takes any number of arguments. -/
def isVariadic (m : MethodSymbol) : Bool :=
  (m.parameters.getLast?.bind (·.typeName)).any (Text.endsWith "...")

/-- Whether a call with `n` arguments can bind to the method. -/
def accepts (m : MethodSymbol) (n : Nat) : Bool :=
  if m.isVariadic then m.arity ≤ n + 1 else n == m.arity

end MethodSymbol

structure ClassSymbol where
  /-- The dotted qualified name; nested classes are joined by points too. -/
  name : String
  package : String := ""
  kind : ClassKind := .plain
  modifiers : Modifiers := {}
  superclass : Option String := none
  interfaces : List String := []
  annotations : List Annotation := []
  fields : List FieldSymbol := []
  methods : List MethodSymbol := []
  outer : Option String := none
  imports : Imports := {}
  origin : Origin := .compiled
  file : Option Path := none
deriving Inhabited

namespace ClassSymbol

/-- The package of a class known only by name: its leading segments in lower
case. -/
def packageOf (name : String) : String :=
  Text.join "." ((Text.split '.' name).takeWhile Text.startsLower)

/-- A class known only by name. -/
def compiled (name : String) (kind : ClassKind) : ClassSymbol where
  name := name
  package := packageOf name
  kind := kind
  imports := { package := packageOf name }

def field? (c : ClassSymbol) (name : String) : Option FieldSymbol :=
  c.fields.find? (·.name == name)

/-- The first method with a name that accepts a number of arguments. -/
def method? (c : ClassSymbol) (name : String) (arity : Nat) : Option MethodSymbol :=
  c.methods.find? fun m => m.name == name && m.accepts arity

def simpleName (c : ClassSymbol) : String := Text.lastField '.' c.name

/-- The classes named after `extends` and `implements`, in that order. -/
def supertypes (c : ClassSymbol) : List String := c.superclass.toList ++ c.interfaces

end ClassSymbol

/-- What a name or node refers to. -/
inductive Declaration where
  /-- A local variable or parameter of the current unit. -/
  | localNode (id : NodeId)
  | classNamed (name : String)
  | field (owner name : String)
  | method (owner name : String) (arity : Nat)
  | parameter (owner method : String) (arity index : Nat)
deriving DecidableEq, Repr, Inhabited

end LintEngine
