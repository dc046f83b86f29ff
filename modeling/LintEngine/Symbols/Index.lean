import LintEngine.Symbols.Table

/-!
The classes that a unit declares, as symbols. Symbols outlive the unit, so
names in annotation attributes are resolved by class and not by node.
-/

namespace LintEngine

namespace Tree

variable (t : Tree)

def symbolAnnotations (context : String) (id : NodeId) : List Annotation :=
  (t.annotations id).map fun a =>
    { Annotation.ofNode t a (some context) with node := none }

def fieldSymbol (owner : String) (id : NodeId) : FieldSymbol :=
  let n := t.node id
  { name := n.name.getD ""
    typeName := n.typeName
    modifiers := n.modifiers
    initializer := (t.initializer id).map (Expr.ofNode t)
    annotations := t.symbolAnnotations owner id }

def methodSymbol (owner : String) (id : NodeId) : MethodSymbol :=
  let n := t.node id
  { name := n.name.getD ""
    returnType := n.typeName
    parameters := (t.parameters id).map fun p =>
      { name := (t.name p).getD ""
        typeName := t.typeName p
        annotations := t.symbolAnnotations owner p }
    annotations := t.symbolAnnotations owner id
    modifiers := n.modifiers }

/-- The symbol of a class declaration; a class without a dotted name has
none. -/
def classSymbol (id : NodeId) : Option ClassSymbol :=
  (t.qualifiedClassName id).map fun name =>
    let n := t.node id
    { name := name
      package := t.imports.package
      kind := n.classKind.getD .plain
      modifiers := n.modifiers
      superclass := n.superclass
      interfaces := n.interfaces
      annotations := t.symbolAnnotations name id
      fields := (t.childrenOfKind id .field).map (t.fieldSymbol name)
      methods := (t.childrenOfKind id .method).map (t.methodSymbol name)
      outer := (t.enclosingClass id).bind t.qualifiedClassName
      imports := t.imports
      origin := if t.phase == .bytecode then .compiled else .source
      file := some t.file }

/-- The symbols of all named classes of a unit with code. -/
def classSymbols : List ClassSymbol :=
  if t.phase.hasCode then
    (t.ids.filter fun id => t.kind id == .classDecl).filterMap t.classSymbol
  else []

end Tree

/-- The table of the classes in the units, then of those known otherwise. -/
def SymbolTable.ofUnits (units : List Tree) (compiled : List ClassSymbol) : SymbolTable :=
  SymbolTable.ofClasses (units.flatMap Tree.classSymbols ++ compiled)

end LintEngine
