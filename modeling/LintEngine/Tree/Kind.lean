/-!
The closed vocabularies of the program model: the phases a unit is walked in,
the kinds of files, the kinds of nodes and classes, and the modifiers of a
declaration.
-/

namespace LintEngine

/-- A traversal phase; every unit belongs to one. -/
inductive Phase where
  | source
  | bytecode
  | xml
  | build
deriving DecidableEq, Repr, Inhabited

def Phase.all : List Phase := [.source, .bytecode, .xml, .build]

/-- Calls, constructors and annotations exist in this phase. -/
def Phase.hasCode : Phase → Bool
  | .source | .bytecode => true
  | .xml | .build => false

/-- The kinds of file that an issue can apply to. -/
inductive Scope where
  | javaFile
  | classFile
  | resourceFile
  | manifest
  | gradleFile
deriving DecidableEq, Repr, Inhabited

def Scope.all : List Scope := [.javaFile, .classFile, .resourceFile, .manifest, .gradleFile]

inductive NodeKind where
  | file
  | importDecl
  | classDecl
  | method
  | field
  | parameter
  | localVariable
  | annotationUse
  | annotationArgument
  | block
  | expressionStatement
  | call
  | new
  | reference
  | select
  | literal
  | binary
  | unary
  | conditional
  | assignment
  | ret
  | ifStatement
  | switch
  | case
  | loop
  | tryStatement
  | throw
  | arrayInit
  | parenthesized
  | lambda
  | cast
  | other
  | document
  | xmlElement
  | xmlAttribute
  | dependency
deriving DecidableEq, Repr, Inhabited

namespace NodeKind

/-- Every kind with its name, in the order of the constructors. -/
def names : List (NodeKind × String) :=
  [(file, "File"), (importDecl, "Import"), (classDecl, "Class"), (method, "Method"),
   (field, "Field"), (parameter, "Parameter"), (localVariable, "LocalVariable"),
   (annotationUse, "Annotation"), (annotationArgument, "AnnotationArgument"), (block, "Block"),
   (expressionStatement, "ExpressionStatement"), (call, "Call"), (new, "New"),
   (reference, "Reference"), (select, "Select"), (literal, "Literal"), (binary, "Binary"),
   (unary, "Unary"), (conditional, "Conditional"), (assignment, "Assignment"), (ret, "Return"),
   (ifStatement, "If"), (switch, "Switch"), (case, "Case"), (loop, "Loop"), (tryStatement, "Try"),
   (throw, "Throw"), (arrayInit, "ArrayInit"), (parenthesized, "Parenthesized"),
   (lambda, "Lambda"), (cast, "Cast"), (other, "Other"), (document, "Document"),
   (xmlElement, "Element"), (xmlAttribute, "Attribute"), (dependency, "Dependency")]

def name (k : NodeKind) : String := (names.lookup k).getD ""

def ofName? (s : String) : Option NodeKind := (names.find? (·.2 == s)).map (·.1)

/-- The phases in which a node of this kind can stand. -/
def phases : NodeKind → List Phase
  | document | xmlElement | xmlAttribute => [.xml]
  | dependency => [.build]
  | other => Phase.all
  | _ => [.source, .bytecode]

def occursIn (k : NodeKind) (p : Phase) : Bool := k.phases.contains p

/-- Declarations can carry annotations. -/
def isDeclaration : NodeKind → Bool
  | classDecl | method | field | parameter | localVariable => true
  | _ => false

/-- Parentheses and casts pass a value on. -/
def isTransparent : NodeKind → Bool
  | parenthesized | cast => true
  | _ => false

end NodeKind

/-- The name of a phase. -/
def Phase.name : Phase → String
  | .source => "Source"
  | .bytecode => "Bytecode"
  | .xml => "Xml"
  | .build => "Build"

def Scope.name : Scope → String
  | .javaFile => "JavaFile"
  | .classFile => "ClassFile"
  | .resourceFile => "ResourceFile"
  | .manifest => "Manifest"
  | .gradleFile => "GradleFile"

inductive ClassKind where
  | plain
  | interface
  | enum
  | annotationType
  | record
deriving DecidableEq, Repr, Inhabited

def ClassKind.name : ClassKind → String
  | .plain => "Class"
  | .interface => "Interface"
  | .enum => "Enum"
  | .annotationType => "Annotation"
  | .record => "Record"

/-- The modifiers of a declaration that the analyses look at. -/
structure Modifiers where
  isPublic : Bool := false
  isProtected : Bool := false
  isPrivate : Bool := false
  isStatic : Bool := false
  isFinal : Bool := false
  isAbstract : Bool := false
deriving DecidableEq, Repr, Inhabited

/-- The names of the modifiers that hold, in a fixed order. -/
def Modifiers.names (m : Modifiers) : List String :=
  [(m.isPublic, "public"), (m.isProtected, "protected"), (m.isPrivate, "private"),
   (m.isStatic, "static"), (m.isFinal, "final"), (m.isAbstract, "abstract")].filterMap
    fun (holds, name) => if holds then some name else none

/-- The modifiers named in a list; other words are passed over. -/
def Modifiers.ofNames (words : List String) : Modifiers where
  isPublic := words.contains "public"
  isProtected := words.contains "protected"
  isPrivate := words.contains "private"
  isStatic := words.contains "static"
  isFinal := words.contains "final"
  isAbstract := words.contains "abstract"

end LintEngine
