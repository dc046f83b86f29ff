import LintEngine.View.Resolve

/-!
Annotations of declarations. The declared ones come first, each followed by
the meta-annotations of its type. When only some names are relevant, an
annotation stays if its own name is relevant or if it carries a relevant
meta-annotation. No name occurs twice in an answer.
-/

namespace LintEngine

namespace View

variable (v : View)

/-- The annotations written on a node, with qualified names. -/
def annotationsOn (id : NodeId) : List Annotation :=
  let context := v.classNameOf id
  (v.tree.annotations id).map fun a =>
    let written := Annotation.ofNode v.tree a context
    { written with name := (v.qualifyType written.name a).getD written.name }

/-- The annotations written on a declaration. -/
def declaredAnnotations : Declaration → List Annotation
  | .localNode id => v.annotationsOn id
  | .classNamed name => ((v.symbols.class? name).map (·.annotations)).getD []
  | .field owner name => ((v.symbols.findField owner name).map (·.2.annotations)).getD []
  | .method owner name arity =>
    ((v.symbols.findMethod owner name arity).map (·.2.annotations)).getD []
  | .parameter owner method arity index =>
    (((v.symbols.findMethod owner method arity).bind (·.2.parameters[index]?)).map
      (·.annotations)).getD []

/-- The annotations on supertypes, on overridden methods and on their
parameters. -/
def inheritedAnnotations : Declaration → List Annotation
  | .classNamed name => (v.symbols.hierarchy name).tail.flatMap (·.annotations)
  | .method owner name arity => (v.symbols.overridden owner name arity).flatMap (·.annotations)
  | .parameter owner method arity index =>
    ((v.symbols.overridden owner method arity).filterMap (·.parameters[index]?)).flatMap
      (·.annotations)
  | .localNode _ | .field _ _ => []

/-- Whether an annotation name is of interest. An unresolved name is compared
with the simple names. -/
def isRelevant (name : String) : Bool :=
  match v.relevant with
  | none => true
  | some names =>
    names.contains name ||
      (!name.toList.contains '.' && names.any fun r => Text.lastField '.' r == name)

/-- Annotations of the platform are not looked into. -/
def isPlatform (name : String) : Bool :=
  Text.startsWith "java." name || Text.startsWith "kotlin." name

/-- Annotation types whose meta-annotations count. -/
def isMerged (name : String) : Bool := !isPlatform name && v.symbols.isAnnotationType name

/-- Adds an annotation unless one of its name is there. -/
def addNew (out : List Annotation) (a : Annotation) : List Annotation :=
  if out.any (·.name == a.name) then out else out ++ [a]

/-- What one annotation contributes: itself, if it or one of its
meta-annotations is relevant, and the relevant meta-annotations. -/
def expand (a : Annotation) : List Annotation :=
  let metas := if v.isMerged a.name then v.symbols.metaAnnotations a.name else []
  let relevant := metas.filter fun m => v.isRelevant m.name
  if v.isRelevant a.name || !relevant.isEmpty then a :: relevant else []

/-- Expands annotations in order and keeps the first of every name. -/
def mergeAndFilter (declared : List Annotation) : List Annotation :=
  (declared.flatMap v.expand).foldl addNew []

/-- The annotations visible on a declaration; inherited ones come last. -/
def allAnnotations (d : Declaration) (inherited : Bool) : List Annotation :=
  v.mergeAndFilter (v.declaredAnnotations d ++ if inherited then v.inheritedAnnotations d else [])

def nodeAnnotations (id : NodeId) : List Annotation := v.mergeAndFilter (v.annotationsOn id)

def methodAnnotations (m : MethodRef) : List Annotation :=
  match m.declaration with
  | some d => v.allAnnotations d true
  | none => []

/-- The parameter that an argument is bound to. Surplus arguments all belong
to the last one. -/
def parameterOf (m : MethodRef) (index : Nat) : Option Declaration := do
  let owner ← m.owner
  let symbol ← m.symbol
  if symbol.parameters.isEmpty then none
  else some (.parameter owner m.name symbol.arity (min index (symbol.arity - 1)))

def parameterAnnotations (m : MethodRef) (index : Nat) : List Annotation :=
  match parameterOf m index with
  | some d => v.allAnnotations d true
  | none => []

/-! ### Counting merges -/

/-- Asks for the merges that expanding annotations needs, in order. -/
def remember (memo : SymbolTable.Memo) (declared : List Annotation) : SymbolTable.Memo :=
  (declared.filter fun a => v.isMerged a.name).foldl
    (fun memo a => (v.symbols.mergedAnnotations memo a.name).2) memo

/-- The merges behind `allAnnotations`. -/
def rememberAll (memo : SymbolTable.Memo) (d : Declaration) (inherited : Bool) :
    SymbolTable.Memo :=
  v.remember memo (v.declaredAnnotations d ++ if inherited then v.inheritedAnnotations d else [])

end View

end LintEngine
