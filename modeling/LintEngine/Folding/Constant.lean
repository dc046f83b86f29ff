import LintEngine.Folding.Arithmetic
import LintEngine.View.Basic

/-!
Constant folding. Literals, `final` variables and the fields of interfaces
fold through arithmetic, concatenation, casts and conditionals; everything
else has no constant value.

Names are looked up from a node of the unit or from a class of the symbol
table. Folding stops at a fixed depth, which also ends cycles of constants
that refer to each other.
-/

namespace LintEngine

/-- Where the names in an expression are looked up. -/
inductive EvalScope where
  | node (id : NodeId)
  | inClass (name : String)
deriving Repr, Inhabited

namespace View

variable (v : View)

/-- The deepest expression that folds has this many levels. -/
def maxDepth : Nat := 33

/-- The class that a scope lies in. -/
def scopeClass : EvalScope → Option String
  | .node id => v.classNameOf id
  | .inClass name => if name.isEmpty then none else some name

/-- The imports that are in force in a class. -/
def importsOf (name : Option String) : Imports :=
  match name.bind v.symbols.class? with
  | some c => c.imports
  | none => v.tree.imports

/-- The owner that a static import gives for a simple name. -/
def staticOwner (name path : String) : Option String :=
  Text.dropSuffix? ("." ++ name) path <|> Text.dropSuffix? ".*" path

/-- The fields that a name in a class can mean, in the order in which they
are tried. -/
def fieldCandidates (className qualifier : Option String) (name : String) :
    List (ClassSymbol × FieldSymbol) :=
  let imports := v.importsOf className
  match qualifier with
  | some q =>
    ((v.symbols.qualify imports className q).bind fun o => v.symbols.findField o name).toList
  | none =>
    let member := v.symbols.askScopes (fun c => v.symbols.findField c name) className
    match member with
    | some found => [found]
    | none => imports.static.filterMap fun path =>
      (staticOwner name path).bind fun o => v.symbols.findField o name

/-- A field whose initializer may be folded. -/
def isConstantField (owner : ClassSymbol) (f : FieldSymbol) : Bool :=
  f.modifiers.isFinal || owner.kind == .interface

/-- A variable or field of the unit whose initializer may be folded. -/
def isConstantNode (id : NodeId) : Bool :=
  let n := v.tree.node id
  match n.kind with
  | .localVariable => n.modifiers.isFinal
  | .field =>
    n.modifiers.isFinal ||
      (v.tree.enclosingClass id).bind (fun c => (v.tree.node c).classKind) == some .interface
  | _ => false

/-- Folds an expression with at most `depth` levels. -/
def fold : Nat → EvalScope → Expr → Option Literal
  | 0, _, _ => none
  | depth + 1, scope, e =>
    let t := v.tree
    let field := fun (owner, f) =>
      if isConstantField owner f then
        f.initializer.bind fun e => fold depth (.inClass owner.name) e
      else none
    match e with
    | .literal l => some l
    | .reference qualifier name =>
      let declared := match scope, qualifier with
        | .node id, none => t.resolveLocal name id
        | _, _ => none
      match declared with
      | some d =>
        if v.isConstantNode d then
          (t.initializer d).bind fun i => fold depth (.node i) (Expr.ofNode t i)
        else none
      | none => (v.fieldCandidates (v.scopeClass scope) qualifier name).findSome? field
    | .unary op x => (fold depth scope x).bind (Folding.unary op)
    | .binary op l r => do
      let l ← fold depth scope l
      let r ← fold depth scope r
      Folding.binary op l r
    | .conditional c yes no =>
      match (fold depth scope c).bind Literal.asBool with
      | some true => fold depth scope yes
      | some false => fold depth scope no
      | none => do
        let yes ← fold depth scope yes
        let no ← fold depth scope no
        if yes == no then some yes else none
    | .cast type x => (fold depth scope x).bind (Folding.cast type)
    | .array _ | .unknown => none

/-- The constant value of an expression. -/
def evaluate (e : Expr) (scope : EvalScope) : Option Literal := v.fold maxDepth scope e

/-- The constant value of an expression node. -/
def evaluateNode (id : NodeId) : Option Literal := v.evaluate (Expr.ofNode v.tree id) (.node id)

/-- The constant values of an expression. An array gives one per element, and
nothing if one of them is unknown. -/
def evaluateAll (e : Expr) (scope : EvalScope) : Option (List Literal) :=
  match e with
  | .array items => items.mapM fun e => v.evaluate e scope
  | e => (v.evaluate e scope).map ([·])

/-- The field that a reference names. -/
def resolveField (e : Expr) (scope : EvalScope) : Option Declaration :=
  match e with
  | .reference qualifier name =>
    let declared := match scope, qualifier with
      | .node id, none => v.tree.resolveLocal name id
      | _, _ => none
    match declared with
    | some d =>
      if v.tree.kind d == .field then some (.field ((v.classNameOf d).getD "") name) else none
    | none =>
      (v.fieldCandidates (v.scopeClass scope) qualifier name).head?.map fun (owner, f) =>
        .field owner.name f.name
  | _ => none

/-- The scope of the names in an annotation's attributes. -/
def annotationScope (a : Annotation) : EvalScope :=
  match a.node with
  | some id => .node id
  | none => .inClass (a.context.getD "")

/-- The constant value of an attribute. -/
def attributeValue (a : Annotation) (name : String) : Option Literal :=
  (a.attribute? name).bind fun e => v.evaluate e (annotationScope a)

end View

end LintEngine
