import LintEngine.View.Basic

/-!
Binding names, calls and types.

The four functions `resolveWithin`, `typeWithin`, `declaredWithin` and
`callWithin` call each other. A call goes to a node below, to a declaration
that answers at once, or from a reference into the initializer of a variable
declared before it. So no path visits a node twice in the same function, and
a bound of four calls per node is never reached; `resolve`, `typeOf` and
`resolveCall` supply it.
-/

namespace LintEngine

namespace View

variable (v : View)

/-- A field that a class declares or inherits. -/
def memberField (name className : String) : Option Declaration :=
  (v.symbols.findField className name).map fun (owner, _) => .field owner.name name

/-- A field that a static import names. -/
def importedField (name : String) : Option Declaration :=
  v.tree.imports.static.findSome? fun path =>
    match Text.dropSuffix? ("." ++ name) path with
    | some owner => some (.field owner name)
    | none => match Text.dropSuffix? ".*" path with
      | some owner =>
        if (v.symbols.findField owner name).isSome then some (.field owner name) else none
      | none => none

/-- A field that a simple name can mean without a qualifier: a member of the
enclosing classes, or a static import. -/
def fieldInScope (id : NodeId) (name : String) : Option Declaration :=
  v.symbols.askScopes (v.memberField name) (v.classNameOf id) <|> v.importedField name

/-- A class, if it declares or inherits a method for a call. -/
def methodHolder (name : String) (arity : Nat) (className : String) : Option String :=
  if (v.symbols.findMethod className name arity).isSome then some className else none

/-- The class that receives a call without a qualifier. -/
def unqualifiedReceiver (id : NodeId) (name : String) (arity : Nat) : Option String :=
  let innermost := v.classNameOf id
  if name == "super" then (innermost.bind v.symbols.class?).bind (·.superclass)
  else if name == "this" then innermost
  else
    let member := v.symbols.askScopes (v.methodHolder name arity) innermost
    let imported := v.tree.imports.static.findSome? (Text.dropSuffix? ("." ++ name))
    member <|> imported <|> innermost

/-- Completes a call with the method that its receiver declares or inherits. -/
def bindMethod (name : String) (arity : Nat) (receiver : Option String) : MethodRef :=
  match receiver.bind fun r => v.symbols.findMethod r name arity with
  | some (owner, symbol) =>
    { name, arity, receiver, owner := some owner.name, symbol := some symbol }
  | none => { name, arity, receiver }

/-- What a selection from a class names: a nested class, a field, or by its
spelling one of the two. -/
def memberOfClass (owner name : String) : Declaration :=
  let nested := owner ++ "." ++ name
  if (v.symbols.class? nested).isSome then .classNamed nested
  else match v.symbols.findField owner name with
    | some (c, _) => .field c.name name
    | none =>
      if Text.startsUpper name && name.toList.any Text.isLower then .classNamed nested
      else .field owner name

/-- A class named with its package, such as `android.os.Build`, is known or
spelled like one. -/
def packagedClass (id : NodeId) (name : String) : Option Declaration := do
  let dotted ← v.tree.dottedName id
  let package := (Text.split '.' dotted).dropLast
  let looksLikeType := Text.startsUpper name && package.all Text.startsLower
  if looksLikeType || (v.symbols.class? dotted).isSome then some (.classNamed dotted) else none

/-- Operators whose result is a truth value. -/
def isRelational (op : String) : Bool :=
  ["==", "!=", "<", "<=", ">", ">=", "&&", "||", "instanceof"].contains op

/-- The type of the other binary operators. -/
def operandType (op : String) (lhs rhs : Option String) : Option String :=
  let string := some "java.lang.String"
  if op == "+" && (lhs == string || rhs == string) then string else lhs <|> rhs

mutual

/-- What a reference, call, declaration or annotation refers to. -/
def resolveWithin : Nat → NodeId → Option Declaration
  | 0, _ => none
  | n + 1, id =>
    let t := v.tree
    match t.kind id with
    | .reference => do
      let name ← t.name id
      if name == "this" then (v.classNameOf id).map .classNamed
      else match t.resolveLocal name id with
        | some decl => resolveWithin n decl
        | none => v.fieldInScope id name <|> (v.qualifyType name id).map .classNamed
    | .select => do
      let name ← t.name id
      let q ← t.qualifier id
      match resolveWithin n q with
      | some (.classNamed owner) => some (v.memberOfClass owner name)
      | some _ => do
        let owner ← typeWithin n q
        let (c, _) ← v.symbols.findField owner name
        return .field c.name name
      | none => v.packagedClass id name
    | .call => (callWithin n id).bind MethodRef.declaration
    | .new => ((t.typeName id).bind fun type => v.qualifyType type id).map .classNamed
    | .classDecl => (t.qualifiedClassName id).map .classNamed
    | .field => do return .field (← v.classNameOf id) (← t.name id)
    | .method => do return .method (← v.classNameOf id) (← t.name id) (t.parameters id).length
    | .localVariable | .parameter => some (.localNode id)
    | .annotationUse => (t.name id).map fun name => .classNamed ((v.qualifyType name id).getD name)
    | .parenthesized | .cast =>
      let inner := t.skipParentheses id
      if inner == id then none else resolveWithin n inner
    | _ => none

/-- The static type of an expression, qualified where possible. -/
def typeWithin : Nat → NodeId → Option String
  | 0, _ => none
  | n + 1, id =>
    let t := v.tree
    let child := fun (i : Nat) => ((t.children id)[i]?).bind fun c => typeWithin n c
    match t.kind id with
    | .literal => match (t.node id).literal with
      | some .null => none
      | some l => some l.typeName
      | none => none
    | .reference | .select => do
      match ← resolveWithin n id with
      | .localNode decl => declaredWithin n decl
      | .field owner name =>
        match v.symbols.findField owner name with
        | some (_, f) => f.typeName
        | none => if t.kind id == .select && name == "length" then some "int" else none
      | .classNamed c => some c
      | _ => none
    | .call => ((callWithin n id).bind (·.symbol)).bind (·.returnType)
    | .new | .cast => (t.typeName id).bind fun type => v.qualifyType type id
    | .parenthesized => (t.children id).getLast?.bind fun c => typeWithin n c
    | .conditional => child 1
    | .assignment | .unary => child 0
    | .binary => do
      let op ← (t.node id).operator
      if isRelational op then some "boolean" else operandType op (child 0) (child 1)
    | _ => none

/-- The declared type of a variable; a `var` has the type of its
initializer. -/
def declaredWithin : Nat → NodeId → Option String
  | 0, _ => none
  | n + 1, id => do
    let written ← v.tree.typeName id
    if written == "var" then (v.tree.initializer id).bind fun i => typeWithin n i
    else some ((v.qualifyType written id).getD (TypeName.strip written))

/-- Binds a call to the type of its receiver and, if known, to a method. -/
def callWithin : Nat → NodeId → Option MethodRef
  | 0, _ => none
  | n + 1, id => do
    let t := v.tree
    let name ← t.name id
    let arity := (t.arguments id).length
    let receiver := match t.qualifier id with
      | none => v.unqualifiedReceiver id name arity
      | some q =>
        if t.kind q == .reference && t.name q == some "super" then
          ((v.classNameOf id).bind v.symbols.class?).bind (·.superclass)
        else match resolveWithin n q with
          | some (.classNamed c) => some c
          | _ => typeWithin n q
    return v.bindMethod name arity receiver

end

/-- More calls than any path through the four functions makes. -/
def bound : Nat := 4 * (v.tree.size + 1)

def resolve (id : NodeId) : Option Declaration := v.resolveWithin v.bound id

def typeOf (id : NodeId) : Option String := v.typeWithin v.bound id

def resolveCall (id : NodeId) : Option MethodRef := v.callWithin v.bound id

end View

end LintEngine
