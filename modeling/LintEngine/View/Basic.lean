import LintEngine.Error
import LintEngine.Symbols.Index

/-!
A view is one unit seen against the symbol table. Detectors ask it every
question about meaning. An answer that cannot be found is `none`, `false` or
empty; only `internalName` reports a failure, because its answer is used as a
key.
-/

namespace LintEngine

structure View where
  tree : Tree
  symbols : SymbolTable
  /-- The annotation names that are of interest; `none` means all of them. -/
  relevant : Option (List String) := none

/-- A call bound, as far as possible, to a method. -/
structure MethodRef where
  name : String
  /-- The number of arguments at the call. -/
  arity : Nat
  /-- The static type of the receiver, or the enclosing class of an
  unqualified call. -/
  receiver : Option String := none
  /-- The class that declares the method. -/
  owner : Option String := none
  symbol : Option MethodSymbol := none
deriving Inhabited

namespace MethodRef

def ownerOrReceiver (m : MethodRef) : Option String := m.owner <|> m.receiver

/-- The declaration of the bound method. -/
def declaration (m : MethodRef) : Option Declaration := do
  let symbol ← m.symbol
  let owner ← m.owner
  return .method owner m.name symbol.arity

end MethodRef

namespace View

variable (v : View)

/-- The qualified name of the class that is, or encloses, a node. -/
def classNameOf (id : NodeId) : Option String :=
  let decl := if v.tree.kind id == .classDecl then some id else v.tree.enclosingClass id
  decl.bind v.tree.qualifiedClassName

/-- Qualifies a type name written at a node. -/
def qualifyType (name : String) (id : NodeId) : Option String :=
  v.symbols.qualify v.tree.imports (v.classNameOf id) name

/-- Whether a call binds to a member of a class or of a subtype. -/
def isMemberOf (m : MethodRef) (className : String) : Bool :=
  m.ownerOrReceiver.any fun owner =>
    v.symbols.extendsClass owner className false || v.symbols.implementsInterface owner className false

/-- The binary name of a class in a package. -/
def binaryName (package name : String) : String :=
  let relative := match Text.dropPrefix? package name with
    | some rest => Text.trimStartMatches "." rest
    | none => name
  let nested := Text.replace "." "$" relative
  if package.isEmpty then nested else Text.replace "." "/" package ++ "/" ++ nested

/-- The binary name of a type, such as `android/view/View$OnClickListener`.
An unknown class is split where its first capitalised segment stands. -/
def internalName (typeName : String) : Except LintError String :=
  let name := TypeName.strip typeName
  match v.symbols.class? name with
  | some c => .ok (binaryName c.package c.name)
  | none =>
    if TypeName.isPrimitive name then .error (.unresolvedType typeName)
    else
      let segments := Text.split '.' name
      let package := segments.takeWhile fun s => !Text.startsUpper s
      let nested := segments.drop package.length
      if package.isEmpty || nested.isEmpty then .error (.unresolvedType typeName)
      else .ok (Text.join "/" package ++ "/" ++ Text.join "$" nested)

end View

end LintEngine
