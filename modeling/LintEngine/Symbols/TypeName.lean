import LintEngine.Symbols.Basic

/-!
Type names as written, and the rules by which a written name is qualified.

`stripType` reduces the text of a type to its name. `qualify` follows the
scope order of the language: the enclosing classes and their members from the
inside out, single-type imports, the own package, wildcard imports, and last
the names that need no import.
-/

namespace LintEngine

namespace TypeName

/-- The names of `java.lang` that are known without an import. -/
def implicitlyImported : List String :=
  ["Object", "String", "CharSequence", "Integer", "Long", "Short", "Byte", "Character", "Boolean",
   "Float", "Double", "Number", "Math", "System", "Thread", "Runnable", "Iterable", "Comparable",
   "AutoCloseable", "Class", "Enum", "Exception", "RuntimeException", "Error", "Throwable",
   "Override", "Deprecated", "SuppressWarnings", "FunctionalInterface", "SafeVarargs",
   "StringBuilder"]

def primitives : List String :=
  ["int", "long", "short", "byte", "char", "boolean", "float", "double", "void"]

def isPrimitive (name : String) : Bool := primitives.contains name

/-- Drops array and varargs markers from the end of a type, given in reverse. -/
def dropMarkers : List Char → List Char
  | ']' :: '[' :: cs => dropMarkers cs
  | '.' :: '.' :: '.' :: cs => dropMarkers cs
  | cs => cs

/-- The name of a type without annotations before it, type arguments and
array or varargs markers. -/
def strip (written : String) : String :=
  let word := (Text.words written).getLastD ""
  let raw := word.toList.takeWhile (· != '<')
  String.ofList (dropMarkers raw.reverse).reverse

/-- The class scopes around a name, from the inside out: the enclosing class
and its outer classes, as far as their names are longer than the package. -/
def scopesFrom (package : String) : Nat → String → List String
  | 0, scope => [scope]
  | n + 1, scope =>
    scope :: match Text.splitLast? '.' scope with
      | some (outer, _) =>
        if package.utf8ByteSize < outer.utf8ByteSize then scopesFrom package n outer else []
      | none => []

def scopes (package enclosing : String) : List String :=
  scopesFrom package enclosing.length enclosing

/-- What one class scope offers for a simple name: itself, then a member. -/
def inScope (known : String → Bool) (name scope : String) : Option String :=
  if Text.lastField '.' scope == name && known scope then some scope
  else if known (scope ++ "." ++ name) then some (scope ++ "." ++ name)
  else none

def inPackage (package name : String) : String :=
  if package.isEmpty then name else package ++ "." ++ name

/-- Qualifies a simple name. -/
def qualifySimple (known : String → Bool) (ctx : Imports) (enclosing : Option String)
    (name : String) : Option String :=
  let fromClasses := enclosing.bind fun e => (scopes ctx.package e).findSome? (inScope known name)
  let fromPackage := if known (inPackage ctx.package name) then some (inPackage ctx.package name) else none
  let fromWildcards := (ctx.wildcards.map (· ++ "." ++ name)).find? known
  let implicit :=
    if implicitlyImported.contains name then some ("java.lang." ++ name) else none
  fromClasses <|> ctx.explicit name <|> fromPackage <|> fromWildcards <|> implicit

/-- Qualifies a type name as seen from a class. A dotted name qualifies its
first segment; when that fails it is taken to be qualified already. -/
def qualify (known : String → Bool) (ctx : Imports) (enclosing : Option String)
    (written : String) : Option String :=
  let name := strip written
  if name.isEmpty then none
  else if isPrimitive name then some name
  else match Text.splitOnce? '.' name with
    | none => qualifySimple known ctx enclosing name
    | some (first, rest) =>
      if known name then some name
      else match qualifySimple known ctx enclosing first with
        | some outer => some (outer ++ "." ++ rest)
        | none => some name

end TypeName

end LintEngine
