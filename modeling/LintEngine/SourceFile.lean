import LintEngine.Catalog
import LintEngine.Java.Lowering
import LintEngine.Xml.Lowering

/-!
The kinds of files that are analysed, and how each becomes a tree.
-/

namespace LintEngine

inductive FileType where
  | java
  /-- Layouts, values and other resources. -/
  | xml
  | manifest
  | versionCatalog
deriving DecidableEq, Repr, Inhabited

namespace FileType

/-- The kind of a file, by its name. -/
def ofPath? (path : Path) : Option FileType := do
  let name ← path.fileName
  if name == "AndroidManifest.xml" then return .manifest
  if Text.endsWith ".versions.toml" name then return .versionCatalog
  match ← path.extension with
  | "java" => return .java
  | "xml" => return .xml
  | _ => none

def phase : FileType → Phase
  | java => .source
  | xml | manifest => .xml
  | versionCatalog => .build

def scope : FileType → Scope
  | java => .javaFile
  | xml => .resourceFile
  | manifest => .manifest
  | versionCatalog => .gradleFile

def name : FileType → String
  | java => "Java"
  | xml => "Xml"
  | manifest => "Manifest"
  | versionCatalog => "VersionCatalog"

end FileType

/-- A file to analyse. -/
structure SourceFile where
  path : Path
  type : FileType
deriving Inhabited, Repr

/-- The tree of a text. -/
def parseSource (path : Path) (type : FileType) (source : String) : Except LintError Tree :=
  match type with
  | .java => .ok (Java.toTree path source)
  | .xml | .manifest => Xml.toTree path type.scope source
  | .versionCatalog => Catalog.toTree path source

end LintEngine
