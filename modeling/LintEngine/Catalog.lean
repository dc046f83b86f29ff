import LintEngine.Error
import LintEngine.Toml.Reader
import LintEngine.Tree.Builder

/-!
Version catalogs. Every entry of the table `libraries` becomes a dependency
node with its group, artifact and version. A node spans the line of its
entry, so that a comment above the line applies to it.
-/

namespace LintEngine.Catalog

open Toml (Value)

/-! ### Coordinates -/

/-- The version that a value gives: a text, a reference into the table of
versions, or a constraint. -/
def versionOf (versions : Option Value) (v : Value) : Option String :=
  match v with
  | .string s => some s
  | .table _ =>
    match (v.get? "ref").bind Value.string? with
    | some name => (versions.bind (·.get? name)).bind direct
    | none => constraint v
  | _ => none
where
  /-- The first constraint that is a text. -/
  constraint (v : Value) : Option String :=
    ["strictly", "require", "prefer"].findSome? fun key => (v.get? key).bind Value.string?
  /-- A version that may not refer to another one. -/
  direct (v : Value) : Option String :=
    match v with
    | .string s => some s
    | .table _ =>
      if ((v.get? "ref").bind Value.string?).isSome then none else constraint v
    | _ => none

structure Coordinates where
  group : String
  artifact : String
  version : Option String
deriving Inhabited

/-- The coordinates of a library entry. -/
def coordinates? (versions : Option Value) (entry : Value) : Option Coordinates :=
  match entry with
  | .string text => do
    let (group, rest) ← Text.splitOnce? ':' text
    match Text.splitOnce? ':' rest with
    | some (artifact, version) => return ⟨group, artifact, some version⟩
    | none => return ⟨group, rest, none⟩
  | .table _ => do
    let (group, artifact) ← match (entry.get? "module").bind Value.string? with
      | some module => Text.splitOnce? ':' module
      | none => do
        let group ← (entry.get? "group").bind Value.string?
        let name ← (entry.get? "name").bind Value.string?
        pure (group, name)
    return ⟨group, artifact, (entry.get? "version").bind (versionOf versions)⟩
  | _ => none

/-! ### Lines -/

/-- The lines of a text, newlines included, with their byte offsets. -/
def linesFrom (offset : Nat) (cs : List Char) : List (Nat × List Char) :=
  go offset [] cs
where
  /-- `current` holds the characters of the line so far, the last one first. -/
  go (offset : Nat) (current : List Char) : List Char → List (Nat × List Char)
    | [] => if current.isEmpty then [] else [(offset, current.reverse)]
    | c :: cs =>
      if c == '\n' then
        let line := (c :: current).reverse
        (offset, line) :: go (offset + Text.byteLength line) [] cs
      else go offset (c :: current) cs

/-- Where the lines of a section start; 0 if it has no header line. -/
def sectionOffset (source : List Char) (name : String) : Nat :=
  let header := ("[" ++ name ++ "]").toList
  match (linesFrom 0 source).find? fun (_, line) => Text.trimChars line == header with
  | some (offset, line) => offset + Text.byteLength line
  | none => 0

/-- The key that a line starts with. -/
def lineKey (line : List Char) : String :=
  let key := Text.trimChars ((line.dropWhile Text.isBlank).takeWhile fun c => c != '=' && c != '.')
  String.ofList (Text.dropEndWhile (· == '"') (key.dropWhile (· == '"')))

/-- Another table starts here. -/
def endsSection (line : List Char) : Bool :=
  match line.dropWhile Text.isBlank with
  | '[' :: '[' :: _ => false
  | '[' :: _ => true
  | _ => false

/-- The span of the line that defines an alias. -/
def entrySpan? (source : List Char) (start : Nat) (entry : String) : Option (Nat × Nat) := do
  let rest ← Text.dropBytes? source start
  let section_ := (linesFrom start rest).takeWhile fun (_, line) => !endsSection line
  let (offset, line) ← section_.find? fun (_, line) => lineKey line == entry
  let indent := Text.byteLength (line.takeWhile Text.isBlank)
  return (offset + indent, offset + Text.byteLength (Text.dropEndWhile Text.isBlank line))

/-! ### The tree -/

/-- The node of a library entry. -/
def dependency (source : List Char) (start : Nat) (versions : Option Value)
    (entry : String × Value) : Option Payload :=
  (coordinates? versions entry.2).map fun c =>
    let (first, last) := (entrySpan? source start entry.1).getD (0, 0)
    { kind := .dependency
      start := first
      stop := last
      name := some c.artifact
      space := some c.group
      value := c.version }

/-- The tree of a version catalog. Entries are visited by alias and then
ordered by position. -/
def toTree (file : Path) (source : String) : Except LintError Tree :=
  match Toml.parse? source with
  | none => .error (.parse file "invalid document")
  | some catalog =>
    let start := Builder.start file .build .gradleFile (some source) {}
    let chars := source.toList
    let versions := (catalog.get? "versions").filter fun v => v.entries?.isSome
    let libraries := ((catalog.get? "libraries").bind Value.entries?).getD []
    let byAlias := libraries.mergeSort fun a b => a.1 ≤ b.1
    let nodes := byAlias.filterMap (dependency chars (sectionOffset chars "libraries") versions)
    let ordered := nodes.mergeSort fun a b => a.start ≤ b.start
    .ok (ordered.foldl Builder.leaf start).build

end LintEngine.Catalog
