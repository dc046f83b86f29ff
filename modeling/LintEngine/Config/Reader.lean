import LintEngine.Config.Basic
import LintEngine.FileSystem
import LintEngine.Toml.Reader
import LintEngine.Word
import LintEngine.Yaml.Reader

/-!
Reading the settings from a file. The formats differ in what counts as a
number or as an empty list; the settings are the same in all of them.
-/

namespace LintEngine

/-- How values of a data format are asked for what they hold. -/
structure Format (α : Type) where
  bool? : α → Option Bool
  natural? : α → Option Nat
  string? : α → Option String
  items? : α → Option (List α)
  entries? : α → Option (List (String × α))
  /-- Whether a value says that there is none. -/
  isNull : α → Bool

namespace Format

variable {α β : Type} (f : Format α)

/-- The values of known fields. They are given by name, each at most once, or
by position. -/
def record? (names : List String) (v : α) : Option (List (Option α)) :=
  match f.entries? v with
  | some entries =>
    if names.all fun n => (entries.filter (·.1 == n)).length ≤ 1 then
      some (names.map fun n => entries.lookup n)
    else none
  | none => do
    let items ← f.items? v
    if items.length ≤ names.length then
      return items.map some ++ List.replicate (names.length - items.length) none
    else none

def list? (item : α → Option β) (v : α) : Option (List β) := do (← f.items? v).mapM item

/-- The entries of a table. Of several with one key the last counts. -/
def map? (item : α → Option β) (v : α) : Option (List (String × β)) := do
  let entries ← (← f.entries? v).mapM fun (k, v) => do return (k, ← item v)
  return entries.foldl (fun out (k, v) => out.filter (·.1 != k) ++ [(k, v)]) []

def option? (item : α → Option β) (v : α) : Option (Option β) :=
  if f.isNull v then some none else (item v).map some

/-- A number of so many bits. -/
def word? (bits : Nat) (v : α) : Option Nat := (f.natural? v).filter (· < Word.size bits)

end Format

def Toml.format : Format Toml.Value where
  bool?
    | .boolean b => some b
    | _ => none
  natural?
    | .integer n => if 0 ≤ n then some n.toNat else none
    | _ => none
  string? := Toml.Value.string?
  items?
    | .array items => some items
    | _ => none
  entries? := Toml.Value.entries?
  isNull _ := false

def Yaml.format : Format Yaml.Value where
  bool? := Yaml.Value.bool?
  natural? := Yaml.Value.natural?
  string? := Yaml.Value.string?
  items? := Yaml.Value.items?
  entries? := Yaml.Value.entries?
  isNull := Yaml.Value.isNull

/-- A field that may be left out. -/
def orElse {α β : Type} (read : α → Option β) (default : β) : Option α → Option β
  | some v => read v
  | none => some default

def RemoteConfig.read? {α : Type} (f : Format α) (v : α) : Option RemoteConfig := do
  let base : RemoteConfig := {}
  match ← f.record? ["enabled", "timeout_ms"] v with
  | [enabled, timeout] =>
    return {
      enabled := ← orElse f.bool? base.enabled enabled
      timeoutMs := ← orElse (f.word? 64) base.timeoutMs timeout }
  | _ => none

namespace Config

/-- The names of the settings. -/
def fields : List String :=
  ["targets", "exclude", "severity", "enabled", "fatal_only", "comment_suppression", "min_sdk",
   "api_database", "remote", "parallel"]

/-- The settings that a value holds; those it leaves out have their
defaults. -/
def read? {α : Type} (f : Format α) (v : α) : Option Config := do
  let base : Config := {}
  let path? := fun v => (f.string? v).map Path.mk
  let severity? := fun v => (f.string? v).bind Severity.ofName?
  match ← f.record? fields v with
  | [targets, exclude, severity, enabled, fatalOnly, comments, minSdk, database, remote,
      parallel] =>
    return {
      targets := ← orElse (f.list? path?) base.targets targets
      exclude := ← orElse (f.list? f.string?) base.exclude exclude
      severity := ← orElse (f.map? severity?) base.severity severity
      enabled := ← orElse (f.map? f.bool?) base.enabled enabled
      fatalOnly := ← orElse f.bool? base.fatalOnly fatalOnly
      commentSuppression := ← orElse f.bool? base.commentSuppression comments
      minSdk := ← orElse (f.option? (f.word? 32)) base.minSdk minSdk
      apiDatabase := ← orElse (f.option? path?) base.apiDatabase database
      remote := ← orElse (RemoteConfig.read? f) base.remote remote
      parallel := ← orElse f.bool? base.parallel parallel }
  | _ => none

/-- The settings in a text of the format that an extension stands for. -/
def parse (path : Path) (text : String) : Except LintError Config :=
  let settings : Option Config → Except LintError Config
    | some c => .ok c
    | none => .error (.configuration (path.text ++ ": invalid settings"))
  match path.extension.getD "" with
  | "toml" => settings ((Toml.parse? text).bind (read? Toml.format))
  | "yml" | "yaml" => settings ((Yaml.parse? text).bind (read? Yaml.format))
  | other =>
    .error (.configuration
      ("unsupported config format `" ++ other ++ "` for " ++ path.text))

/-- Loads the settings from a file. -/
def load (fs : FileSystem) (path : Path) : Except LintError Config := do
  parse path (← fs.readText path)

/-- Where settings are looked for, the first choice first. -/
def defaultNames : List String :=
  ["lintscan.toml", ".lintscan.toml", "lintscan.yml", ".lintscan.yml", "lintscan.yaml"]

/-- Loads the settings of a project. Without a file they are the defaults. -/
def loadDefault (fs : FileSystem) (root : Path) : Except LintError Config :=
  match (defaultNames.map root.join).find? fs.isFile with
  | some path => load fs path
  | none => .ok {}

end Config

end LintEngine
