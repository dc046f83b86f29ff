import LintEngine.Config.Reader
import LintEngine.Discovery.Finder
import LintEngine.Engine.Run
import LintEngine.Rules.Builtin
import LintEngine.Versions.Central

/-!
Analyzing the files of a project with the rules of this library.
-/

namespace LintEngine

open Versions

namespace Engine

/-- The API levels in a file. -/
def loadLevels (fs : FileSystem) (path : Path) : Except LintError ApiLevels := do
  ApiLevels.parse (← fs.readText path)

/-- An engine with all rules, for the settings given. API levels that cannot
be loaded count as missing. The host of the run is a client of the library
repository. -/
def builtin (fs : FileSystem) (net : Central.Transport Central.Client) (config : Config) :
    Except LintError (Engine Central.Client Unit) := do
  let e ← create config (← Rules.builtinRegistry) Rules.builtinDetectors
  return { e with
    levels := config.apiDatabase.bind fun path => (loadLevels fs path).toOption
    remote := some (Central.lookup net id fun client _ => client) }

section

variable {W S : Type} (e : Engine W S) (fs : FileSystem)

/-- Reads and parses files. Cancellation is looked for before each file, and
`cancelledAt` tells whether it has been requested by then. -/
def parseFiles (cancelledAt : Nat → Bool) (files : List SourceFile) :
    List (Except Unparsed Tree) :=
  (files.zipIdx.filter fun (_, i) => !cancelledAt i).map fun (file, _) =>
    match fs.readText file.path >>= parseSource file.path file.type with
    | .ok tree => .ok tree
    | .error error => .error { path := file.path, error }

/-- Analyzes files that lie below a root, where cancellation can be requested
while they are parsed. -/
def analyzeBelow (root : Path) (cancelledAt : Nat → Bool) (files : List SourceFile)
    (world : World W) : Report × World W :=
  let parsed := parseFiles fs cancelledAt files
  let trees := parsed.filterMap fun r => r.toOption
  let unparsed := parsed.filterMap fun
    | .ok _ => none
    | .error u => some u
  e.run root trees unparsed
    { world with cancelled := world.cancelled || (List.range files.length).any cancelledAt }

/-- Analyzes given files. -/
def analyzeFiles (files : List SourceFile) (world : World W) : Report × World W :=
  e.analyzeBelow fs ⟨"."⟩ (fun _ => world.cancelled) files world

/-- Finds the files of a project and analyzes them. -/
def analyzePath (root : Path) (world : World W) : Except LintError (Report × World W) := do
  let files ← Discovery.find fs e.config root
  return e.analyzeBelow fs root (fun _ => world.cancelled) files world

end

end Engine

end LintEngine
