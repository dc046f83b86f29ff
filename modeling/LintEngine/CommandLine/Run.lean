import LintEngine.CommandLine.Options
import LintEngine.Engine.Project
import LintEngine.Report.Compact
import LintEngine.Report.Json
import LintEngine.Report.Summary
import LintEngine.Text.Layout

/-!
Carrying out a command line against a file system.
-/

namespace LintEngine.CommandLine

open Versions

/-- What a run leaves behind. -/
structure Outcome where
  exit : UInt32
  output : String := ""
  /-- What went wrong. -/
  complaint : Option String := none
  /-- The file that was written, and its text. -/
  written : Option (Path × String) := none
  /-- The files after the run. -/
  fs : FileSystem

/-- The settings, as the options change them. -/
def Options.override (o : Options) (c : Config) : Config :=
  { c with
    targets := if o.targets.isEmpty then c.targets else o.targets
    exclude := c.exclude ++ o.exclude
    fatalOnly := c.fatalOnly || o.fatalOnly
    minSdk := o.minSdk <|> c.minSdk
    apiDatabase := o.apiDatabase <|> c.apiDatabase
    remote := { c.remote with enabled := c.remote.enabled || o.remote }
    commentSuppression := c.commentSuppression && !o.noCommentSuppression
    parallel := o.parallel }

def Options.loadConfig (o : Options) (fs : FileSystem) : Except LintError Config := do
  let c ← match o.config with
    | some path => Config.load fs path
    | none => Config.loadDefault fs o.path
  return o.override c

/-- The rank of a category in listings. -/
def rank (c : Category) : Nat := Category.all.idxOf c

/-- One line for each issue, by category and id. -/
def issueList : String :=
  let issues := (Issue.lintError :: Rules.builtinIssues).mergeSort fun a b =>
    ((compare (rank a.category) (rank b.category)).then (compare a.id b.id)).isLE
  String.join (issues.map fun i =>
    Text.padEnd 24 i.id ++ " " ++ Text.padEnd 8 i.severity.name ++ " " ++
      Text.padEnd 20 i.category.name ++ " " ++ i.brief ++
      (if i.enabledByDefault then "" else " (disabled by default)") ++ "\n")

/-- The report as it is written. -/
def Options.render (o : Options) (root : Path) (r : Report) : String :=
  match o.format with
  | .json => r.json
  | .compact => r.compact { base := some root }
  | .summary => r.summary { top := o.top }

/-- Analyzes a project and writes the report. -/
def Options.analyze (o : Options) (fs : FileSystem) (net : Central.Transport Central.Client) :
    Except String Outcome := do
  let config ← (o.loadConfig fs).mapError LintError.message
  let some place := fs.place? o.path | throw ("Path does not exist: " ++ o.path.text)
  let (report, _) ← (do
    let e ← Engine.builtin fs net config
    e.analyzePath fs place.path { host := {} } : Except LintError _).mapError LintError.message
  let text := o.render place.path report
  let exit := if report.hasErrors then 1 else 0
  match o.output with
  | some path =>
    let fs ← (fs.write path text).mapError LintError.message
    return { exit, written := some (path, text), fs }
  | none => return { exit, output := if o.format == .json then text ++ "\n" else text, fs }

/-- How the program is used. -/
def usageText : String :=
  "Usage: " ++ Report.toolName ++ " [OPTIONS] [PATH]\n\nOptions:\n" ++
  String.join (switches.map fun s =>
    "  " ++ (match s.letter with
      | some c => "-" ++ String.singleton c ++ ", "
      | none => "    ") ++ "--" ++ s.name ++ "\n")

/-- Carries out a command line. -/
def run (fs : FileSystem) (net : Central.Transport Central.Client) (args : List String) : Outcome :=
  match parse args with
  | .usage => { exit := 2, complaint := some usageText, fs }
  | .version =>
    { exit := 0, output := Report.toolName ++ " " ++ Report.toolVersion ++ "\n", fs }
  | .help => { exit := 0, output := usageText, fs }
  | .analyze o =>
    if o.listIssues then { exit := 0, output := issueList, fs }
    else match o.analyze fs net with
      | .ok outcome => outcome
      | .error text => { exit := 1, complaint := some text, fs }

end LintEngine.CommandLine
