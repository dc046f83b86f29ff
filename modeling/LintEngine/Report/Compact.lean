import LintEngine.Report.Sink
import LintEngine.Report.Style

/-!
The compact report: one line per finding, grouped by file, and a line of
totals.
-/

namespace LintEngine.Report

structure CompactOptions where
  /-- The directory that is left out at the front of paths. -/
  base : Option Path := none
  showFixes : Bool := true
  styled : Bool := false

namespace CompactOptions

variable (o : CompactOptions)

/-- The longest path that is shown whole. -/
def maxPathWidth : Nat := 60

/-- A path as shown: without the base, and cut at the front if too long. -/
def shownPath (p : Path) : String :=
  let shown := ((o.base.bind fun b => p.below? b).getD p).text
  if shown.length > maxPathWidth then
    "..." ++ String.ofList (shown.toList.drop (shown.length - maxPathWidth + 3))
  else shown

def findingLines (f : Finding) : List String :=
  let place := Text.padStart 5 (toString f.location.line) ++ ":" ++
    Text.padEnd 3 (toString f.location.column)
  let (style, symbol) := severitySymbol f.severity
  let indent := "           "
  ["  " ++ paint o.styled faint place ++ "  " ++ paint o.styled style symbol ++ "  " ++
      paint o.styled issueId f.issue.id ++ "  " ++ f.message] ++
    (f.secondary.map fun l =>
      indent ++ paint o.styled faint "also:" ++ " " ++
        paint o.styled faint (o.shownPath l.file ++ ":" ++ toString l.line)) ++
    (if o.showFixes then
      (f.fix.map fun fix =>
        indent ++ paint o.styled (plain .green) "fix:" ++ " " ++ fix.description).toList
    else [])

/-- The lines of findings; a new file gets a heading, and an empty line
before it unless it is the first. -/
def grouped : Option Path → List Finding → List String
  | some _, [] => [""]
  | none, [] => []
  | current, f :: fs =>
    let file := f.location.file
    let heading :=
      if current.any (· == file) then []
      else (if current.isSome then [""] else []) ++ [paint o.styled filePath (o.shownPath file)]
    heading ++ o.findingLines f ++ grouped (some file) fs

def totals (r : Report) : String :=
  let part := fun (n : Nat) (c : Colour) (word : String) =>
    if n == 0 then [] else [toString n ++ " " ++ paint o.styled (plain c) word]
  let parts := part (r.count .error + r.count .fatal) .red "errors" ++
    part (r.count .warning) .yellow "warnings" ++ part (r.count .info) .blue "info"
  "  " ++ paint o.styled strongWhite (toString r.findings.length) ++ " " ++
    paint o.styled { bold := true } "issues" ++
    (if parts.isEmpty then "" else " (" ++ Text.join ", " parts ++ ")") ++
    " in " ++ toString r.files ++ " files, " ++ toString r.suppressed ++ " suppressed"

def lines (r : Report) : List String :=
  (if r.isEmpty then [paint o.styled strongGreen "No issues found!"] else []) ++
    o.grouped none r.findings ++
    (r.failures.map fun f =>
      paint o.styled { bold := true, colour := some .yellow } "warning:" ++ " " ++ f.detector ++
        " failed on " ++ f.file.text ++ ": " ++ f.message) ++
    (if r.cancelled then [cancelledLine o.styled] else []) ++
    [paint o.styled faint heavyRule, o.totals r]

end CompactOptions

/-- The compact text of a report. -/
def compact (o : CompactOptions) (r : Report) : String :=
  String.join ((o.lines r).map (· ++ "\n"))

end LintEngine.Report
