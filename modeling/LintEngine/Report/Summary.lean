import LintEngine.Report.Sink
import LintEngine.Report.Style

/-!
The summary of a report: totals, shares by severity and category, and the
most frequent issues.
-/

namespace LintEngine.Report

structure SummaryOptions where
  /-- How many issues are listed. -/
  top : Nat := 10
  styled : Bool := false

/-- Counts items by a key, in the order of first occurrence. -/
def tally {α κ : Type} [BEq κ] (key : α → κ) (items : List α) : List (α × Nat) :=
  items.foldl (fun out x =>
    if out.any fun (y, _) => key y == key x then
      out.map fun (y, n) => if key y == key x then (y, n + 1) else (y, n)
    else out ++ [(x, 1)]) []

/-- Sorts counted items by falling count, then by name. -/
def byCount {α : Type} (name : α → String) (items : List (α × Nat)) : List (α × Nat) :=
  items.mergeSort fun a b => ((compare b.2 a.2).then (compare (name a.1) (name b.1))).isLE

namespace SummaryOptions

variable (o : SummaryOptions)

def barWidth : Nat := 20

def heading (text : String) : String := paint o.styled strongWhite text

def basics (r : Report) : List String :=
  let row := fun (label : String) (n : Nat) =>
    paint o.styled faint label (Text.padStart 20) ++ "  " ++
      paint o.styled strongWhite (Text.grouped n)
  [row "Files analyzed:" r.files, row "Issues found:" r.findings.length,
   row "Suppressed:" r.suppressed, row "Detector failures:" r.failures.length] ++
    (if r.cancelled then [cancelledLine o.styled] else [])

def severities (r : Report) : List String :=
  heading o "By Severity:" :: (r.counts.reverse.map fun (s, n) =>
    let (style, symbol) := severitySymbol s
    "  " ++ paint o.styled style symbol ++ " " ++
      paint o.styled (severityLabel s) s.name (Text.padEnd 8) ++ " " ++
      Text.padStart 6 (toString n) ++ " (" ++ Text.padStart 5 (percent n r.findings.length) ++ "%)")

def categories (r : Report) : List String :=
  let counted := byCount Category.name (tally id (r.findings.map (·.issue.category)))
  let width := (counted.map fun (c, _) => c.name.length).foldl max 0
  heading o "By Category:" :: (counted.map fun (c, n) =>
    let colour := categoryColour c
    "  " ++ paint o.styled { bold := true, colour := some colour } c.name (Text.padEnd width) ++
      " │" ++ paint o.styled (plain colour) (bar n r.findings.length barWidth) ++ "│ " ++
      Text.padStart 4 (toString n) ++ " (" ++ Text.padStart 5 (percent n r.findings.length) ++ "%)")

def topIssues (r : Report) : List String :=
  let counted := byCount Issue.id (tally Issue.id (r.findings.map (·.issue)))
  let rows := ((counted.take o.top).zipIdx 1).map fun ((i, n), k) =>
    "  " ++ Text.padStart 2 (toString k) ++ ". " ++ paint o.styled issueId i.id ++ "  " ++
      paint o.styled strongWhite (toString n) (Text.padStart 5) ++ "  " ++
      paint o.styled faint i.brief
  let more := counted.length - o.top
  heading o "Top Issues:" :: rows ++
    (if more == 0 then []
    else ["      ... and " ++ paint o.styled faint (toString more) ++ " more issue types"])

def lines (r : Report) : List String :=
  [paint o.styled { bold := true, colour := some .cyan } "Lint Summary", heavyRule] ++
    o.basics r ++
    if r.isEmpty then ["", paint o.styled strongGreen "No issues found!"]
    else [""] ++ o.severities r ++ [""] ++ o.categories r ++ [""] ++ o.topIssues r ++
      [paint o.styled faint lightRule]

end SummaryOptions

/-- The text of a summary. -/
def summary (o : SummaryOptions) (r : Report) : String :=
  String.join ((o.lines r).map (· ++ "\n"))

end LintEngine.Report
