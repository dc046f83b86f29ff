import LintEngine.Facts
import LintEngine.Issue.Basic
import LintEngine.Tree.Basic

/-!
Findings: single occurrences of issues.
-/

namespace LintEngine

/-- A suggestion how to mend a finding. -/
structure Fix where
  description : String
  replacement : Option String := none
deriving DecidableEq, Repr, Inhabited

/-- Findings with one beginning of their message that become one. -/
structure MergeGroup where
  /-- The common beginning of the messages. -/
  lead : String
  items : List String
deriving DecidableEq, Repr, Inhabited

structure Finding where
  issue : Issue
  severity : Severity
  location : Location
  /-- Other places that matter. -/
  secondary : List Location := []
  message : String
  fix : Option Fix := none
  /-- What the detector needs to settle the finding later; a finding with
  data is provisional. -/
  data : Option Data := none
  merge : Option MergeGroup := none
  /-- The node whose directives count. -/
  anchor : Option NodeId := none
  /-- The position of the detector among those registered. -/
  detector : Option Nat := none
deriving Inhabited

def Finding.new (issue : Issue) (location : Location) (message : String) : Finding :=
  { issue, severity := issue.severity, location, message }

/-- A detector that failed on a file. -/
structure Failure where
  detector : String
  file : Path
  message : String
deriving Repr, Inhabited

end LintEngine
