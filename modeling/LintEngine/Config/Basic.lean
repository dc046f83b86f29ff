import LintEngine.Issue.Basic
import LintEngine.Path

/-!
The settings of a run, and what they make of an issue's severity.
-/

namespace LintEngine

/-- Settings of the lookups over the network. -/
structure RemoteConfig where
  enabled : Bool := false
  timeoutMs : Nat := 3000
deriving DecidableEq, Repr, Inhabited

structure Config where
  /-- What to analyze, relative to the root of the project. -/
  targets : List Path := []
  /-- Patterns of files to leave out. -/
  exclude : List String := ["**/build/**", "**/.gradle/**"]
  /-- Severities by issue id; a key occurs at most once. -/
  severity : List (String × Severity) := []
  /-- Switches by issue id; a key occurs at most once. -/
  enabled : List (String × Bool) := []
  fatalOnly : Bool := false
  /-- Whether directives in comments count. -/
  commentSuppression : Bool := true
  /-- The minimum API level; it overrides the manifest. -/
  minSdk : Option Nat := none
  /-- The file with API levels. -/
  apiDatabase : Option Path := none
  remote : RemoteConfig := {}
  parallel : Bool := true
deriving Repr, Inhabited

namespace Config

variable (c : Config)

/-- Whether an issue is switched on, by a switch or by default. -/
def isEnabled (i : Issue) : Bool := (c.enabled.lookup i.id).getD i.enabledByDefault

/-- The severity of an issue under these settings. A severity that is set
switches an issue on, unless a switch says otherwise. -/
def severityFor (i : Issue) : Severity :=
  if c.isEnabled i then (c.severity.lookup i.id).getD i.severity
  else match c.severity.lookup i.id, c.enabled.lookup i.id with
    | some s, none => s
    | _, _ => .ignore

/-- Whether findings of an issue can be reported at all. -/
def isReportable (i : Issue) : Bool :=
  let s := c.severityFor i
  s != .ignore && (!c.fatalOnly || s == .fatal)

end Config

end LintEngine
