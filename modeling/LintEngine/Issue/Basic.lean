import LintEngine.Tree.Kind

/-!
Issues: the fixed descriptions of what can be reported.
-/

namespace LintEngine

/-- How serious a finding is. The constructors go from disabled to fatal. -/
inductive Severity where
  /-- Disabled. -/
  | ignore
  | info
  | warning
  | error
  /-- Reported even when only fatal findings are. -/
  | fatal
deriving DecidableEq, Repr, Inhabited

namespace Severity

def all : List Severity := [.ignore, .info, .warning, .error, .fatal]

def name : Severity → String
  | .ignore => "ignore"
  | .info => "info"
  | .warning => "warning"
  | .error => "error"
  | .fatal => "fatal"

def ofName? (s : String) : Option Severity := all.find? (·.name == s)

/-- Severities that make a run fail. -/
def isError : Severity → Bool
  | .error | .fatal => true
  | _ => false

end Severity

/-- What an issue is about. A directive may name a category in place of an
issue. -/
inductive Category where
  /-- Trouble with the analysis itself. -/
  | lint
  | correctness
  | performance
  | security
  | internationalization
  /-- Layouts that run from right to left. -/
  | bidirectional
deriving DecidableEq, Repr, Inhabited

namespace Category

/-- The categories in their sort order. -/
def all : List Category :=
  [.lint, .correctness, .performance, .security, .internationalization, .bidirectional]

def name : Category → String
  | .lint => "Lint"
  | .correctness => "Correctness"
  | .performance => "Performance"
  | .security => "Security"
  | .internationalization => "Internationalization"
  | .bidirectional => "Bidirectional Text"

/-- The category that contains another. -/
def parent : Category → Option Category
  | .bidirectional => some .internationalization
  | _ => none

def render (c : Category) : String :=
  match c.parent with
  | some p => p.name ++ ":" ++ c.name
  | none => c.name

end Category

/-- One class of findings. -/
structure Issue where
  /-- The name that directives and settings use. -/
  id : String
  brief : String := ""
  explanation : String := ""
  category : Category := .correctness
  /-- From 1, the lowest, to 10. -/
  priority : Nat := 5
  severity : Severity := .warning
  enabledByDefault : Bool := true
  /-- The name of the detector that reports it. -/
  detector : String
  /-- The files it can occur in. -/
  scopes : List Scope := Scope.all
  /-- Tells apart definitions that say the same. -/
  mark : Nat := 0
deriving DecidableEq, Repr, Inhabited

namespace Issue

def appliesTo (i : Issue) (scope : Scope) : Bool := i.scopes.contains scope

/-- Whether two issues are one definition. -/
def isSame (i j : Issue) : Bool := i.id == j.id && i.mark == j.mark

/-- A detector failed, or something that the analysis needs is missing. -/
def lintError : Issue where
  id := "LintError"
  brief := "Lint Failure"
  explanation := "This issue type represents a problem running lint itself, such as a " ++
    "detector crashing on unexpected input or a required database being " ++
    "unavailable. Results may be incomplete."
  category := .lint
  priority := 10
  severity := .error
  detector := "LintDriver"

end Issue

end LintEngine
