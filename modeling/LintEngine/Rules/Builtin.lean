import LintEngine.Rules.Dependencies
import LintEngine.Rules.NewApi
import LintEngine.Rules.Recycle
import LintEngine.Rules.RightToLeft
import LintEngine.Rules.Typedef

/-!
The rules that come with the engine.
-/

namespace LintEngine.Rules

/-- The issues of the rules. -/
def builtinIssues : List Issue :=
  [rangeIssue, invalidRangeIssue, uniqueIssue, wrongConstantIssue, switchIssue, recycleIssue,
   newApiIssue, useStartIssue, dynamicVersionIssue, newerVersionIssue]

/-- The registry of the rules and of trouble with the analysis itself. -/
def builtinRegistry : Except LintError Registry :=
  Registry.ofIssues (Issue.lintError :: builtinIssues)

/-- The detectors, in the order in which they are told things. -/
def builtinDetectors {W S : Type} : List (Detector W S) :=
  [rangeDetector, typedefDetector, recycleDetector, newApiDetector, rightToLeftDetector,
   dependencyDetector]

end LintEngine.Rules
