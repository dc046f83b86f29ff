import LintEngine.Error
import LintEngine.Issue.Basic

/-!
The registry: the issues that may be reported in a run, with pairwise
different ids.
-/

namespace LintEngine

structure Registry where
  /-- In the order of registration. -/
  issues : List Issue := []
deriving Inhabited

namespace Registry

def issue? (r : Registry) (id : String) : Option Issue := r.issues.find? (·.id == id)

/-- Adds an issue with a new id. -/
def add (r : Registry) (i : Issue) : Except LintError Registry :=
  if (r.issue? i.id).isSome then
    .error (.configuration ("duplicate issue id `" ++ i.id ++ "`"))
  else .ok ⟨r.issues ++ [i]⟩

def ofIssues (issues : List Issue) : Except LintError Registry := issues.foldlM add {}

/-- Whether this very definition is registered. -/
def contains (r : Registry) (i : Issue) : Bool := (r.issue? i.id).any i.isSame

def forScope (r : Registry) (scope : Scope) : List Issue := r.issues.filter (·.appliesTo scope)

/-- The categories that occur, in their order. -/
def categories (r : Registry) : List Category :=
  Category.all.filter fun c => r.issues.any (·.category == c)

end Registry

end LintEngine
