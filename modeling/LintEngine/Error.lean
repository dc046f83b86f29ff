import LintEngine.Path

/-!
The conditions that stop a run or a unit. A name that cannot be resolved is
no error: queries answer `none` for it.
-/

namespace LintEngine

inductive LintError where
  /-- A type name could not be bound to a known class. -/
  | unresolvedType (name : String)
  /-- The rule set or the configuration is broken. -/
  | configuration (text : String)
  | io (path : Path) (text : String)
  | parse (path : Path) (text : String)
  /-- Cancellation was requested. -/
  | cancelled
  /-- A network lookup failed; it never fails a run. -/
  | remote (text : String)
deriving Inhabited, Repr

/-- The text shown to the user. -/
def LintError.message : LintError → String
  | unresolvedType name => "unresolved type: " ++ name
  | configuration text => "configuration error: " ++ text
  | io path text => "failed to read " ++ path.text ++ ": " ++ text
  | parse path text => "failed to parse " ++ path.text ++ ": " ++ text
  | cancelled => "analysis cancelled"
  | remote text => "remote lookup failed: " ++ text

end LintEngine
