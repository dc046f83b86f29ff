import LintEngine.Error
import LintEngine.Json.Reader

/-!
API levels: since when a class or one of its members exists. Classes go by
their binary names, such as `android/view/View`.
-/

namespace LintEngine

structure ClassLevels where
  since : Nat := 0
  members : List (String × Nat) := []
deriving Inhabited, Repr

structure ApiLevels where
  classes : List (String × ClassLevels) := []
deriving Inhabited, Repr

namespace ApiLevels

def isKnown (a : ApiLevels) (owner : String) : Bool := (a.classes.lookup owner).isSome

/-- The level that introduced a class or a member. A member without a level
of its own is as old as its class. -/
def since? (a : ApiLevels) (owner : String) (member : Option String) : Option Nat := do
  let c ← a.classes.lookup owner
  return (member.bind fun m => c.members.lookup m).getD c.since

def classOfJson? (j : Json) : Option ClassLevels := do
  match ← j.record? ["since", "members"] with
  | [since, members] =>
    return {
      since := ← Json.orDefault Json.word? 0 since
      members := ← Json.orDefault (Json.map? Json.word?) [] members }
  | _ => none

def ofJson? (j : Json) : Option ApiLevels := do
  match ← j.record? ["classes"] with
  | [some classes] => return ⟨← classes.map? classOfJson?⟩
  | _ => none

/-- Reads the levels from the text of a JSON document. -/
def parse (text : String) : Except LintError ApiLevels :=
  match (Json.parse? text).bind ofJson? with
  | some a => .ok a
  | none => .error (.configuration "invalid API database")

end ApiLevels

end LintEngine
