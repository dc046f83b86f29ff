import LintEngine.Detector.Basic
import LintEngine.Escape

/-!
Recycling: pooled objects and cursors that a method obtains and neither gives
back nor hands on.
-/

namespace LintEngine.Rules

def recycleIssue : Issue where
  id := "Recycle"
  brief := "Missing `recycle()` calls"
  explanation := "Many resources, such as TypedArrays, VelocityTrackers, etc., should be recycled " ++
    "(with a `recycle()` call) after use. This check looks for missing `recycle()` " ++
    "calls, and database cursors that are not closed."
  category := .performance
  priority := 7
  severity := .warning
  detector := "CleanupDetector"
  scopes := [.javaFile]

/-- What a call allocates. -/
inductive Resource where
  /-- An object of a class with a pool. -/
  | pooled (className : String)
  | cursor
deriving DecidableEq, Repr

def Resource.message : Resource → String
  | pooled c => "This `" ++ c ++ "` should be recycled after use with `#recycle()`"
  | cursor => "This `Cursor` should be freed up after use with `#close()`"

def motionEvent : String := "android.view.MotionEvent"

def cursorOwners : List String :=
  ["android.database.sqlite.SQLiteDatabase", "android.content.ContentResolver",
   "android.content.ContentProvider", "android.content.ContentProviderClient"]

def obtainMethods : List String := ["obtain", "obtainNoHistory"]

def typedArrayMethods : List String :=
  ["obtainStyledAttributes", "obtainAttributes", "obtainTypedArray"]

def queryMethods : List String := ["query", "rawQuery", "queryWithFactory", "rawQueryWithFactory"]

/-- What a call allocates, if anything that has to be given back. Typed arrays
go by the method's name, unless the call is known to return something else. -/
def resourceOf (v : View) (call : NodeId) (m : MethodRef) : Option Resource :=
  if obtainMethods.contains m.name then
    if v.isMemberOf m motionEvent then some (.pooled "MotionEvent")
    else if m.name == "obtain" && v.isMemberOf m "android.os.Parcel" then some (.pooled "Parcel")
    else if m.name == "obtain" && v.isMemberOf m "android.view.VelocityTracker" then
      some (.pooled "VelocityTracker")
    else none
  else if typedArrayMethods.contains m.name then
    if (v.typeOf call).any fun t => !Text.endsWith "TypedArray" t then none
    else some (.pooled "TypedArray")
  else if queryMethods.contains m.name && cursorOwners.any (v.isMemberOf m) then some .cursor
  else none

/-- Values are given back by `recycle` or `close`; obtaining a motion event
from another one copies it. -/
def recycleTracker (v : View) : Escape.Tracker where
  view := v
  isCleanup m := m.name == "recycle" || m.name == "close"
  isHarmless m := m.name == "obtain" && v.isMemberOf m motionEvent

def recycleDetector {W S : Type} : Detector W S where
  name := "CleanupDetector"
  issues := [recycleIssue]
  interests := (obtainMethods ++ typedArrayMethods ++ queryMethods).map fun name =>
    ⟨.source, .methodCall name⟩
  on
    | .call id m => do
      let v ← Task.view
      if let some r := resourceOf v id m then
        if (recycleTracker v).trackValue id == .leaked then
          Task.reportAt recycleIssue id r.message
    | _ => return

end LintEngine.Rules
