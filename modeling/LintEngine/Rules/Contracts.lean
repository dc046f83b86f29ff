import LintEngine.Detector.Basic
import LintEngine.Folding.Constant

/-!
What the rules for annotated elements share: the annotations by their current
and their old names, and the annotations in force where a value is used.
-/

namespace LintEngine.Rules

/-- The names of an annotation, the current one first. -/
def contractNames (simple : String) : List String :=
  ["androidx.annotation." ++ simple, "android.support.annotation." ++ simple]

def intRange : List String := contractNames "IntRange"

def floatRange : List String := contractNames "FloatRange"

def size : List String := contractNames "Size"

def intDef : List String := contractNames "IntDef"

def longDef : List String := contractNames "LongDef"

def stringDef : List String := contractNames "StringDef"

def requiresApi : List String := contractNames "RequiresApi"

def targetApi : String := "android.annotation.TargetApi"

/-- Whether an annotation goes by one of several names. -/
def isAny (a : Annotation) (names : List String) : Bool := names.any a.is

/-- The interest in uses of annotations. -/
def annotationInterests (groups : List (List String)) : List Interest :=
  groups.flatten.map fun name => ⟨.source, .annotated name⟩

/-- The annotations of the parameter or variable that receives a value. -/
def usageAnnotations (v : View) (u : Usage) : List Annotation :=
  match u.kind with
  | .argument i => (u.method.map fun m => v.parameterAnnotations m i).getD []
  | .initializer => ((v.tree.parent u.node).map v.nodeAnnotations).getD []
  | .call | .definition => []

/-- A field with the simple name of its class. -/
def shortFieldName (owner name : String) : String := Text.lastField '.' owner ++ "." ++ name

end LintEngine.Rules
