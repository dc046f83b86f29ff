import LintEngine.Detector.Basic

/-!
Layouts that run from right to left: attributes and gravities that name the
left or right side. Whether the project supports such layouts is known only
when the manifest has been seen, so every finding is provisional.
-/

namespace LintEngine.Rules

def useStartIssue : Issue where
  id := "RtlHardcoded"
  brief := "Using left/right instead of start/end attributes"
  explanation := "Using `Gravity#LEFT` and `Gravity#RIGHT` can lead to problems when a layout is " ++
    "rendered in locales where text flows from right to left. Use `Gravity#START` " ++
    "and `Gravity#END` instead. Similarly, in XML `gravity` and `layout_gravity` " ++
    "attributes, use `start` rather than `left`. For XML attributes such as " ++
    "`paddingLeft` and `layout_marginLeft`, use `paddingStart` and " ++
    "`layout_marginStart`. If your app's `minSdkVersion` is less than 17, you " ++
    "should add both the older left/right attributes as well as the new " ++
    "start/end attributes."
  category := .bidirectional
  severity := .warning
  detector := "RtlDetector"
  scopes := [.resourceFile, .manifest]

/-- The first API level that knows start and end. -/
def startEndLevel : Nat := 17

/-- Attributes for a side, with those that follow the direction of text. -/
def sideAttributes : List (String × String) :=
  [("paddingLeft", "paddingStart"), ("paddingRight", "paddingEnd"),
   ("layout_marginLeft", "layout_marginStart"), ("layout_marginRight", "layout_marginEnd"),
   ("layout_alignParentLeft", "layout_alignParentStart"),
   ("layout_alignParentRight", "layout_alignParentEnd"),
   ("layout_alignLeft", "layout_alignStart"), ("layout_alignRight", "layout_alignEnd"),
   ("layout_toLeftOf", "layout_toStartOf"), ("layout_toRightOf", "layout_toEndOf"),
   ("drawableLeft", "drawableStart"), ("drawableRight", "drawableEnd"),
   ("listPreferredItemPaddingLeft", "listPreferredItemPaddingStart"),
   ("listPreferredItemPaddingRight", "listPreferredItemPaddingEnd")]

def gravityAttributes : List String := ["gravity", "layout_gravity"]

/-- What a gravity for a side should be. -/
def sideGravity? (token : String) : Option String :=
  if token == "left" then some "start" else if token == "right" then some "end" else none

/-! ### Data of a provisional finding -/

def modeKey : String := "mode"

def nameKey : String := "name"

def replacementKey : String := "rtl"

def spaceKey : String := "prefix"

def valueKey : String := "value"

/-- A gravity names a side. -/
def gravityMode : String := "gravity"

/-- Both attributes are there. -/
def redundantMode : String := "redundant"

/-- Only the attribute for the side is there. -/
def missingMode : String := "missing"

variable {W S : Type}

def checkGravity (id : NodeId) : Task W S Unit := do
  let some value := ((← Task.tree).node id).value | return
  let tokens := (Text.split '|' value).map Text.trim
  let some side := tokens.find? fun token => (sideGravity? token).isSome | return
  let replacement := (sideGravity? side).getD ""
  let fixed := Text.join "|" (tokens.map fun token => (sideGravity? token).getD token)
  let f ← Task.finding useStartIssue id ("Use \"`" ++ replacement ++ "`\" instead of \"`" ++ side ++
    "`\" to ensure correct behavior in right-to-left locales")
  Task.report { f with
    fix := some { description := "Replace with " ++ replacement, replacement := some fixed }
    data := some [(modeKey, .str gravityMode)] }

def checkSide (id : NodeId) (name replacement : String) : Task W S Unit := do
  let t ← Task.tree
  let space := ((t.node id).space).getD "android"
  let value := ((t.node id).value).getD ""
  let hasBoth := (t.parent id).any fun e => (t.children e).any fun c => t.name c == some replacement
  let f ← Task.finding useStartIssue id
    ("Consider adding `" ++ space ++ ":" ++ replacement ++ "=\"" ++ value ++ "\"`")
  Task.report { f with
    data := some [(modeKey, .str (if hasBoth then redundantMode else missingMode)),
      (nameKey, .str name), (replacementKey, .str replacement), (spaceKey, .str space),
      (valueKey, .str value)] }

/-- Records whether the application supports layouts from right to left. -/
def recordSupport (element : NodeId) : Task W S Unit := do
  let t ← Task.tree
  let value := ((t.children element).find? fun c => t.name c == some "supportsRtl").bind fun c =>
    (t.node c).value
  if let some value := value then
    Task.recordFact Facts.supportsRtlKey (.bool (Text.trim value == "true"))

/-- The final message of a finding, if it stands. Platforms below the first
level with start and end need both attributes. -/
def settledMessage (facts : Facts) (f : Finding) (d : Data) : Option String :=
  let text := fun key => (d.str? key).getD ""
  let minSdk := facts.minSdk.getD 1
  let modern := startEndLevel ≤ minSdk
  let replacement := text spaceKey ++ ":" ++ text replacementKey ++ "=\"" ++ text valueKey ++ "\"`"
  let purpose := " to better support right-to-left layouts"
  if d.str? modeKey == some gravityMode then some f.message
  else if d.str? modeKey == some redundantMode then
    if modern then
      some ("Redundant attribute `" ++ text nameKey ++ "`; already defining `" ++
        text replacementKey ++ "` with `targetSdkVersion` " ++
        toString ((facts.entries.int? Facts.targetSdkKey).getD minSdk))
    else none
  else if modern then
    some ("Consider replacing `" ++ text spaceKey ++ ":" ++ text nameKey ++ "` with `" ++
      replacement ++ purpose)
  else some ("Consider adding `" ++ replacement ++ purpose)

def rightToLeftDetector : Detector W S where
  name := "RtlDetector"
  issues := [useStartIssue]
  interests :=
    ((sideAttributes.map (·.1) ++ gravityAttributes).map fun name => ⟨.xml, .xmlAttribute name⟩) ++
      [⟨.xml, .xmlElement "application"⟩]
  on
    | .attribute_ id => do
      let some name := (← Task.tree).name id | return
      if gravityAttributes.contains name then checkGravity id
      else if let some replacement := sideAttributes.lookup name then checkSide id name replacement
    | .element id => recordSupport id
    | _ => return
  settle f facts world :=
    if facts.supportsRtl then
      match f.data with
      | none => (.keep f, world)
      | some d => match settledMessage facts f d with
        | some message => (.keep { f with message }, world)
        | none => (.drop, world)
    else (.drop, world)

end LintEngine.Rules
