import LintEngine.Rules.Contracts
import LintEngine.Word

/-!
Uses of the platform that are newer than the oldest platform supported. The
minimum level is known only when all units have been seen, so findings carry
the level that they need and are settled later.
-/

namespace LintEngine.Rules

def newApiIssue : Issue where
  id := "NewApi"
  brief := "Calling new methods on older versions"
  explanation := "This check scans through all the Android API calls in the application and " ++
    "warns about any calls that are not available on **all** versions targeted by " ++
    "this application (according to its minimum SDK attribute in the manifest). " ++
    "If you really want to use this API and don't need to support older devices " ++
    "just set the `minSdkVersion` higher. If your code is deliberately accessing " ++
    "newer APIs, guard the call with a `Build.VERSION.SDK_INT` check or annotate " ++
    "the surrounding method with `@RequiresApi`."
  priority := 6
  severity := .error
  detector := "ApiDetector"
  scopes := [.javaFile, .classFile, .manifest]

/-- The key of the level that a finding needs. -/
def requiredLevelKey : String := "api"

/-- What stands in a message for the minimum level until it is known. -/
def minimumMark : String := "%s"

/-- The names of levels. -/
def versionCodes : List (String × Nat) :=
  [("JELLY_BEAN", 16), ("JELLY_BEAN_MR1", 17), ("JELLY_BEAN_MR2", 18), ("KITKAT", 19),
   ("LOLLIPOP", 21), ("LOLLIPOP_MR1", 22), ("M", 23), ("N", 24), ("N_MR1", 25), ("O", 26),
   ("O_MR1", 27), ("P", 28), ("Q", 29), ("R", 30), ("S", 31), ("S_V2", 32), ("TIRAMISU", 33),
   ("UPSIDE_DOWN_CAKE", 34)]

section

variable (v : View)

/-- The level of a member that is not in the first one. -/
def levelOfMember (levels : ApiLevels) (owner member : String) : Option Nat := do
  let internal ← (v.internalName owner).toOption
  let level ← levels.since? internal (some member)
  if 1 < level then some level else none

def requirementMessage (what : String) (level : Nat) (subject : String) : String :=
  what ++ " requires API level " ++ toString level ++ " (current min is " ++ minimumMark ++ "): `" ++
    subject ++ "`"

/-- The level that a node needs, with the message about it. -/
def requirement (levels : ApiLevels) (id : NodeId) : Option (Nat × String) :=
  let t := v.tree
  match t.kind id with
  | .call => do
    let m ← v.resolveCall id
    let owner ← m.ownerOrReceiver
    let level ← levelOfMember v levels owner m.name
    return (level, requirementMessage "Call" level (owner ++ "#" ++ m.name))
  | .new => do
    let written ← t.typeName id
    if Text.endsWith "[]" written then none
    else
      let className ← v.qualifyType written id
      let level ← levelOfMember v levels className "<init>"
      return (level, requirementMessage "Call" level ("new " ++ className))
  | .select => do
    match ← v.resolve id with
    | .field owner name =>
      let level ← levelOfMember v levels owner name
      return (level, requirementMessage "Field" level (owner ++ "#" ++ name))
    | _ => none
  | _ => none

/-! ### Guards -/

/-- A level as an expression: a constant of 32 bits, or one of the names. -/
def levelOf (e : Expr) (scope : EvalScope) : Option Nat :=
  match (v.evaluate e scope).bind Literal.asInt with
  | some n => Word.unsigned? 32 n.toInt
  | none => match e with
    | .reference _ name => versionCodes.lookup name
    | _ => none

/-- The level that an annotation vouches for. -/
def annotationLevel (a : Annotation) : Option Nat :=
  if isAny a requiresApi || a.is targetApi then
    (a.value? <|> a.attribute? "api").bind fun e => levelOf v e (View.annotationScope a)
  else none

/-- The level that a condition on the running platform vouches for. -/
def conditionLevel (condition : NodeId) : Option Nat :=
  let id := v.tree.skipParentheses condition
  match Expr.ofNode v.tree id with
  | .binary op (.reference _ "SDK_INT") right => do
    let level ← levelOf v right (.node id)
    if op == ">=" then some level
    else if op == ">" then Word.unsigned? 32 (level + 1)
    else none
  | _ => none

/-- The levels that an ancestor vouches for at a node below its child
`child`. -/
def levelsAt (ancestor child : NodeId) : List Nat :=
  let t := v.tree
  match t.kind ancestor with
  | .method | .classDecl | .field | .localVariable =>
    (v.annotationsOn ancestor).filterMap (annotationLevel v)
  | .ifStatement =>
    match t.children ancestor with
    | condition :: yes :: _ => if yes == child then (conditionLevel v condition).toList else []
    | _ => []
  | _ => []

/-- The highest level that the ancestors vouch for. -/
def guaranteedLevel (id : NodeId) : Nat :=
  let ancestors := v.tree.ancestors id
  ((ancestors.zip (id :: ancestors)).flatMap fun (a, child) => levelsAt v a child).foldl max 0

end

variable {W S : Type}

def checkRequirement (id : NodeId) : Task W S Unit := do
  let env ← Task.env
  let some levels := env.levels | return
  let some (level, message) := requirement env.view levels id | return
  if level ≤ guaranteedLevel env.view id then return
  if env.config.minSdk.any fun min => level ≤ min then return
  let f ← Task.finding newApiIssue id message
  Task.report { f with data := some [(requiredLevelKey, .int level)] }

/-- Records the levels of a `uses-sdk` element. A code name says nothing. -/
def recordLevels (element : NodeId) : Task W S Unit := do
  let t ← Task.tree
  (t.children element).forM fun c => do
    let n := t.node c
    let key := if n.name == some "minSdkVersion" then some Facts.minSdkKey
      else if n.name == some "targetSdkVersion" then some Facts.targetSdkKey
      else none
    match key, n.value.bind fun s => Text.integer? (Text.trim s) with
    | some key, some level => Task.recordFact key (.int level)
    | _, _ => return

def newApiDetector : Detector W S where
  name := "ApiDetector"
  issues := [newApiIssue]
  interests := [⟨.source, .enter .call⟩, ⟨.source, .enter .new⟩, ⟨.source, .enter .select⟩,
    ⟨.xml, .xmlElement "uses-sdk"⟩]
  needsLevels := true
  on
    | .enter id => checkRequirement id
    | .element id => recordLevels id
    | _ => return
  settle f facts world :=
    match f.data.bind (·.int? requiredLevelKey) with
    | none => (.keep f, world)
    | some level =>
      let min := facts.minSdk.getD 1
      if level ≤ min then (.drop, world)
      else (.keep { f with message := Text.replace minimumMark (toString min) f.message }, world)

end LintEngine.Rules
