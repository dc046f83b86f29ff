import LintEngine.Rules.Range

/-!
Typedefs: annotations that turn a number or a text into a closed set of named
constants. Checked are the set itself, the values that annotated parameters
and variables receive, and switches over such values.
-/

namespace LintEngine.Rules

def uniqueIssue : Issue where
  id := "UniqueConstants"
  brief := "Overlapping Enumeration Constants"
  explanation := "The `@IntDef` annotation allows you to create a light-weight \"enum\" or type " ++
    "definition. However, it's possible to accidentally specify the same value for " ++
    "two or more of the values, which can lead to hard-to-detect bugs. This check " ++
    "looks for this scenario and flags any repeated constants."
  priority := 3
  severity := .error
  detector := "TypedefDetector"
  scopes := [.javaFile]

def wrongConstantIssue : Issue where
  id := "WrongConstant"
  brief := "Incorrect constant"
  explanation := "Ensures that when a parameter in a method only allows a specific set of " ++
    "constants, calls obey those rules."
  priority := 6
  severity := .error
  detector := "TypedefDetector"
  scopes := [.javaFile]

def switchIssue : Issue where
  id := "SwitchIntDef"
  brief := "Missing @IntDef in Switch"
  explanation := "This check warns if a `switch` statement does not explicitly include all the " ++
    "values declared by the typedef `@IntDef` declaration."
  priority := 3
  severity := .warning
  detector := "TypedefDetector"
  scopes := [.javaFile]

/-! ### Sets of constants -/

/-- A field by its class and name. -/
abbrev FieldName := String × String

/-- One member of a typedef's set. -/
structure Constant where
  expr : Expr
  /-- The field, if the member names one. -/
  field : Option FieldName
  value : Option Literal
deriving Inhabited

namespace Constant

def render (c : Constant) : String :=
  match c.field with
  | some (owner, name) => shortFieldName owner name
  | none => c.expr.render

def isField (c : Constant) (f : FieldName) : Bool := c.field == some f

/-- Fields are compared by name, other members by value. -/
def isSame (c d : Constant) : Bool :=
  match c.field, d.field with
  | some a, some b => a == b
  | none, none => c.value.isSome && c.value == d.value
  | _, _ => false

end Constant

structure Typedef where
  constants : List Constant
  /-- Members may be combined as flags. -/
  flag : Bool
  /-- Other values are admitted too. -/
  isOpen : Bool
deriving Inhabited

namespace Typedef

def fieldOf? (v : View) (e : Expr) (scope : EvalScope) : Option FieldName :=
  match v.resolveField e scope with
  | some (.field owner name) => some (owner, name)
  | _ => none

/-- The typedef that an annotation makes, if it makes one. -/
def ofAnnotation? (v : View) (a : Annotation) : Option Typedef :=
  let numeric := isAny a intDef || isAny a longDef
  if numeric || isAny a stringDef then
    let scope := View.annotationScope a
    let items := match a.value? with
      | some (.array items) => items
      | some e => [e]
      | none => []
    let isSet := fun name => (boolAttribute v a name).getD false
    some {
      constants := items.map fun e =>
        { expr := e, field := fieldOf? v e scope, value := v.evaluate e scope }
      flag := numeric && isSet "flag"
      isOpen := isSet "open" }
  else none

/-- The first typedef among annotations. -/
def find? (v : View) (annotations : List Annotation) : Option Typedef :=
  annotations.findSome? (ofAnnotation? v)

variable (d : Typedef)

def hasField (f : FieldName) : Bool := d.constants.any (·.isField f)

def hasLiteral (l : Literal) : Bool :=
  d.constants.any fun c => c.field.isNone && c.value.any fun v => v.sameValue l

def render : String := Text.join ", " (d.constants.map Constant.render)

def renderTicked : String := Text.join ", " (d.constants.map fun c => "`" ++ c.render ++ "`")

/-- The members of another typedef that are no members of this one. -/
def unmatched (other : Typedef) : List Constant :=
  other.constants.filter fun c => !d.constants.any fun m => m.isSame c

end Typedef

/-! ### Values -/

/-- Why a value does not fit a typedef. -/
inductive Violation where
  /-- Flags are combined where only single members are admitted. -/
  | flag
  /-- The value is no member; `unmatched` are the members of the value's own
  typedef that are none of this one. -/
  | value (value : Option Literal) (unmatched : List String)
deriving Inhabited

/-- A typedef that a value is checked against, with an integer range that may
admit it as well. -/
structure Check where
  view : View
  typedef : Typedef
  range : Option Annotation

/-- How many references and operators are followed. -/
def maxSteps : Nat := 17

/-- The lower-case form of the letters that matter; the Kelvin sign is a
capital k. -/
def lowerLetter (c : Char) : Char := if c == '\u212a' then 'k' else c.toLower

/-- A reference to a mask, by its name. -/
def isMask : Expr → Bool
  | .reference _ name => Text.contains "mask" (String.ofList (name.toList.map lowerLetter))
  | _ => false

namespace Check

variable (k : Check)

def rangeError (value : Option Literal) : Option String :=
  match k.range, value.bind Literal.asInt with
  | some r, some n => rangeErrorOf k.view r n
  | _, _ => none

/-- Whether the range admits a value. -/
def inRange (value : Option Literal) : Bool :=
  k.range.isSome && (value.bind Literal.asInt).isSome && (k.rangeError value).isNone

def literal (l : Literal) : Option Violation :=
  if k.typedef.flag && l.asInt == some 0 then none
  else if k.typedef.hasLiteral l || k.inRange (some l) then none
  else some (.value (some l) [])

/-- Judges an expression by its constant value, if it has one. -/
def folded (e : Expr) (scope : EvalScope) : Option Violation :=
  (k.view.evaluate e scope).bind k.literal

/-- A value of another typedef fits if its set is a part of this one. -/
def compare (other : Typedef) : Option Violation :=
  let unmatched := (k.typedef.unmatched other).map Constant.render
  if unmatched.isEmpty then none
  else some (.value none (if unmatched.length < other.constants.length then unmatched else []))

/-- What is wrong with an expression. Only so many references and operators
are followed; what lies beyond them fits. -/
def expr : Nat → Expr → EvalScope → Option Violation
  | 0, _, _ => none
  | n + 1, e, scope =>
    let flag := k.typedef.flag
    match e with
    | .literal .null => none
    | .literal l => k.literal l
    | .unary op x =>
      if flag then
        if op == "-" && (x.literal?.bind Literal.asInt) == some 1 then none else expr n x scope
      else if op == "~" then some .flag
      else if op == "-" then k.folded e scope
      else expr n x scope
    | .conditional _ yes no => expr n yes scope <|> expr n no scope
    | .cast _ x => expr n x scope
    | .binary op l r =>
      if op == "&" || op == "|" || op == "^" then
        if !flag then some .flag
        else if op == "&" && (isMask l || isMask r) then none
        else expr n l scope <|> expr n r scope
      else k.folded e scope
    | .reference qualifier name =>
      let t := k.view.tree
      let variable_ := match scope, qualifier with
        | .node id, none => (t.resolveLocal name id).filter fun d =>
          t.kind d == NodeKind.parameter || t.kind d == NodeKind.localVariable
        | _, _ => none
      match variable_ with
      | some d =>
        match Typedef.find? k.view (k.view.nodeAnnotations d), t.initializer d with
        | some other, _ => k.compare other
        | none, some init => expr n (Expr.ofNode t init) (.node init)
        | none, none => none
      | none =>
        match Typedef.fieldOf? k.view e scope with
        | none => none
        | some (owner, name) =>
          if k.typedef.hasField (owner, name) then none
          else match k.view.symbols.findField owner name with
            | none => none
            | some (c, f) =>
              if f.typeName.any (Text.endsWith "[]") then none
              else match Typedef.find? k.view (k.view.allAnnotations (.field owner name) false) with
                | some other => k.compare other
                | none =>
                  let value := k.view.evaluate e scope
                  let isConstant :=
                    (f.modifiers.isStatic && f.modifiers.isFinal) || c.kind == ClassKind.interface
                  if !isConstant then none
                  else if k.range.isSome then
                    if k.inRange value then none else some (.value value [])
                  else match f.initializer with
                    -- a constant made of another expression is an alias of it
                    | none | some (.literal _) => some (.value value [])
                    | some init => expr n init (.inClass c.name)
    | .array _ | .unknown => none

/-- What is wrong with the value of a node. The value of a call is known only
by the typedef of the method. -/
def node (id : NodeId) : Option Violation :=
  let t := k.view.tree
  let id := t.skipParentheses id
  if t.kind id == .call then do
    let m ← k.view.resolveCall id
    let other ← Typedef.find? k.view (k.view.methodAnnotations m)
    k.compare other
  else k.expr maxSteps (Expr.ofNode t id) (.node id)

/-- A text with its first letter in lower case. -/
def lowerFirst (s : String) : String :=
  match s.toList with
  | c :: cs => String.ofList (c.toLower :: cs)
  | [] => ""

def message : Violation → String
  | .flag => "Flag not allowed here"
  | .value value unmatched =>
    (if k.typedef.flag then "Must be one or more of: " else "Must be one of: ") ++
      k.typedef.render ++
      (if unmatched.isEmpty then "" else ", but could be " ++ Text.join ", " unmatched) ++
      match k.rangeError value with
      | some e => " or " ++ lowerFirst e
      | none => ""

/-- The constant with the value, in place of a bare value. -/
def fix : Violation → Option Fix
  | .value (some value) _ => do
    let c ← k.typedef.constants.find? fun c => c.field.isSome && c.value == some value
    let (owner, name) ← c.field
    return { description := "Change to " ++ c.render, replacement := some (owner ++ "." ++ name) }
  | _ => none

end Check

/-! ### Repeated values -/

/-- The value node of an annotation's main attribute. -/
def valueNode? (t : Tree) (id : NodeId) : Option NodeId :=
  ((t.childrenOfKind id .annotationArgument).find? fun c =>
    (t.name c).all (· == "value")).bind fun c => (t.children c).head?

/-- Two items with one value: the second, the first, and the message. -/
abbrev Duplicate := NodeId × NodeId × String

/-- Judges an item whose value an earlier one has. Items that name fields of
one name are the same constant. -/
def duplicateOf (v : View) (item previous : NodeId) (value : Literal) : Option Duplicate :=
  let text := fun id => (v.tree.sourceText id).getD ""
  if text item == text previous then
    some (item, previous, "Constant `" ++ text item ++ "` has already been included")
  else
    let isAlias := match v.resolve item, v.resolve previous with
      | some (.field _ a), some (.field _ b) => a == b
      | _, _ => false
    if isAlias then none
    else some (item, previous, "Constants `" ++ text item ++ "` and `" ++ text previous ++
      "` specify the same exact value (" ++ value.render ++
      "); this is usually a cut & paste or merge error")

/-- The first item whose value was there before decides. -/
def firstDuplicate (v : View) : List (NodeId × Literal) → List NodeId → Option Duplicate
  | _, [] => none
  | seen, item :: items =>
    match v.evaluateNode item with
    | none => firstDuplicate v seen items
    | some value =>
      match seen.find? fun (_, s) => s.sameValue value with
      | some (previous, _) => duplicateOf v item previous value
      | none => firstDuplicate v (seen ++ [(item, value)]) items

def duplicate (v : View) (id : NodeId) : Option Duplicate := do
  let t := v.tree
  let array := t.skipParentheses (← valueNode? t id)
  if t.kind array == .arrayInit then
    firstDuplicate v [] ((t.children array).map t.skipParentheses)
  else none

/-! ### Switches -/

/-- The typedef of the value that a switch selects by. -/
def selectorTypedef (v : View) : Nat → NodeId → Option Typedef
  | 0, _ => none
  | n + 1, id =>
    let t := v.tree
    let id := t.skipParentheses id
    if t.kind id == .call then
      (v.resolveCall id).bind fun m => Typedef.find? v (v.methodAnnotations m)
    else match v.resolve id with
      | none => none
      | some (.localNode d) =>
        Typedef.find? v (v.nodeAnnotations d) <|>
          if t.kind d == .localVariable then (t.initializer d).bind fun i => selectorTypedef v n i
          else none
      | some d => Typedef.find? v (v.allAnnotations d true)

/-- The field that the initial value of a field names. -/
def aliasOf (v : View) (f : FieldName) : Option FieldName := do
  let (c, symbol) ← v.symbols.findField f.1 f.2
  let init ← symbol.initializer
  Typedef.fieldOf? v init (.inClass c.name)

/-- What a case label says. -/
inductive Label where
  /-- A bare value; nothing can be said about the cases after it. -/
  | bare (id : NodeId)
  /-- A field, with its value if that is known. -/
  | field (id : NodeId) (name : FieldName) (value : Option Literal)
deriving Inhabited

def labelOf? (v : View) (id : NodeId) : Option Label :=
  let t := v.tree
  let id := t.skipParentheses id
  match t.kind id with
  | .literal => some (.bare id)
  | .reference | .select =>
    let e := Expr.ofNode t id
    (Typedef.fieldOf? v e (.node id)).map fun f => .field id f (v.evaluate e (.node id))
  | _ => none

def labelsOf (v : View) (cases : List NodeId) : List Label :=
  cases.flatMap fun c => (v.tree.children c).filterMap fun l =>
    if v.tree.kind l == .block then none else labelOf? v l

def Label.isBare : Label → Bool
  | bare _ => true
  | field .. => false

/-- The member of a typedef that a field stands for. -/
def coveredBy (v : View) (d : Typedef) (f : FieldName) : Option FieldName :=
  if d.hasField f then some f else aliasOf v f

/-- What is wrong with a label. -/
def labelError (v : View) (d : Typedef) : Label → Option (NodeId × String)
  | .bare id => some (id, "Don't use a constant here; expected one of: " ++ d.renderTicked)
  | .field id f _ =>
    if (coveredBy v d f).isSome then none
    else some (id, "Unexpected constant; expected one of: " ++ d.renderTicked)

/-- Whether a label deals with a constant. -/
def deals (v : View) (d : Typedef) (c : Constant) : Label → Bool
  | .bare _ => false
  | .field _ f value =>
    (coveredBy v d f).any c.isField || c.value.any fun x => value.any fun y => y.sameValue x

/-- The constants that no label deals with. -/
def missingConstants (v : View) (d : Typedef) (labels : List Label) : List Constant :=
  d.constants.filter fun c => !labels.any (deals v d c)

def missingLead : String :=
  "Switch statement on an `int` with known associated constant missing case "

variable {W S : Type}

def checkSwitch (id : NodeId) : Task W S Unit := do
  let v ← Task.view
  let t := v.tree
  let selector :: rest := t.children id | return
  let some d := selectorTypedef v maxSteps selector | return
  if d.constants.isEmpty then return
  let cases := rest.filter fun c => t.kind c == .case
  let labels := labelsOf v cases
  let heard := labels.takeWhile fun l => !l.isBare
  let judged := heard ++ (labels.find? Label.isBare).toList
  (judged.filterMap (labelError v d)).forM fun (l, message) => Task.reportAt switchIssue l message
  if labels.any Label.isBare || cases.any fun c => t.name c == some "default" then return
  let whole := t.location id
  let keyword := { whole with stop := min (whole.start + "switch".length) whole.stop }
  (missingConstants v d heard).forM fun c => do
    let item := "`" ++ c.render ++ "`"
    Task.report { Finding.new switchIssue keyword (missingLead ++ item) with
      anchor := some id
      merge := some { lead := missingLead, items := [item] } }

/-! ### Uses -/

/-- Whether a use needs no check: the constants of the set may carry the
annotation, and a variable may start as zero. -/
def isExempt (v : View) (d : Typedef) (u : Usage) : Bool :=
  let t := v.tree
  match u.kind, t.parent u.node with
  | .initializer, some variable_ =>
    let n := t.node u.node
    let isMember := match t.kind variable_, v.resolve variable_ with
      | .field, some (.field owner name) => d.hasField (owner, name)
      | _, _ => false
    isMember || (n.kind == .literal && n.literal.bind Literal.asInt == some 0)
  | _, _ => false

def checkUsage (u : Usage) : Task W S Unit := do
  let v ← Task.view
  let some d := Typedef.ofAnnotation? v u.ann | return
  if d.isOpen || isExempt v d u then return
  let k : Check :=
    { view := v, typedef := d, range := (usageAnnotations v u).find? fun a => isAny a intRange }
  let some violation := k.node u.node | return
  let f ← Task.finding wrongConstantIssue u.node (k.message violation)
  Task.report { f with fix := k.fix violation }

def typedefDetector : Detector W S where
  name := "TypedefDetector"
  issues := [uniqueIssue, wrongConstantIssue, switchIssue]
  interests := annotationInterests [intDef, longDef, stringDef] ++ [⟨.source, .exit .switch⟩]
  on
    | .usage u => do
      match u.kind with
      | .definition =>
        if isAny u.ann intDef || isAny u.ann longDef then
          let v ← Task.view
          if let some (item, previous, message) := duplicate v u.node then
            let f ← Task.finding uniqueIssue item message
            Task.report { f with secondary := [v.tree.location previous] }
      | .argument _ | .initializer => checkUsage u
      | .call => return
    | .exit id => checkSwitch id
    | _ => return

end LintEngine.Rules
