import LintEngine.Rules.Contracts

/-!
Ranges: constant values that an annotated parameter or variable does not
admit, and annotations that admit no value.
-/

namespace LintEngine.Rules

def rangeIssue : Issue where
  id := "Range"
  brief := "Outside Range"
  explanation := "Some parameters are required to be in a particular numerical range; this check " ++
    "makes sure that arguments passed fall within the range. For arrays, Strings and " ++
    "collections this refers to the size or length."
  priority := 6
  severity := .error
  detector := "RangeDetector"
  scopes := [.javaFile]

def invalidRangeIssue : Issue where
  id := "InvalidRange"
  brief := "Invalid Range Annotation"
  explanation := "A range annotation whose lower bound is above its upper bound, or a size " ++
    "annotation with a negative size or a multiple below one, can never be " ++
    "satisfied; every use of the annotated element would be reported."
  priority := 2
  severity := .error
  detector := "RangeDetector"
  scopes := [.javaFile]

/-! ### Bounds -/

def showInt (v : Int64) : String := toString v.toInt

def showFloat (v : Float) : String := Decimal.constantText.write v

/-- What is wrong with a value that has to lie between two others. -/
def intRangeError (value lo hi : Int64) : Option String :=
  if value < lo then some ("Value must be ≥ " ++ showInt lo ++ " (was " ++ showInt value ++ ")")
  else if value > hi then some ("Value must be ≤ " ++ showInt hi ++ " (was " ++ showInt value ++ ")")
  else none

/-- What is wrong with a value between two bounds, each of which is admitted
or not. -/
def floatRangeError (value lo hi : Float) (loInclusive hiInclusive : Bool) : Option String :=
  let message := fun (op : String) (bound : Float) =>
    some ("Value must be " ++ op ++ " " ++ showFloat bound ++ " (was " ++ showFloat value ++ ")")
  if if loInclusive then value < lo else value ≤ lo then
    message (if loInclusive then "≥" else ">") lo
  else if if hiInclusive then value > hi else value ≥ hi then
    message (if hiInclusive then "≤" else "<") hi
  else none

/-- What is wrong with a size. An exact size of -1 means that none is asked
for; `unit` is the word for the size. -/
def sizeError (actual exact min max multiple : Int64) (unit : String) : Option String :=
  let message := fun (asked : String) =>
    some ("Expected " ++ unit ++ " " ++ asked ++ " (was " ++ showInt actual ++ ")")
  if exact != -1 && actual != exact then message (showInt exact)
  else if actual < min then message ("≥ " ++ showInt min)
  else if actual > max then message ("≤ " ++ showInt max)
  else if multiple > 1 && actual % multiple != 0 then
    let lower := actual / multiple * multiple
    some ("Expected " ++ unit ++ " to be a multiple of " ++ showInt multiple ++ " (was " ++
      showInt actual ++ " and should be either " ++ showInt lower ++ " or " ++
      showInt (lower + multiple) ++ ")")
  else none

def leastInt : Int64 := Int64.minValue

def greatestInt : Int64 := Int64.maxValue

def infinity : Float := 1.0 / 0.0

/-! ### Annotations -/

section

variable (v : View) (a : Annotation)

def intAttribute (name : String) : Option Int64 := (v.attributeValue a name).bind Literal.asInt

def floatAttribute (name : String) : Option Float := (v.attributeValue a name).bind Literal.asFloat

def boolAttribute (name : String) : Option Bool := (v.attributeValue a name).bind Literal.asBool

/-- What is wrong with a value under an integer range. -/
def rangeErrorOf (value : Int64) : Option String :=
  intRangeError value ((intAttribute v a "from").getD leastInt) ((intAttribute v a "to").getD greatestInt)

/-- Why an annotation can never be satisfied. -/
def definitionError : Option String :=
  let badRange := some "Invalid range: the `from` attribute must be less than the `to` attribute"
  if isAny a intRange then
    if (intAttribute v a "from").getD leastInt > (intAttribute v a "to").getD greatestInt then badRange
    else none
  else if isAny a floatRange then
    if (floatAttribute v a "from").getD (-infinity) > (floatAttribute v a "to").getD infinity then
      badRange
    else none
  else if isAny a size then
    let exact := intAttribute v a "value"
    let min := intAttribute v a "min"
    if min.getD leastInt > (intAttribute v a "max").getD greatestInt then
      some "Invalid size range: the `min` attribute must be less than the `max` attribute"
    else if (intAttribute v a "multiple").getD 1 < 1 then some "The size multiple must be at least 1"
    else if exact.any (· < 0) || min.any (· < 0) then some "The size can't be negative"
    else none
  else none

end

/-! ### Uses -/

/-- The elements of an array that is written out. -/
def arrayElements? (t : Tree) (id : NodeId) : Option (List NodeId) :=
  match t.kind id with
  | .arrayInit => some (t.children id)
  | .new => ((t.children id).find? fun c => t.kind c == .arrayInit).map t.children
  | _ => none

/-- The constants in a value; of an array, those of its elements. -/
def constantValues (v : View) (id : NodeId) : List (NodeId × Literal) :=
  let id := v.tree.skipParentheses id
  ((arrayElements? v.tree id).getD [id]).filterMap fun e => (v.evaluateNode e).map (e, ·)

/-- The size of an array or text, with the word for it. -/
def sizeOf? (v : View) (id : NodeId) : Option (Int64 × String) :=
  match arrayElements? v.tree id with
  | some elements => some (Int64.ofNat elements.length, "size")
  | none => match v.evaluateNode id with
    | some (.str s) => some (Int64.ofNat s.length, "length")
    | _ => none

/-- What is wrong with the values of a use, node by node. -/
def usageErrors (v : View) (u : Usage) : List (NodeId × String) :=
  let a := u.ann
  if isAny a intRange then
    -- a set of constants comes with its own message about the range
    if (usageAnnotations v u).any fun s => isAny s intDef || isAny s longDef then []
    else (constantValues v u.node).filterMap fun (id, value) =>
      (value.asInt.bind (rangeErrorOf v a)).map (id, ·)
  else if isAny a floatRange then
    let lo := (floatAttribute v a "from").getD (-infinity)
    let hi := (floatAttribute v a "to").getD infinity
    let loInclusive := (boolAttribute v a "fromInclusive").getD true
    let hiInclusive := (boolAttribute v a "toInclusive").getD true
    (constantValues v u.node).filterMap fun (id, value) =>
      (value.asFloat.bind fun x => floatRangeError x lo hi loInclusive hiInclusive).map (id, ·)
  else if isAny a size then
    let id := v.tree.skipParentheses u.node
    match sizeOf? v id with
    | none => []
    | some (actual, unit) =>
      let exact := (intAttribute v a "value").getD (-1)
      let min := (intAttribute v a "min").getD leastInt
      let max := (intAttribute v a "max").getD greatestInt
      let multiple := (intAttribute v a "multiple").getD 1
      ((sizeError actual exact min max multiple unit).map (id, ·)).toList
  else []

def rangeDetector {W S : Type} : Detector W S where
  name := "RangeDetector"
  issues := [rangeIssue, invalidRangeIssue]
  interests := annotationInterests [intRange, floatRange, size]
  on
    | .usage u => do
      let v ← Task.view
      match u.kind with
      | .definition =>
        if let some message := definitionError v u.ann then
          Task.reportAt invalidRangeIssue u.node message
      | .argument _ | .initializer =>
        (usageErrors v u).forM fun (id, message) => Task.reportAt rangeIssue id message
      | .call => return
    | _ => return

end LintEngine.Rules
