import LintEngine.Java.Grammar

/-!
The grammar of expressions. Binary operators climb by precedence and group to
the left; assignment and the conditional group to the right.

A parenthesis can open a lambda, a cast or a plain parenthesis. A cast is
recognised by a type between the parentheses and by what follows. Before a
sign, a single name in parentheses is an operand and any other type is a
cast.
-/

namespace LintEngine.Java

open P

/-! ### Operators -/

/-- The binding strength of binary operators. -/
def precedence (op : String) : Option Nat :=
  if op == "||" then some 4
  else if op == "&&" then some 5
  else if op == "|" then some 6
  else if op == "^" then some 7
  else if op == "&" then some 8
  else if ["==", "!="].contains op then some 9
  else if ["<", ">", "<=", ">=", "instanceof"].contains op then some 10
  else if ["<<", ">>", ">>>"].contains op then some 11
  else if ["+", "-"].contains op then some 12
  else if ["*", "/", "%"].contains op then some 13
  else none

def assignmentOperators : List String :=
  ["=", "+=", "-=", "*=", "/=", "&=", "|=", "^=", "%=", "<<=", ">>=", ">>>="]

/-- The number of tokens, at most `n`, that touch each other and read `>`. -/
def angles : Nat → Option Nat → List Token → Nat
  | 0, _, _ => 0
  | _, _, [] => 0
  | n + 1, touch, t :: ts =>
    if t.text == ">" && touch.all (· == t.start) then angles n (some t.stop) ts + 1 else 0

/-- An operator, with touching `>` and `=` joined. -/
def operator : P Phrase := do
  let ts ← get
  let n := angles 3 none ts
  if n == 0 then
    let t ← next
    check (t.kind == .symbol || t.kind == .word)
    return .mk (.token t.text) none t.start t.stop []
  else
    let taken := ts.take n
    let stop := (taken.getLast?.map (·.stop)).getD 0
    let joined := match (ts.drop n).head? with
      | some e => if e.text == "=" && e.start == stop then taken ++ [e] else taken
      | none => taken
    set (ts.drop joined.length)
    let text := String.join (joined.map (·.text))
    return .mk (.token text) none ((joined.head?.map (·.start)).getD 0)
      ((joined.getLast?.map (·.stop)).getD 0) []

def tokenText (p : Phrase) : String :=
  match p.rule with
  | .token text => text
  | _ => ""

/-! ### Lambdas and casts -/

/-- The tokens after the parenthesis that closes an open one. -/
def afterClosing : Nat → List Token → List Token
  | _, [] => []
  | depth, t :: ts =>
    if t.kind == .symbol && t.text == "(" then afterClosing (depth + 1) ts
    else if t.kind == .symbol && t.text == ")" then
      if depth ≤ 1 then ts else afterClosing (depth - 1) ts
    else afterClosing depth ts

/-- Whether the tokens ahead start a lambda. -/
def startsLambda : P Bool := do
  let ts ← get
  match ts with
  | t :: rest =>
    if t.kind == .symbol && t.text == "(" then
      return ((afterClosing 1 rest).head?.map (·.text)) == some "->"
    else if t.kind == .word && !keywords.contains t.text then
      return (rest.head?.map (·.text)) == some "->"
    else return false
  | [] => return false

def inferredParameters (g : Grammar) : P Phrase := do
  let lp ← tok "("
  let xs ← sepBy1 g.bound "," identifier
  let rp ← tok ")"
  return .node .formalParameters (lp :: xs ++ [rp])

def lambda (g : Grammar) : P Phrase := do
  check (← startsLambda)
  let ps ← identifier <|> inferredParameters g <|> formalParameters g
  let arrow ← tok "->"
  let body ← g.block <|> g.expression
  return .node .lambda [ps.as .parameters, arrow, body.as .body]

/-- Whether a token can start an operand that is not a signed one. -/
def startsOperand (t : Token) : Bool :=
  match t.kind with
  | .integer | .floating | .character | .string => true
  | .word =>
    !keywords.contains t.text ||
      ["this", "super", "new", "switch", "true", "false", "null"].contains t.text ||
      primitiveNames.contains t.text
  | .symbol => ["(", "!", "~"].contains t.text
  | .comment => false

def startsSign (t : Token) : Bool := ["+", "-", "++", "--"].contains t.text

/-- What stands in the parentheses of a cast: a type, or several joined. -/
def castTypes (g : Grammar) : P (List Phrase) := do
  let ts ← sepBy1 g.bound "&" g.type
  return ts.map fun t => if t.isToken then t else t.as .type

def cast (g : Grammar) : P Phrase := do
  let lp ← tok "("
  let ts ← castTypes g
  let rp ← tok ")"
  let following ← peek?
  let onlyType := (ts.head?.map (·.rule)) != some .typeIdentifier
  check (following.any fun t =>
    startsOperand t || (startsSign t && onlyType && ts.length == 1))
  let value ← lambda g <|> g.unary
  return .node .cast ([lp] ++ ts ++ [rp, value.as .value])

/-! ### Primary expressions -/

def literal : P Phrase := do
  let t ← next
  let leaf := fun rule => (Phrase.mk rule none t.start t.stop [] : Phrase)
  match t.kind, t.text with
  | .integer, _ => return leaf .integerLiteral
  | .floating, _ => return leaf .floatingLiteral
  | .character, _ => return leaf .characterLiteral
  | .string, _ => return leaf .stringLiteral
  | .word, "true" => return leaf .trueLiteral
  | .word, "false" => return leaf .falseLiteral
  | .word, "null" => return leaf .nullLiteral
  | _, _ => failure

def parenthesized (g : Grammar) : P Phrase := do
  let lp ← tok "("
  let e ← g.expression
  let rp ← tok ")"
  return .node .parenthesized [lp, e, rp]

def arguments (g : Grammar) : P Phrase := do
  let lp ← tok "("
  let args ← sepBy g.bound "," g.expression
  let rp ← tok ")"
  return .node .arguments (lp :: args ++ [rp])

def arrayInitializer (g : Grammar) : P Phrase := do
  let lb ← tok "\x7b"
  let items ← sepBy g.bound "," (g.arrayInitializer <|> g.expression)
  let comma ← opt (tok ",")
  let rb ← tok "\x7d"
  return .node .arrayInitializer ([lb] ++ items ++ comma ++ [rb])

def dimensionSize (g : Grammar) : P Phrase := do
  let anns ← annotations g
  let lb ← tok "["
  let e ← g.expression
  let rb ← tok "]"
  return .node .dimensionSize (anns ++ [lb, e, rb])

/-- What follows `new`, after the parts already read. -/
def creation (g : Grammar) (before : List Phrase) : P Phrase := do
  let new ← tok "new"
  let targs ← opt (typeArguments g)
  let anns ← annotations g
  let t ← simpleType g
  let head := before ++ [new] ++ targs ++ anns ++ [t.as .type]
  (do
    let args ← arguments g
    let body ← opt g.classBody
    return .node .objectCreation (head ++ [args.as .arguments] ++ body))
  <|> (do
    let ds ← dimensions g
    let init ← g.arrayInitializer
    return .node .arrayCreation (head ++ [ds, init]))
  <|> (do
    let sizes ← many1 g.bound (one (dimensionSize g))
    let ds ← opt (dimensions g)
    return .node .arrayCreation (head ++ sizes ++ ds))

/-- What follows `::`. -/
def referenceTail (g : Grammar) (left : Phrase) : P Phrase := do
  let colons ← tok "::"
  let targs ← opt (typeArguments g)
  let target ← tok "new" <|> identifier
  return .node .methodReference ([left, colons] ++ targs ++ [target])

/-- Reads a chain of names as a type. -/
def asType (p : Phrase) : Phrase :=
  if p.rule == .identifier then p.reread .typeIdentifier else p.reread .scopedType

/-- A type in front of `.class` or `::`: a primitive one, or one with type
arguments or dimensions. -/
def typeOperand (g : Grammar) : P Phrase := do
  let t ← bareType g
  check (!([.typeIdentifier, .scopedType] : List Rule).contains t.rule)
  (do
    let dot ← tok "."
    let c ← tok "class"
    return .node .classLiteral [t, dot, c]) <|> referenceTail g t

def callOrName (g : Grammar) : P Phrase := do
  let x ← identifier
  (do
    let args ← arguments g
    return .node .methodCall [x.as .name, args.as .arguments]) <|> pure x

/-- One step of selection, call, indexing or reference from an expression. -/
def select (g : Grammar) (left : Phrase) : P Phrase :=
  (do
    let dot ← tok "."
    let c ← tok "class"
    return .node .classLiteral [asType left, dot, c])
  <|> (do
    let dot ← tok "."
    creation g [left, dot])
  <|> (do
    let dot ← tok "."
    let w ← wordAs "this" .thisWord
    return .node .fieldAccess [left.as .object, dot, w.as .name])
  <|> (do
    let dot ← tok "."
    let outer ← (do
        let w ← wordAs "super" .superWord
        let dot ← tok "."
        return [w, dot]) <|> pure []
    let targs ← opt (typeArguments g)
    let x ← identifier
    (do
      let args ← arguments g
      return .node .methodCall
        ([left.as .object, dot] ++ outer ++ targs ++ [x.as .name, args.as .arguments]))
    <|> pure (.node .fieldAccess ([left.as .object, dot] ++ outer ++ [x.as .name])))
  <|> (do
    let lb ← tok "["
    let e ← g.expression
    let rb ← tok "]"
    return .node .arrayAccess [left, lb, e, rb])
  <|> referenceTail g left

/-- All steps of selection. -/
def selections (g : Grammar) : Nat → Phrase → P Phrase
  | 0, left => pure left
  | n + 1, left => (do
      let next ← select g left
      selections g n next) <|> pure left

def primary (g : Grammar) : P Phrase := do
  let base ← typeOperand g <|> literal <|> parenthesized g <|> creation g [] <|>
    wordAs "this" .thisWord <|> wordAs "super" .superWord <|> callOrName g
  selections g g.bound base

/-! ### Switches -/

def guarded (g : Grammar) : P (List Phrase) := (do
    let w ← tok "when"
    let e ← g.expression
    return [.node .guard [w, e]]) <|> pure []

def switchLabel (g : Grammar) : P Phrase := (do
    let w ← tok "default"
    return .node .switchLabel [w]) <|> (do
    let w ← tok "case"
    let values ← (do
        let p ← g.pattern
        let following ← ahead 0
        check (["->", ":", "when"].contains following)
        return [.node .pattern [p]]) <|> sepBy1 g.bound "," g.ternary
    let guard ← guarded g
    return .node .switchLabel ([w] ++ values ++ guard))

/-- A part of a record pattern: a pattern, or `_` for any value. -/
def patternPiece (g : Grammar) : P Phrase := g.pattern <|> (do
    let any ← tok "_"
    return .node .typePattern [any.reread .wildcard])

def patternPart (g : Grammar) : P Phrase := (do
    let t ← bareType g
    let x ← identifier
    return .node .typePattern [t, x]) <|> (do
    let t ← simpleType g
    let lp ← tok "("
    let ps ← sepBy g.bound "," (patternPiece g)
    let rp ← tok ")"
    let head := if t.rule == .typeIdentifier then t.reread .identifier else t
    return .node .recordPattern [head, .node .recordPatternBody (lp :: ps ++ [rp])])

def throwStatement (g : Grammar) : P Phrase := do
  let w ← tok "throw"
  let e ← g.expression
  let semi ← tok ";"
  return .node .throwStatement [w, e, semi]

def expressionStatement (g : Grammar) : P Phrase := do
  let e ← g.expression
  let semi ← tok ";"
  return .node .expressionStatement [e, semi]

/-- A label with the statements that it leads to. -/
def switchGroup (g : Grammar) : P Phrase := do
  let label ← switchLabel g
  (do
    let colon ← tok ":"
    let body ← many g.bound (one g.statement)
    return .node .switchGroup ([label, colon] ++ body))
  <|> (do
    let arrow ← tok "->"
    let body ← throwStatement g <|> g.block <|> expressionStatement g
    return .node .switchGroup [label, arrow, body])

def switchExpression (g : Grammar) : P Phrase := do
  let w ← tok "switch"
  let c ← parenthesized g
  let lb ← tok "\x7b"
  let groups ← many g.bound (one (switchGroup g))
  let rb ← tok "\x7d"
  let body := Phrase.node .switchBlock (lb :: groups ++ [rb])
  return .node .switchExpression [w, c.as .condition, body.as .body]

/-! ### Levels of precedence -/

/-- An operand with its signs, before any trailing `++`. -/
def unaryCore (g : Grammar) : P Phrase := (do
    let op ← oneOf ["+", "-", "!", "~"]
    let x ← g.unaryCore
    return .node .unary [op.as .operator, x.as .operand])
  <|> (do
    let op ← oneOf ["++", "--"]
    let x ← g.unaryCore
    return .node .update [op, x])
  <|> cast g <|> switchExpression g <|> primary g

/-- A trailing `++` belongs to the whole operand, its signs included. -/
def unary (g : Grammar) : P Phrase := do
  let x ← unaryCore g
  let ops ← many g.bound (one (oneOf ["++", "--"]))
  return ops.foldl (fun x op => .node .update [x, op]) x

/-- The right-hand side of `instanceof`. -/
def instanceTail (g : Grammar) (left op : Phrase) : P Phrase := do
  let final ← opt (tok "final")
  (do
    let p ← patternPart g
    check (p.rule == .recordPattern)
    return .node .instanceOf ([left.as .left, op] ++ final ++ [p]))
  <|> (do
    let t ← g.type
    let x ← opt identifier
    return .node .instanceOf ([left.as .left, op] ++ final ++ [t.as .right] ++ x))

/-- Extends an operand by the binary operators that bind at least as strongly
as `least`. -/
def climb (g : Grammar) : Nat → Nat → Phrase → P Phrase
  | 0, _, left => pure left
  | n + 1, least, left => (do
      let op ← operator
      match precedence (tokenText op) with
      | none => failure
      | some strength =>
        check (least ≤ strength)
        if tokenText op == "instanceof" then
          climb g n least (← instanceTail g left op)
        else
          let first ← unary g
          let right ← climb g n (strength + 1) first
          climb g n least (.node .binary [left.as .left, op.as .operator, right.as .right]))
    <|> pure left

def ternary (g : Grammar) : P Phrase := do
  let first ← unary g
  let condition ← climb g g.bound 0 first
  (do
    let q ← tok "?"
    let yes ← g.expression
    let colon ← tok ":"
    let no ← lambda g <|> g.ternary
    return .node .ternary
      [condition.as .condition, q, yes.as .consequence, colon, no.as .alternative])
  <|> pure condition

/-- Only names, selections and array elements are assigned to. -/
def isAssignable (p : Phrase) : Bool :=
  [.identifier, .fieldAccess, .arrayAccess].contains p.rule

def expression (g : Grammar) : P Phrase := lambda g <|> do
  let left ← ternary g
  (do
    check (isAssignable left)
    let op ← operator
    check (assignmentOperators.contains (tokenText op))
    let right ← g.expression
    return .node .assignment [left.as .left, op.as .operator, right.as .right])
  <|> pure left

end LintEngine.Java
