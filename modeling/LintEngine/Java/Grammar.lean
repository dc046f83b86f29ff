import LintEngine.Java.Phrase

/-!
Reading tokens: the small parsers from which the grammar is put together, and
the grammar's knot.

A parser takes tokens from the front of a list or fails. Rules of the grammar
refer to each other in cycles; `Grammar` is the record of those that are
referred to, and every rule is an ordinary function of such a record. The knot
is tied in `Java.Declarations`, once per level of nesting.
-/

namespace LintEngine.Java

/-- A parser: it consumes tokens from the front, or fails. -/
abbrev P := StateT (List Token) Option

/-- The rules that other rules refer to before they are defined. -/
structure Grammar where
  /-- No list of phrases is longer than this. -/
  bound : Nat
  type : P Phrase
  annotationUse : P Phrase
  elementValue : P Phrase
  expression : P Phrase
  ternary : P Phrase
  unary : P Phrase
  unaryCore : P Phrase
  statement : P Phrase
  block : P Phrase
  classBody : P Phrase
  member : P Phrase
  arrayInitializer : P Phrase
  pattern : P Phrase

namespace P

def peek? : P (Option Token) := return (← get).head?

/-- The text of the token that lies `n` tokens ahead. -/
def ahead (n : Nat) : P String := return (((← get)[n]?).map (·.text)).getD ""

def next : P Token := do
  match ← get with
  | [] => failure
  | t :: ts => set ts; return t

/-- A keyword or a symbol. -/
def tok (text : String) : P Phrase := do
  let t ← next
  if t.text == text && (t.kind == .word || t.kind == .symbol) then
    return .mk (.token text) none t.start t.stop []
  else failure

/-- One of several keywords or symbols. -/
def oneOf (texts : List String) : P Phrase := do
  let t ← next
  if texts.contains t.text && (t.kind == .word || t.kind == .symbol) then
    return .mk (.token t.text) none t.start t.stop []
  else failure

/-- A keyword that is a phrase of its own. -/
def wordAs (text : String) (rule : Rule) : P Phrase := return (← tok text).reread rule

def identifier : P Phrase := do
  let t ← next
  if t.kind == .word && !keywords.contains t.text then
    return .mk .identifier none t.start t.stop []
  else failure

def opt (p : P Phrase) : P (List Phrase) := (return [← p]) <|> pure []

def optAs (p : P Phrase) (role : Role) : P (List Phrase) := (return [(← p).as role]) <|> pure []

/-- As many as there are, up to a bound. -/
def many : Nat → P (List Phrase) → P (List Phrase)
  | 0, _ => pure []
  | n + 1, p => (do
      let x ← p
      let xs ← many n p
      return x ++ xs) <|> pure []

def many1 (n : Nat) (p : P (List Phrase)) : P (List Phrase) := do
  let x ← p
  return x ++ (← many n p)

def one (p : P Phrase) : P (List Phrase) := return [← p]

/-- At least one item, with separators between them. -/
def sepBy1 (n : Nat) (sep : String) (p : P Phrase) : P (List Phrase) := do
  let x ← p
  return x :: (← many n do
    let s ← tok sep
    let y ← p
    return [s, y])

def sepBy (n : Nat) (sep : String) (p : P Phrase) : P (List Phrase) := sepBy1 n sep p <|> pure []

/-- Succeeds, without taking anything, if a condition holds. -/
def check (condition : Bool) : P Unit := if condition then pure () else failure

end P

open P

/-! ### Names and types -/

/-- A dotted name. -/
def name (g : Grammar) : P Phrase := do
  let first ← identifier
  let rest ← many g.bound do
    let dot ← tok "."
    let x ← identifier
    return [dot, x]
  return extend first rest
where
  extend (left : Phrase) : List Phrase → Phrase
    | dot :: x :: rest => extend (.node .scopedIdentifier [left.as .scope, dot, x.as .name]) rest
    | _ => left

/-- The attribute of an annotation, `key = value`. -/
def elementPair (g : Grammar) : P Phrase := do
  let key ← identifier
  let eq ← tok "="
  let value ← g.elementValue
  return .node .elementPair [key.as .key, eq, value.as .value]

def annotationArguments (g : Grammar) : P Phrase := do
  let lp ← tok "("
  let args ← sepBy1 g.bound "," (elementPair g) <|> opt g.elementValue
  let rp ← tok ")"
  return .node .annotationArguments (lp :: args ++ [rp])

def annotationUse (g : Grammar) : P Phrase := do
  let at_ ← tok "@"
  let n ← name g
  let args ← optAs (annotationArguments g) .arguments
  return .node .annotationUse ([at_, n.as .name] ++ args)

def elementValue (g : Grammar) : P Phrase := (do
    let lb ← tok "\x7b"
    let items ← sepBy g.bound "," g.elementValue
    let comma ← opt (tok ",")
    let rb ← tok "\x7d"
    return .node .elementArray ([lb] ++ items ++ comma ++ [rb]))
  <|> g.annotationUse <|> g.expression

def annotations (g : Grammar) : P (List Phrase) := many g.bound (one g.annotationUse)

def wildcard (g : Grammar) : P Phrase := do
  let anns ← annotations g
  let q ← tok "?"
  let limit ← (do
      let w ← tok "extends" <|> wordAs "super" .superWord
      let t ← g.type
      return [w, t]) <|> pure []
  return .node .wildcard (anns ++ [q] ++ limit)

def typeArguments (g : Grammar) : P Phrase := do
  let lt ← tok "<"
  let args ← sepBy g.bound "," (wildcard g <|> g.type)
  let gt ← tok ">"
  return .node .typeArguments (lt :: args ++ [gt])

def primitiveNames : List String :=
  ["byte", "short", "int", "long", "char", "float", "double", "boolean", "void"]

/-- Lets a type continue with type arguments and nested types. -/
def typeTail (g : Grammar) : Nat → Phrase → P Phrase
  | 0, left => pure left
  | n + 1, left => (do
      let args ← typeArguments g
      typeTail g n (.node .genericType [left, args]))
    <|> (do
      let dot ← tok "."
      let anns ← annotations g
      let x ← identifier
      typeTail g n (.node .scopedType ([left, dot] ++ anns ++ [x.reread .typeIdentifier])))
    <|> pure left

/-- A type without array dimensions. -/
def simpleType (g : Grammar) : P Phrase :=
  (return (← oneOf primitiveNames).reread .primitiveType) <|> (do
    let x ← identifier
    typeTail g g.bound (x.reread .typeIdentifier))

/-- Pairs of brackets, with annotations before them. -/
def dimensions (g : Grammar) : P Phrase := do
  let ds ← many1 g.bound do
    let anns ← annotations g
    let lb ← tok "["
    let rb ← tok "]"
    return anns ++ [lb, rb]
  return .node .dimensions ds

/-- A type without annotations before it. -/
def bareType (g : Grammar) : P Phrase := do
  let t ← simpleType g
  (do
    let ds ← dimensions g
    return .node .arrayType [t.as .element, ds.as .dimensions]) <|> pure t

def type (g : Grammar) : P Phrase := do
  let anns ← annotations g
  let t ← bareType g
  return if anns.isEmpty then t else .node .annotatedType (anns ++ [t])

def typeParameters (g : Grammar) : P Phrase := do
  let lt ← tok "<"
  let ps ← sepBy1 g.bound "," do
    let anns ← annotations g
    let x ← identifier
    let limit ← (do
        let w ← tok "extends"
        let ts ← sepBy1 g.bound "&" g.type
        return w :: ts) <|> pure []
    return .node .typeParameters (anns ++ [x] ++ limit)
  let gt ← tok ">"
  return .node .typeParameters (lt :: ps ++ [gt])

def typeList (g : Grammar) : P Phrase := return .node .typeList (← sepBy1 g.bound "," g.type)

/-! ### Modifiers -/

def modifierWords : List String :=
  ["public", "protected", "private", "abstract", "static", "final", "strictfp", "default",
   "synchronized", "native", "transient", "volatile"]

/-- One modifier. `sealed` counts only before another keyword. -/
def modifier (g : Grammar) : P (List Phrase) :=
  one (oneOf modifierWords)
  <|> (do
    let s ← tok "sealed"
    let after ← ahead 0
    check (keywords.contains after)
    return [s])
  <|> (do
    let n ← tok "non"
    let d ← tok "-"
    let s ← tok "sealed"
    return [n, d, s])
  <|> (do
    check ((← ahead 1) != "interface")
    one g.annotationUse)

def modifiers (g : Grammar) : P (List Phrase) :=
  (return [.node .modifiers (← many1 g.bound (modifier g))]) <|> pure []

/-! ### Parameters and variables -/

/-- A declared name with its dimensions. -/
def declaredName (g : Grammar) : P (List Phrase) := do
  let x ← identifier
  let ds ← optAs (dimensions g) .dimensions
  return x.as .name :: ds

def declarator (g : Grammar) : P Phrase := do
  let n ← declaredName g
  let value ← (do
      let eq ← tok "="
      let v ← g.arrayInitializer <|> g.expression
      return [eq, v.as .value]) <|> pure []
  return .node .declarator (n ++ value)

def declarators (g : Grammar) : P (List Phrase) := do
  let ds ← sepBy1 g.bound "," (declarator g)
  return ds.map fun d => if d.isToken then d else d.as .declarator

def receiverParameter (g : Grammar) : P Phrase := do
  let anns ← annotations g
  let t ← bareType g
  let path ← many g.bound do
    let x ← identifier
    let dot ← tok "."
    return [x, dot]
  let w ← wordAs "this" .thisWord
  return .node .receiverParameter (anns ++ [t] ++ path ++ [w])

def formalParameter (g : Grammar) : P Phrase := do
  let ms ← modifiers g
  let t ← bareType g
  (do
    let dots ← tok "..."
    let d ← declarator g
    return .node .spreadParameter (ms ++ [t, dots, d])) <|> (do
    let n ← declaredName g
    return .node .formalParameter (ms ++ [t.as .type] ++ n))

def formalParameters (g : Grammar) : P Phrase := do
  let lp ← tok "("
  let ps ← sepBy g.bound "," (receiverParameter g <|> formalParameter g)
  let rp ← tok ")"
  return .node .formalParameters (lp :: ps ++ [rp])

def localVariables (g : Grammar) : P Phrase := do
  let ms ← modifiers g
  let t ← bareType g
  let ds ← declarators g
  let semi ← tok ";"
  return .node .localVariables (ms ++ [t.as .type] ++ ds ++ [semi])

end LintEngine.Java
