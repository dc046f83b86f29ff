import LintEngine.Java.Expressions

/-!
The grammar of statements, class members and whole files, and the knot of the
grammar.
-/

namespace LintEngine.Java

open P

/-! ### Statements -/

def block (g : Grammar) : P Phrase := do
  let lb ← tok "\x7b"
  let body ← many g.bound (one g.statement)
  let rb ← tok "\x7d"
  return .node .block (lb :: body ++ [rb])

def ifStatement (g : Grammar) : P Phrase := do
  let w ← tok "if"
  let c ← parenthesized g
  let yes ← g.statement
  let no ← (do
      let w ← tok "else"
      let s ← g.statement
      return [w, s]) <|> pure []
  return .node .ifStatement ([w, c, yes] ++ no)

def whileStatement (g : Grammar) : P Phrase := do
  let w ← tok "while"
  let c ← parenthesized g
  let body ← g.statement
  return .node .whileStatement [w, c, body]

def doStatement (g : Grammar) : P Phrase := do
  let w ← tok "do"
  let body ← g.statement
  let w2 ← tok "while"
  let c ← parenthesized g
  let semi ← tok ";"
  return .node .doStatement [w, body, w2, c, semi]

def forEachStatement (g : Grammar) : P Phrase := do
  let w ← tok "for"
  let lp ← tok "("
  let ms ← modifiers g
  let t ← bareType g
  let n ← declaredName g
  let colon ← tok ":"
  let value ← g.expression
  let rp ← tok ")"
  let body ← g.statement
  return .node .forEachStatement
    ([w, lp] ++ ms ++ [t.as .type] ++ n ++ [colon, value.as .value, rp, body.as .body])

def forStatement (g : Grammar) : P Phrase := do
  let w ← tok "for"
  let lp ← tok "("
  let init ← one (localVariables g) <|> (do
    let es ← sepBy g.bound "," g.expression
    let semi ← tok ";"
    return es ++ [semi])
  let condition ← opt g.expression
  let semi ← tok ";"
  let update ← sepBy g.bound "," g.expression
  let rp ← tok ")"
  let body ← g.statement
  return .node .forStatement ([w, lp] ++ init ++ condition ++ [semi] ++ update ++ [rp, body])

def resource (g : Grammar) : P Phrase := (do
    let ms ← modifiers g
    let t ← bareType g
    let n ← declaredName g
    let eq ← tok "="
    let e ← g.expression
    return .node .resource (ms ++ [t.as .type] ++ n ++ [eq, e.as .value]))
  <|> (return .node .resource [← primary g])

def resources (g : Grammar) : P Phrase := do
  let lp ← tok "("
  let rs ← sepBy1 g.bound ";" (resource g)
  let semi ← opt (tok ";")
  let rp ← tok ")"
  return .node .resources ([lp] ++ rs ++ semi ++ [rp])

def catchClause (g : Grammar) : P Phrase := do
  let w ← tok "catch"
  let lp ← tok "("
  let ms ← modifiers g
  let ts ← sepBy1 g.bound "|" (bareType g)
  let n ← declaredName g
  let rp ← tok ")"
  let body ← g.block
  let parameter := Phrase.node .catchParameter (ms ++ [.node .catchType ts] ++ n)
  return .node .catchClause [w, lp, parameter, rp, body]

def finallyClause (g : Grammar) : P Phrase := do
  let w ← tok "finally"
  let body ← g.block
  return .node .finallyClause [w, body]

def tryStatement (g : Grammar) : P Phrase := do
  let w ← tok "try"
  let rs ← optAs (resources g) .resources
  let body ← g.block
  let catches ← many g.bound (one (catchClause g))
  let last ← opt (finallyClause g)
  return .node .tryStatement ([w] ++ rs ++ [body] ++ catches ++ last)

def jump (word : String) (rule : Rule) (target : P (List Phrase)) : P Phrase := do
  let w ← tok word
  let x ← target
  let semi ← tok ";"
  return .node rule ([w] ++ x ++ [semi])

def assertStatement (g : Grammar) : P Phrase := do
  let w ← tok "assert"
  let c ← g.expression
  let detail ← (do
      let colon ← tok ":"
      let e ← g.expression
      return [colon, e]) <|> pure []
  let semi ← tok ";"
  return .node .assertStatement ([w, c] ++ detail ++ [semi])

def synchronizedStatement (g : Grammar) : P Phrase := do
  let w ← tok "synchronized"
  let c ← parenthesized g
  let body ← g.block
  return .node .synchronizedStatement [w, c, body]

def labeledStatement (g : Grammar) : P Phrase := do
  let x ← identifier
  let colon ← tok ":"
  let s ← g.statement
  return .node .labeledStatement [x, colon, s]

/-! ### Classes -/

def superclass (g : Grammar) : P Phrase := do
  let w ← tok "extends"
  let t ← g.type
  return .node .superclass [w, t]

def interfaces (g : Grammar) (word : String) : P Phrase := do
  let w ← tok word
  let ts ← typeList g
  return .node .interfaces [w, ts]

def permits (g : Grammar) : P Phrase := do
  let w ← tok "permits"
  let ts ← typeList g
  return .node .permits [w, ts]

def throwsClause (g : Grammar) : P Phrase := do
  let w ← tok "throws"
  let ts ← sepBy1 g.bound "," g.type
  return .node .throwsClause (w :: ts)

/-- `this(…)` or `super(…)` at the start of a constructor. -/
def constructorCall (g : Grammar) : P Phrase := do
  let before ← (do
      let targs ← typeArguments g
      return [targs]) <|> (do
      let x ← primary g
      let dot ← tok "."
      let targs ← opt (typeArguments g)
      return [x, dot] ++ targs) <|> pure []
  let w ← wordAs "this" .thisWord <|> wordAs "super" .superWord
  let args ← arguments g
  let semi ← tok ";"
  return .node .constructorCall (before ++ [w.as .constructor, args.as .arguments, semi])

def constructorBody (g : Grammar) : P Phrase := do
  let lb ← tok "\x7b"
  let first ← opt (constructorCall g)
  let body ← many g.bound (one g.statement)
  let rb ← tok "\x7d"
  return .node .constructorBody ([lb] ++ first ++ body ++ [rb])

def constructorDeclaration (g : Grammar) : P Phrase := do
  let ms ← modifiers g
  let tps ← opt (typeParameters g)
  let x ← identifier
  let ps ← formalParameters g
  let th ← opt (throwsClause g)
  let body ← constructorBody g
  return .node .constructorDeclaration
    (ms ++ tps ++ [x.as .name, ps.as .parameters] ++ th ++ [body.as .body])

/-- A constructor of a record without a parameter list. -/
def compactConstructor (g : Grammar) : P Phrase := do
  let ms ← modifiers g
  let x ← identifier
  let body ← g.block
  return .node .constructorDeclaration (ms ++ [x.as .name, body.as .body])

def defaultValue (g : Grammar) : P Phrase := do
  let w ← tok "default"
  let v ← g.elementValue
  return .node .defaultValue [w, v]

/-- A method, or an element of an annotation type. -/
def methodDeclaration (g : Grammar) : P Phrase := do
  let ms ← modifiers g
  let tps ← opt (typeParameters g)
  let anns ← annotations g
  let t ← bareType g
  let x ← identifier
  let ps ← formalParameters g
  let ds ← opt (dimensions g)
  let th ← opt (throwsClause g)
  let dv ← opt (defaultValue g)
  let body ← (return [(← g.block).as .body]) <|> one (tok ";")
  return .node .methodDeclaration
    (ms ++ tps ++ anns ++ [t.as .type, x.as .name, ps.as .parameters] ++ ds ++ th ++ dv ++ body)

def fieldDeclaration (g : Grammar) : P Phrase := return (← localVariables g).reread .fieldDeclaration

def staticInitializer (g : Grammar) : P Phrase := do
  let w ← tok "static"
  let body ← g.block
  return .node .staticInitializer [w, body]

def enumConstant (g : Grammar) : P Phrase := do
  let ms ← modifiers g
  let x ← identifier
  let args ← optAs (arguments g) .arguments
  let body ← optAs g.classBody .body
  return .node .enumConstant (ms ++ [x.as .name] ++ args ++ body)

/-- A declaration of a class of any kind. -/
def classLike (g : Grammar) : P Phrase := do
  let ms ← modifiers g
  (do
    let w ← tok "class"
    let x ← identifier
    let tps ← opt (typeParameters g)
    let sup ← optAs (superclass g) .superclass
    let is ← opt (interfaces g "implements")
    let pm ← opt (permits g)
    let body ← g.classBody
    return .node .classDeclaration (ms ++ [w, x.as .name] ++ tps ++ sup ++ is ++ pm ++ [body.as .body]))
  <|> (do
    let w ← tok "interface"
    let x ← identifier
    let tps ← opt (typeParameters g)
    let is ← opt (interfaces g "extends")
    let pm ← opt (permits g)
    let body ← g.classBody
    return .node .interfaceDeclaration (ms ++ [w, x.as .name] ++ tps ++ is ++ pm ++ [body.as .body]))
  <|> (do
    let a ← tok "@"
    let w ← tok "interface"
    let x ← identifier
    let body ← g.classBody
    return .node .annotationDeclaration (ms ++ [a, w, x.as .name, body.as .body]))
  <|> (do
    let w ← tok "record"
    let x ← identifier
    let tps ← opt (typeParameters g)
    let ps ← formalParameters g
    let is ← opt (interfaces g "implements")
    let body ← g.classBody
    return .node .recordDeclaration
      (ms ++ [w, x.as .name] ++ tps ++ [ps.as .parameters] ++ is ++ [body.as .body]))
  <|> (do
    let w ← tok "enum"
    let x ← identifier
    let is ← opt (interfaces g "implements")
    let lb ← tok "\x7b"
    let constants ← sepBy g.bound "," (enumConstant g)
    let comma ← opt (tok ",")
    let rest ← (do
        let semi ← tok ";"
        let ms ← many g.bound (one g.member)
        return [.node .enumBodyDeclarations (semi :: ms)]) <|> pure []
    let rb ← tok "\x7d"
    let body := Phrase.node .classBody ([lb] ++ constants ++ comma ++ rest ++ [rb])
    return .node .enumDeclaration (ms ++ [w, x.as .name] ++ is ++ [body.as .body]))

def member (g : Grammar) : P Phrase :=
  tok ";" <|> g.block <|> staticInitializer g <|> classLike g <|> constructorDeclaration g <|>
    compactConstructor g <|> methodDeclaration g <|> fieldDeclaration g

def classBody (g : Grammar) : P Phrase := do
  let lb ← tok "\x7b"
  let ms ← many g.bound (one (member g))
  let rb ← tok "\x7d"
  return .node .classBody (lb :: ms ++ [rb])

def statement (g : Grammar) : P Phrase :=
  g.block <|> tok ";" <|> ifStatement g <|> whileStatement g <|> doStatement g <|>
    forEachStatement g <|> forStatement g <|> tryStatement g <|> switchExpression g <|>
    synchronizedStatement g <|>
    jump "return" .returnStatement (opt g.expression) <|> throwStatement g <|>
    jump "break" .breakStatement (opt identifier) <|>
    jump "continue" .continueStatement (opt identifier) <|>
    jump "yield" .yieldStatement (one g.expression) <|> assertStatement g <|>
    labeledStatement g <|> classLike g <|> localVariables g <|> expressionStatement g

/-! ### The knot -/

/-- A grammar in which every rule fails. -/
def Grammar.none : Grammar where
  bound := 0
  type := failure
  annotationUse := failure
  elementValue := failure
  expression := failure
  ternary := failure
  unary := failure
  unaryCore := failure
  statement := failure
  block := failure
  classBody := failure
  member := failure
  arrayInitializer := failure
  pattern := failure

/-- The grammar of phrases nested at most `n` deep. -/
def grammarOfDepth : Nat → Grammar
  | 0 => .none
  | n + 1 =>
    { bound := n
      type := fun ts => type (grammarOfDepth n) ts
      annotationUse := fun ts => annotationUse (grammarOfDepth n) ts
      elementValue := fun ts => elementValue (grammarOfDepth n) ts
      expression := fun ts => expression (grammarOfDepth n) ts
      ternary := fun ts => ternary (grammarOfDepth n) ts
      unary := fun ts => unary (grammarOfDepth n) ts
      unaryCore := fun ts => unaryCore (grammarOfDepth n) ts
      statement := fun ts => statement (grammarOfDepth n) ts
      block := fun ts => block (grammarOfDepth n) ts
      classBody := fun ts => classBody (grammarOfDepth n) ts
      member := fun ts => member (grammarOfDepth n) ts
      arrayInitializer := fun ts => arrayInitializer (grammarOfDepth n) ts
      pattern := fun ts => patternPart (grammarOfDepth n) ts }

/-! ### Files -/

def packageDeclaration (g : Grammar) : P Phrase := do
  let anns ← annotations g
  let w ← tok "package"
  let n ← name g
  let semi ← tok ";"
  return .node .packageDeclaration (anns ++ [w, n, semi])

def importDeclaration (g : Grammar) : P Phrase := do
  let w ← tok "import"
  let s ← opt (tok "static")
  let n ← name g
  let star ← (do
      let dot ← tok "."
      let a ← tok "*"
      return [dot, a]) <|> pure []
  let semi ← tok ";"
  return .node .importDeclaration ([w] ++ s ++ [n] ++ star ++ [semi])

/-- A module declaration; nothing in it is looked at. -/
def moduleDeclaration (g : Grammar) : P Phrase := do
  let o ← opt (tok "open")
  let w ← tok "module"
  let n ← name g
  let lb ← tok "\x7b"
  let body ← many g.bound do
    let t ← next
    check (t.text != "\x7d")
    return [.mk (.token t.text) none t.start t.stop []]
  let rb ← tok "\x7d"
  return .node .moduleDeclaration (o ++ [w, n, lb] ++ body ++ [rb])

/-- Whatever stands at the top of a file; a token that fits nowhere is passed
over. -/
def topLevel (g : Grammar) : P Phrase :=
  packageDeclaration g <|> importDeclaration g <|> moduleDeclaration g <|> g.statement <|>
    methodDeclaration g <|> do
    let t ← next
    return .mk (.token t.text) none t.start t.stop []

/-- The phrase of a whole file, comments included. -/
def parse (source : String) : Phrase :=
  let all := tokens source
  let code := all.filter (·.kind != .comment)
  let g := grammarOfDepth (3 * (code.length + 1))
  let parts := match (many code.length (one (topLevel g))).run code with
    | some (parts, _) => parts
    | none => []
  let program := Phrase.mk .program none 0 source.utf8ByteSize parts
  (all.filter (·.kind == .comment)).foldl (fun p c => p.withComment c.start c.stop) program

end LintEngine.Java
