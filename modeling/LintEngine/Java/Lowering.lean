import LintEngine.Java.Declarations
import LintEngine.Java.Literals
import LintEngine.Tree.Builder

/-!
From phrases to the program model. A phrase is lowered in a position: as a
statement or expression, as a member of a class, as a parameter, and so on.
What the model has no kind for becomes `other` with its parts lowered, so
that nothing below it is lost.

The rules come first, one function per group of positions. They recurse
through their argument `each`, which lowers the parts of the phrase, giving
each part that is selected its position. `lower` and `lowerEach` tie the two
together by recursion on the phrase.
-/

namespace LintEngine.Java

/-! ### Reading phrases -/

/-- The source text of a phrase. -/
def textOf (src : List Char) (p : Phrase) : String :=
  ((Text.sliceChars? src p.start p.stop).map String.ofList).getD ""

/-- The source text of a phrase without white space. -/
def compactText (src : List Char) (p : Phrase) : String := Text.squeeze (textOf src p)

mutual

/-- A type as written, without type arguments and leading annotations. -/
def typeName (src : List Char) : Phrase → String
  | .mk rule role start stop parts =>
    match rule with
    | .annotatedType =>
      (((typeNames src parts).filter (·.1.isNamed)).getLast?.map (·.2)).getD ""
    | .genericType => (((typeNames src parts).find? (!·.1.isToken)).map (·.2)).getD ""
    | .arrayType =>
      let element := (typeNames src parts).find? (·.1.role == some .element)
      let dims := parts.find? (·.role == some .dimensions)
      (element.map (·.2)).getD "" ++ (dims.map (compactText src)).getD "[]"
    | _ => compactText src (.mk rule role start stop [])

def typeNames (src : List Char) : List Phrase → List (Phrase × String)
  | [] => []
  | p :: ps => (p, typeName src p) :: typeNames src ps

end

/-- The modifiers of a declaration. -/
def modifiersOf (p : Phrase) : Modifiers :=
  match p.partBy? .modifiers with
  | some list => Modifiers.ofNames (list.parts.map tokenText)
  | none => {}

def nameOf (src : List Char) (p : Phrase) : Option String := (p.part? .name).map (textOf src)

def typeOf (src : List Char) (p : Phrase) : Option String := (p.part? .type).map (typeName src)

/-- The text of the dimensions after a declared name. -/
def dimensionsOf (src : List Char) (p : Phrase) : String :=
  ((p.part? .dimensions).map (compactText src)).getD ""

def operatorOf (src : List Char) (p : Phrase) (default : String) : String :=
  ((p.part? .operator).map (textOf src)).getD default

/-- A node of a kind that spans a phrase. -/
def spanning (kind : NodeKind) (p : Phrase) : Payload :=
  { kind, start := p.start, stop := p.stop }

def isClassLike : Rule → Bool
  | .classDeclaration | .interfaceDeclaration | .enumDeclaration | .annotationDeclaration
  | .recordDeclaration => true
  | _ => false

def classKindOf : Rule → ClassKind
  | .interfaceDeclaration => .interface
  | .enumDeclaration => .enum
  | .annotationDeclaration => .annotationType
  | .recordDeclaration => .record
  | _ => .plain

def classPayload (src : List Char) (p : Phrase) : Payload :=
  { spanning .classDecl p with
    classKind := some (classKindOf p.rule)
    modifiers := modifiersOf p
    name := nameOf src p
    superclass := ((p.part? .superclass).bind Phrase.firstPart?).map (typeName src)
    interfaces := (p.parts.filter (·.rule == .interfaces)).flatMap fun i =>
      i.namedParts.flatMap fun list => list.namedParts.map (typeName src) }

/-- The node of a method; a constructor has the name of its class and no
type. -/
def methodPayload (src : List Char) (p : Phrase) (constructorOf : Option String) : Payload :=
  let base := { spanning .method p with modifiers := modifiersOf p }
  match constructorOf with
  | some name => { base with name := some name }
  | none => { base with name := nameOf src p, typeName := some ((typeOf src p).getD "void") }

/-- The node of a parameter; some phrases in a parameter list are none. -/
def parameterPayload (src : List Char) (p : Phrase) : Option Payload :=
  let base := { spanning .parameter p with modifiers := modifiersOf p }
  match p.rule with
  | .formalParameter | .catchParameter =>
    let type := typeOf src p <|> (p.partBy? .catchType).map (compactText src)
    some { base with
      name := nameOf src p
      typeName := type.map (· ++ dimensionsOf src p) }
  | .spreadParameter =>
    let rest := p.namedParts.filter (·.rule != .modifiers)
    let type := (rest.find? (·.rule != .declarator)).map fun t => typeName src t ++ "..."
    let name := ((rest.filter (·.rule == .declarator)).getLast?).bind (nameOf src)
    some { base with name, typeName := type }
  | .identifier => some { base with name := some (textOf src p) }
  | _ => none

def componentPayload (src : List Char) (p : Phrase) : Payload :=
  { spanning .field p with
    modifiers := { isPrivate := true, isFinal := true }
    name := nameOf src p
    typeName := typeOf src p }

def constantPayload (src : List Char) (enumName : String) (p : Phrase) : Payload :=
  { spanning .field p with
    modifiers := { isPublic := true, isStatic := true, isFinal := true }
    name := nameOf src p
    typeName := some enumName }

/-- The number of dimensions of an array creation, at least one. -/
def dimensionCount (src : List Char) (p : Phrase) : Nat :=
  let count := fun (q : Phrase) =>
    match q.rule with
    | .dimensionSize => 1
    | .dimensions => (textOf src q).toList.count '['
    | _ => 0
  max 1 (p.namedParts.foldr (fun q n => count q + n) 0)

/-- The node of an array creation. -/
def arrayPayload (src : List Char) (p : Phrase) : Payload :=
  { spanning .new p with
    typeName := some ((typeOf src p).getD "" ++ Text.repeated "[]" (dimensionCount src p)) }

/-- The value of a literal phrase. -/
def literalOf (src : List Char) (p : Phrase) : Option Literal :=
  match p.rule with
  | .integerLiteral => integer? (textOf src p)
  | .floatingLiteral => (floating? (textOf src p)).map .float
  | .trueLiteral => some (.bool true)
  | .falseLiteral => some (.bool false)
  | .nullLiteral => some .null
  | .characterLiteral => (character? (textOf src p)).map .char
  | .stringLiteral => some (.str (string (textOf src p)))
  | _ => none

/-- Whether a group of a switch carries the default label. -/
def isDefaultGroup (src : List Char) (p : Phrase) : Bool :=
  p.parts.any fun q => q.rule == .switchLabel && Text.startsWith "default" (textOf src q)

/-- The body of a group: what stands after its label. -/
def groupBody (p : Phrase) : Payload :=
  let first := p.namedParts.find? (·.rule != .switchLabel)
  { kind := .block, start := (first.map (·.start)).getD p.stop, stop := p.stop }

/-- An import as it stands between the keyword and the semicolon, without
white space, and whether it is static. -/
def importPath (text : String) : String × Bool :=
  let body := Text.trimEndMatches ";" (Text.trim (Text.trimStartMatches "import" (Text.trim text)))
  match Text.dropPrefix? "static" (Text.trim body) with
  | some rest =>
    if rest.toList.head?.any Text.isBlank then (Text.squeeze rest, true) else (Text.squeeze body, false)
  | none => (Text.squeeze body, false)

def lowerImport (src : List Char) (p : Phrase) (b : Builder) : Builder :=
  let (path, isStatic) := importPath (textOf src p)
  { b with imports := b.imports.add path isStatic }.leaf
    { spanning .importDecl p with name := some path }

def lowerPackage (src : List Char) (p : Phrase) (b : Builder) : Builder :=
  let named := p.namedParts.find? fun q => q.rule == .identifier || q.rule == .scopedIdentifier
  { b with imports := { b.imports with package := (named.map (textOf src)).getD "" } }

/-- Marks the first child of a node, if it has one, as its qualifier. -/
def qualifyByFirst (id : NodeId) (b : Builder) : Builder :=
  match (b.nodes.getD id {}).children.head? with
  | some c => b.setQualifier id c
  | none => b

/-! ### Positions -/

/-- What a phrase is lowered as. -/
inductive Position where
  /-- A statement or expression. -/
  | node
  /-- The statements and expressions in it. -/
  | contents
  /-- What is between the parentheses of a switch. -/
  | selector
  /-- A declaration at the top of a file. -/
  | topLevel
  /-- The annotations in it. -/
  | annotations
  /-- The attributes of an annotation. -/
  | attributes
  | attributeValue
  /-- The members of a class with a name. -/
  | members (className : String)
  | member (className : String)
  | parameters
  | parameter
  /-- The components of a record. -/
  | components
  | component
  | resources
  | resource
  /-- The groups of a switch. -/
  | groups
  /-- One variable of a declaration, with what all of them share. -/
  | declared (shared : Payload) (annotate : Builder → Builder)

/-- Every part that says something, in the same position. -/
def named (pos : Position) (p : Phrase) : Option Position := if p.isNamed then some pos else none

/-- The parts in some roles, as expressions. -/
def inRoles (roles : List Role) (p : Phrase) : Option Position :=
  if p.role.any roles.contains then some .node else none

def ofRule (rule : Rule) (pos : Position) (p : Phrase) : Option Position :=
  if p.rule == rule then some pos else none

/-- The annotations in the modifiers of a declaration. -/
def annotationsPart : Phrase → Option Position := ofRule .modifiers .annotations

/-- The parts of a class declaration: annotations, record components and
members. -/
def classParts (rule : Rule) (name : String) (p : Phrase) : Option Position :=
  if p.rule == .modifiers then some .annotations
  else if p.role == some .parameters && rule == .recordDeclaration then some .components
  else if p.role == some .body then some (.members name)
  else none

/-- The parts of a method: annotations, parameters and the body. -/
def methodParts (p : Phrase) : Option Position :=
  if p.rule == .modifiers then some .annotations
  else if p.role == some .parameters then some .parameters
  else if p.role == some .body then some .node
  else none

def lambdaParts (p : Phrase) : Option Position :=
  if p.role == some .parameters then
    some (if p.rule == .identifier then .parameter else .parameters)
  else if p.role == some .body then some .node
  else none

def tryParts (p : Phrase) : Option Position :=
  if p.role == some .resources then some .resources else named .node p

def switchParts (p : Phrase) : Option Position :=
  if p.role == some .condition then some .selector
  else if p.role == some .body then some .groups
  else none

def catchParts (p : Phrase) : Option Position :=
  if p.rule == .catchParameter then some .parameter else named .node p

def arrayParts (p : Phrase) : Option Position :=
  match p.rule with
  | .dimensionSize => some .contents
  | .arrayInitializer => some .node
  | _ => none

/-- The annotations and the value of a variable with its own modifiers. -/
def resourceParts (p : Phrase) : Option Position :=
  if p.rule == .modifiers then some .annotations else inRoles [.value] p

/-- Lowers the parts of a phrase, each in the position selected for it. -/
abbrev Each := (Phrase → Option Position) → Builder → Builder

/-! ### Rules -/

/-- A node of a kind with everything that the phrase says below it. -/
def container (kind : NodeKind) (p : Phrase) (each : Each) (b : Builder) : Builder :=
  b.within (spanning kind p) (each (named .node))

/-- A class declaration of any kind. -/
def declareClass (src : List Char) (p : Phrase) (each : Each) (b : Builder) : Builder :=
  b.within (classPayload src p) (each (classParts p.rule ((nameOf src p).getD "")))

/-- A declaration of variables: one node per name. The first one starts where
the declaration starts. -/
def declareVariables (src : List Char) (kind : NodeKind) (p : Phrase) (each : Each) (b : Builder) :
    Builder :=
  let first := (p.part? .declarator).map (·.start)
  let shared := { spanning kind p with modifiers := modifiersOf p, typeName := typeOf src p }
  each (fun q =>
    if q.role == some .declarator then
      let start := if first == some q.start then p.start else q.start
      some (.declared { shared with start } (each annotationsPart))
    else none) b

/-- The arguments of a call. -/
def argumentsPart (p : Phrase) : Option Position :=
  if p.role == some .arguments then some .contents else none

def attributesPart (p : Phrase) : Option Position :=
  if p.role == some .arguments then some .attributes else none

/-- The variable of a loop over a collection; it spans its name. -/
def loopVariable (src : List Char) (p : Phrase) : Payload :=
  let name := p.part? .name
  { kind := .localVariable
    start := (name.map (·.start)).getD 0
    stop := (name.map (·.stop)).getD 0
    modifiers := modifiersOf p
    name := nameOf src p
    typeName := typeOf src p }

/-- An object creation, with an anonymous class if it has a body. -/
def createObject (src : List Char) (p : Phrase) (each : Each) (b : Builder) : Builder :=
  let type := (typeOf src p).getD ""
  b.within { spanning .new p with typeName := some type } fun b =>
    let b := each argumentsPart b
    match p.partBy? .classBody with
    | some body =>
      b.within { spanning .classDecl body with classKind := some .plain, superclass := some type }
        (each (ofRule .classBody (.members "")))
    | none => b

/-- A group of a switch: its labels, then a block with its statements. -/
def switchCase (src : List Char) (p : Phrase) (each : Each) (b : Builder) : Builder :=
  let name := if isDefaultGroup src p then some "default" else none
  b.within { spanning .case p with name } fun b =>
    (each (ofRule .switchLabel .contents) b).within (groupBody p) (each fun q =>
      if q.rule == .switchLabel then none else named .node q)

/-- A statement or expression. -/
def lowerNode (src : List Char) (p : Phrase) (each : Each) (b : Builder) : Builder :=
  match p.rule with
  | .block | .constructorBody => container .block p each b
  | .staticInitializer | .finallyClause => each (named .node) b
  | .localVariables => declareVariables src .localVariable p each b
  | .expressionStatement => container .expressionStatement p each b
  | .returnStatement => container .ret p each b
  | .throwStatement => container .throw p each b
  | .ifStatement => container .ifStatement p each b
  | .whileStatement | .doStatement | .forStatement => container .loop p each b
  | .forEachStatement =>
    b.within (spanning .loop p) fun b =>
      each (inRoles [.value, .body]) (b.leaf (loopVariable src p))
  | .tryStatement => b.within (spanning .tryStatement p) (each tryParts)
  | .catchClause => b.within (spanning .other p) (each catchParts)
  | .switchExpression => b.within (spanning .switch p) (each switchParts)
  | .switchGroup => switchCase src p each b
  | .constructorCall =>
    let name := ((p.part? .constructor).map (textOf src)).getD "this"
    b.within (spanning .expressionStatement p) fun b =>
      b.within { spanning .call p with name := some name } (each argumentsPart)
  | .annotationUse =>
    let name := ((p.part? .name).map (compactText src)).getD ""
    b.within { spanning .annotationUse p with name := some name } (each attributesPart)
  | .identifier | .thisWord | .superWord =>
    b.leaf { spanning .reference p with name := some (textOf src p) }
  | .fieldAccess | .scopedIdentifier =>
    let id := b.next
    b.within { spanning .select p with name := some ((nameOf src p).getD "") } fun b =>
      qualifyByFirst id (each (inRoles [.object, .scope]) b)
  | .methodCall =>
    let id := b.next
    b.within { spanning .call p with name := some ((nameOf src p).getD "") } fun b =>
      each argumentsPart (qualifyByFirst id (each (inRoles [.object]) b))
  | .objectCreation => createObject src p each b
  | .arrayCreation => b.within (arrayPayload src p) (each arrayParts)
  | .arrayInitializer | .elementArray => container .arrayInit p each b
  | .binary =>
    b.within { spanning .binary p with operator := some (operatorOf src p "") }
      (each (inRoles [.left, .right]))
  | .instanceOf =>
    let type := (p.part? .right).map (typeName src)
    b.within { spanning .binary p with operator := some "instanceof", typeName := type }
      (each (inRoles [.left]))
  | .unary =>
    b.within { spanning .unary p with operator := some (operatorOf src p "") }
      (each (inRoles [.operand]))
  | .update =>
    let op := (p.parts.map tokenText).find? fun s => s == "++" || s == "--"
    b.within { spanning .unary p with operator := some (op.getD "++") } (each (named .node))
  | .ternary =>
    b.within (spanning .conditional p) (each (inRoles [.condition, .consequence, .alternative]))
  | .cast => b.within { spanning .cast p with typeName := typeOf src p } (each (inRoles [.value]))
  | .parenthesized => container .parenthesized p each b
  | .assignment =>
    b.within { spanning .assignment p with operator := some (operatorOf src p "=") }
      (each (inRoles [.left, .right]))
  | .lambda => b.within (spanning .lambda p) (each lambdaParts)
  | .classLiteral =>
    b.leaf { spanning .other p with typeName := some ((p.firstPart?.map (typeName src)).getD "") }
  | .integerLiteral | .floatingLiteral | .trueLiteral | .falseLiteral | .nullLiteral
  | .characterLiteral | .stringLiteral =>
    b.leaf { spanning .literal p with literal := literalOf src p }
  | rule => if isClassLike rule then declareClass src p each b else container .other p each b

/-- A member of a class. -/
def lowerMember (src : List Char) (className : String) (p : Phrase) (each : Each) (b : Builder) :
    Builder :=
  match p.rule with
  | .fieldDeclaration => declareVariables src .field p each b
  | .methodDeclaration => b.within (methodPayload src p none) (each methodParts)
  | .constructorDeclaration => b.within (methodPayload src p (some className)) (each methodParts)
  | .enumConstant => b.within (constantPayload src className p) (each annotationsPart)
  | .enumBodyDeclarations => each (named (.member className)) b
  | .block => container .block p each b
  | .staticInitializer => each (named .node) b
  | rule => if isClassLike rule then declareClass src p each b else b

/-- A phrase in any position. -/
def lowerAt (src : List Char) (p : Phrase) (each : Each) (pos : Position) (b : Builder) : Builder :=
  match pos with
  | .node => lowerNode src p each b
  | .contents => each (named .node) b
  | .selector =>
    match p.firstPart? with
    | some inner =>
      each (fun q => if q.start == inner.start && !q.isToken then some .node else none) b
    | none => lowerNode src p each b
  | .topLevel =>
    match p.rule with
    | .packageDeclaration => lowerPackage src p b
    | .importDeclaration => lowerImport src p b
    | rule => if isClassLike rule then declareClass src p each b else b
  | .annotations => each (ofRule .annotationUse .node) b
  | .attributes => each (named .attributeValue) b
  | .attributeValue =>
    let argument := spanning .annotationArgument p
    match p.rule with
    | .elementPair =>
      b.within { argument with name := (p.part? .key).map (textOf src) } (each (inRoles [.value]))
    | _ => b.within argument (lowerNode src p each)
  | .members className => each (named (.member className)) b
  | .member className => lowerMember src className p each b
  | .parameters => each (named .parameter) b
  | .parameter =>
    match parameterPayload src p with
    | some payload => b.within payload (each annotationsPart)
    | none => b
  | .components => each (named .component) b
  | .component => b.within (componentPayload src p) (each annotationsPart)
  | .resources => each (named .resource) b
  | .resource =>
    match nameOf src p with
    | some name =>
      b.within
        { spanning .localVariable p with
          modifiers := modifiersOf p, name := some name, typeName := typeOf src p }
        (each resourceParts)
    | none => each (named .node) b
  | .groups => each (ofRule .switchGroup .node) b
  | .declared shared annotate =>
    let type := shared.typeName.getD "" ++ dimensionsOf src p
    b.within { shared with stop := p.stop, name := nameOf src p, typeName := some type }
      fun b => each (inRoles [.value]) (annotate b)

/-! ### Recursion -/

mutual

/-- Adds what a phrase contributes in a position. -/
def lower (src : List Char) : Position → Phrase → Builder → Builder
  | pos, .mk rule role start stop parts, b =>
    lowerAt src (.mk rule role start stop parts) (fun select b => lowerEach src select parts b) pos b

/-- Lowers phrases in order, each in the position selected for it. -/
def lowerEach (src : List Char) (select : Phrase → Option Position) :
    List Phrase → Builder → Builder
  | [], b => b
  | p :: ps, b =>
    match select p with
    | some pos => lowerEach src select ps (lower src pos p b)
    | none => lowerEach src select ps b

end

/-- The tree of a Java file. -/
def toTree (file : Path) (source : String) : Tree :=
  let b := Builder.start file .source .javaFile (some source) {}
  (lowerEach source.toList (named .topLevel) (parse source).parts b).build

end LintEngine.Java
