import LintEngine.Java.Token

/-!
Phrases: Java source with its grammatical structure, every token kept. A
phrase has a rule, the role it plays in the phrase around it, and its parts.

Comments stand where they were written: in the innermost phrase that has
tokens on both sides of them.
-/

namespace LintEngine.Java

/-- The grammatical rule behind a phrase. -/
inductive Rule where
  | token (text : String)
  | comment
  | program
  | packageDeclaration
  | importDeclaration
  | moduleDeclaration
  | identifier
  | scopedIdentifier
  | thisWord
  | superWord
  | modifiers
  | annotationUse
  | annotationArguments
  | elementPair
  | elementArray
  | classDeclaration
  | interfaceDeclaration
  | enumDeclaration
  | annotationDeclaration
  | recordDeclaration
  | superclass
  | interfaces
  | permits
  | typeList
  | classBody
  | enumConstant
  | enumBodyDeclarations
  | fieldDeclaration
  | declarator
  | methodDeclaration
  | constructorDeclaration
  | constructorBody
  | constructorCall
  | staticInitializer
  | formalParameters
  | formalParameter
  | spreadParameter
  | receiverParameter
  | catchParameter
  | catchType
  | typeParameters
  | throwsClause
  | defaultValue
  | typeIdentifier
  | scopedType
  | primitiveType
  | genericType
  | arrayType
  | annotatedType
  | typeArguments
  | wildcard
  | dimensions
  | dimensionSize
  | block
  | localVariables
  | expressionStatement
  | returnStatement
  | throwStatement
  | ifStatement
  | whileStatement
  | doStatement
  | forStatement
  | forEachStatement
  | tryStatement
  | resources
  | resource
  | catchClause
  | finallyClause
  | switchExpression
  | switchBlock
  | switchGroup
  | switchLabel
  | pattern
  | typePattern
  | recordPattern
  | recordPatternBody
  | guard
  | labeledStatement
  | breakStatement
  | continueStatement
  | assertStatement
  | yieldStatement
  | synchronizedStatement
  | assignment
  | binary
  | instanceOf
  | unary
  | update
  | ternary
  | cast
  | lambda
  | parenthesized
  | fieldAccess
  | arrayAccess
  | methodCall
  | methodReference
  | objectCreation
  | arrayCreation
  | arrayInitializer
  | arguments
  | classLiteral
  | integerLiteral
  | floatingLiteral
  | trueLiteral
  | falseLiteral
  | nullLiteral
  | characterLiteral
  | stringLiteral
deriving DecidableEq, Repr, Inhabited

/-- The part that a phrase plays in the phrase around it. -/
inductive Role where
  | name
  | type
  | value
  | key
  | object
  | scope
  | arguments
  | parameters
  | body
  | superclass
  | declarator
  | dimensions
  | element
  | operator
  | operand
  | left
  | right
  | condition
  | consequence
  | alternative
  | constructor
  | resources
deriving DecidableEq, Repr, Inhabited

inductive Phrase where
  | mk (rule : Rule) (role : Option Role) (start stop : Nat) (parts : List Phrase)
deriving Inhabited, Repr

namespace Phrase

def rule : Phrase → Rule
  | mk r _ _ _ _ => r

def role : Phrase → Option Role
  | mk _ r _ _ _ => r

def start : Phrase → Nat
  | mk _ _ s _ _ => s

def stop : Phrase → Nat
  | mk _ _ _ s _ => s

def parts : Phrase → List Phrase
  | mk _ _ _ _ ps => ps

/-- A phrase made of parts; it spans them. -/
def node (rule : Rule) (parts : List Phrase) : Phrase :=
  mk rule none ((parts.head?.map start).getD 0) ((parts.getLast?.map stop).getD 0) parts

/-- The same phrase in a role. -/
def as (p : Phrase) (role : Role) : Phrase := mk p.rule (some role) p.start p.stop p.parts

/-- The same phrase read by another rule. -/
def reread (p : Phrase) (rule : Rule) : Phrase := mk rule p.role p.start p.stop p.parts

def isToken (p : Phrase) : Bool :=
  match p.rule with
  | .token _ => true
  | _ => false

/-- Phrases that say something, as opposed to punctuation and comments. -/
def isNamed (p : Phrase) : Bool := !p.isToken && p.rule != .comment

def namedParts (p : Phrase) : List Phrase := p.parts.filter isNamed

/-- The first part in a role. -/
def part? (p : Phrase) (role : Role) : Option Phrase := p.parts.find? (·.role == some role)

/-- The first part by a rule. -/
def partBy? (p : Phrase) (rule : Rule) : Option Phrase := p.parts.find? (·.rule == rule)

/-- The first part that is no punctuation; a comment counts. -/
def firstPart? (p : Phrase) : Option Phrase := p.parts.find? fun q => !q.isToken

/-- Whether a span lies strictly inside a phrase. -/
def surrounds (p : Phrase) (start stop : Nat) : Bool := p.start < start && stop < p.stop

mutual

/-- Puts a comment into the innermost phrase around it. -/
def withComment (start stop : Nat) : Phrase → Phrase
  | mk r role s e parts => mk r role s e (withCommentAmong start stop parts)

/-- Puts a comment into the part around it, or between the parts. -/
def withCommentAmong (start stop : Nat) : List Phrase → List Phrase
  | [] => [mk .comment none start stop []]
  | p :: ps =>
    if stop ≤ p.start then mk .comment none start stop [] :: p :: ps
    else if p.surrounds start stop then withComment start stop p :: ps
    else p :: withCommentAmong start stop ps

end

end Phrase

end LintEngine.Java
