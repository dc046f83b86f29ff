import LintEngine.Java.Lowering
import LintEngine.Proofs.Tree.Invocations
import Mathlib.Logic.Relation

/-!
What is read of a Java file on the way down from the file to its calls and
creations.

A phrase is read as something: a statement, a member, a list of parameters.
`passes` says for each phrase which of its parts are read then, and as what;
`ReadsPart` is one step down to such a part. `invocationsFrom` are the calls and
creations at the ends of all ways down.

Parts that no pass names are passed over with all that is in them. Of an enum
constant these are its arguments and its body, of an annotation element its
default, of a creation and of a constructor call the object in front of the dot,
of a switch the selector if a comment stands before it, of a loop over a
collection the modifiers of its variable, and of most declarations the types.
-/

namespace LintEngine.Java

def Phrase.invocation? (src : List Char) (p : Phrase) : Option Invocation :=
  match p.rule with
  | .methodCall => some (.call p.start p.stop (some ((nameOf src p).getD "")))
  | .constructorCall =>
    some (.call p.start p.stop (some (((p.part? .constructor).map (textOf src)).getD "this")))
  | .objectCreation | .arrayCreation => some (.creation p.start p.stop)
  | _ => none

/-! ### What is read -/

inductive Reading where
  /-- A statement or expression. -/
  | node
  /-- What a switch selects by. -/
  | selector
  | topLevel
  | attributeValue
  | member
  | parameter
  | component
  | resource
  /-- One variable of a declaration. -/
  | declared
  /-- A list of phrases that are read alike. -/
  | all (item : Reading)
  /-- A list of which the phrases by one rule are read. -/
  | only (rule : Rule) (item : Reading)
deriving DecidableEq, Repr

/-- Ways to read a part of a phrase; the first that fits is taken. -/
abbrev Pass := List ((Phrase → Bool) × Reading)

def Pass.reading? (pass : Pass) (q : Phrase) : Option Reading :=
  (pass.find? fun way => way.1 q).map (·.2)

@[simp] theorem Pass.reading?_cons (fits : Phrase → Bool) (r : Reading) (pass : Pass) (q : Phrase) :
    Pass.reading? ((fits, r) :: pass) q = if fits q then some r else pass.reading? q := by
  simp only [Pass.reading?, List.find?_cons]
  cases fits q <;> rfl

def hasRole (role : Role) (q : Phrase) : Bool := q.role == some role

def hasRule (rule : Rule) (q : Phrase) : Bool := q.rule == rule

def everything : Pass := [(Phrase.isNamed, .node)]

def annotated (others : Pass) : Pass := (hasRule .modifiers, .only .annotationUse .node) :: others

def operands (roles : List Role) : Pass := roles.map fun role => (hasRole role, .node)

def classPass (rule : Rule) : Pass :=
  annotated [(fun q => hasRole .parameters q && rule == .recordDeclaration, .all .component),
    (hasRole .body, .all .member)]

def methodPass : Pass := annotated [(hasRole .parameters, .all .parameter), (hasRole .body, .node)]

def variablePasses (p : Phrase) : List Pass :=
  if p.parts.any (hasRole .declarator) then [annotated [], [(hasRole .declarator, .declared)]]
  else []

def nodePasses (p : Phrase) : List Pass :=
  match p.rule with
  | .localVariables => variablePasses p
  | .forEachStatement => [operands [.value, .body]]
  | .tryStatement => [[(hasRole .resources, .all .resource), (Phrase.isNamed, .node)]]
  | .catchClause => [[(hasRule .catchParameter, .parameter), (Phrase.isNamed, .node)]]
  | .switchExpression =>
    [[(hasRole .condition, .selector), (hasRole .body, .only .switchGroup .node)]]
  | .switchGroup =>
    [[(hasRule .switchLabel, .all .node)],
     [(fun q => !hasRule .switchLabel q && q.isNamed, .node)]]
  | .constructorCall => [[(hasRole .arguments, .all .node)]]
  | .annotationUse => [[(hasRole .arguments, .all .attributeValue)]]
  | .fieldAccess | .scopedIdentifier => [operands [.object, .scope]]
  | .methodCall => [operands [.object], [(hasRole .arguments, .all .node)]]
  | .objectCreation => [[(hasRole .arguments, .all .node)], [(hasRule .classBody, .all .member)]]
  | .arrayCreation => [[(hasRule .dimensionSize, .all .node), (hasRule .arrayInitializer, .node)]]
  | .binary | .assignment => [operands [.left, .right]]
  | .instanceOf => [operands [.left]]
  | .unary => [operands [.operand]]
  | .ternary => [operands [.condition, .consequence, .alternative]]
  | .cast => [operands [.value]]
  | .lambda =>
    [[(fun q => hasRole .parameters q && hasRule .identifier q, .parameter),
      (hasRole .parameters, .all .parameter), (hasRole .body, .node)]]
  | .identifier | .thisWord | .superWord | .classLiteral | .integerLiteral | .floatingLiteral
  | .trueLiteral | .falseLiteral | .nullLiteral | .characterLiteral | .stringLiteral => []
  | rule => if isClassLike rule then [classPass rule] else [everything]

def memberPasses (p : Phrase) : List Pass :=
  match p.rule with
  | .fieldDeclaration => variablePasses p
  | .methodDeclaration | .constructorDeclaration => [methodPass]
  | .enumConstant => [annotated []]
  | .enumBodyDeclarations => [[(Phrase.isNamed, .member)]]
  | .block | .staticInitializer => [everything]
  | rule => if isClassLike rule then [classPass rule] else []

def passes : Reading → Phrase → List Pass
  | .node, p => nodePasses p
  | .selector, p =>
    match p.firstPart? with
    -- a comment in front of the selector is read in its place
    | some first => [[(fun q => q.start == first.start && !q.isToken, .node)]]
    | none => nodePasses p
  | .topLevel, p => if isClassLike p.rule then [classPass p.rule] else []
  | .attributeValue, p => if p.rule = .elementPair then [operands [.value]] else nodePasses p
  | .member, p => memberPasses p
  | .parameter, p =>
    if [.formalParameter, .catchParameter, .spreadParameter, .identifier].contains p.rule then
      [annotated []]
    else []
  | .component, _ => [annotated []]
  | .resource, p =>
    if p.parts.any (hasRole .name) then [annotated (operands [.value])] else [everything]
  | .declared, _ => [operands [.value]]
  | .all item, _ => [[(Phrase.isNamed, item)]]
  | .only rule item, _ => [[(hasRule rule, item)]]

def Reading.invocation? (src : List Char) : Reading → Phrase → Option Invocation
  | .node, p | .attributeValue, p => p.invocation? src
  | .selector, p => if p.firstPart?.isNone then p.invocation? src else none
  | _, _ => none

/-- One step down: to a part that is read, and as what. -/
def ReadsPart (whole part : Reading × Phrase) : Prop :=
  part.2 ∈ whole.2.parts ∧ ∃ pass ∈ passes whole.1 whole.2, pass.reading? part.2 = some part.1

/-- The invocations to which a phrase leads down in a reading. -/
def invocationsFrom (src : List Char) (r : Reading) (p : Phrase) : Set Invocation :=
  {w | ∃ r' u, Relation.ReflTransGen ReadsPart (r, p) (r', u) ∧ r'.invocation? src u = some w}

def invocationsOf (src : List Char) (pass : Pass) (parts : List Phrase) : Set Invocation :=
  {w | ∃ q ∈ parts, ∃ r, pass.reading? q = some r ∧ w ∈ invocationsFrom src r q}

section

variable {src : List Char} {r : Reading} {p : Phrase} {pass : Pass}

theorem mem_invocationsFrom {w : Invocation} :
    w ∈ invocationsFrom src r p ↔
      r.invocation? src p = some w ∨ ∃ pass ∈ passes r p, w ∈ invocationsOf src pass p.parts := by
  constructor
  · rintro ⟨r', u, hway, hw⟩
    rcases Relation.ReflTransGen.cases_head hway with heq | ⟨⟨r₁, q⟩, ⟨hq, pass, hp, hr⟩, hrest⟩
    · cases heq
      exact .inl hw
    · exact .inr ⟨pass, hp, q, hq, r₁, hr, r', u, hrest, hw⟩
  · rintro (hw | ⟨pass, hp, q, hq, r₁, hr, r', u, hrest, hw⟩)
    · exact ⟨r, p, .refl, hw⟩
    · exact ⟨r', u, .head ⟨hq, pass, hp, hr⟩ hrest, hw⟩

/-- A phrase that is no invocation and is read in one pass. -/
theorem invocationsFrom_of_pass (hown : r.invocation? src p = none) (hp : passes r p = [pass]) :
    invocationsFrom src r p = invocationsOf src pass p.parts := by
  ext w
  rw [mem_invocationsFrom, hown, hp]
  simp

theorem invocationsFrom_of_nil (hown : r.invocation? src p = none) (hp : passes r p = []) :
    invocationsFrom src r p = ∅ := by
  ext w
  rw [mem_invocationsFrom, hown, hp]
  simp

theorem invocationsOf_eq_empty {parts : List Phrase} (h : ∀ q ∈ parts, pass.reading? q = none) :
    invocationsOf src pass parts = ∅ := by
  refine Set.eq_empty_iff_forall_notMem.mpr ?_
  rintro w ⟨q, hq, r, hr, -⟩
  rw [h q hq] at hr
  cases hr

end

end LintEngine.Java
