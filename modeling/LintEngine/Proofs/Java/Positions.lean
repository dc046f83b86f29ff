import LintEngine.Proofs.Java.Lowering
import LintEngine.Proofs.Tree.Growth

/-!
Where the nodes of a Java file stand. Lowering comes back to the node at which it began and
gives it children; it leaves all other nodes alone. A phrase becomes one child, unless its
rule is one of three that are open: what is in them stands where they stand.

So the operands of an expression are its children in the order in which they are written,
and the object of a call is the first of its children and its qualifier.
-/

namespace LintEngine.Java

open Builder

/-! ### What stands for a phrase -/

/-- Rules without a node of their own. The parts of the phrase stand in its place. -/
def Rule.isOpen : Rule → Bool
  | .localVariables | .staticInitializer | .finallyClause => true
  | _ => false

def Rule.nodeKind : Rule → NodeKind
  | .block | .constructorBody => .block
  | .expressionStatement | .constructorCall => .expressionStatement
  | .returnStatement => .ret
  | .throwStatement => .throw
  | .ifStatement => .ifStatement
  | .whileStatement | .doStatement | .forStatement | .forEachStatement => .loop
  | .tryStatement => .tryStatement
  | .switchExpression => .switch
  | .switchGroup => .case
  | .annotationUse => .annotationUse
  | .identifier | .thisWord | .superWord => .reference
  | .fieldAccess | .scopedIdentifier => .select
  | .methodCall => .call
  | .objectCreation | .arrayCreation => .new
  | .arrayInitializer | .elementArray => .arrayInit
  | .binary | .instanceOf => .binary
  | .unary | .update => .unary
  | .ternary => .conditional
  | .cast => .cast
  | .parenthesized => .parenthesized
  | .assignment => .assignment
  | .lambda => .lambda
  | .integerLiteral | .floatingLiteral | .trueLiteral | .falseLiteral | .nullLiteral
  | .characterLiteral | .stringLiteral => .literal
  | .classDeclaration | .interfaceDeclaration | .enumDeclaration | .annotationDeclaration
  | .recordDeclaration => .classDecl
  | _ => .other

def Rule.operandRoles? : Rule → Option (List Role)
  | .binary | .assignment => some [.left, .right]
  | .instanceOf => some [.left]
  | .unary => some [.operand]
  | .ternary => some [.condition, .consequence, .alternative]
  | .cast => some [.value]
  | _ => none

/-- What a node says if it stands for a phrase. -/
structure Shows (n : Payload) (p : Phrase) : Prop where
  kind : n.kind = p.rule.nodeKind
  start : n.start = p.start
  stop : n.stop = p.stop

def ShownAt (b : Builder) (id : NodeId) (p : Phrase) : Prop :=
  ∃ n, b.nodes[id]? = some n ∧ Shows n.toPayload p

def operandsOf (roles : List Role) (p : Phrase) : List Phrase :=
  p.parts.filter fun q => q.role.any roles.contains

/-! ### Positions -/

def Position.Grows : Position → Prop
  | .declared _ annotate => Grower annotate
  | _ => True

def Growing (select : Phrase → Option Position) : Prop := ∀ q, ∀ pos ∈ select q, pos.Grows

namespace Growing

variable {select select' : Phrase → Option Position} {pos : Position}

theorem none : Growing fun _ => Option.none := fun _ _ h => by cases h

theorem some {position : Phrase → Position} (h : ∀ q, (position q).Grows) :
    Growing fun q => Option.some (position q) := fun q _ hmem => by
  cases hmem
  exact h q

theorem ite {c : Phrase → Prop} [DecidablePred c] (h : Growing select) (h' : Growing select') :
    Growing fun q => if c q then select q else select' q := by
  intro q pos (hmem : pos ∈ if c q then select q else select' q)
  split at hmem
  · exact h q pos hmem
  · exact h' q pos hmem

theorem always (h : pos.Grows) : Growing fun _ => Option.some pos := some fun _ => h

theorem named (h : pos.Grows) : Growing (Java.named pos) := ite (always h) none

theorem ofRule (rule : Rule) (h : pos.Grows) : Growing (Java.ofRule rule pos) := ite (always h) none

theorem inRoles (roles : List Role) : Growing (Java.inRoles roles) := ite (always trivial) none

theorem arguments : Growing argumentsPart := ite (always trivial) none

theorem attributes : Growing attributesPart := ite (always trivial) none

theorem annotations : Growing annotationsPart := ofRule _ trivial

theorem classParts (rule : Rule) (name : String) : Growing (Java.classParts rule name) :=
  ite (always trivial) (ite (always trivial) (ite (always trivial) none))

theorem methodParts : Growing Java.methodParts :=
  ite (always trivial) (ite (always trivial) (ite (always trivial) none))

theorem tryParts : Growing Java.tryParts := ite (always trivial) (named trivial)

theorem switchParts : Growing Java.switchParts := ite (always trivial) (ite (always trivial) none)

theorem catchParts : Growing Java.catchParts := ite (always trivial) (named trivial)

theorem resourceParts : Growing Java.resourceParts := ite (always trivial) (inRoles _)

theorem arrayParts : Growing Java.arrayParts := by
  intro q pos hmem
  unfold Java.arrayParts at hmem
  split at hmem <;> cases hmem <;> trivial

theorem lambdaParts : Growing Java.lambdaParts := by
  refine ite (some fun q => ?_) (ite (always trivial) none)
  split <;> trivial

/-- The statements of a group of a switch. -/
theorem groupParts :
    Growing fun q => if q.rule == .switchLabel then Option.none else Java.named .node q :=
  ite none (named trivial)

end Growing

/-! ### Rules -/

/-- An action that adds one node, and this one stands for a phrase. -/
def Places (f : Builder → Builder) (p : Phrase) : Prop :=
  ∃ payload, Adds f payload ∧ Shows payload p

theorem Places.grower {f : Builder → Builder} {p : Phrase} (h : Places f p) : Grower f :=
  let ⟨_, hadds, _⟩ := h
  hadds.grower

def qualifiedBy (child : Option NodeId) (n : Node) : Node :=
  { n with qualifier := child.or n.qualifier }

theorem isLinking_qualifiedBy (child : Option NodeId) : IsLinking (qualifiedBy child) :=
  fun _ => ⟨rfl, rfl⟩

theorem Changes.qualifyByFirst (b : Builder) :
    Changes b (qualifyByFirst b.current b)
      (qualifiedBy (b.nodes.getD b.current {}).children.head?) := by
  unfold Java.qualifyByFirst
  cases (b.nodes.getD b.current {}).children.head? with
  | none => exact Changes.refl b
  | some c => exact Changes.setQualifier b c

/-- The node of a selection or a call gets the first of the children for its object as its
qualifier. -/
theorem Changes.qualifyObject {b b' : Builder} {payload : Payload} {new : List NodeId}
    (h : Builder.Grows (b.enter payload) b' new) :
    Changes b' (Java.qualifyByFirst b.next b') (qualifiedBy new.head?) := by
  have hcurrent : b'.current = b.next := h.changes.current
  have hchildren : (b'.nodes.getD b.next {}).children = new := by
    rw [Array.getD_eq_getD_getElem?, h.changes.entered]
    rfl
  have hqualified := Changes.qualifyByFirst b'
  rwa [hcurrent, hchildren] at hqualified

variable {src : List Char} {p : Phrase} {each : Each}

/-- Lowering the parts of a phrase, in positions that let the current node grow. -/
def GrowsEach (each : Each) : Prop :=
  ∀ {select : Phrase → Option Position}, Growing select → Grower (each select)

namespace GrowsEach

variable (h : GrowsEach each)

include h

theorem places_within {select : Phrase → Option Position} {payload : Payload}
    (hselect : Growing select) (hshows : Shows payload p) :
    Places (fun b => b.within payload (each select)) p :=
  ⟨payload, (h hselect).linker.within payload, hshows⟩

theorem grower_within {select : Phrase → Option Position} (payload : Payload)
    (hselect : Growing select) : Grower fun b => b.within payload (each select) :=
  ((h hselect).linker.within payload).grower

theorem grower_variables (kind : NodeKind) : Grower (declareVariables src kind p each) :=
  h (.ite (.some fun _ => h .annotations) .none)

theorem adds_qualified {select : Phrase → Option Position} (hselect : Growing select)
    {g : Builder → Builder} (hg : Grower g) (payload : Payload) :
    Adds (fun b => b.within payload fun b' => g (qualifyByFirst b.next (each select b')))
      payload := by
  intro b
  obtain ⟨new, hnew⟩ := h hselect (b.enter payload)
  obtain ⟨more, hmore⟩ := hg (qualifyByFirst b.next (each select (b.enter payload)))
  exact adds_within
    ((isLinking_adopt more).comp ((isLinking_qualifiedBy new.head?).comp (isLinking_adopt new)))
    ((hnew.changes.trans (Changes.qualifyObject hnew)).trans hmore.changes)

theorem places_selection (hrule : p.rule = .fieldAccess ∨ p.rule = .scopedIdentifier) :
    Places (lowerNode src p each) p := by
  obtain ⟨rule, role, start, stop, parts⟩ := p
  have hadds := h.adds_qualified (.inRoles [.object, .scope]) Grower.nothing
  obtain rfl | rfl : rule = .fieldAccess ∨ rule = .scopedIdentifier := hrule
  all_goals exact ⟨_, hadds _, rfl, rfl, rfl⟩

theorem places_call (hrule : p.rule = .methodCall) : Places (lowerNode src p each) p := by
  obtain ⟨rule, role, start, stop, parts⟩ := p
  obtain rfl : rule = .methodCall := hrule
  exact ⟨_, h.adds_qualified (.inRoles [.object]) (h .arguments) _, rfl, rfl, rfl⟩

theorem places_creation (hrule : p.rule = .objectCreation) :
    Places (createObject src p each) p := by
  have hmembers : Growing (Java.ofRule .classBody (.members "")) := .ofRule _ trivial
  unfold createObject
  refine ⟨_, Linker.within ?_ _, ?_⟩
  · cases p.partBy? .classBody with
    | some body => exact ((h.grower_within _ hmembers).comp (h .arguments)).linker
    | none => exact (h .arguments).linker
  · exact ⟨by rw [hrule]; rfl, rfl, rfl⟩

theorem places_group (hrule : p.rule = .switchGroup) : Places (switchCase src p each) p := by
  have hlabel : Growing (Java.ofRule .switchLabel .contents) := .ofRule _ trivial
  unfold switchCase
  refine ⟨_, Linker.within ?_ _, ?_⟩
  · exact ((h.grower_within _ .groupParts).comp (h hlabel)).linker
  · exact ⟨by rw [hrule]; rfl, rfl, rfl⟩

/-- A phrase with a node of its own, one case for each rule. -/
theorem places_node (hrule : p.rule.isOpen = false) : Places (lowerNode src p each) p := by
  obtain ⟨rule, role, start, stop, parts⟩ := p
  cases rule
  case localVariables | staticInitializer | finallyClause => cases hrule
  case forEachStatement =>
    have hbelow := (h (.inRoles [.value, .body])).comp
      (Adds.leaf (loopVariable src (.mk .forEachStatement role start stop parts))).grower
    exact ⟨_, hbelow.linker.within _, rfl, rfl, rfl⟩
  case tryStatement => exact h.places_within .tryParts ⟨rfl, rfl, rfl⟩
  case catchClause => exact h.places_within .catchParts ⟨rfl, rfl, rfl⟩
  case switchExpression => exact h.places_within .switchParts ⟨rfl, rfl, rfl⟩
  case switchGroup => exact h.places_group rfl
  case constructorCall =>
    exact ⟨_, (h.grower_within _ .arguments).linker.within _, rfl, rfl, rfl⟩
  case annotationUse => exact h.places_within .attributes ⟨rfl, rfl, rfl⟩
  case fieldAccess => exact h.places_selection (.inl rfl)
  case scopedIdentifier => exact h.places_selection (.inr rfl)
  case methodCall => exact h.places_call rfl
  case objectCreation => exact h.places_creation rfl
  case arrayCreation => exact h.places_within .arrayParts ⟨rfl, rfl, rfl⟩
  case binary | assignment | instanceOf | unary | ternary | cast =>
    exact h.places_within (.inRoles _) ⟨rfl, rfl, rfl⟩
  case lambda => exact h.places_within .lambdaParts ⟨rfl, rfl, rfl⟩
  case classDeclaration | interfaceDeclaration | enumDeclaration | annotationDeclaration
      | recordDeclaration => exact h.places_within (.classParts _ _) ⟨rfl, rfl, rfl⟩
  case identifier | thisWord | superWord | classLiteral | integerLiteral | floatingLiteral
      | trueLiteral | falseLiteral | nullLiteral | characterLiteral | stringLiteral =>
    exact ⟨_, Adds.leaf _, rfl, rfl, rfl⟩
  -- blocks, plain statements, updates, and what the model has no kind for
  all_goals exact h.places_within (.named trivial) ⟨rfl, rfl, rfl⟩

theorem grower_named {pos : Position} (hpos : pos.Grows) : Grower (each (named pos)) :=
  h (.named hpos)

theorem grower_class : Grower (declareClass src p each) := h.grower_within _ (.classParts _ _)

theorem grower_node : Grower (lowerNode src p each) := by
  obtain ⟨rule, role, start, stop, parts⟩ := p
  cases rule
  case localVariables => exact h.grower_variables _
  case staticInitializer | finallyClause => exact h.grower_named trivial
  all_goals exact (h.places_node rfl).grower

theorem grower_member (className : String) : Grower (lowerMember src className p each) := by
  obtain ⟨rule, role, start, stop, parts⟩ := p
  cases rule
  case fieldDeclaration => exact h.grower_variables _
  case methodDeclaration | constructorDeclaration => exact h.grower_within _ .methodParts
  case enumConstant => exact h.grower_within _ .annotations
  case enumBodyDeclarations | staticInitializer => exact h.grower_named trivial
  case block => exact h.grower_within _ (.named trivial)
  case classDeclaration | interfaceDeclaration | enumDeclaration | annotationDeclaration
      | recordDeclaration => exact h.grower_class
  all_goals exact Grower.nothing

theorem grower_topLevel : Grower (lowerAt src p each .topLevel) := by
  obtain ⟨rule, role, start, stop, parts⟩ := p
  cases rule
  case packageDeclaration => exact fun b => ⟨[], .setImports b _⟩
  case importDeclaration =>
    exact (Adds.leaf _).grower.comp fun b => ⟨[], .setImports b _⟩
  case classDeclaration | interfaceDeclaration | enumDeclaration | annotationDeclaration
      | recordDeclaration => exact h.grower_class
  all_goals exact Grower.nothing

theorem grower_attribute : Grower (lowerAt src p each .attributeValue) := by
  intro b
  simp only [lowerAt]
  split
  · exact h.grower_within _ (.inRoles _) b
  · exact (h.grower_node.linker.within _).grower b

/-- A phrase in any position. -/
theorem grower_at {pos : Position} (hpos : pos.Grows) : Grower (lowerAt src p each pos) := by
  cases pos
  case node => exact h.grower_node
  case selector =>
    intro b
    simp only [lowerAt]
    split
    · exact h (.ite (.always (by trivial)) .none) b
    · exact h.grower_node b
  case topLevel => exact h.grower_topLevel
  case annotations | groups => exact h (.ofRule _ trivial)
  case attributeValue => exact h.grower_attribute
  case member className => exact h.grower_member className
  case parameter =>
    intro b
    simp only [lowerAt]
    split
    · exact h.grower_within _ .annotations b
    · exact Grower.nothing b
  case component => exact h.grower_within _ .annotations
  case resource =>
    intro b
    simp only [lowerAt]
    split
    · exact h.grower_within _ .resourceParts b
    · exact h.grower_named (by trivial) b
  case declared shared annotate =>
    exact ((((h (.inRoles [.value])).comp hpos).linker).within _).grower
  all_goals exact h.grower_named (by trivial)

end GrowsEach

/-! ### Recursion -/

mutual

/-- By recursion on the phrase, lowering gives the current node more children and changes
nothing else. -/
theorem lower_grower (src : List Char) (p : Phrase) {pos : Position} (hpos : pos.Grows) :
    Grower (lower src pos p) := by
  match p with
  | .mk rule role start stop parts =>
      have h : GrowsEach fun select b => lowerEach src select parts b :=
        fun hselect => lowerEach_grower src parts hselect
      rw [lower_eq]
      exact h.grower_at hpos

theorem lowerEach_grower (src : List Char) (parts : List Phrase)
    {select : Phrase → Option Position} (hselect : Growing select) :
    Grower (lowerEach src select parts) := by
  match parts with
  | [] =>
      rw [lowerEach_nil]
      exact Grower.nothing
  | p :: ps =>
      have hrest := lowerEach_grower src ps hselect
      cases hp : select p with
      | none =>
          rw [lowerEach_skip hp]
          exact hrest
      | some pos =>
          rw [lowerEach_take hp]
          exact hrest.comp (lower_grower src p (hselect p pos hp))

end

theorem growsEach (src : List Char) (parts : List Phrase) :
    GrowsEach fun select b => lowerEach src select parts b :=
  fun hselect => lowerEach_grower src parts hselect

theorem lower_places (src : List Char) {p : Phrase} (hrule : p.rule.isOpen = false) :
    Places (lower src .node p) p := by
  rw [lower_eq]
  exact GrowsEach.places_node (growsEach src p.parts) hrule

theorem ShownAt.of_changes {b b' : Builder} {change : Node → Node} {id : NodeId} {p : Phrase}
    (h : ShownAt b id p) (hchanges : Changes b b' change) (hchange : IsLinking change) :
    ShownAt b' id p := by
  obtain ⟨n, hn, hshows⟩ := h
  obtain ⟨n', hn', hpayload, -⟩ := hchanges.exists_node hchange hn
  exact ⟨n', hn', hpayload ▸ hshows⟩

/-- Of statements and expressions each becomes one child, in order. -/
theorem lowerEach_shows (src : List Char) {select : Phrase → Option Position}
    (hselect : ∀ q, ∀ pos ∈ select q, pos = .node) (parts : List Phrase)
    (hparts : ∀ q ∈ parts, (select q).isSome → q.rule.isOpen = false) (b : Builder) :
    ∃ new, Builder.Grows b (lowerEach src select parts b) new ∧
      List.Forall₂ (fun q id => ShownAt (lowerEach src select parts b) id q)
        (parts.filter fun q => (select q).isSome) new := by
  induction parts generalizing b with
  | nil =>
      rw [lowerEach_nil]
      exact ⟨[], .refl b, .nil⟩
  | cons p ps ih =>
      have hrest := ih fun q hq => hparts q (List.mem_cons_of_mem _ hq)
      cases hp : select p with
      | none =>
          rw [lowerEach_skip hp, List.filter_cons_of_neg (by simp [hp])]
          exact hrest b
      | some pos =>
          obtain rfl := hselect p pos hp
          rw [lowerEach_take hp, List.filter_cons_of_pos (by simp [hp])]
          obtain ⟨payload, hadds, hshows⟩ :=
            lower_places src (hparts p List.mem_cons_self (by simp [hp]))
          obtain ⟨hfirst, n, hn, hpayload⟩ := hadds b
          obtain ⟨new, hnew, hshown⟩ := hrest (lower src .node p b)
          have hkept : ShownAt (lower src .node p b) b.next p := ⟨n, hn, hpayload ▸ hshows⟩
          exact ⟨_, hfirst.trans hnew,
            .cons (hkept.of_changes hnew.changes (isLinking_adopt new)) hshown⟩

/-! ### Expressions -/

theorem exists_operands (src : List Char) {roles : List Role} {p : Phrase}
    (h : ∀ q ∈ operandsOf roles p, q.rule.isOpen = false) (b : Builder) :
    ∃ new, Builder.Grows b (lowerEach src (inRoles roles) p.parts b) new ∧
      List.Forall₂ (fun q id => ShownAt (lowerEach src (inRoles roles) p.parts b) id q)
        (operandsOf roles p) new := by
  have hsome : ∀ q, (inRoles roles q).isSome = q.role.any roles.contains := fun q => by
    rw [inRoles]
    split <;> simp_all
  have hnode : ∀ q, ∀ pos ∈ inRoles roles q, pos = .node := fun q pos hpos => by
    rw [inRoles] at hpos
    split at hpos <;> cases hpos
    rfl
  have hshows := lowerEach_shows src hnode p.parts
    (fun q hq hin => h q (List.mem_filter.mpr ⟨hq, (hsome q).symm.trans hin⟩)) b
  simp only [hsome] at hshows
  exact hshows

theorem exists_lowerNode_operands (src : List Char) {roles : List Role} {p : Phrase}
    (hroles : p.rule.operandRoles? = some roles) :
    ∃ payload, ∀ each, lowerNode src p each = fun b => b.within payload (each (inRoles roles)) := by
  obtain ⟨rule, role, start, stop, parts⟩ := p
  cases rule <;> cases hroles
  all_goals exact ⟨_, fun _ => rfl⟩

/-- The children of the node for an expression are its operands. -/
theorem lower_operands (src : List Char) {roles : List Role} {p : Phrase}
    (hroles : p.rule.operandRoles? = some roles)
    (hoperands : ∀ q ∈ operandsOf roles p, q.rule.isOpen = false) {b : Builder} {n : Node}
    (hn : (lower src .node p b).nodes[b.next]? = some n) :
    List.Forall₂ (fun q id => ShownAt (lower src .node p b) id q) (operandsOf roles p)
      n.children := by
  obtain ⟨payload, hlower⟩ := exists_lowerNode_operands src hroles
  have heq : lower src .node p b =
      (lowerEach src (inRoles roles) p.parts (b.enter payload)).leave := by
    rw [lower_eq]
    exact congrFun (hlower _) b
  obtain ⟨new, hnew, hshown⟩ := exists_operands src hoperands (b.enter payload)
  rw [heq] at hn ⊢
  obtain rfl := Option.some.inj (hn.symm.trans hnew.changes.entered)
  exact hshown

/-- The qualifier of a call is its first child, and stands for its object. -/
structure IsQualified (b : Builder) (n : Node) (p : Phrase) : Prop where
  first : ∀ c ∈ n.qualifier, n.children.head? = some c
  object : ∀ o, operandsOf [.object] p = [o] → o.rule.isOpen = false →
    ∃ c, n.qualifier = some c ∧ ShownAt b c o
  noObject : operandsOf [.object] p = [] → n.qualifier = none

def callPayload (src : List Char) (p : Phrase) : Payload :=
  { spanning .call p with name := some ((nameOf src p).getD "") }

/-- The node of a call, open, with what its object has become below it. -/
def afterObject (src : List Char) (p : Phrase) (b : Builder) : Builder :=
  lowerEach src (inRoles [.object]) p.parts (b.enter (callPayload src p))

theorem lower_call (src : List Char) {p : Phrase} (hrule : p.rule = .methodCall) (b : Builder) :
    lower src .node p b = leave
      (lowerEach src argumentsPart p.parts (qualifyByFirst b.next (afterObject src p b))) := by
  obtain ⟨rule, role, start, stop, parts⟩ := p
  obtain rfl : rule = .methodCall := hrule
  rw [lower_eq]
  rfl

theorem node_of_call (src : List Char) {p : Phrase} (hrule : p.rule = .methodCall) {b : Builder}
    {n : Node} (hn : (lower src .node p b).nodes[b.next]? = some n) {new : List NodeId}
    (hnew : Builder.Grows (b.enter (callPayload src p)) (afterObject src p b) new) :
    (∃ more, n.children = new ++ more) ∧ n.qualifier = new.head? ∧
      ∀ id q, ShownAt (afterObject src p b) id q → ShownAt (lower src .node p b) id q := by
  obtain ⟨more, hmore⟩ :=
    lowerEach_grower src p.parts .arguments (qualifyByFirst b.next (afterObject src p b))
  have hafter := (Changes.qualifyObject hnew).trans hmore.changes
  rw [lower_call src hrule] at hn ⊢
  obtain rfl := Option.some.inj (hn.symm.trans (hnew.changes.trans hafter).entered)
  refine ⟨⟨more, rfl⟩, by simp [qualifiedBy, Node.adopt], fun id q hq => ?_⟩
  have hlinking := (isLinking_adopt more).comp (isLinking_qualifiedBy new.head?)
  have hshown := hq.of_changes hafter hlinking
  exact hshown

theorem lower_isQualified (src : List Char) {p : Phrase} (hrule : p.rule = .methodCall)
    {b : Builder} {n : Node} (hn : (lower src .node p b).nodes[b.next]? = some n) :
    IsQualified (lower src .node p b) n p := by
  refine ⟨fun c hc => ?_, fun o ho hopen => ?_, fun hnone => ?_⟩
  · obtain ⟨new, hnew⟩ :=
      lowerEach_grower src p.parts (.inRoles [.object]) (b.enter (callPayload src p))
    obtain ⟨⟨more, hchildren⟩, hqualifier, -⟩ := node_of_call src hrule hn hnew
    rw [hqualifier] at hc
    rw [hchildren, List.head?_append, hc]
    rfl
  · obtain ⟨new, hnew, hshown⟩ := exists_operands src
      (fun q hq => by rw [ho, List.mem_singleton] at hq; rwa [hq]) (b.enter (callPayload src p))
    obtain ⟨-, hqualifier, hkept⟩ := node_of_call src hrule hn hnew
    rw [ho] at hshown
    cases hshown with
    | cons hfirst _ => exact ⟨_, hqualifier, hkept _ _ hfirst⟩
  · obtain ⟨new, hnew, hshown⟩ := exists_operands src
      (fun q hq => by rw [hnone] at hq; cases hq) (b.enter (callPayload src p))
    obtain ⟨-, hqualifier, -⟩ := node_of_call src hrule hn hnew
    rw [hnone] at hshown
    cases hshown
    exact hqualifier

/-- Lowering a statement or expression comes back to the node at which it began, gives it
children and leaves all other nodes alone. Unless the rule is open there is one child for
the phrase. So the operands of a binary expression and the parts of a conditional are the
children of its node in order, and the object of a call is its first child. -/
theorem lower_is_positional (src : List Char) (p : Phrase) (b : Builder) :
    (∃ new, Builder.Grows b (lower src .node p b) new) ∧
    (p.rule.isOpen = false →
      Builder.Grows b (lower src .node p b) [b.next] ∧
      ∃ n, (lower src .node p b).nodes[b.next]? = some n ∧ Shows n.toPayload p ∧
        (p.rule = .binary → ∀ l r, operandsOf [.left, .right] p = [l, r] →
          l.rule.isOpen = false → r.rule.isOpen = false →
          ∃ i j, n.children = [i, j] ∧ ShownAt (lower src .node p b) i l ∧
            ShownAt (lower src .node p b) j r) ∧
        (p.rule = .ternary → ∀ c l r,
          operandsOf [.condition, .consequence, .alternative] p = [c, l, r] →
          c.rule.isOpen = false → l.rule.isOpen = false → r.rule.isOpen = false →
          ∃ h i j, n.children = [h, i, j] ∧ ShownAt (lower src .node p b) h c ∧
            ShownAt (lower src .node p b) i l ∧ ShownAt (lower src .node p b) j r) ∧
        (p.rule = .methodCall → IsQualified (lower src .node p b) n p)) := by
  have hnode : Position.node.Grows := trivial
  refine ⟨lower_grower src p hnode b, fun hrule => ?_⟩
  obtain ⟨payload, hadds, hshows⟩ := lower_places src hrule
  obtain ⟨hgrows, n, hn, hpayload⟩ := hadds b
  refine ⟨hgrows, n, hn, hpayload ▸ hshows, ?_, ?_, fun hcall => lower_isQualified src hcall hn⟩
  · intro hbinary l r hparts hl hr
    have hoperands := lower_operands src (by rw [hbinary]; rfl) (by simp [hparts, hl, hr]) hn
    rw [hparts] at hoperands
    generalize n.children = children at hoperands
    rcases hoperands with _ | ⟨hi, _ | ⟨hj, ⟨⟩⟩⟩
    exact ⟨_, _, rfl, hi, hj⟩
  · intro hternary c l r hparts hc hl hr
    have hoperands := lower_operands src (by rw [hternary]; rfl) (by simp [hparts, hc, hl, hr]) hn
    rw [hparts] at hoperands
    generalize n.children = children at hoperands
    rcases hoperands with _ | ⟨hh, _ | ⟨hi, _ | ⟨hj, ⟨⟩⟩⟩⟩
    exact ⟨_, _, _, rfl, hh, hi, hj⟩

def letter (role : Role) (start : Nat) : Phrase := .mk .identifier (some role) start (start + 1) []

/-- The expressions `a+b`, `a?b:c` and `a.f()`. -/
def sumPhrase : Phrase :=
  .mk .binary none 0 3
    [letter .left 0, .mk (.token "+") (some .operator) 1 2 [], letter .right 2]

def choicePhrase : Phrase :=
  .mk .ternary none 0 5
    [letter .condition 0, .mk (.token "?") none 1 2 [], letter .consequence 2,
      .mk (.token ":") none 3 4 [], letter .alternative 4]

def callPhrase : Phrase :=
  .mk .methodCall none 0 5
    [letter .object 0, .mk (.token ".") none 1 2 [], letter .name 2,
      .mk .arguments (some .arguments) 3 5 []]

def fileOf (source : String) : Builder := .start ⟨"A.java"⟩ .source .javaFile (some source) {}

theorem sum_choice_and_call_are_positional :
    (∃ n i j, (lower "a+b".toList .node sumPhrase (fileOf "a+b")).nodes[1]? = some n ∧
      n.children = [i, j]) ∧
    (∃ n h i j, (lower "a?b:c".toList .node choicePhrase (fileOf "a?b:c")).nodes[1]? = some n ∧
      n.children = [h, i, j]) ∧
    ∃ n c, (lower "a.f()".toList .node callPhrase (fileOf "a.f()")).nodes[1]? = some n ∧
      n.qualifier = some c ∧ n.children.head? = some c := by
  obtain ⟨-, n, hsum, -, hoperands, -, -⟩ :=
    (lower_is_positional "a+b".toList sumPhrase (fileOf "a+b")).2 rfl
  obtain ⟨-, m, hchoice, -, -, hparts, -⟩ :=
    (lower_is_positional "a?b:c".toList choicePhrase (fileOf "a?b:c")).2 rfl
  obtain ⟨-, k, hcall, -, -, -, hobject⟩ :=
    (lower_is_positional "a.f()".toList callPhrase (fileOf "a.f()")).2 rfl
  obtain ⟨i, j, hchildren, -, -⟩ := hoperands rfl (letter .left 0) (letter .right 2) rfl rfl rfl
  obtain ⟨h, i', j', hchildren', -, -, -⟩ :=
    hparts rfl (letter .condition 0) (letter .consequence 2) (letter .alternative 4) rfl rfl rfl rfl
  obtain ⟨c, hqualifier, -⟩ := (hobject rfl).object (letter .object 0) rfl rfl
  exact ⟨⟨n, i, j, hsum, hchildren⟩, ⟨m, h, i', j', hchoice, hchildren'⟩,
    k, c, hcall, hqualifier, (hobject rfl).first c hqualifier⟩

end LintEngine.Java
