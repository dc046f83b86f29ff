import LintEngine.Proofs.Java.Readings

/-!
Which calls and creations of a Java file have a node in its tree.

A position says how a phrase is lowered, and behind each position is a reading.
`Follows` compares the parts that a rule selects with a pass over them, and for
each rule there is one statement that it brings the invocations to which its
phrase leads down. By recursion on the phrase the tree of a file tells exactly
of the invocations that are read, and of each where a walk comes to it.

So every call and creation has a node that nothing around it hides, but not
every one: what an enum constant calls is lost.
-/

namespace LintEngine.Java

open Builder

/-! ### Positions -/

def Position.reading : Position → Reading
  | .node => .node
  | .contents => .all .node
  | .selector => .selector
  | .topLevel => .topLevel
  | .annotations => .only .annotationUse .node
  | .attributes => .all .attributeValue
  | .attributeValue => .attributeValue
  | .members _ => .all .member
  | .member _ => .member
  | .parameters => .all .parameter
  | .parameter => .parameter
  | .components => .all .component
  | .component => .component
  | .resources => .all .resource
  | .resource => .resource
  | .groups => .only .switchGroup .node
  | .declared _ _ => .declared

/-- What is brought before a phrase itself is lowered: to a variable, the
annotations of its declaration. -/
def Position.Lends : Position → Set Invocation → Prop
  | .declared shared annotate, W =>
    (shared.kind ≠ .call ∧ shared.kind ≠ .new) ∧ Brings annotate W
  | _, W => W = ∅

def Follows (select : Phrase → Option Position) (pass : Pass) (W : Set Invocation) : Prop :=
  ∀ q, (select q).map Position.reading = pass.reading? q ∧ ∀ pos ∈ select q, pos.Lends W

namespace Follows

variable {select : Phrase → Option Position} {pass : Pass} {W : Set Invocation}

theorem nil : Follows (fun _ => none) [] W := fun _ => ⟨rfl, by simp⟩

theorem cons (fits : Phrase → Bool) {pos : Position} (hpos : pos.Lends W)
    (h : Follows select pass W) :
    Follows (fun q => if fits q then some pos else select q) ((fits, pos.reading) :: pass) W := by
  intro q
  cases hq : fits q with
  | true => simpa [hq] using hpos
  | false => simpa [hq] using h q

theorem declarators {pos : Phrase → Position} (hreading : ∀ q, (pos q).reading = .declared)
    (hlends : ∀ q, (pos q).Lends W) :
    Follows (fun q => if q.role == some .declarator then some (pos q) else none)
      [(hasRole .declarator, .declared)] W := by
  intro q
  by_cases hq : q.role = some .declarator
  · simpa [hasRole, hq] using ⟨hreading q, hlends q⟩
  · simp [hasRole, hq, Pass.reading?]

theorem named (pos : Position) (h : pos.Lends ∅) :
    Follows (Java.named pos) [(Phrase.isNamed, pos.reading)] ∅ :=
  cons _ h nil

theorem ofRule (rule : Rule) (pos : Position) (h : pos.Lends ∅) :
    Follows (Java.ofRule rule pos) [(hasRule rule, pos.reading)] ∅ :=
  cons _ h nil

theorem inRoles (roles : List Role) : Follows (Java.inRoles roles) (operands roles) ∅ := by
  induction roles with
  | nil =>
      intro q
      cases h : q.role <;> simp [Java.inRoles, operands, Pass.reading?, h]
  | cons role roles ih =>
      have hstep : Java.inRoles (role :: roles) =
          fun q => if hasRole role q then some .node else Java.inRoles roles q := by
        funext q
        cases h : q.role with
        | none => simp [Java.inRoles, hasRole, h]
        | some other =>
            by_cases heq : other = role <;> simp [Java.inRoles, hasRole, h, heq]
      rw [hstep]
      exact cons _ rfl ih

theorem arguments : Follows argumentsPart [(hasRole .arguments, .all .node)] ∅ := cons _ rfl nil

theorem attributes : Follows attributesPart [(hasRole .arguments, .all .attributeValue)] ∅ :=
  cons _ rfl nil

theorem annotations : Follows annotationsPart (annotated []) ∅ := cons _ rfl nil

theorem classParts (rule : Rule) (name : String) :
    Follows (Java.classParts rule name) (classPass rule) ∅ :=
  cons _ rfl (cons _ rfl (cons _ rfl nil))

theorem methodParts : Follows Java.methodParts methodPass ∅ :=
  cons _ rfl (cons _ rfl (cons _ rfl nil))

theorem tryParts :
    Follows Java.tryParts [(hasRole .resources, .all .resource), (Phrase.isNamed, .node)] ∅ :=
  cons _ rfl (named .node rfl)

theorem switchParts :
    Follows Java.switchParts
      [(hasRole .condition, .selector), (hasRole .body, .only .switchGroup .node)] ∅ :=
  cons _ rfl (cons _ rfl nil)

theorem catchParts :
    Follows Java.catchParts [(hasRule .catchParameter, .parameter), (Phrase.isNamed, .node)] ∅ :=
  cons _ rfl (named .node rfl)

theorem resourceParts : Follows Java.resourceParts (annotated (operands [.value])) ∅ :=
  cons _ rfl (inRoles _)

theorem arrayParts :
    Follows Java.arrayParts
      [(hasRule .dimensionSize, .all .node), (hasRule .arrayInitializer, .node)] ∅ := by
  have hstep : Java.arrayParts = fun q => if hasRule .dimensionSize q then some .contents
      else if hasRule .arrayInitializer q then some .node else none := by
    funext q
    simp only [Java.arrayParts, hasRule]
    split <;> simp_all
  rw [hstep]
  exact cons _ rfl (cons _ rfl nil)

theorem lambdaParts :
    Follows Java.lambdaParts
      [(fun q => hasRole .parameters q && hasRule .identifier q, .parameter),
       (hasRole .parameters, .all .parameter), (hasRole .body, .node)] ∅ := by
  have hstep : Java.lambdaParts = fun q =>
      if hasRole .parameters q && hasRule .identifier q then some .parameter
      else if hasRole .parameters q then some .parameters
      else if hasRole .body q then some .node else none := by
    funext q
    by_cases hp : q.role = some .parameters <;> by_cases hi : q.rule = .identifier <;>
      simp [Java.lambdaParts, hasRole, hasRule, hp, hi]
  rw [hstep]
  exact cons _ rfl (cons _ rfl (cons _ rfl nil))

theorem groupParts :
    Follows (fun q => if q.rule == .switchLabel then none else Java.named .node q)
      [(fun q => !hasRule .switchLabel q && q.isNamed, .node)] ∅ := by
  have hstep : (fun q : Phrase => if q.rule == .switchLabel then none else Java.named .node q) =
      fun q => if !hasRule .switchLabel q && q.isNamed then some .node else none := by
    funext q
    by_cases hl : q.rule = .switchLabel <;> simp [Java.named, hasRule, hl]
  rw [hstep]
  exact cons _ rfl nil

end Follows

/-! ### Rules -/

/-- Lowering the parts of a phrase brings what passes over them say. -/
def Faithful (src : List Char) (parts : List Phrase) (each : Each) : Prop :=
  ∀ {select : Phrase → Option Position} {pass : Pass} {W : Set Invocation}, Follows select pass W →
    Brings (each select)
      ({w | w ∈ W ∧ ∃ q ∈ parts, (select q).isSome} ∪ invocationsOf src pass parts)

/-- A phrase with a node of its own whose parts are gone through twice. -/
theorem brings_twice {src : List Char} {r : Reading} {p : Phrase} {pass pass' : Pass}
    {payload : Payload} {f g : Builder → Builder}
    (hown : payload.invocation? = r.invocation? src p) (hp : passes r p = [pass, pass'])
    (hf : Brings f (invocationsOf src pass p.parts))
    (hg : Brings g (invocationsOf src pass' p.parts)) :
    Brings (fun b => b.within payload fun b => g (f b)) (invocationsFrom src r p) := by
  refine ((hg.comp hf).within payload).of_eq ?_
  ext w
  rw [mem_invocationsFrom, hp, hown]
  simp

theorem qualifyByFirst_brings (id : NodeId) : Brings (qualifyByFirst id) ∅ where
  made hb := by
    unfold qualifyByFirst
    split
    · exact hb.setQualifier ..
    · exact hb
  mem b w := by
    unfold qualifyByFirst
    split <;> simp

namespace Faithful

variable {src : List Char} {p : Phrase} {each : Each} {select : Phrase → Option Position}
  {pass : Pass} {payload : Payload} {r : Reading} (h : Faithful src p.parts each)

include h

theorem brings (hf : Follows select pass ∅) :
    Brings (each select) (invocationsOf src pass p.parts) :=
  (h hf).of_eq (by simp)

/-- A phrase without a node of its own. -/
theorem brings_parts (hown : r.invocation? src p = none) (hp : passes r p = [pass])
    (hf : Follows select pass ∅) : Brings (each select) (invocationsFrom src r p) := by
  rw [invocationsFrom_of_pass hown hp]
  exact h.brings hf

theorem brings_within (hown : payload.invocation? = r.invocation? src p) (hp : passes r p = [pass])
    (hf : Follows select pass ∅) :
    Brings (fun b => b.within payload (each select)) (invocationsFrom src r p) := by
  refine ((h.brings hf).within payload).of_eq ?_
  ext w
  rw [mem_invocationsFrom, hp, hown]
  simp

/-- Every variable has the annotations of the declaration. -/
theorem brings_variables {kind : NodeKind} (hkind : kind ≠ .call ∧ kind ≠ .new)
    (hown : r.invocation? src p = none) (hp : passes r p = variablePasses p) :
    Brings (declareVariables src kind p each) (invocationsFrom src r p) := by
  have hshared := h.brings Follows.annotations
  unfold declareVariables
  refine Brings.of_eq (h (Follows.declarators (W := invocationsOf src (annotated []) p.parts)
    (fun _ => ?_) fun _ => ?_)) ?_
  · rfl
  · exact ⟨hkind, hshared⟩
  ext w
  rw [mem_invocationsFrom, hown, hp, variablePasses]
  by_cases hany : p.parts.any (hasRole .declarator)
  · have hsome : ∃ q ∈ p.parts, q.role = some .declarator := by simpa [hasRole] using hany
    simp [hany, hsome]
  · have hnone : ∀ q ∈ p.parts, q.role ≠ some .declarator := by simpa [hasRole] using hany
    have hempty : invocationsOf src [(hasRole .declarator, .declared)] p.parts = ∅ :=
      invocationsOf_eq_empty fun q hq => by simp [Pass.reading?, hasRole, hnone q hq]
    simpa [hany, hempty] using fun _ => hnone

/-- An object creation, with the members of an anonymous class. -/
theorem brings_creation (hr : p.rule = .objectCreation) :
    Brings (createObject src p each) (invocationsFrom src .node p) := by
  obtain ⟨rule, role, start, stop, parts⟩ := p
  obtain rfl : rule = .objectCreation := hr
  have hargs := h.brings Follows.arguments
  have hmembers := h.brings (Follows.ofRule .classBody (.members "") rfl)
  set type := (typeOf src (.mk .objectCreation role start stop parts)).getD ""
  have hown : ({ spanning .new (.mk .objectCreation role start stop parts) with
      typeName := some type } : Payload).invocation? =
      Reading.invocation? src .node (.mk .objectCreation role start stop parts) := rfl
  unfold createObject
  cases hbody : Phrase.partBy? (.mk .objectCreation role start stop parts) .classBody with
  | some body =>
      have hclass : ({ spanning .classDecl body with
        classKind := some .plain, superclass := some type } : Payload).invocation? = none := rfl
      exact brings_twice hown rfl hargs (hmembers.around hclass)
  | none =>
      have hnone : invocationsOf src [(hasRule .classBody, .all .member)] parts = ∅ := by
        refine invocationsOf_eq_empty fun q hq => ?_
        have hne : q.rule ≠ .classBody := by simpa using List.find?_eq_none.mp hbody q hq
        simp [Pass.reading?, hasRule, hne]
      exact brings_twice (f := each argumentsPart) hown rfl hargs (Brings.nothing.of_eq hnone.symm)

theorem brings_group (hr : p.rule = .switchGroup) :
    Brings (switchCase src p each) (invocationsFrom src .node p) := by
  obtain ⟨rule, role, start, stop, parts⟩ := p
  obtain rfl : rule = .switchGroup := hr
  have hlabel := h.brings (Follows.ofRule .switchLabel .contents rfl)
  exact brings_twice (r := .node) rfl rfl hlabel ((h.brings Follows.groupParts).around rfl)

theorem brings_container {kind : NodeKind} (hkind : (spanning kind p).invocation? = none)
    (hown : r.invocation? src p = none) (hp : passes r p = [everything]) :
    Brings (container kind p each) (invocationsFrom src r p) :=
  h.brings_within (hkind.trans hown.symm) hp (Follows.named .node rfl)

theorem brings_class (hown : r.invocation? src p = none) (hp : passes r p = [classPass p.rule]) :
    Brings (declareClass src p each) (invocationsFrom src r p) :=
  h.brings_within hown.symm hp (Follows.classParts p.rule _)

theorem brings_method {constructorOf : Option String} (hown : r.invocation? src p = none)
    (hp : passes r p = [methodPass]) :
    Brings (fun b => b.within (methodPayload src p constructorOf) (each methodParts))
      (invocationsFrom src r p) := by
  refine h.brings_within (Eq.trans ?_ hown.symm) hp Follows.methodParts
  cases constructorOf <;> rfl

theorem brings_qualified (id : NodeId) (hf : Follows select pass ∅) :
    Brings (fun b => qualifyByFirst id (each select b)) (invocationsOf src pass p.parts) :=
  ((qualifyByFirst_brings id).comp (h.brings hf)).of_eq (Set.union_empty _)

theorem brings_selection (hr : p.rule = .fieldAccess ∨ p.rule = .scopedIdentifier) :
    Brings (lowerNode src p each) (invocationsFrom src .node p) := by
  obtain ⟨rule, role, start, stop, parts⟩ := p
  have hobject := fun id => h.brings_qualified id (Follows.inRoles [.object, .scope])
  obtain rfl | rfl : rule = .fieldAccess ∨ rule = .scopedIdentifier := hr
  all_goals
    rw [invocationsFrom_of_pass rfl rfl]
    exact Brings.atNext fun id => (hobject id).around rfl

theorem brings_call (hr : p.rule = .methodCall) :
    Brings (lowerNode src p each) (invocationsFrom src .node p) := by
  obtain ⟨rule, role, start, stop, parts⟩ := p
  obtain rfl : rule = .methodCall := hr
  refine Brings.atNext fun id => brings_twice ?_ ?_
    (h.brings_qualified id (Follows.inRoles [.object])) (h.brings Follows.arguments)
  · rfl
  · rfl

/-- A loop over a collection, after the leaf for its variable. -/
theorem brings_loop (hr : p.rule = .forEachStatement) :
    Brings (lowerNode src p each) (invocationsFrom src .node p) := by
  obtain ⟨rule, role, start, stop, parts⟩ := p
  obtain rfl : rule = .forEachStatement := hr
  rw [invocationsFrom_of_pass rfl rfl]
  have hparts := h.brings (Follows.inRoles [.value, .body])
  exact ((hparts.comp (Brings.plainLeaf rfl)).of_eq (Set.empty_union _)).around rfl

/-- A statement or expression, one case for each rule. -/
theorem brings_node : Brings (lowerNode src p each) (invocationsFrom src .node p) := by
  obtain ⟨rule, role, start, stop, parts⟩ := p
  cases rule
  case localVariables => exact h.brings_variables (by decide) rfl rfl
  case forEachStatement => exact h.brings_loop rfl
  case tryStatement => exact h.brings_within rfl rfl Follows.tryParts
  case catchClause => exact h.brings_within rfl rfl Follows.catchParts
  case switchExpression => exact h.brings_within rfl rfl Follows.switchParts
  case switchGroup => exact h.brings_group rfl
  case constructorCall => exact (h.brings_within rfl rfl Follows.arguments).around rfl
  case annotationUse => exact h.brings_within rfl rfl Follows.attributes
  case fieldAccess => exact h.brings_selection (.inl rfl)
  case scopedIdentifier => exact h.brings_selection (.inr rfl)
  case methodCall => exact h.brings_call rfl
  case objectCreation => exact h.brings_creation rfl
  case arrayCreation => exact h.brings_within rfl rfl Follows.arrayParts
  case binary | assignment | instanceOf | unary | ternary | cast =>
    exact h.brings_within rfl rfl (Follows.inRoles _)
  case lambda => exact h.brings_within rfl rfl Follows.lambdaParts
  case update => exact h.brings_within rfl rfl (Follows.named _ rfl)
  case staticInitializer | finallyClause => exact h.brings_parts rfl rfl (Follows.named _ rfl)
  case classDeclaration | interfaceDeclaration | enumDeclaration | annotationDeclaration
      | recordDeclaration => exact h.brings_class rfl rfl
  case identifier | thisWord | superWord | classLiteral | integerLiteral | floatingLiteral
      | trueLiteral | falseLiteral | nullLiteral | characterLiteral | stringLiteral =>
    rw [invocationsFrom_of_nil rfl rfl]
    exact Brings.plainLeaf rfl
  -- blocks, plain statements, and what the model has no kind for
  all_goals exact h.brings_container rfl rfl rfl

theorem brings_member (className : String) :
    Brings (lowerMember src className p each) (invocationsFrom src .member p) := by
  obtain ⟨rule, role, start, stop, parts⟩ := p
  cases rule
  case fieldDeclaration => exact h.brings_variables (by decide) rfl rfl
  case methodDeclaration | constructorDeclaration => exact h.brings_method rfl rfl
  case enumConstant => exact h.brings_within rfl rfl Follows.annotations
  case enumBodyDeclarations =>
    exact h.brings_parts rfl rfl (Follows.named (.member className) rfl)
  case block => exact h.brings_container rfl rfl rfl
  case staticInitializer => exact h.brings_parts rfl rfl (Follows.named _ rfl)
  case classDeclaration | interfaceDeclaration | enumDeclaration | annotationDeclaration
      | recordDeclaration => exact h.brings_class rfl rfl
  all_goals
    rw [invocationsFrom_of_nil rfl rfl]
    exact Brings.nothing

/-- What a switch selects by; without parts it is lowered itself. -/
theorem brings_selector :
    Brings (lowerAt src p each .selector) (invocationsFrom src .selector p) := by
  unfold lowerAt
  cases hfirst : p.firstPart? with
  | some first =>
      refine h.brings_parts (by simp [Reading.invocation?, hfirst]) (by rw [passes, hfirst]) ?_
      exact Follows.cons _ rfl Follows.nil
  | none =>
      have hsame : invocationsFrom src .selector p = invocationsFrom src .node p := by
        ext w
        simp [mem_invocationsFrom, passes, Reading.invocation?, hfirst]
      rw [hsame]
      exact h.brings_node

theorem brings_topLevel :
    Brings (lowerAt src p each .topLevel) (invocationsFrom src .topLevel p) := by
  obtain ⟨rule, role, start, stop, parts⟩ := p
  cases rule
  case packageDeclaration =>
    rw [invocationsFrom_of_nil rfl rfl]
    exact Brings.setImports _
  case importDeclaration =>
    rw [invocationsFrom_of_nil rfl rfl, ← Set.union_empty ∅]
    exact (Brings.plainLeaf rfl).comp (Brings.setImports _)
  case classDeclaration | interfaceDeclaration | enumDeclaration | annotationDeclaration
      | recordDeclaration => exact h.brings_class rfl rfl
  all_goals
    rw [invocationsFrom_of_nil rfl rfl]
    exact Brings.nothing

theorem brings_attribute :
    Brings (lowerAt src p each .attributeValue) (invocationsFrom src .attributeValue p) := by
  by_cases hr : p.rule = .elementPair
  · obtain ⟨rule, role, start, stop, parts⟩ := p
    obtain rfl : rule = .elementPair := hr
    exact h.brings_within rfl rfl (Follows.inRoles _)
  · have hsame : invocationsFrom src .attributeValue p = invocationsFrom src .node p := by
      ext w
      simp [mem_invocationsFrom, passes, Reading.invocation?, hr]
    have hlower : lowerAt src p each .attributeValue =
        fun b => b.within (spanning .annotationArgument p) (lowerNode src p each) := by
      funext b
      simp only [lowerAt]
    rw [hsame, hlower]
    exact h.brings_node.around rfl

theorem brings_parameter :
    Brings (lowerAt src p each .parameter) (invocationsFrom src .parameter p) := by
  obtain ⟨rule, role, start, stop, parts⟩ := p
  cases rule
  case formalParameter | catchParameter | spreadParameter | identifier =>
    exact h.brings_within rfl rfl Follows.annotations
  all_goals
    rw [invocationsFrom_of_nil rfl rfl]
    exact Brings.nothing

theorem brings_resource :
    Brings (lowerAt src p each .resource) (invocationsFrom src .resource p) := by
  have hany : p.parts.any (hasRole .name) = (p.part? .name).isSome := by
    rw [Bool.eq_iff_iff, Phrase.part?, List.find?_isSome, List.any_eq_true]
    rfl
  unfold lowerAt
  cases hname : p.part? .name with
  | some name =>
      have hp : passes .resource p = [annotated (operands [.value])] := by
        simp [passes, hany, hname]
      simp only [nameOf, hname, Option.map_some]
      exact h.brings_within rfl hp Follows.resourceParts
  | none =>
      have hp : passes .resource p = [everything] := by
        simp [passes, hany, hname]
      simp only [nameOf, hname, Option.map_none]
      exact h.brings_parts rfl hp (Follows.named _ rfl)

/-- A phrase in any position brings what its reading leads down to, after what
the position lends. -/
theorem brings_at {pos : Position} {W : Set Invocation} (hW : pos.Lends W) :
    Brings (lowerAt src p each pos) (W ∪ invocationsFrom src pos.reading p) := by
  cases pos
  case declared shared annotate =>
    obtain ⟨hshared, hannotate⟩ := hW
    have hp : passes .declared p = [operands [.value]] := rfl
    rw [Position.reading, invocationsFrom_of_pass rfl hp]
    refine ((h.brings (Follows.inRoles [.value])).comp hannotate).around ?_
    exact Payload.invocation?_eq_none.mpr hshared
  all_goals
    obtain rfl : W = ∅ := hW
    rw [Set.empty_union]
  case node => exact h.brings_node
  case contents => exact h.brings_parts rfl rfl (Follows.named _ rfl)
  case selector => exact h.brings_selector
  case topLevel => exact h.brings_topLevel
  case annotations => exact h.brings_parts rfl rfl (Follows.ofRule _ _ rfl)
  case attributes => exact h.brings_parts rfl rfl (Follows.named _ rfl)
  case attributeValue => exact h.brings_attribute
  case members className =>
    exact h.brings_parts rfl rfl (Follows.named (.member className) rfl)
  case member className => exact h.brings_member className
  case parameters => exact h.brings_parts rfl rfl (Follows.named _ rfl)
  case parameter => exact h.brings_parameter
  case components => exact h.brings_parts rfl rfl (Follows.named _ rfl)
  case component => exact h.brings_within rfl rfl Follows.annotations
  case resources => exact h.brings_parts rfl rfl (Follows.named _ rfl)
  case resource => exact h.brings_resource
  case groups => exact h.brings_parts rfl rfl (Follows.ofRule _ _ rfl)

end Faithful

/-! ### Recursion -/

theorem lower_eq (src : List Char) (pos : Position) (p : Phrase) :
    lower src pos p = lowerAt src p (fun select b => lowerEach src select p.parts b) pos := by
  funext b
  cases p
  rw [lower]
  rfl

theorem lowerEach_nil (src : List Char) (select : Phrase → Option Position) :
    lowerEach src select [] = fun b => b := by
  funext b
  rw [lowerEach]

theorem lowerEach_skip {src : List Char} {select : Phrase → Option Position} {p : Phrase}
    {ps : List Phrase} (h : select p = none) :
    lowerEach src select (p :: ps) = lowerEach src select ps := by
  funext b
  rw [lowerEach, h]

theorem lowerEach_take {src : List Char} {select : Phrase → Option Position} {p : Phrase}
    {ps : List Phrase} {pos : Position} (h : select p = some pos) :
    lowerEach src select (p :: ps) = fun b => lowerEach src select ps (lower src pos p b) := by
  funext b
  rw [lowerEach, h]

mutual

/-- By recursion on the phrase, lowering brings what a phrase leads down to. -/
theorem lower_brings (src : List Char) (p : Phrase) {pos : Position} {W : Set Invocation}
    (hW : pos.Lends W) :
    Brings (lower src pos p) (W ∪ invocationsFrom src pos.reading p) := by
  match p with
  | .mk rule role start stop parts =>
      have h : Faithful src parts fun select b => lowerEach src select parts b :=
        fun hf => lowerEach_brings src parts hf
      rw [lower_eq]
      exact Faithful.brings_at h hW

theorem lowerEach_brings (src : List Char) (parts : List Phrase)
    {select : Phrase → Option Position} {pass : Pass} {W : Set Invocation}
    (hf : Follows select pass W) :
    Brings (lowerEach src select parts)
      ({w | w ∈ W ∧ ∃ q ∈ parts, (select q).isSome} ∪ invocationsOf src pass parts) := by
  match parts with
  | [] =>
      rw [lowerEach_nil]
      exact Brings.nothing.of_eq (by ext w; simp [invocationsOf])
  | p :: ps =>
      obtain ⟨hreading, hlends⟩ := hf p
      have hrest := lowerEach_brings src ps hf
      cases hp : select p with
      | none =>
          rw [hp] at hreading
          rw [lowerEach_skip hp]
          refine hrest.of_eq ?_
          ext w
          simp [invocationsOf, hp, ← hreading]
      | some pos =>
          rw [hp] at hreading
          rw [lowerEach_take hp]
          refine (hrest.comp (lower_brings src p (hlends pos hp))).of_eq ?_
          ext w
          simp only [invocationsOf, hp, ← hreading, Set.mem_union, Set.mem_ofPred_eq, List.mem_cons,
            exists_eq_or_imp, Option.isSome_some, true_or, and_true, Set.ofPred_mem_eq,
            Option.map_some, Option.some.injEq, exists_eq_left']
          tauto

end

/-! ### Files -/

def treeOf (file : Path) (source : String) (program : Phrase) : Tree :=
  (lowerEach source.toList (named .topLevel) program.parts
    (Builder.start file .source .javaFile (some source) {})).build

theorem toTree_eq_treeOf (file : Path) (source : String) :
    toTree file source = treeOf file source (parse source) := rfl

def invocationsRead (source : String) (program : Phrase) : Set Invocation :=
  invocationsFrom source.toList (.all .topLevel) program

theorem treeOf_ordered (file : Path) (source : String) (program : Phrase) :
    (treeOf file source program).Ordered := by
  have hfile := lowerEach_brings source.toList program.parts (Follows.named .topLevel rfl)
  exact (hfile.made (Made.start ..)).ordered

theorem tells_treeOf (file : Path) (source : String) (program : Phrase) (w : Invocation) :
    (treeOf file source program).Tells w ↔ w ∈ invocationsRead source program := by
  have hstart := Made.start file .source .javaFile (some source) {}
  have hfile := lowerEach_brings source.toList program.parts (Follows.named .topLevel rfl)
  have hnew : (Builder.start file .source .javaFile (some source) {}).invocations = [] := rfl
  rw [treeOf, (hfile.made hstart).tells_build, hfile.mem, hnew, invocationsRead,
    invocationsFrom_of_pass rfl rfl]
  simp [Position.reading]

mutual

def Phrase.subphrases : Phrase → List Phrase
  | .mk rule role start stop parts => .mk rule role start stop parts :: subphrasesOf parts

def subphrasesOf : List Phrase → List Phrase
  | [] => []
  | p :: ps => p.subphrases ++ subphrasesOf ps

end

def Phrase.usesInClasses (p : Phrase) : List Phrase :=
  ((p.subphrases.filter fun c => isClassLike c.rule).flatMap Phrase.subphrases).filter fun u =>
    u.rule == .methodCall || u.rule == .objectCreation

/-- Every method call and object creation inside a class has a node. -/
def KeepsUses (source : String) (program : Phrase) (t : Tree) : Prop :=
  ∀ u ∈ program.usesInClasses, ∀ w ∈ u.invocation? source.toList, t.Tells w

theorem keepsUses_iff {source : String} {program : Phrase} {t : Tree} (h : t.Ordered) :
    KeepsUses source program t ↔
      ∀ w ∈ program.usesInClasses.filterMap (Phrase.invocation? source.toList),
        w ∈ t.nodes.toList.filterMap (·.invocation?) := by
  simp only [KeepsUses, h.tells_iff, List.mem_filterMap (l := program.usesInClasses),
    Option.mem_def]
  constructor
  · rintro hkeeps w ⟨u, hu, hw⟩
    exact hkeeps u hu w hw
  · exact fun hall u hu w hw => hall w ⟨u, hu, hw⟩

/-- The tree of a file tells of the calls and creations that are read, each at
its place and by its name, and of no others. So it keeps those inside classes
exactly if all of them are read. -/
theorem treeOf_keepsUses_iff (file : Path) (source : String) (program : Phrase) :
    (∀ w, (treeOf file source program).Tells w ↔ w ∈ invocationsRead source program) ∧
      (KeepsUses source program (treeOf file source program) ↔
        ∀ u ∈ program.usesInClasses, ∀ w ∈ u.invocation? source.toList,
          w ∈ invocationsRead source program) := by
  refine ⟨tells_treeOf file source program, ?_⟩
  simp only [KeepsUses, tells_treeOf]

def nestedSource : String :=
  "class A \x7b Object o = new B(f()) \x7b int x = g(1).h(); \x7d; \x7d"

/-- Calls in the arguments and in the anonymous class of a creation have nodes,
so they are read. -/
theorem nestedSource_keepsUses :
    (parse nestedSource).usesInClasses.length = 4 ∧
      ∀ u ∈ (parse nestedSource).usesInClasses, ∀ w ∈ u.invocation? nestedSource.toList,
        w ∈ invocationsRead nestedSource (parse nestedSource) := by
  refine ⟨by decide +kernel, ?_⟩
  refine (treeOf_keepsUses_iff ⟨"A.java"⟩ nestedSource (parse nestedSource)).2.mp ?_
  rw [keepsUses_iff (treeOf_ordered ..)]
  decide +kernel

def enumSource : String := "enum E \x7b A(f()) \x7d"

/-- The arguments of an enum constant are not read, so the call is lost. -/
theorem enumSource_not_keepsUses :
    ¬ KeepsUses enumSource (parse enumSource) (toTree ⟨"E.java"⟩ enumSource) := by
  rw [toTree_eq_treeOf, keepsUses_iff (treeOf_ordered ..)]
  decide +kernel

end LintEngine.Java
