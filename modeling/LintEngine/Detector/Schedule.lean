import LintEngine.Detector.Registration

/-!
The schedule of a unit: which detector is told what, in which order.

The tree is walked once. A node's own events come before those of its
children, except that leaving it comes after them; detectors for one event
come in the order of registration. Which events there are depends on the unit
alone, not on what the detectors do.
-/

namespace LintEngine

/-- One step of a walk. -/
inductive Step where
  /-- A place where a cancelled run stops. -/
  | poll
  | deliver (detector : Nat) (event : Event)
deriving Inhabited

/-- A unit to be walked, with the table of its phase. -/
structure Walk where
  view : View
  table : DispatchTable

namespace Walk

variable (w : Walk)

/-- Tells several detectors the same. -/
def deliverAll (detectors : List Nat) (e : Event) : List Step := detectors.map (.deliver · e)

def wantsAnnotations : Bool := w.table.hasNamed .annotationUse

/-- The use of an element with several annotations. -/
def usageSteps (annotations : List Annotation) (kind : UsageKind) (node : NodeId)
    (method : Option MethodRef) : List Step :=
  annotations.flatMap fun ann =>
    deliverAll (w.table.onAnnotation ann.name) (.usage { ann, kind, node, method })

/-- The arguments of a call or creation, each with the annotations of its
parameter. -/
def argumentSteps (node : NodeId) (m : MethodRef) : List Step :=
  (w.view.tree.arguments node).zipIdx.flatMap fun (argument, i) =>
    w.usageSteps (w.view.parameterAnnotations m i) (.argument i) argument (some m)

def callSteps (node : NodeId) : List Step :=
  let byName := ((w.view.tree.name node).map (w.table.onName .call)).getD []
  match w.view.resolveCall node with
  | none => []
  | some m =>
    deliverAll byName (.call node m) ++
      if w.wantsAnnotations && m.symbol.isSome then
        w.usageSteps (w.view.methodAnnotations m) .call node (some m) ++ w.argumentSteps node m
      else []

/-- The constructor that a creation binds to. Constructors go by the simple
name of their class. -/
def constructor? (node : NodeId) (className : String) : Option MethodRef := do
  let simple := Text.lastField '.' className
  let arity := (w.view.tree.arguments node).length
  let (owner, symbol) ← w.view.symbols.findMethod className simple arity
  if symbol.isConstructor then
    some { name := simple, arity, receiver := some className, owner := some owner.name,
           symbol := some symbol }
  else none

def creationSteps (node : NodeId) : List Step :=
  match w.view.tree.typeName node with
  | none => []
  | some written =>
    let className := (w.view.qualifyType written node).getD written
    deliverAll (w.table.onName .new className) (.construct node className) ++
      match w.wantsAnnotations, w.constructor? node className with
      | true, some m => w.argumentSteps node m
      | _, _ => []

/-- An annotation as written; what its type carries is left out here. -/
def definitionSteps (node : NodeId) : List Step :=
  if w.wantsAnnotations then
    let written := Annotation.ofNode w.view.tree node (w.view.classNameOf node)
    let ann := { written with name := (w.view.qualifyType written.name node).getD written.name }
    w.usageSteps [ann] .definition node none
  else []

def variableSteps (node : NodeId) : List Step :=
  match w.view.tree.initializer node with
  | none => []
  | some value =>
    if w.wantsAnnotations && !(w.view.tree.annotations node).isEmpty then
      w.usageSteps (w.view.nodeAnnotations node) .initializer value none
    else []

/-- What detectors are told by the name of a node or of what it uses. -/
def namedSteps (node : NodeId) : List Step :=
  let byName := fun kind => ((w.view.tree.name node).map (w.table.onName kind)).getD []
  match w.view.tree.kind node with
  | .call => w.callSteps node
  | .new => w.creationSteps node
  | .annotationUse => w.definitionSteps node
  | .field | .localVariable => w.variableSteps node
  | .xmlElement => deliverAll (byName .xmlElement) (.element node)
  | .xmlAttribute => deliverAll (byName .xmlAttribute) (.attribute_ node)
  | _ => []

def enterSteps (node : NodeId) : List Step :=
  deliverAll (w.table.onEnter (w.view.tree.kind node)) (.enter node) ++ w.namedSteps node

def exitSteps (node : NodeId) : List Step :=
  deliverAll (w.table.onExit (w.view.tree.kind node)) (.exit node)

/-- The steps of a node and everything below it. A run can stop before each
child of the root. -/
def nodeSteps (node : NodeId) : List Step :=
  (if w.view.tree.parent node == some Tree.root then [.poll] else []) ++ w.enterSteps node ++
    ((w.view.tree.children node).flatMap fun c =>
      if _ : w.view.tree.Below node c then nodeSteps c else []) ++
    w.exitSteps node
termination_by w.view.tree.size - node
decreasing_by exact Tree.size_sub_lt_of_below ‹_›

/-- The whole schedule for given participants. -/
def schedule (participants : List Nat) : List Step :=
  deliverAll participants .beforeUnit ++ w.nodeSteps Tree.root ++
    deliverAll participants .afterUnit

end Walk

end LintEngine
