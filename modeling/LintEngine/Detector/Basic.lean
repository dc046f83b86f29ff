import LintEngine.Finding
import LintEngine.Issue.Registry
import LintEngine.Suppression
import LintEngine.Text.Inspect
import LintEngine.Versions.ApiLevels
import LintEngine.View.Annotations

/-!
Detectors: what they ask to be called for, what they are told, and what they
can do in return.

A detector says in advance which nodes it is interested in. While a unit is
walked it receives events. Answering an event it may report findings, record
facts, keep private state for the unit, and use the outside world; it may
also fail, and what it did before failing stays done.
-/

namespace LintEngine

/-! ### Interests -/

/-- What a detector can be called for. -/
inductive Trigger where
  /-- Every node of a kind, before its children. -/
  | enter (kind : NodeKind)
  /-- Every node of a kind, after its children. -/
  | exit (kind : NodeKind)
  /-- Calls of methods with a name. -/
  | methodCall (name : String)
  /-- Creations of objects of a qualified type. -/
  | constructorCall (name : String)
  /-- Uses of elements that carry a qualified annotation. -/
  | annotated (name : String)
  | xmlAttribute (name : String)
  | xmlElement (name : String)
deriving DecidableEq, Repr, Inhabited

namespace Trigger

/-- The kind of node that a trigger goes off at. -/
def nodeKind : Trigger → NodeKind
  | enter kind | exit kind => kind
  | methodCall _ => .call
  | constructorCall _ => .new
  | annotated _ => .annotationUse
  | xmlAttribute _ => .xmlAttribute
  | xmlElement _ => .xmlElement

/-- The form of a trigger that messages show. -/
def render : Trigger → String
  | enter kind => "Enter(" ++ kind.name ++ ")"
  | exit kind => "Exit(" ++ kind.name ++ ")"
  | methodCall name => "MethodCall(" ++ Text.inspect name ++ ")"
  | constructorCall name => "ConstructorCall(" ++ Text.inspect name ++ ")"
  | annotated name => "Annotation(" ++ Text.inspect name ++ ")"
  | xmlAttribute name => "XmlAttribute(" ++ Text.inspect name ++ ")"
  | xmlElement name => "XmlElement(" ++ Text.inspect name ++ ")"

end Trigger

/-- A trigger in one phase. -/
structure Interest where
  phase : Phase
  trigger : Trigger
deriving DecidableEq, Repr, Inhabited

/-! ### Events -/

/-- How an annotated element is used. -/
inductive UsageKind where
  /-- The annotation as it is written on a declaration. -/
  | definition
  /-- A call of an annotated method. -/
  | call
  /-- An argument for an annotated parameter. -/
  | argument (index : Nat)
  /-- The initial value of an annotated variable. -/
  | initializer
deriving DecidableEq, Repr, Inhabited

/-- One use of an annotated element. -/
structure Usage where
  /-- The annotation that makes the use count. -/
  ann : Annotation
  kind : UsageKind
  /-- The argument, initial value, call or annotation. -/
  node : NodeId
  /-- The method that is called. -/
  method : Option MethodRef := none
deriving Inhabited

/-- What a detector is told. -/
inductive Event where
  | beforeUnit
  | enter (node : NodeId)
  | exit (node : NodeId)
  | call (node : NodeId) (method : MethodRef)
  | construct (node : NodeId) (className : String)
  | usage (u : Usage)
  | element (node : NodeId)
  | attribute_ (node : NodeId)
  | afterUnit
deriving Inhabited

/-! ### Effects -/

/-- Why a detector failed. -/
inductive Fault where
  /-- An error with its causes, the outermost first. -/
  | error (chain : List String)
  /-- A crash, with a text if it left one. -/
  | crash (text : Option String)
deriving DecidableEq, Repr, Inhabited

def Fault.message : Fault → String
  | error chain => Text.join ": " chain
  | crash (some text) => "panicked: " ++ text
  | crash none => "panicked"

/-- What lives longer than a unit: whether the run has been cancelled, and
the state of whatever is connected to the engine. -/
structure World (W : Type) where
  cancelled : Bool := false
  host : W
deriving Inhabited

/-- A service that knows the newest published version of a library. The last
argument before the world allows preview versions. -/
abbrev Lookup (W : Type) :=
  (group artifact : String) → (allowPreview : Bool) → World W →
    Except LintError (Option String) × World W

/-- What a unit is analyzed against. -/
structure Env (W : Type) where
  view : View
  config : Config
  registry : Registry
  levels : Option ApiLevels := none
  lookup : Option (Lookup W) := none

/-- What a unit has produced so far. -/
structure UnitState (S : Type) where
  findings : List Finding := []
  facts : Facts := {}
  failures : List Failure := []
  /-- The number of findings dropped. -/
  suppressed : Nat := 0
  /-- The detectors that have failed. -/
  disabled : List Nat := []
  /-- The private state of detectors. -/
  slots : List (Nat × S) := []
deriving Inhabited

structure Session (W S : Type) where
  unit : UnitState S := {}
  world : World W

/-- The detector on whose behalf something is done. -/
structure Caller where
  index : Nat
  name : String
  /-- The facts that the unit had when the detector was called. -/
  known : Facts := {}

/-- The desk of a detector while it answers an event. What the unit holds of
other detectors is not on it. -/
structure Desk (W S : Type) where
  world : World W
  /-- The private state of the detector in the unit. -/
  slot : Option S := none
  /-- The findings handed in, in order. -/
  reports : List Finding := []
  /-- The facts handed in, in order. -/
  recorded : Data := []

/-- What a detector does for an event. -/
abbrev Task (W S : Type) := ReaderT (Env W × Caller) (ExceptT Fault (StateM (Desk W S)))

/-- The fate of a provisional finding. -/
inductive Settled where
  | keep (f : Finding)
  | drop
  /-- A crash, with the finding if it had been changed by then. -/
  | crashed (changed : Option Finding := none)
deriving Inhabited

structure Detector (W S : Type) where
  name : String
  issues : List Issue
  interests : List Interest
  /-- Whether the detector is useless without API levels. -/
  needsLevels : Bool := false
  on : Event → Task W S Unit := fun _ => pure ()
  /-- Settles a provisional finding when the facts of all units are known. -/
  settle : Finding → Facts → World W → Settled × World W := fun f _ w => (.keep f, w)

/-- Checks a finding against directives and severities, and keeps it or counts
it as dropped. -/
def UnitState.commit {W S : Type} (u : UnitState S) (env : Env W) (f : Finding) : UnitState S :=
  match env.config.check f.issue env.view.tree f.anchor with
  | .keep severity => { u with findings := u.findings ++ [{ f with severity }] }
  | .drop _ => { u with suppressed := u.suppressed + 1 }

/-- Takes a finding of a detector. An issue that is not registered is a failure
of the detector, but it may go on. -/
def UnitState.take {W S : Type} (env : Env W) (me : Caller) (u : UnitState S) (f : Finding) :
    UnitState S :=
  if env.registry.contains f.issue then u.commit env { f with detector := some me.index }
  else
    let failure : Failure :=
      { detector := me.name
        file := env.view.tree.file
        message := "reported unregistered issue `" ++ f.issue.id ++ "`" }
    { u with failures := u.failures ++ [failure] }

/-- Clears the desk of a detector into the unit. -/
def UnitState.collect {W S : Type} (env : Env W) (me : Caller) (u : UnitState S)
    (desk : Desk W S) : UnitState S :=
  desk.reports.foldl (UnitState.take env me)
    { u with
      facts := desk.recorded.foldl (fun f e => f.record e.1 e.2) u.facts
      slots := match desk.slot with
        | some s => (me.index, s) :: u.slots.filter (·.1 != me.index)
        | none => u.slots }

namespace Task

variable {W S : Type}

def env : Task W S (Env W) := return (← read).1

def view : Task W S View := return (← env).view

def tree : Task W S Tree := return (← env).view.tree

def fail {α : Type} (f : Fault) : Task W S α := throw f

/-- The facts of the unit, with those that the detector has handed in. -/
def facts : Task W S Facts := do
  let (_, me) ← read
  return (← get).recorded.foldl (fun f e => f.record e.1 e.2) me.known

def isCancelled : Task W S Bool := return (← get).world.cancelled

def cancel : Task W S Unit :=
  modify fun d => { d with world := { d.world with cancelled := true } }

/-- Changes the state of the host. -/
def updateHost (f : W → W) : Task W S Unit :=
  modify fun d => { d with world := { d.world with host := f d.world.host } }

/-- Records a fact about the project. -/
def recordFact (key : String) (v : DataValue) : Task W S Unit :=
  modify fun d => { d with recorded := d.recorded ++ [(key, v)] }

/-- The private state of the calling detector in this unit. -/
def slot [Inhabited S] : Task W S S := return (← get).slot.getD default

def setSlot (s : S) : Task W S Unit := modify fun d => { d with slot := some s }

/-- A finding at a node. -/
def finding (issue : Issue) (node : NodeId) (message : String) : Task W S Finding := do
  return { Finding.new issue ((← tree).location node) message with anchor := some node }

/-- Reports a finding. -/
def report (f : Finding) : Task W S Unit :=
  modify fun d => { d with reports := d.reports ++ [f] }

/-- Reports a finding at a node. -/
def reportAt (issue : Issue) (node : NodeId) (message : String) : Task W S Unit := do
  report (← finding issue node message)

/-- Asks for the newest version of a library. -/
def latestVersion (lookup : Lookup W) (group artifact : String) (allowPreview : Bool) :
    Task W S (Except LintError (Option String)) := do
  let d ← get
  let (answer, world) := lookup group artifact allowPreview d.world
  set { d with world }
  return answer

end Task

end LintEngine
