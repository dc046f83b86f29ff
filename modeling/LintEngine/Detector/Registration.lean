import LintEngine.Detector.Basic

/-!
Registration: a set of detectors that fit together, with an index from kinds
and names of nodes to the detectors that are interested in them.

Every list of the index holds positions in the order of registration, each at
most once.
-/

namespace LintEngine

/-- The detectors interested in the nodes of one phase. -/
structure DispatchTable where
  enter : List (NodeKind × List Nat) := []
  exit : List (NodeKind × List Nat) := []
  named : List ((NodeKind × String) × List Nat) := []
  /-- The detectors with any interest in the phase. -/
  participants : List Nat := []
deriving Inhabited, Repr

namespace DispatchTable

/-- Puts a position at the end of a list, unless it is there. -/
def include_ (d : Nat) (list : List Nat) : List Nat := if list.contains d then list else list ++ [d]

/-- Enters a position under a key. -/
def enterUnder {κ : Type} [BEq κ] (key : κ) (d : Nat) : List (κ × List Nat) → List (κ × List Nat)
  | [] => [(key, [d])]
  | (k, list) :: rest =>
    if k == key then (k, include_ d list) :: rest else (k, list) :: enterUnder key d rest

/-- Enters a detector for a trigger. -/
def add (t : DispatchTable) (d : Nat) (trigger : Trigger) : DispatchTable :=
  let t := { t with participants := include_ d t.participants }
  let underName := fun (name : String) =>
    { t with named := enterUnder (trigger.nodeKind, name) d t.named }
  match trigger with
  | .enter kind => { t with enter := enterUnder kind d t.enter }
  | .exit kind => { t with exit := enterUnder kind d t.exit }
  | .methodCall name | .constructorCall name | .annotated name | .xmlAttribute name
  | .xmlElement name => underName name

def onEnter (t : DispatchTable) (kind : NodeKind) : List Nat := (t.enter.lookup kind).getD []

def onExit (t : DispatchTable) (kind : NodeKind) : List Nat := (t.exit.lookup kind).getD []

def onName (t : DispatchTable) (kind : NodeKind) (name : String) : List Nat :=
  (t.named.lookup (kind, name)).getD []

def hasNamed (t : DispatchTable) (kind : NodeKind) : Bool := t.named.any (·.1.1 == kind)

/-- The detectors for an annotation. A name without a point, which could not
be resolved, also stands for the qualified names that end in it. -/
def onAnnotation (t : DispatchTable) (name : String) : List Nat :=
  let exact := t.onName .annotationUse name
  if !exact.isEmpty || name.toList.contains '.' then exact
  else
    let loose := t.named.filter fun ((kind, q), _) =>
      kind == .annotationUse && Text.lastField '.' q == name
    ((loose.flatMap (·.2)).mergeSort (· ≤ ·)).eraseReps

def isEmpty (t : DispatchTable) : Bool := t.participants.isEmpty

end DispatchTable

structure Registration (W S : Type) where
  detectors : List (Detector W S)
  /-- One table for each phase. -/
  tables : Phase → DispatchTable
  /-- The annotations that some detector is interested in. -/
  relevant : List String

namespace Registration

variable {W S : Type}

/-- The first reason not to accept a detector after those with given names. -/
def objection? (registry : Registry) (names : List String) (d : Detector W S) : Option String :=
  let who := "detector `" ++ d.name ++ "`"
  if names.contains d.name then some (who ++ " is registered twice")
  else match d.issues.find? fun i => !registry.contains i with
    | some i => some (who ++ " reports unregistered issue `" ++ i.id ++ "`")
    | none =>
      (d.interests.find? fun i => !i.trigger.nodeKind.occursIn i.phase).map fun i =>
        who ++ " declares " ++ i.trigger.render ++ " in the " ++ i.phase.name ++
          " phase, where " ++ i.trigger.nodeKind.name ++ " nodes never occur"

/-- Checks detectors one after the other. -/
def checkAll (registry : Registry) : List String → List (Detector W S) → Except LintError Unit
  | _, [] => .ok ()
  | names, d :: ds =>
    match objection? registry names d with
    | some text => .error (.configuration text)
    | none => checkAll registry (d.name :: names) ds

/-- The table of a phase. -/
def tableOf (detectors : List (Detector W S)) (phase : Phase) : DispatchTable :=
  detectors.zipIdx.foldl (fun t (d, index) =>
    (d.interests.filter (·.phase == phase)).foldl (fun t i => t.add index i.trigger) t) {}

/-- The name of an annotation trigger. -/
def annotatedName? : Trigger → Option String
  | .annotated name => some name
  | _ => none

/-- Accepts detectors if their names differ, their issues are registered, and
every interest can come up. -/
def ofDetectors (registry : Registry) (detectors : List (Detector W S)) :
    Except LintError (Registration W S) := do
  checkAll registry [] detectors
  let source := tableOf detectors .source
  let bytecode := tableOf detectors .bytecode
  let xml := tableOf detectors .xml
  let build := tableOf detectors .build
  return {
    detectors
    tables := fun
      | .source => source
      | .bytecode => bytecode
      | .xml => xml
      | .build => build
    relevant := (detectors.flatMap fun d =>
      d.interests.filterMap fun i => annotatedName? i.trigger).eraseDups }

/-- Whether a detector has something to report in a scope. -/
def isActive (config : Config) (scope : Scope) (d : Detector W S) : Bool :=
  d.issues.any fun i => i.appliesTo scope && config.isReportable i

/-- For each detector, whether it runs on units of a scope. -/
def activeFor (r : Registration W S) (config : Config) (scope : Scope) : List Bool :=
  r.detectors.map (isActive config scope)

end Registration

end LintEngine
