import LintEngine.Detector.Schedule

/-!
Running the detectors on one unit. A detector that fails is left out for the
rest of the unit, and its failure is reported as a finding; the other
detectors do not notice.
-/

namespace LintEngine

namespace Unit

variable {W S : Type}

/-- The message of the finding about a failed detector. -/
def failureMessage (detector : String) (f : Fault) : String :=
  "Unexpected failure during lint analysis (detector `" ++ detector ++ "`): " ++ f.message

/-- Records that a detector has failed. -/
def fail (env : Env W) (d : Nat) (name : String) (f : Fault) (u : UnitState S) : UnitState S :=
  let failure : Failure := { detector := name, file := env.view.tree.file, message := f.message }
  let u := { u with disabled := d :: u.disabled, failures := u.failures ++ [failure] }
  if env.registry.contains Issue.lintError then
    u.commit env (Finding.new Issue.lintError (env.view.tree.location Tree.root)
      (failureMessage name f))
  else u

/-- The desk at which a detector answers. -/
def desk (d : Nat) (s : Session W S) : Desk W S :=
  { world := s.world, slot := s.unit.slots.lookup d }

/-- Tells a detector something. What it handed in before failing counts. -/
def call (env : Env W) (d : Nat) (detector : Detector W S) (e : Event) (s : Session W S) :
    Session W S :=
  let me : Caller := { index := d, name := detector.name, known := s.unit.facts }
  let (outcome, desk) := ((detector.on e).run (env, me)).run (desk d s)
  let unit := s.unit.collect env me desk
  match outcome with
  | .ok _ => { unit, world := desk.world }
  | .error f => { unit := fail env d detector.name f unit, world := desk.world }

/-- Tells a detector something, unless it has failed before. -/
def deliver (env : Env W) (d : Nat) (detector : Detector W S) (e : Event) (s : Session W S) :
    Session W S :=
  if s.unit.disabled.contains d then s else call env d detector e s

/-- Follows a schedule; `active` are the detectors that take part. The answer
is whether the schedule was followed to its end. -/
def follow (env : Env W) (detectors : List (Detector W S)) (active : List Bool) :
    List Step → Session W S → Bool × Session W S
  | [], s => (true, s)
  | .poll :: steps, s =>
    if s.world.cancelled then (false, s) else follow env detectors active steps s
  | .deliver d e :: steps, s =>
    match active.getD d false, detectors[d]? with
    | true, some detector => follow env detectors active steps (deliver env d detector e s)
    | _, _ => follow env detectors active steps s

/-- Analyzes a unit. A unit in which no active detector takes part is not
walked at all. -/
def run (env : Env W) (r : Registration W S) (active : List Bool) (world : World W) :
    Bool × Session W S :=
  let table := r.tables env.view.tree.phase
  let participants := table.participants.filter fun d => active.getD d false
  if participants.isEmpty then (true, { world })
  else
    let w : Walk := { view := env.view, table }
    follow env r.detectors active (w.schedule participants) { world }

end Unit

end LintEngine
