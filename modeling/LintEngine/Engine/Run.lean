import LintEngine.Engine.Unit
import LintEngine.Report.Sink

/-!
A run over a project. The classes of all units are indexed first; then each
unit is analyzed, the facts of the units are put together, provisional
findings are settled with them, and everything goes to the sink.
-/

namespace LintEngine

/-- A file that could not be read or parsed. -/
structure Unparsed where
  path : Path
  error : LintError

structure Engine (W S : Type) where
  config : Config := {}
  registry : Registry
  registration : Registration W S
  levels : Option ApiLevels := none
  /-- A lookup given by the host. -/
  lookup : Option (Lookup W) := none
  /-- The lookup over the network, used if the settings allow it and the host
  gives no other. -/
  remote : Option (Lookup W) := none
  /-- Classes known from compiled code. -/
  compiled : List ClassSymbol := []

namespace Engine

variable {W S : Type} (e : Engine W S)

/-- An engine whose detectors fit together and with the registry. -/
def create (config : Config) (registry : Registry) (detectors : List (Detector W S)) :
    Except LintError (Engine W S) := do
  return { config, registry, registration := ← Registration.ofDetectors registry detectors }

/-- Whether trouble with the analysis itself can be reported. -/
def reportsTrouble : Bool :=
  e.registry.contains Issue.lintError && e.config.isReportable Issue.lintError

/-- A finding about trouble with the analysis itself. -/
def trouble (l : Location) (message : String) : Finding :=
  { Finding.new Issue.lintError l message with severity := e.config.severityFor Issue.lintError }

/-- One finding for each file that no detector has seen. -/
def reportUnparsed (unparsed : List Unparsed) (sink : Sink) : Sink :=
  if e.reportsTrouble then
    unparsed.foldl (fun sink u => sink.accept
      (e.trouble (Location.fileStart u.path) ("analysis incomplete: " ++ u.error.message))) sink
  else sink

/-- The message for a run without API levels. -/
def missingLevels : String := "analysis incomplete: API version database unavailable"

/-- For each detector, whether it is left out because it needs API levels
that are not there. -/
def excluded : List Bool :=
  e.registration.detectors.map fun d =>
    e.levels.isNone && d.needsLevels && d.issues.any e.config.isReportable

/-- One finding if API levels are missed. -/
def reportMissing (root : Path) (sink : Sink) : Sink :=
  if e.excluded.contains true && e.reportsTrouble then
    sink.accept (e.trouble (Location.project root) missingLevels)
  else sink

/-- For each detector, whether it runs on units of a scope. -/
def active (scope : Scope) : List Bool :=
  (e.registration.activeFor e.config scope).zipWith (fun a x => a && !x) e.excluded

def effectiveLookup : Option (Lookup W) :=
  e.lookup <|> if e.config.remote.enabled then e.remote else none

def env (symbols : SymbolTable) (t : Tree) : Env W :=
  { view := { tree := t, symbols, relevant := some e.registration.relevant }
    config := e.config
    registry := e.registry
    levels := e.levels
    lookup := e.effectiveLookup }

/-- Analyzes units one after the other. A unit that was not analyzed to its
end, or not at all, leaves nothing. -/
def analyzeUnits (symbols : SymbolTable) :
    List Tree → World W → List (Option (UnitState S)) × World W
  | [], world => ([], world)
  | t :: ts, world =>
    if world.cancelled then
      let (rest, world) := analyzeUnits symbols ts world
      (none :: rest, world)
    else
      let (finished, s) := Unit.run (e.env symbols t) e.registration (e.active t.scope) world
      let (rest, world) := analyzeUnits symbols ts s.world
      ((if finished then some s.unit else none) :: rest, world)

/-- The facts of the whole project. A minimum API level in the settings comes
before any that was found. -/
def projectFacts (units : List (Option (UnitState S))) : Facts :=
  let start : Facts := match e.config.minSdk with
    | some n => Facts.set {} Facts.minSdkKey (.int n)
    | none => {}
  (units.filterMap id).foldl (fun f u => f.merge u.facts) start

/-- Settles a finding. One without data, or of no detector, stands as it
is. -/
def settle (facts : Facts) (f : Finding) (sink : Sink) (world : World W) : Sink × World W :=
  match f.data, f.detector.bind fun d => e.registration.detectors[d]? with
  | some _, some d =>
    match d.settle f facts world with
    | (.keep f, world) => (sink.accept f, world)
    | (.drop, world) => (sink.addSuppressed 1, world)
    | (.crashed changed, world) =>
      let failure : Failure :=
        { detector := d.name
          file := (changed.getD f).location.file
          message := "panicked in deferred filter" }
      (sink.recordFailure failure, world)
  | _, _ => (sink.accept f, world)

/-- Hands the results of a unit to the sink. -/
def deliverUnit (facts : Facts) (u : Option (UnitState S)) (sink : Sink) (world : World W) :
    Sink × World W :=
  match u with
  | none => (sink.markCancelled, world)
  | some u =>
    let sink := (sink.addFiles 1).addSuppressed u.suppressed
    let sink := u.failures.foldl Sink.recordFailure sink
    u.findings.foldl (fun (sink, world) f => e.settle facts f sink world) (sink, world)

/-- Analyzes units and reports on them, and on the files that are no units. -/
def run (root : Path) (trees : List Tree) (unparsed : List Unparsed) (world : World W) :
    Report × World W :=
  let sink := e.reportMissing root (e.reportUnparsed unparsed {})
  let symbols := SymbolTable.ofUnits trees e.compiled
  let (units, world) := e.analyzeUnits symbols trees world
  let facts := e.projectFacts units
  let (sink, world) :=
    units.foldl (fun (sink, world) u => e.deliverUnit facts u sink world) (sink, world)
  let sink := if world.cancelled then sink.markCancelled else sink
  (sink.finish, world)

/-- Analyzes units that are given as trees. -/
def analyzeTrees (trees : List Tree) (world : World W) : Report × World W :=
  e.run ⟨"."⟩ trees [] world

end Engine

end LintEngine
