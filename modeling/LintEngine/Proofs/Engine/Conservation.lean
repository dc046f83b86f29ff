import LintEngine.Proofs.Engine.Cancellation

/-!
No finding is lost, and none counts twice.

Committing a finding keeps it or drops it, and one that is kept is settled in
the end. So each finding that is committed in a completed unit has one outcome:
it is handed to the sink, it is counted as suppressed, or a failure is recorded
in its place. The balance is proved for one answer of a detector, then for the
log of a unit, and the units of a course add up.
-/

namespace LintEngine

variable {W S : Type}

/-! ### Committing -/

namespace UnitState

variable (env : Env W)

def verdict (f : Finding) : Option Finding :=
  match env.config.check f.issue env.view.tree f.anchor with
  | .keep severity => some { f with severity }
  | .drop _ => none

def commitAll (u : UnitState S) (fs : List Finding) : UnitState S :=
  fs.foldl (fun u f => u.commit env f) u

end UnitState

namespace Unit

/-- The findings that an answer commits: those of registered issues, and one that
tells of a fault. -/
def Answer.committed (env : Env W) (a : Answer W S) : List Finding :=
  (a.desk.reports.filter fun f => env.registry.contains f.issue).map
      (fun f => { f with detector := some a.caller.index }) ++
    match a.fault with
    | some f =>
      if env.registry.contains Issue.lintError then
        [Finding.new Issue.lintError (env.view.tree.location Tree.root)
          (failureMessage a.caller.name f)]
      else []
    | none => []

section

variable (env : Env W)

theorem findings_eq_committed (a : Answer W S) :
    a.findings env = (a.committed env).filterMap (UnitState.verdict env) := by
  have hreports : a.desk.reports.filterMap (UnitState.kept env a.caller.index) =
      ((a.desk.reports.filter fun f => env.registry.contains f.issue).map
        fun f => { f with detector := some a.caller.index }).filterMap (UnitState.verdict env) := by
    rw [List.filterMap_map, List.filterMap_filter]
    rfl
  rw [Answer.findings, Answer.committed, List.filterMap_append, hreports, Answer.notice]
  congr 1
  cases a.fault with
  | none => rfl
  | some f =>
      rw [Option.bind_some]
      dsimp only
      split
      · rw [List.filterMap_cons, UnitState.verdict, Finding.new]
        cases env.config.check Issue.lintError env.view.tree none <;> rfl
      · rfl

end

end Unit

/-! ### Outcomes -/

namespace Engine

variable {e : Engine W S}

section

variable (e) (env : Env W) (facts : Facts)

/-- What can become of a finding that is committed: it is dropped at once, or it
is settled. -/
def IsOutcome (f : Finding) (fate : Fate) : Prop :=
  match UnitState.verdict env f with
  | none => fate = .dropped
  | some g => e.IsFate facts g fate

end

namespace Course

variable {root : Path} {trees : List Tree} {unparsed : List Unparsed}
  (c : e.Course root trees unparsed)

def env (_ : e.Course root trees unparsed) (d : Dossier W S) : Env W :=
  e.env (SymbolTable.ofUnits trees e.compiled) d.tree

def committed (d : Dossier W S) : List Finding := d.log.flatMap (Unit.Answer.committed (c.env d))

/-- The books of a unit: its commits, and an outcome for each of them. -/
structure Balances (d : Dossier W S) : Prop where
  findings : d.unit.findings = (({} : UnitState S).commitAll (c.env d) (c.committed d)).findings
  suppressed : d.unit.suppressed =
    (({} : UnitState S).commitAll (c.env d) (c.committed d)).suppressed
  outcomes : ∃ outcomes, List.Forall₂ (e.IsOutcome (c.env d) c.facts) (c.committed d) outcomes ∧
    d.handedOn = outcomes.filterMap Fate.finding? ∧
    d.crashes = outcomes.filterMap Fate.failure? ∧
    d.suppressed = outcomes.countP Fate.isDropped

variable {c} in
theorem Balances.length_eq {d : Dossier W S} (h : c.Balances d) :
    (c.committed d).length = d.handedOn.length + d.suppressed + d.crashes.length := by
  obtain ⟨outcomes, houtcomes, hhanded, hcrashes, hdropped⟩ := h.outcomes
  rw [houtcomes.length_eq, hhanded, hcrashes, hdropped]
  exact Fate.length_eq outcomes

end Course

end Engine

end LintEngine
