import LintEngine.Engine.Run
import LintEngine.Proofs.Detector.Tables
import LintEngine.Proofs.Report.Selection
import LintEngine.Rules.Builtin
import Mathlib.Data.List.Basic

/-!
From the results of the units to a report, for an engine with the detectors of
the rules. Settling a finding drops it or gives it a message, and it leaves the
world alone, so the findings of a report are those found in the units, settled
one by one. Findings selected by their issue can be followed through it alone.
-/

namespace LintEngine

open Rules

namespace Engine

variable {W S : Type}

structure IsBuiltin (e : Engine W S) : Prop where
  detectors : e.registration.detectors = builtinDetectors
  tables : ∀ phase, e.registration.tables phase =
    Registration.tableOf e.registration.detectors phase

theorem isBuiltin_of_ofDetectors {e : Engine W S}
    (h : Registration.ofDetectors e.registry builtinDetectors = .ok e.registration) :
    e.IsBuiltin := by
  obtain ⟨hdetectors, htables⟩ := Registration.of_ofDetectors h
  exact ⟨hdetectors, hdetectors ▸ htables⟩

def found (units : List (Option (UnitState S))) : List Finding :=
  (units.filterMap id).flatMap (·.findings)

theorem found_cons (u : Option (UnitState S)) (units : List (Option (UnitState S))) :
    found (u :: units) = (u.map (·.findings)).getD [] ++ found units := by
  cases u <;> rfl

/-! ### Settling -/

def keptBy : Settled → Option Finding
  | .keep f => some f
  | .drop | .crashed _ => none

def settled (e : Engine W S) (facts : Facts) (w : World W) (f : Finding) : Option Finding :=
  match f.data, f.detector.bind fun d => e.registration.detectors[d]? with
  | some _, some d => keptBy (d.settle f facts w).1
  | _, _ => some f

/-- A detector of the rules drops a finding or gives it a message, and leaves
the world alone. -/
theorem builtin_settle {detector : Detector W S} (h : detector ∈ builtinDetectors) (f : Finding)
    (facts : Facts) : ∃ verdict, (∀ w, detector.settle f facts w = (verdict, w)) ∧
      ∀ g ∈ keptBy verdict, ∃ message, g = { f with message } := by
  have hkeep : ∃ verdict : Settled, (∀ w : World W, (Settled.keep f, w) = (verdict, w)) ∧
      ∀ g ∈ keptBy verdict, ∃ message, g = { f with message } :=
    ⟨.keep f, fun _ => rfl, by rintro g ⟨⟩; exact ⟨_, rfl⟩⟩
  simp only [builtinDetectors, List.mem_cons, List.not_mem_nil, or_false] at h
  rcases h with rfl | rfl | rfl | rfl | rfl | rfl
  · exact hkeep
  · exact hkeep
  · exact hkeep
  · simp only [newApiDetector]
    split
    · exact hkeep
    · split
      · exact ⟨.drop, fun _ => rfl, by rintro g ⟨⟩⟩
      · exact ⟨.keep _, fun _ => rfl, by rintro g ⟨⟩; exact ⟨_, rfl⟩⟩
  · simp only [rightToLeftDetector]
    split
    · split
      · exact hkeep
      · split
        · exact ⟨.keep _, fun _ => rfl, by rintro g ⟨⟩; exact ⟨_, rfl⟩⟩
        · exact ⟨.drop, fun _ => rfl, by rintro g ⟨⟩⟩
    · exact ⟨.drop, fun _ => rfl, by rintro g ⟨⟩⟩
  · exact hkeep

/-- Steps that add findings to a sink and leave the world alone. -/
theorem foldl_findings {α : Type} {add : α → Sink → World W → Sink × World W}
    {out : α → List Finding} {w : World W}
    (h : ∀ a sink, (add a sink w).1.findings = sink.findings ++ out a ∧ (add a sink w).2 = w)
    (l : List α) (sink : Sink) :
    (l.foldl (fun (sink, world) a => add a sink world) (sink, w)).1.findings =
        sink.findings ++ l.flatMap out ∧
      (l.foldl (fun (sink, world) a => add a sink world) (sink, w)).2 = w := by
  induction l generalizing sink with
  | nil => exact ⟨by simp, rfl⟩
  | cons a l ih =>
      obtain ⟨hfindings, hworld⟩ := h a sink
      have hstep : add a sink w = ((add a sink w).1, w) := Prod.ext rfl hworld
      rw [List.foldl_cons]
      dsimp only
      rw [hstep, List.flatMap_cons, ← List.append_assoc, ← hfindings]
      exact ih (add a sink w).1

section

variable {e : Engine W S} (hbuiltin : e.IsBuiltin) (facts : Facts)

include hbuiltin

theorem settle_findings (w : World W) (f : Finding) (sink : Sink) :
    (e.settle facts f sink w).1.findings = sink.findings ++ (e.settled facts w f).toList ∧
      (e.settle facts f sink w).2 = w := by
  cases hdata : f.data with
  | none => simp [settle, settled, hdata, Sink.accept]
  | some data =>
      cases hd : f.detector.bind fun d => e.registration.detectors[d]? with
      | none => simp [settle, settled, hdata, hd, Sink.accept]
      | some detector =>
          obtain ⟨d, -, hmem⟩ := Option.bind_eq_some_iff.mp hd
          rw [hbuiltin.detectors] at hmem
          obtain ⟨verdict, hverdict, -⟩ := builtin_settle (List.mem_of_getElem? hmem) f facts
          simp only [settle, settled, hdata, hd, hverdict]
          cases verdict <;>
            simp [keptBy, Sink.accept, Sink.addSuppressed, Sink.recordFailure]

theorem deliverUnit_findings (w : World W) (u : Option (UnitState S)) (sink : Sink) :
    (e.deliverUnit facts u sink w).1.findings =
        sink.findings ++ ((u.map (·.findings)).getD []).flatMap
          (fun f => (e.settled facts w f).toList) ∧
      (e.deliverUnit facts u sink w).2 = w := by
  cases u with
  | none => exact ⟨by simp [deliverUnit, Sink.markCancelled], rfl⟩
  | some u =>
      have hfailures : ∀ (fs : List Failure) (sink : Sink),
          (fs.foldl Sink.recordFailure sink).findings = sink.findings := by
        intro fs
        induction fs with
        | nil => exact fun _ => rfl
        | cons f fs ih => exact fun sink => ih _
      obtain ⟨hfindings, hworld⟩ := foldl_findings (settle_findings hbuiltin facts w) u.findings
        (u.failures.foldl Sink.recordFailure ((sink.addFiles 1).addSuppressed u.suppressed))
      refine ⟨?_, hworld⟩
      rw [hfailures] at hfindings
      exact hfindings

/-- What the sink holds when all units have been delivered. -/
theorem foldl_deliverUnit_findings (w : World W) (units : List (Option (UnitState S)))
    (sink : Sink) :
    (units.foldl (fun (sink, world) u => e.deliverUnit facts u sink world) (sink, w)).1.findings =
      sink.findings ++ (found units).filterMap (e.settled facts w) := by
  rw [(foldl_findings (deliverUnit_findings hbuiltin facts w) units sink).1]
  refine congrArg (_ ++ ·) ?_
  induction units with
  | nil => rfl
  | cons u units ih =>
      rw [List.flatMap_cons, ih, found_cons, List.filterMap_append,
        ← List.filterMap_eq_flatMap_toList]

theorem settled_cases (w : World W) (f : Finding) :
    ∀ g ∈ e.settled facts w f, ∃ message, g = { f with message } := by
  intro g hg
  rw [settled] at hg
  split at hg
  · rename_i hd
    obtain ⟨d, -, hmem⟩ := Option.bind_eq_some_iff.mp hd
    rw [hbuiltin.detectors] at hmem
    obtain ⟨verdict, hverdict, hkept⟩ := builtin_settle (List.mem_of_getElem? hmem) f facts
    rw [hverdict] at hg
    exact hkept g hg
  · cases hg
    exact ⟨_, rfl⟩

/-- Selecting by the issue can be done before or after settling. -/
theorem filter_filterMap_settled {p : Finding → Bool}
    (hp : ∀ f g, f.issue.id = g.issue.id → p f = p g) (w : World W) (fs : List Finding) :
    (fs.filterMap (e.settled facts w)).filter p = (fs.filter p).filterMap (e.settled facts w) := by
  induction fs with
  | nil => rfl
  | cons f fs ih =>
      rw [List.filterMap_cons, List.filter_cons]
      cases hs : e.settled facts w f with
      | none =>
          rw [ih]
          split
          · rw [List.filterMap_cons, hs]
          · rfl
      | some g =>
          obtain ⟨message, rfl⟩ := settled_cases hbuiltin facts w f g hs
          simp only [List.filter_cons, ih, hp { f with message } f rfl]
          split
          · rw [List.filterMap_cons, hs]
          · rfl

end

/-! ### Reports -/

def results (e : Engine W S) (trees : List Tree) (w : World W) :
    List (Option (UnitState S)) × World W :=
  e.analyzeUnits (SymbolTable.ofUnits trees e.compiled) trees w

def facts (e : Engine W S) (trees : List Tree) (w : World W) : Facts :=
  e.projectFacts (e.results trees w).1

def reported (e : Engine W S) (trees : List Tree) (w : World W) : List Finding :=
  (found (e.results trees w).1).filterMap (e.settled (e.facts trees w) (e.results trees w).2)

theorem reportMissing_findings (e : Engine W S) (root : Path) (unparsed : List Unparsed) :
    ∀ f ∈ (e.reportMissing root (e.reportUnparsed unparsed {})).findings,
      f.issue = Issue.lintError := by
  have haccept : ∀ (us : List Unparsed) (sink : Sink),
      (∀ f ∈ sink.findings, f.issue = Issue.lintError) →
      ∀ f ∈ (us.foldl (fun sink u => sink.accept (e.trouble (Location.fileStart u.path)
        ("analysis incomplete: " ++ u.error.message))) sink).findings,
        f.issue = Issue.lintError := by
    intro us
    induction us with
    | nil => exact fun _ h => h
    | cons u us ih =>
        refine fun sink h => ih _ fun f hf => ?_
        rcases List.mem_append.mp hf with hf | hf
        · exact h f hf
        · rw [List.mem_singleton.mp hf]
          rfl
  have hunparsed : ∀ f ∈ (e.reportUnparsed unparsed {}).findings, f.issue = Issue.lintError := by
    rw [reportUnparsed]
    split
    · exact haccept unparsed {} (by simp)
    · simp
  intro f hf
  rw [reportMissing] at hf
  split at hf
  · rcases List.mem_append.mp hf with hf | hf
    · exact hunparsed f hf
    · rw [List.mem_singleton.mp hf]
      rfl
  · exact hunparsed f hf

/-- A selection from the report on a project is the report on a selection of
its settled findings. -/
theorem filter_run {e : Engine W S} (hbuiltin : e.IsBuiltin) {p : Finding → Bool}
    (hp : ∀ f g, f.issue.id = g.issue.id → p f = p g)
    (htrouble : ∀ f, f.issue = Issue.lintError → p f = false) (root : Path) (trees : List Tree)
    (unparsed : List Unparsed) (w : World W) :
    (e.run root trees unparsed w).1.findings.filter p =
      (Sink.distinct (Sink.merged ((e.reported trees w).filter p))).mergeSort Sink.precedes := by
  have hsink : ∃ sink : Sink, (e.run root trees unparsed w).1 = sink.finish ∧
      sink.findings = (e.reportMissing root (e.reportUnparsed unparsed {})).findings ++
        e.reported trees w := by
    refine ⟨_, rfl, ?_⟩
    refine Eq.trans ?_ (foldl_deliverUnit_findings hbuiltin (e.facts trees w) (e.results trees w).2
      (e.results trees w).1 (e.reportMissing root (e.reportUnparsed unparsed {})))
    dsimp only
    split <;> rfl
  obtain ⟨sink, hrun, hfindings⟩ := hsink
  have hnone : (e.reportMissing root (e.reportUnparsed unparsed {})).findings.filter p = [] :=
    List.filter_eq_nil_iff.mpr fun f hf =>
      Bool.eq_false_iff.mp (htrouble f (reportMissing_findings e root unparsed f hf))
  have hplace : ∀ f g, Sink.samePlace f g = true → p f = p g := fun f g h =>
    hp f g (Sink.samePlace_iff.mp h).1
  rw [hrun, Sink.filter_finish hplace, hfindings, List.filter_append, hnone, List.nil_append]

end Engine

end LintEngine
