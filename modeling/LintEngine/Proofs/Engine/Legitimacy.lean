import LintEngine.Proofs.Engine.Conservation
import LintEngine.Proofs.Engine.Failures

/-!
Every finding of a report is legitimate: its issue is registered, and it has the
severity that the settings give to its issue, with which it may be reported.

Findings come in by four ways. Detectors hand them in, the engine tells of a
detector that failed, of a file that is no unit, and of missing API levels. Each
way checks the issue and sets the severity. Behind these checks, a detector that
settles a finding may change its message, and merging changes its message and
its items, so nothing that was checked is touched again.
-/

namespace LintEngine

variable {W S : Type}

/-- A detector that changes no more than the message of a finding that it
settles. -/
def Detector.ChangesMessageOnly (x : Detector W S) : Prop :=
  ∀ f facts w g, (x.settle f facts w).1 = .keep g → ∃ message, g = { f with message }

/-- A finding that may be reported under the settings of an engine. -/
structure Engine.IsLegitimate (e : Engine W S) (f : Finding) : Prop where
  registered : e.registry.contains f.issue = true
  severity : f.severity = e.config.severityFor f.issue
  not_ignored : f.severity ≠ .ignore
  fatal : e.config.fatalOnly = true → f.severity = .fatal
  reportable : e.config.isReportable f.issue = true

/-- A finding that is kept has the severity of its issue. -/
theorem Config.of_check_eq_keep {c : Config} {i : Issue} {t : Tree} {node : Option NodeId}
    {severity : Severity} (h : c.check i t node = .keep severity) :
    severity = c.severityFor i ∧ c.isReportable i = true := by
  rw [check] at h
  split at h
  · cases h
  · rename_i hignore
    split at h
    · cases h
    · rename_i hfatal
      split at h
      · cases h
      · cases h
        refine ⟨rfl, ?_⟩
        rw [isReportable, Bool.and_eq_true]
        refine ⟨by simpa using hignore, ?_⟩
        cases honly : c.fatalOnly with
        | false => rfl
        | true => simpa [honly] using hfatal

namespace Engine

variable {e : Engine W S}

namespace IsLegitimate

theorem of_isReportable {f : Finding} (hregistered : e.registry.contains f.issue = true)
    (hseverity : f.severity = e.config.severityFor f.issue)
    (hreportable : e.config.isReportable f.issue = true) : e.IsLegitimate f := by
  have hboth := hreportable
  rw [Config.isReportable, Bool.and_eq_true, ← hseverity] at hboth
  obtain ⟨hignore, hfatal⟩ := hboth
  refine ⟨hregistered, hseverity, ?_, ?_, hreportable⟩
  · simpa using hignore
  · intro honly
    simpa [honly] using hfatal

theorem congr {f g : Finding} (h : e.IsLegitimate f) (hissue : g.issue = f.issue)
    (hseverity : g.severity = f.severity) : e.IsLegitimate g := by
  apply of_isReportable
  · rw [hissue]
    exact h.registered
  · rw [hissue, hseverity]
    exact h.severity
  · rw [hissue]
    exact h.reportable

end IsLegitimate

/-! ### The ways in -/

theorem isLegitimate_trouble (h : e.reportsTrouble = true) (l : Location) (message : String) :
    e.IsLegitimate (e.trouble l message) := by
  obtain ⟨hregistered, hreportable⟩ := Bool.and_eq_true_iff.mp h
  exact .of_isReportable hregistered rfl hreportable

theorem isLegitimate_of_mem_ownFindings {root : Path} {unparsed : List Unparsed} {f : Finding}
    (h : f ∈ e.ownFindings root unparsed) : e.IsLegitimate f := by
  rw [ownFindings] at h
  split at h
  · rename_i htrouble
    rcases List.mem_append.mp h with h | h
    · obtain ⟨u, -, rfl⟩ := List.mem_map.mp h
      exact isLegitimate_trouble htrouble _ _
    · split at h
      · rw [List.mem_singleton.mp h]
        exact isLegitimate_trouble htrouble _ _
      · cases h
  · cases h

/-- Detectors and the engine commit findings of registered issues only. -/
theorem contains_of_mem_committed {env : Env W} {a : Unit.Answer W S} {f : Finding}
    (h : f ∈ a.committed env) : env.registry.contains f.issue = true := by
  rcases List.mem_append.mp h with h | h
  · obtain ⟨g, hg, rfl⟩ := List.mem_map.mp h
    exact (List.mem_filter.mp hg).2
  · split at h
    · split at h
      · rename_i hregistered
        rw [List.mem_singleton.mp h]
        exact hregistered
      · cases h
    · cases h

/-- What a unit has found comes from its log. -/
theorem isLegitimate_of_mem_log {symbols : SymbolTable} {t : Tree} {w : World W}
    {log : List (Unit.Answer W S)} {f : Finding}
    (h : f ∈ (log.foldl (Unit.enter (e.env symbols t)) { world := w }).unit.findings) :
    e.IsLegitimate f := by
  rw [Unit.findings_foldl_enter] at h
  obtain ⟨a, -, hf⟩ := List.mem_flatMap.mp ((List.mem_append.mp h).resolve_left List.not_mem_nil)
  rw [Unit.findings_eq_committed] at hf
  obtain ⟨g, hg, hverdict⟩ := List.mem_filterMap.mp hf
  have hregistered : e.registry.contains g.issue = true := contains_of_mem_committed hg
  rw [UnitState.verdict] at hverdict
  split at hverdict
  · rename_i hkeep
    obtain ⟨hseverity, hreportable⟩ := Config.of_check_eq_keep hkeep
    cases hverdict
    exact .of_isReportable hregistered hseverity hreportable
  · cases hverdict

/-! ### From the units to the report -/

section

variable (hmessage : ∀ x ∈ e.registration.detectors, x.ChangesMessageOnly)

include hmessage

/-- Settling findings keeps them legitimate. -/
theorem isLegitimate_of_mem_fates {facts : Facts} {fs : List Finding} {fates : List Fate}
    (h : List.Forall₂ (e.IsFate facts) fs fates) (hfs : ∀ f ∈ fs, e.IsLegitimate f) :
    ∀ g ∈ fates.filterMap Fate.finding?, e.IsLegitimate g := by
  induction h with
  | nil => simp
  | @cons f fate fs fates hfate _ ih =>
      obtain ⟨hf, hfs⟩ := List.forall_mem_cons.mp hfs
      intro g hg
      cases fate with
      | handedOn k =>
          rcases List.mem_cons.mp hg with rfl | hg
          · rcases e.eq_or_settle_of_isFate facts hfate with rfl | ⟨x, hx, w, hkeep⟩
            · exact hf
            · obtain ⟨message, rfl⟩ := hmessage x hx f facts w g hkeep
              exact hf.congr rfl rfl
          · exact ih hfs g hg
      | dropped | crashed => exact ih hfs g hg

theorem isLegitimate_deliverUnit {facts : Facts} {u : Option (UnitState S)} {sink : Sink}
    (w : World W) (hsink : ∀ f ∈ sink.findings, e.IsLegitimate f)
    (hunit : ∀ v, u = some v → ∀ f ∈ v.findings, e.IsLegitimate f) :
    ∀ f ∈ (e.deliverUnit facts u sink w).1.findings, e.IsLegitimate f := by
  cases u with
  | none => exact hsink
  | some v =>
      obtain ⟨fates, hfates, hfold⟩ := e.foldl_settle facts v.findings
        (v.failures.foldl Sink.recordFailure ((sink.addFiles 1).addSuppressed v.suppressed)) w
      intro f hf
      rw [deliverUnit, hfold, Sink.foldl_note, Sink.foldl_recordFailure] at hf
      rcases List.mem_append.mp hf with hf | hf
      · exact hsink f hf
      · exact isLegitimate_of_mem_fates hmessage hfates (hunit v rfl) f hf

theorem isLegitimate_deliverUnits (facts : Facts) {units : List (Option (UnitState S))}
    (hunits : ∀ u, some u ∈ units → ∀ f ∈ u.findings, e.IsLegitimate f) {sink : Sink}
    (hsink : ∀ f ∈ sink.findings, e.IsLegitimate f) (w : World W) :
    ∀ f ∈ (units.foldl (fun (sink, world) u => e.deliverUnit facts u sink world)
      (sink, w)).1.findings, e.IsLegitimate f := by
  induction units generalizing sink w with
  | nil => exact hsink
  | cons u units ih =>
      rw [List.foldl_cons]
      apply ih
      · exact fun v hv => hunits v (List.mem_cons_of_mem _ hv)
      · refine isLegitimate_deliverUnit hmessage w hsink fun v hv => hunits v ?_
        rw [hv]
        exact List.mem_cons_self

end

end Engine

namespace Sink

section

variable {p : Finding → Prop} (habsorb : ∀ f g, p f → p (absorb f g))

include habsorb

theorem forall_mergeInto {fs : List Finding} {g : Finding} (hfs : ∀ f ∈ fs, p f) (hg : p g) :
    ∀ f ∈ mergeInto g fs, p f := by
  induction fs with
  | nil => simpa [mergeInto] using hg
  | cons f fs ih =>
      obtain ⟨hf, hfs⟩ := List.forall_mem_cons.mp hfs
      rw [mergeInto]
      split
      · exact List.forall_mem_cons.mpr ⟨habsorb f g hf, hfs⟩
      · exact List.forall_mem_cons.mpr ⟨hf, ih hfs⟩

theorem forall_merged {fs : List Finding} (h : ∀ f ∈ fs, p f) : ∀ f ∈ merged fs, p f := by
  induction fs using List.reverseRecOn with
  | nil => simp [merged]
  | append_singleton fs g ih =>
      obtain ⟨hfs, hg⟩ := List.forall_mem_append.mp h
      rw [merged, List.foldl_append]
      exact forall_mergeInto habsorb (ih hfs) (hg g List.mem_cons_self)

/-- What holds of all findings that came in, and does not depend on messages and
items, holds of all that are reported. -/
theorem forall_finish {sink : Sink} (h : ∀ f ∈ sink.findings, p f) :
    ∀ f ∈ sink.finish.findings, p f := by
  intro f hf
  have hdistinct : f ∈ distinct (merged sink.findings) := List.mem_mergeSort.mp hf
  exact forall_merged habsorb h f (distinct_subset hdistinct)

end

end Sink

namespace Engine

theorem isLegitimate_finish {e : Engine W S} {sink : Sink}
    (h : ∀ f ∈ sink.findings, e.IsLegitimate f) :
    ∀ f ∈ sink.finish.findings, e.IsLegitimate f := by
  refine Sink.forall_finish (fun f g hf => ?_) h
  rw [Sink.absorb]
  split
  · exact hf.congr rfl rfl
  · exact hf

/-- Every finding of a report is of a registered issue, and it has the severity
that the settings give to its issue, with which it may be reported. -/
theorem reports_are_legitimate (e : Engine W S)
    (hmessage : ∀ x ∈ e.registration.detectors, x.ChangesMessageOnly) (root : Path)
    (trees : List Tree) (unparsed : List Unparsed) :
    (∀ w, ∀ f ∈ (e.run root trees unparsed w).1.findings, e.IsLegitimate f) ∧
    ∀ c : e.Course root trees unparsed, ∀ f ∈ c.report.findings, e.IsLegitimate f := by
  constructor
  · intro w
    have hunits : ∀ u, some u ∈ (e.results trees w).1 → ∀ f ∈ u.findings, e.IsLegitimate f := by
      intro u hu f hf
      obtain ⟨t, -, w', rfl⟩ := exists_run_of_mem_analyzeUnits hu
      rw [Unit.run_eq_foldl] at hf
      exact isLegitimate_of_mem_log hf
    have hstart : ∀ f ∈ (e.reportMissing root (e.reportUnparsed unparsed {})).findings,
        e.IsLegitimate f := by
      rw [reportMissing_eq]
      exact fun f => isLegitimate_of_mem_ownFindings
    refine isLegitimate_finish ?_
    have hend := isLegitimate_deliverUnits hmessage (e.facts trees w) hunits hstart
      (e.results trees w).2
    dsimp only
    split
    · exact hend
    · exact hend
  · intro c
    rw [c.report_eq]
    refine isLegitimate_finish fun f hf => ?_
    rw [c.sink_eq] at hf
    rcases List.mem_append.mp hf with hf | hf
    · exact isLegitimate_of_mem_ownFindings hf
    · obtain ⟨d, hd, hf⟩ := List.mem_flatMap.mp hf
      obtain ⟨w, s, -, hunit, hpasses⟩ := c.exists_passes hd
      refine isLegitimate_of_mem_fates hmessage (c.settled d (Course.mem_completed.mp hd)) ?_ f hf
      intro g hg
      rw [hunit, hpasses.unit_eq] at hg
      exact isLegitimate_of_mem_log hg

/-! ### A run for fatal findings only -/

def fatalIssue : Issue where
  id := "Fatal"
  detector := "editor"

def plainIssue : Issue where
  id := "Plain"
  detector := "editor"

def editor : Detector Unit Unit where
  name := "editor"
  issues := [fatalIssue, plainIssue]
  interests := [⟨.source, .enter .classDecl⟩]
  on
    | .enter node => do
      let f ← Task.finding fatalIssue node "draft"
      Task.report { f with data := some [] }
      Task.report { f with issue := plainIssue, data := some [] }
    | _ => pure ()
  settle f _ w := (.keep { f with message := "final" }, w)

theorem editor_changesMessageOnly : editor.ChangesMessageOnly := by
  rintro f facts w g ⟨⟩
  exact ⟨_, rfl⟩

def fatalConfig : Config where
  fatalOnly := true
  severity := [("Fatal", .fatal)]

def lostFile : Unparsed := ⟨⟨"B.java"⟩, .io ⟨"B.java"⟩ "gone"⟩

/-- The settings make a warning fatal, and no other finding is reported, not even
the one about a file that was not read. -/
theorem run_editor_legitimate :
    ∃ e, create fatalConfig ⟨[Issue.lintError, fatalIssue, plainIssue]⟩ [editor] = .ok e ∧
      (∀ x ∈ e.registration.detectors, x.ChangesMessageOnly) ∧
      (e.run ⟨"."⟩ [twoFiles.headI] [lostFile] { host := () }).1.findings.map
          (fun f => (f.issue.id, f.severity, f.message)) = [("Fatal", .fatal, "final")] ∧
      ∀ f ∈ (e.run ⟨"."⟩ [twoFiles.headI] [lostFile] { host := () }).1.findings,
        e.IsLegitimate f := by
  have hmessage : ∀ x ∈ [editor], x.ChangesMessageOnly :=
    List.forall_mem_singleton.mpr editor_changesMessageOnly
  refine ⟨_, rfl, hmessage, by decide +kernel, ?_⟩
  exact (reports_are_legitimate _ hmessage ⟨"."⟩ _ _).1 { host := () }

end Engine

end LintEngine
