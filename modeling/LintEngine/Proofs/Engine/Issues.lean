import LintEngine.Proofs.Engine.Legitimacy
import LintEngine.Proofs.Engine.Reporters

/-!
Findings of one issue, from the walk to the report.

Where only one detector reports an issue, and it does not fail, what a completed
unit keeps of the findings of this issue can be read off the tree. If settling
leaves them alone, they all reach the sink, and so the findings of this issue in
a report are made of them alone.
-/

namespace LintEngine

open Registration

variable {W S : Type}

/-- A detector that never fails and hands in, of one issue, the findings that
`reports` names. -/
def Detector.ReportsOf (env : Env W) (id : String) (reports : Event → List Finding)
    (x : Detector W S) : Prop :=
  ∀ event me desk, ∃ desk' new, ((x.on event).run (env, me)).run desk = (.ok (), desk') ∧
    desk'.reports = desk.reports ++ new ∧ new.filter (·.issue.id == id) = reports event

/-- A detector that hands in nothing of an issue, whether it fails or not. -/
def Detector.IsSilentOn (id : String) (x : Detector W S) : Prop :=
  ∀ event env me desk,
    (((x.on event).run (env, me)).run desk).2.reports.filter (·.issue.id == id) =
      desk.reports.filter (·.issue.id == id)

namespace Unit

variable {env : Env W} {id : String} {detectors : List (Detector W S)} {active : List Bool}
  {k d : Nat} {x : Detector W S} {reports : Event → List Finding}

/-! ### One answer -/

theorem filter_issue_findings (hid : id ≠ Issue.lintError.id) (a : Answer W S) :
    (a.findings env).filter (·.issue.id == id) =
      (a.desk.reports.filter (·.issue.id == id)).filterMap
        (UnitState.kept env a.caller.index) := by
  have hnotice : (a.notice env).toList.filter (·.issue.id == id) = [] := by
    refine List.filter_eq_nil_iff.mpr fun f hf => ?_
    rw [(of_mem_notice hf).2, beq_iff_eq]
    exact hid.symm
  rw [Answer.findings, List.filter_append, hnotice, List.append_nil]
  exact UnitState.filter_filterMap_of_kept (fun _ _ _ => rfl) ..

/-- The detector itself is not left out, and what it reports of the issue is
kept. -/
theorem call_of_reportsOf (hid : id ≠ Issue.lintError.id) (h : x.ReportsOf env id reports)
    (event : Event) (s : Session W S) :
    (call env k x event s).unit.disabled = s.unit.disabled ∧
      (call env k x event s).unit.findings.filter (·.issue.id == id) =
        s.unit.findings.filter (·.issue.id == id) ++
          (reports event).filterMap (UnitState.kept env k) := by
  obtain ⟨desk', new, hrun, hnew, hreports⟩ := h event
    { index := k, name := x.name, known := s.unit.facts } (desk k s)
  have hfault : (answer env k x event s).fault = none := by
    rw [answer]
    simp only [hrun]
    rfl
  have hdesk : (answer env k x event s).desk.reports = new := by
    rw [answer]
    simp only [hrun, hnew]
    exact List.nil_append _
  rw [call_eq_enter]
  constructor
  · rw [disabled_enter, hfault]
    rfl
  · rw [findings_enter, List.filter_append, filter_issue_findings hid, hdesk, hreports]
    rfl

/-- The others do not matter, even if they fail. -/
theorem call_of_isSilentOn (hid : id ≠ Issue.lintError.id) (h : x.IsSilentOn id) (hd : d ≠ k)
    (event : Event) {s : Session W S} (hfine : k ∉ s.unit.disabled) :
    k ∉ (call env d x event s).unit.disabled ∧
      (call env d x event s).unit.findings.filter (·.issue.id == id) =
        s.unit.findings.filter (·.issue.id == id) := by
  have hnone : (answer env d x event s).desk.reports.filter (·.issue.id == id) = [] :=
    h event env { index := d, name := x.name, known := s.unit.facts } (desk d s)
  rw [call_eq_enter]
  constructor
  · rw [disabled_enter]
    split
    · exact fun hmem => hfine ((List.mem_cons.mp hmem).resolve_left hd.symm)
    · exact hfine
  · rw [findings_enter, List.filter_append, filter_issue_findings hid, hnone, List.filterMap_nil,
      List.append_nil]

theorem selects_of_reportsOf (hid : id ≠ Issue.lintError.id) (hx : detectors[k]? = some x)
    (hreports : x.ReportsOf env id reports)
    (hothers : ∀ d y, detectors[d]? = some y → d ≠ k → y.IsSilentOn id) :
    Selects env detectors k (·.issue.id == id) reports where
  own := by
    refine ⟨x, hx, fun event s hfine => ?_⟩
    obtain ⟨hdisabled, hfindings⟩ := call_of_reportsOf (k := k) hid hreports event s
    rw [hdisabled, hfindings, keptAfter, if_pos rfl]
    exact ⟨hfine, rfl⟩
  other d y hy hd event s := call_of_isSilentOn hid (hothers d y hy hd) hd event

end Unit

namespace Engine

variable {e : Engine W S} {id : String}

def IsWalked (e : Engine W S) (symbols : SymbolTable) (t : Tree) (u : UnitState S) : Prop :=
  ∃ w log s, Unit.Passes (e.env symbols t) e.registration (e.active t.scope) w log true s ∧
    u = s.unit

def AreFinal (e : Engine W S) (id : String) (trees : List Tree) : Prop :=
  ∀ t ∈ trees, ∀ u, e.IsWalked (SymbolTable.ofUnits trees e.compiled) t u →
    ∀ f ∈ u.findings, f.issue.id = id → f.data = none

/-- A report that is made, as far as one issue is concerned, of what was found in
some units. -/
structure ReportsUnits (e : Engine W S) (id : String) (trees : List Tree)
    (units : List (Tree × UnitState S)) (report : Report) : Prop where
  mem : ∀ p ∈ units, p.1 ∈ trees
  walked : ∀ p ∈ units, e.IsWalked (SymbolTable.ofUnits trees e.compiled) p.1 p.2
  findings : report.findings.filter (·.issue.id == id) =
    (Sink.distinct (Sink.merged ((units.flatMap (·.2.findings)).filter
      (·.issue.id == id)))).mergeSort Sink.precedes

/-! ### Settling -/

section

variable (hmessage : ∀ x ∈ e.registration.detectors, x.ChangesMessageOnly)

include hmessage

theorem filter_finding?_fate {facts : Facts} {f : Finding} {fate : Fate}
    (h : e.IsFate facts f fate) (hdata : f.issue.id = id → f.data = none) :
    fate.finding?.toList.filter (·.issue.id == id) = [f].filter (·.issue.id == id) := by
  by_cases hid : f.issue.id = id
  · obtain ⟨w, rfl⟩ := h
    rw [fate, hdata hid]
    rfl
  · have hother : ∀ g : Finding, g.issue = f.issue → [g].filter (·.issue.id == id) = [] :=
      fun g hissue => by simpa [hissue] using hid
    rw [hother f rfl]
    cases fate with
    | dropped | crashed => rfl
    | handedOn g =>
        refine hother g ?_
        rcases e.eq_or_settle_of_isFate facts h with rfl | ⟨x, hx, w, hkeep⟩
        · rfl
        · obtain ⟨message, rfl⟩ := hmessage x hx f facts w g hkeep
          rfl

theorem filter_fates {facts : Facts} {fs : List Finding} {fates : List Fate}
    (h : List.Forall₂ (e.IsFate facts) fs fates)
    (hdata : ∀ f ∈ fs, f.issue.id = id → f.data = none) :
    (fates.filterMap Fate.finding?).filter (·.issue.id == id) =
      fs.filter (·.issue.id == id) := by
  induction h with
  | nil => rfl
  | @cons f fate fs fates hfate _ ih =>
      obtain ⟨hf, hfs⟩ := List.forall_mem_cons.mp hdata
      rw [List.filterMap_eq_flatMap_toList, List.flatMap_cons, List.filter_append,
        filter_finding?_fate hmessage hfate hf, ← List.filterMap_eq_flatMap_toList, ih hfs,
        ← List.filter_append]
      rfl

theorem filter_deliverUnit {facts : Facts} {u : Option (UnitState S)} (sink : Sink) (w : World W)
    (hdata : ∀ f ∈ (u.map (·.findings)).getD [], f.issue.id = id → f.data = none) :
    (e.deliverUnit facts u sink w).1.findings.filter (·.issue.id == id) =
      sink.findings.filter (·.issue.id == id) ++
        ((u.map (·.findings)).getD []).filter (·.issue.id == id) := by
  cases u with
  | none => exact (List.append_nil _).symm
  | some v =>
      obtain ⟨fates, hfates, hfold⟩ := e.foldl_settle facts v.findings
        (v.failures.foldl Sink.recordFailure ((sink.addFiles 1).addSuppressed v.suppressed)) w
      rw [deliverUnit, hfold, Sink.foldl_note, Sink.foldl_recordFailure, List.filter_append,
        filter_fates hmessage hfates hdata]
      rfl

theorem filter_deliverUnits (facts : Facts) {units : List (Option (UnitState S))}
    (hdata : ∀ f ∈ found units, f.issue.id = id → f.data = none)
    (sink : Sink) (w : World W) :
    (units.foldl (fun (sink, world) u => e.deliverUnit facts u sink world)
        (sink, w)).1.findings.filter (·.issue.id == id) =
      sink.findings.filter (·.issue.id == id) ++ (found units).filter (·.issue.id == id) := by
  induction units generalizing sink w with
  | nil => exact (List.append_nil _).symm
  | cons u units ih =>
      rw [found_cons] at hdata
      obtain ⟨hu, hunits⟩ := List.forall_mem_append.mp hdata
      rw [List.foldl_cons, found_cons, List.filter_append, ← List.append_assoc,
        ← filter_deliverUnit hmessage sink w hu]
      exact ih hunits _ _

end

/-! ### Reports -/

theorem filter_finish_of_issue {sink : Sink} {fs : List Finding}
    (h : sink.findings.filter (·.issue.id == id) = fs.filter (·.issue.id == id)) :
    sink.finish.findings.filter (·.issue.id == id) =
      (Sink.distinct (Sink.merged (fs.filter (·.issue.id == id)))).mergeSort Sink.precedes := by
  rw [Sink.filter_finish fun f g hplace => ?_, h]
  rw [(Sink.samePlace_iff.mp hplace).1]

/-- The engine itself tells of trouble only. -/
theorem filter_ownFindings (hid : id ≠ Issue.lintError.id) (root : Path)
    (unparsed : List Unparsed) :
    (e.ownFindings root unparsed).filter (·.issue.id == id) = [] := by
  have htrouble := reportMissing_findings e root unparsed
  rw [reportMissing_eq] at htrouble
  refine List.filter_eq_nil_iff.mpr fun f hf => ?_
  rw [htrouble f hf, beq_iff_eq]
  exact hid.symm

theorem Course.reportsUnits {root : Path} {trees : List Tree} {unparsed : List Unparsed}
    (c : e.Course root trees unparsed)
    (hmessage : ∀ x ∈ e.registration.detectors, x.ChangesMessageOnly)
    (hid : id ≠ Issue.lintError.id) (hfinal : e.AreFinal id trees) :
    e.ReportsUnits id trees (c.completed.map fun d => (d.tree, d.unit)) c.report := by
  have hmem : ∀ d ∈ c.completed, d.tree ∈ trees := fun d hd =>
    c.isAllOrNothing.units.subset (List.mem_map_of_mem hd)
  have hwalked : ∀ d ∈ c.completed,
      e.IsWalked (SymbolTable.ofUnits trees e.compiled) d.tree d.unit := by
    intro d hd
    obtain ⟨w, s, -, hunit, hpasses⟩ := c.exists_passes hd
    exact ⟨w, _, s, hpasses, hunit⟩
  refine ⟨List.forall_mem_map.mpr hmem, List.forall_mem_map.mpr hwalked, ?_⟩
  rw [c.report_eq]
  refine filter_finish_of_issue ?_
  rw [c.sink_eq, List.filter_append, filter_ownFindings hid, List.nil_append,
    List.flatMap_map, List.filter_flatMap, List.filter_flatMap]
  refine List.flatMap_congr fun d hd => ?_
  exact filter_fates hmessage (c.settled d (Course.mem_completed.mp hd))
    (hfinal d.tree (hmem d hd) d.unit (hwalked d hd))

def completed (trees : List Tree) (units : List (Option (UnitState S))) :
    List (Tree × UnitState S) :=
  (trees.zip units).filterMap fun p => p.2.map (p.1, ·)

theorem flatMap_completed {trees : List Tree} {units : List (Option (UnitState S))}
    (h : trees.length = units.length) :
    (completed trees units).flatMap (·.2.findings) = found units := by
  induction trees generalizing units with
  | nil =>
      rw [List.eq_nil_of_length_eq_zero h.symm]
      rfl
  | cons t ts ih =>
      cases units with
      | nil => cases h
      | cons u units =>
          rw [found_cons, ← ih (Nat.succ.inj h), completed, List.zip_cons_cons,
            List.filterMap_cons]
          cases u <;> rfl

theorem analyzeUnits_isWalked (symbols : SymbolTable) (trees : List Tree) (w : World W) :
    List.Forall₂ (fun t u => ∀ v ∈ u, e.IsWalked symbols t v) trees
      (e.analyzeUnits symbols trees w).1 := by
  induction trees generalizing w with
  | nil => exact .nil
  | cons t ts ih =>
      rw [analyzeUnits]
      split
      · exact .cons (by simp) (ih w)
      · refine .cons ?_ (ih _)
        have hpasses := Unit.run_passes (e.env symbols t) e.registration (e.active t.scope) w
        intro v hv
        split at hv
        · rename_i hfinished
          rw [hfinished] at hpasses
          cases hv
          exact ⟨w, _, _, hpasses, rfl⟩
        · cases hv

theorem run_reportsUnits (hmessage : ∀ x ∈ e.registration.detectors, x.ChangesMessageOnly)
    (hid : id ≠ Issue.lintError.id) {trees : List Tree} (hfinal : e.AreFinal id trees) (root : Path)
    (unparsed : List Unparsed) (w : World W) :
    e.ReportsUnits id trees (completed trees (e.results trees w).1)
      (e.run root trees unparsed w).1 := by
  have hunits : List.Forall₂ _ trees (e.results trees w).1 := analyzeUnits_isWalked _ trees w
  have hmem : ∀ p ∈ completed trees (e.results trees w).1, p.1 ∈ trees ∧
      e.IsWalked (SymbolTable.ofUnits trees e.compiled) p.1 p.2 := by
    intro p hp
    obtain ⟨⟨t, u⟩, htu, hp⟩ := List.mem_filterMap.mp hp
    obtain ⟨v, hv, rfl⟩ := Option.map_eq_some_iff.mp hp
    exact ⟨(List.of_mem_zip htu).1, List.forall₂_zip hunits htu v hv⟩
  have hfound := flatMap_completed hunits.length_eq
  have hdata : ∀ f ∈ found (e.results trees w).1, f.issue.id = id → f.data = none := by
    intro f hf
    rw [← hfound] at hf
    obtain ⟨p, hp, hf⟩ := List.mem_flatMap.mp hf
    exact hfinal p.1 (hmem p hp).1 p.2 (hmem p hp).2 f hf
  refine ⟨fun p hp => (hmem p hp).1, fun p hp => (hmem p hp).2, ?_⟩
  have hstart : (e.reportMissing root (e.reportUnparsed unparsed {})).findings.filter
      (·.issue.id == id) = [] := by
    rw [reportMissing_eq]
    exact filter_ownFindings hid root unparsed
  have hend := filter_deliverUnits hmessage (e.facts trees w) hdata
    (e.reportMissing root (e.reportUnparsed unparsed {})) (e.results trees w).2
  rw [hstart, List.nil_append, ← hfound] at hend
  refine filter_finish_of_issue ?_
  dsimp only
  split
  · exact hend
  · exact hend

end Engine

end LintEngine
