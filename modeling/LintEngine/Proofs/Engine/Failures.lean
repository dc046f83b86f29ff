import LintEngine.Proofs.Engine.Answers
import LintEngine.Proofs.Engine.Settling

/-!
Failures, and the findings that tell of them.

A failure is recorded in three places. A detector fails while it answers, it
hands in a finding of an issue that is not registered, or it crashes when it
settles a finding. Only the first is also reported as a finding: it comes into
the unit together with the failure, it is never provisional and belongs to no
group, so that it goes through settling and merging as it is.
-/

namespace LintEngine

variable {W S : Type}

theorem Config.check_none {c : Config} {i : Issue} (h : c.isReportable i = true) (t : Tree) :
    c.check i t none = .keep (c.severityFor i) := by
  rw [isReportable, Bool.and_eq_true] at h
  obtain ⟨hignore, hfatal⟩ := h
  rw [check]
  simp only [Option.bind_none]
  rw [if_neg, if_neg]
  · cases honly : c.fatalOnly with
    | false => simp
    | true => simpa [honly] using hfatal
  · simpa using hignore

def Failure.notice (f : Failure) : String :=
  "Unexpected failure during lint analysis (detector `" ++ f.detector ++ "`): " ++ f.message

/-- A finding that tells of a failure. It is not provisional, and it belongs to
no group. -/
structure Finding.TellsOf (g : Finding) (f : Failure) : Prop where
  issue : g.issue = Issue.lintError
  file : g.location.file = f.file
  message : g.message = f.notice
  data : g.data = none
  merge : g.merge = none

namespace Unit

section

variable {env : Env W} (hregistered : env.registry.contains Issue.lintError = true)
  (hreportable : env.config.isReportable Issue.lintError = true)

include hregistered hreportable

/-- A fault is told of, if findings about trouble are registered and
reportable. -/
theorem exists_notice_tellsOf {a : Answer W S} {f : Failure} (h : a.breakdown env = some f) :
    ∃ g, a.notice env = some g ∧ g.TellsOf f := by
  obtain ⟨fault, hfault, rfl⟩ := Option.map_eq_some_iff.mp h
  rw [Answer.notice, hfault, Option.bind_some, if_pos hregistered, Config.check_none hreportable]
  exact ⟨_, rfl, rfl, rfl, rfl, rfl, rfl⟩

theorem exists_tellsOf_of_mem_failures (r : Registration W S) (active : List Bool)
    (world : World W) :
    ∀ f ∈ (run env r active world).2.unit.failures,
      (∃ a ∈ record env r active world, ∃ g ∈ a.desk.reports,
        UnitState.complaint env a.caller.name g = some f) ∨
      ∃ g ∈ (run env r active world).2.unit.findings, g.TellsOf f := by
  intro f hf
  rw [run_eq_foldl] at hf ⊢
  rw [failures_foldl_enter, List.mem_append] at hf
  obtain ⟨a, ha, hf⟩ := List.mem_flatMap.mp (hf.resolve_left List.not_mem_nil)
  rcases List.mem_append.mp hf with hf | hf
  · obtain ⟨g, hg, hcomplaint⟩ := List.mem_filterMap.mp hf
    exact .inl ⟨a, ha, g, hg, hcomplaint⟩
  · obtain ⟨g, hg, htells⟩ :=
      exists_notice_tellsOf hregistered hreportable (Option.mem_toList.mp hf)
    have hfinding : g ∈ a.findings env := List.mem_append_right _ (Option.mem_toList.mpr hg)
    refine .inr ⟨g, ?_, htells⟩
    rw [findings_foldl_enter]
    exact List.mem_append_right _ (List.mem_flatMap.mpr ⟨a, ha, hfinding⟩)

end

end Unit

namespace Engine

variable (e : Engine W S)

/-- The failure `f` is that a detector handed in a finding of an issue that is
not registered, in a unit that was analyzed to its end. -/
def IsComplaint (trees : List Tree) (world : World W) (f : Failure) : Prop :=
  ∃ t ∈ trees, ∃ w,
    let env := e.env (SymbolTable.ofUnits trees e.compiled) t
    some (Unit.run env e.registration (e.active t.scope) w).2.unit ∈ (e.results trees world).1 ∧
      ∃ a ∈ Unit.record env e.registration (e.active t.scope) w, ∃ g ∈ a.desk.reports,
        UnitState.complaint env a.caller.name g = some f

/-- The failure `f` is that a detector crashed when it settled the finding
`g`, which it may have changed. -/
def IsCrash (facts : Facts) (g : Finding) (f : Failure) : Prop :=
  ∃ d x w changed, g.data.isSome = true ∧ g.detector = some d ∧
    e.registration.detectors[d]? = some x ∧ (x.settle g facts w).1 = .crashed changed ∧
    f = { detector := x.name
          file := (changed.getD g).location.file
          message := "panicked in deferred filter" }

/-! ### From the units to the sink -/

structure Accounts (facts : Facts) (gs : List Finding) (fs : List Failure) (sink : Sink) :
    Prop where
  accepted : ∀ g ∈ gs, g.data = none → g ∈ sink.findings
  traced : ∀ f ∈ sink.failures, f ∈ fs ∨ ∃ g ∈ gs, e.IsCrash facts g f

def failed (units : List (Option (UnitState S))) : List Failure :=
  (units.filterMap id).flatMap (·.failures)

theorem failed_cons (u : Option (UnitState S)) (units : List (Option (UnitState S))) :
    failed (u :: units) = (u.map (·.failures)).getD [] ++ failed units := by
  cases u <;> rfl

variable {e} {facts : Facts} {gs : List Finding} {fs : List Failure} {sink : Sink}

namespace Accounts

theorem accept (h : e.Accounts facts gs fs sink) (g k : Finding) (hk : g.data = none → k = g) :
    e.Accounts facts (gs ++ [g]) fs (sink.accept k) where
  accepted g' hg' hdata := by
    rcases List.mem_append.mp hg' with hg' | hg'
    · exact List.mem_append_left _ (h.accepted g' hg' hdata)
    · obtain rfl := List.mem_singleton.mp hg'
      exact List.mem_append_right _ (List.mem_singleton.mpr (hk hdata).symm)
  traced f hf := by
    rcases h.traced f hf with hf | ⟨g', hg', hcrash⟩
    · exact .inl hf
    · exact .inr ⟨g', List.mem_append_left _ hg', hcrash⟩

/-- A provisional finding may go, and then a failure may come in its place. -/
theorem replace (h : e.Accounts facts gs fs sink) {g : Finding} (hg : g.data.isSome = true)
    {sink' : Sink} (hfindings : sink'.findings = sink.findings)
    (hfailures : ∀ f ∈ sink'.failures, f ∈ sink.failures ∨ e.IsCrash facts g f) :
    e.Accounts facts (gs ++ [g]) fs sink' where
  accepted g' hg' hdata := by
    rw [hfindings]
    rcases List.mem_append.mp hg' with hg' | hg'
    · exact h.accepted g' hg' hdata
    · rw [← List.mem_singleton.mp hg', hdata] at hg
      cases hg
  traced f hf := by
    rcases hfailures f hf with hf | hcrash
    · rcases h.traced f hf with hf | ⟨g', hg', hcrash⟩
      · exact .inl hf
      · exact .inr ⟨g', List.mem_append_left _ hg', hcrash⟩
    · exact .inr ⟨g, List.mem_append_right _ List.mem_cons_self, hcrash⟩

theorem settle (h : e.Accounts facts gs fs sink) (g : Finding) (w : World W) :
    e.Accounts facts (gs ++ [g]) fs (e.settle facts g sink w).1 := by
  rw [Engine.settle]
  split
  · rename_i data x hdata hx
    have hsome : g.data.isSome = true := by rw [hdata]; rfl
    split
    · apply h.accept
      intro hnone
      rw [hnone] at hdata
      cases hdata
    · exact h.replace hsome rfl fun f hf => .inl hf
    · rename_i hcrashed
      refine h.replace hsome rfl fun f hf => ?_
      rcases List.mem_append.mp hf with hf | hf
      · exact .inl hf
      · obtain ⟨d, hd, hdx⟩ := Option.bind_eq_some_iff.mp hx
        exact .inr ⟨d, x, w, _, hsome, hd, hdx, congrArg Prod.fst hcrashed,
          List.mem_singleton.mp hf⟩
  · exact h.accept g g fun _ => rfl

theorem recordFailures (h : e.Accounts facts gs fs sink) (us : List Failure) :
    e.Accounts facts gs (fs ++ us) (us.foldl Sink.recordFailure sink) := by
  induction us generalizing fs sink with
  | nil => simpa using h
  | cons u us ih =>
      have hstep : e.Accounts facts gs (fs ++ [u]) (sink.recordFailure u) := by
        refine ⟨h.accepted, fun f hf => ?_⟩
        rcases List.mem_append.mp hf with hf | hf
        · exact (h.traced f hf).imp_left (List.mem_append_left _)
        · exact .inl (List.mem_append_right _ hf)
      rw [List.foldl_cons, List.append_cons]
      exact ih hstep

theorem settleAll (h : e.Accounts facts gs fs sink) (us : List Finding) (w : World W) :
    e.Accounts facts (gs ++ us) fs
      (us.foldl (fun (sink, world) g => e.settle facts g sink world) (sink, w)).1 := by
  induction us generalizing gs sink w with
  | nil => simpa using h
  | cons u us ih =>
      rw [List.foldl_cons, List.append_cons]
      exact ih (h.settle u w) _

theorem deliverUnit (h : e.Accounts facts gs fs sink) (u : Option (UnitState S)) (w : World W) :
    e.Accounts facts (gs ++ (u.map (·.findings)).getD []) (fs ++ (u.map (·.failures)).getD [])
      (e.deliverUnit facts u sink w).1 := by
  cases u with
  | none => simpa using ⟨h.accepted, h.traced⟩
  | some u =>
      have hcounted : e.Accounts facts gs fs ((sink.addFiles 1).addSuppressed u.suppressed) :=
        ⟨h.accepted, h.traced⟩
      exact (hcounted.recordFailures u.failures).settleAll u.findings w

theorem deliverUnits (h : e.Accounts facts gs fs sink) (units : List (Option (UnitState S)))
    (w : World W) :
    e.Accounts facts (gs ++ found units) (fs ++ failed units)
      (units.foldl (fun (sink, world) u => e.deliverUnit facts u sink world) (sink, w)).1 := by
  induction units generalizing gs fs sink w with
  | nil => simpa [found, failed] using h
  | cons u units ih =>
      rw [List.foldl_cons, found_cons, failed_cons, ← List.append_assoc, ← List.append_assoc]
      exact ih (h.deliverUnit u w) _

end Accounts

/-! ### Reports -/

theorem exists_run_of_mem_analyzeUnits {symbols : SymbolTable} {trees : List Tree} {w : World W}
    {u : UnitState S} (h : some u ∈ (e.analyzeUnits symbols trees w).1) :
    ∃ t ∈ trees, ∃ w',
      u = (Unit.run (e.env symbols t) e.registration (e.active t.scope) w').2.unit := by
  induction trees generalizing w with
  | nil => cases h
  | cons t ts ih =>
      rw [analyzeUnits] at h
      split at h
      · obtain ⟨t', ht', hu⟩ := ih ((List.mem_cons.mp h).resolve_left (Option.some_ne_none u))
        exact ⟨t', List.mem_cons_of_mem _ ht', hu⟩
      · rcases List.mem_cons.mp h with h | h
        · split at h
          · exact ⟨t, List.mem_cons_self, w, Option.some.inj h⟩
          · cases h
        · obtain ⟨t', ht', hu⟩ := ih h
          exact ⟨t', List.mem_cons_of_mem _ ht', hu⟩

/-- Trouble that is reported before the units is no failure of a detector. -/
theorem failures_reportMissing (e : Engine W S) (root : Path) (unparsed : List Unparsed) :
    (e.reportMissing root (e.reportUnparsed unparsed {})).failures = [] := by
  have hunparsed : (e.reportUnparsed unparsed {}).failures = [] := by
    have hfold : ∀ (us : List Unparsed) (sink : Sink), (us.foldl (fun sink u => sink.accept
        (e.trouble (Location.fileStart u.path) ("analysis incomplete: " ++ u.error.message)))
          sink).failures = sink.failures := by
      intro us
      induction us with
      | nil => exact fun _ => rfl
      | cons u us ih => exact fun sink => ih _
    rw [reportUnparsed]
    split
    · exact hfold unparsed {}
    · rfl
  rw [reportMissing]
  split <;> exact hunparsed

theorem exists_sink (e : Engine W S) (root : Path) (trees : List Tree) (unparsed : List Unparsed)
    (w : World W) :
    ∃ sink : Sink, (e.run root trees unparsed w).1 = sink.finish ∧
      e.Accounts (e.facts trees w) (found (e.results trees w).1) (failed (e.results trees w).1)
        sink := by
  have hstart : e.Accounts (e.facts trees w) [] []
      (e.reportMissing root (e.reportUnparsed unparsed {})) := by
    refine ⟨by simp, ?_⟩
    rw [failures_reportMissing]
    simp
  have hend := hstart.deliverUnits (e.results trees w).1 (e.results trees w).2
  refine ⟨_, rfl, ?_⟩
  dsimp only
  split
  · exact ⟨hend.accepted, hend.traced⟩
  · exact hend

/-- A report has a finding about trouble in the file of a failure that tells of
it and names the detector. -/
def Reports (report : Report) (f : Failure) : Prop :=
  ∃ g ∈ report.findings, g.issue.id = Issue.lintError.id ∧ (g.location.file == f.file) = true ∧
    g.message = f.notice

theorem reports_of_tellsOf {sink : Sink} {f : Failure} {g : Finding} (hg : g ∈ sink.findings)
    (h : g.TellsOf f) : Reports sink.finish f := by
  obtain ⟨k, hk, hrepeat⟩ := Sink.exists_isRepeat_distinct (Sink.mem_merged_of_alone h.merge hg)
  obtain ⟨hplace, hsays⟩ := Sink.isRepeat_iff.mp hrepeat
  obtain ⟨hid, hcomponents, -, -⟩ := Sink.samePlace_iff.mp hplace
  refine ⟨k, List.mem_mergeSort.mpr hk, ?_, ?_, hsays.trans h.message⟩
  · rw [hid, h.issue]
  · rw [Path.beq_iff, hcomponents, h.file]

/-- Every failure in a report is told of there in a finding that names the
detector, but for findings of issues that are not registered and for crashes of
detectors that settle a finding. -/
theorem run_reports_failures {e : Engine W S} (h : e.reportsTrouble = true) (root : Path)
    (trees : List Tree) (unparsed : List Unparsed) (w : World W) :
    ∀ f ∈ (e.run root trees unparsed w).1.failures,
      Reports (e.run root trees unparsed w).1 f ∨
      e.IsComplaint trees w f ∨
      ∃ g ∈ found (e.results trees w).1, e.IsCrash (e.facts trees w) g f := by
  obtain ⟨hregistered, hreportable⟩ := Bool.and_eq_true_iff.mp h
  obtain ⟨sink, hrun, haccounts⟩ := exists_sink e root trees unparsed w
  rw [hrun]
  intro f hf
  rcases haccounts.traced f hf with hf | hcrash
  · obtain ⟨u, hu, hf⟩ := List.mem_flatMap.mp hf
    have hanalyzed : some u ∈ (e.results trees w).1 := by simpa using hu
    obtain ⟨t, ht, w', rfl⟩ := exists_run_of_mem_analyzeUnits hanalyzed
    rcases Unit.exists_tellsOf_of_mem_failures hregistered hreportable _ _ w' f hf with
      hcomplaint | ⟨g, hg, htells⟩
    · exact .inr (.inl ⟨t, ht, w', hanalyzed, hcomplaint⟩)
    · have hfound : g ∈ found (e.results trees w).1 := List.mem_flatMap.mpr ⟨_, hu, hg⟩
      exact .inl (reports_of_tellsOf (haccounts.accepted g hfound htells.data) htells)
  · exact .inr (.inr hcrash)

/-! ### A detector with flaws -/

def flawIssue : Issue where
  id := "Flaw"
  detector := "flawed"

def flawed (task : NodeId → Task Unit Unit Unit) : Detector Unit Unit where
  name := "flawed"
  issues := [flawIssue]
  interests := [⟨.xml, .enter .xmlElement⟩]
  on
    | .enter node => task node
    | _ => pure ()
  settle _ _ w := (.crashed, w)

def flawedEngine (task : NodeId → Task Unit Unit Unit) : Except LintError (Engine Unit Unit) :=
  create {} ⟨[Issue.lintError, flawIssue]⟩ [flawed task]

def oneElement : Tree :=
  ((Builder.start ⟨"main.xml"⟩ .xml .resourceFile none {}).leaf
    { kind := .xmlElement, name := some "TextView" }).build

/-- A crash in a callback is told of. -/
theorem run_flawed_reports_failures :
    ∃ e, flawedEngine (fun _ => Task.fail (.crash (some "boom"))) = .ok e ∧
      e.reportsTrouble = true ∧
      (e.run ⟨"."⟩ [oneElement] [] { host := () }).1.failures.map (·.message) =
        ["panicked: boom"] ∧
      ∀ f ∈ (e.run ⟨"."⟩ [oneElement] [] { host := () }).1.failures,
        Reports (e.run ⟨"."⟩ [oneElement] [] { host := () }).1 f ∨
        e.IsComplaint [oneElement] { host := () } f ∨
        ∃ g ∈ found (e.results [oneElement] { host := () }).1,
          e.IsCrash (e.facts [oneElement] { host := () }) g f := by
  refine ⟨_, rfl, by decide +kernel, by decide +kernel, ?_⟩
  exact run_reports_failures (by decide +kernel) ⟨"."⟩ [oneElement] [] { host := () }

/-- A crash while a finding is settled, and a finding of an issue that is not
registered, leave a report without findings. -/
theorem run_flawed_hides_failures :
    (∃ e, flawedEngine (fun node => do
          Task.report { ← Task.finding flawIssue node "flaw" with data := some [] }) = .ok e ∧
        e.reportsTrouble = true ∧
        (e.run ⟨"."⟩ [oneElement] [] { host := () }).1.failures.map (·.message) =
          ["panicked in deferred filter"] ∧
        (e.run ⟨"."⟩ [oneElement] [] { host := () }).1.isEmpty = true) ∧
      ∃ e, flawedEngine (fun node => Task.reportAt { id := "Ghost", detector := "flawed" } node "")
          = .ok e ∧
        e.reportsTrouble = true ∧
        (e.run ⟨"."⟩ [oneElement] [] { host := () }).1.failures.map (·.message) =
          ["reported unregistered issue `Ghost`"] ∧
        (e.run ⟨"."⟩ [oneElement] [] { host := () }).1.isEmpty = true :=
  ⟨⟨_, rfl, by decide +kernel, by decide +kernel, by decide +kernel⟩,
    ⟨_, rfl, by decide +kernel, by decide +kernel, by decide +kernel⟩⟩

end Engine

end LintEngine
