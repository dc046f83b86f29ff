import LintEngine.Engine.Project
import LintEngine.Proofs.Engine.Courses

/-!
Cancellation is all or nothing for a unit, and never hidden.

In every course, a unit is walked to its end or nothing of it is kept: what a
report says, and the facts that findings are settled with, come from completed
units alone. A unit that is not completed, and a file that is not read, are
left out only after a request to cancel. As no request is taken back, it still
stands when the report is made, so the report tells of it.
-/

namespace LintEngine

variable {W S : Type}

namespace Engine

variable {e : Engine W S} {symbols : SymbolTable} {begun walked : World W} {t : Tree}

/-! ### One unit -/

theorem Analyzed.cancelled_of_none {w w' : World W} (h : e.Analyzed symbols t w none w') :
    w'.cancelled = true := by
  cases h with
  | skipped hcancelled => exact hcancelled
  | broken _ hpasses => exact hpasses.cancelled_of_unfinished

namespace IsDossier

theorem cancelled_of_none (h : e.IsDossier symbols begun walked t none) :
    walked.cancelled = true := by
  obtain ⟨_, _, -, hanalyzed, hafter⟩ := h
  exact hafter hanalyzed.cancelled_of_none

theorem exists_passes {d : Dossier W S} (h : e.IsDossier symbols begun walked t (some d)) :
    d.tree = t ∧ ∃ w s, w.cancelled = false ∧ d.unit = s.unit ∧
      Unit.Passes (e.env symbols t) e.registration (e.active t.scope) w d.log true s := by
  obtain ⟨before, _, -, hanalyzed, -⟩ := h
  cases hanalyzed with
  | whole hgo hpasses => exact ⟨rfl, before, _, hgo, rfl, hpasses⟩

theorem map_tree_sublist {trees : List Tree} {dossiers : List (Option (Dossier W S))}
    (h : List.Forall₂ (e.IsDossier symbols begun walked) trees dossiers) :
    ((dossiers.filterMap id).map Dossier.tree).Sublist trees := by
  induction h with
  | nil => exact .slnil
  | @cons t d ts ds hd _ ih =>
      cases d with
      | none => exact .cons t ih
      | some d =>
          obtain ⟨rfl, -⟩ := hd.exists_passes
          exact .cons_cons _ ih

end IsDossier

/-! ### All units -/

namespace Course

variable {root : Path} {trees : List Tree} {unparsed : List Unparsed}
  (c : e.Course root trees unparsed)

variable {c} in
theorem mem_completed {d : Dossier W S} : d ∈ c.completed ↔ some d ∈ c.dossiers := by
  simp [completed]

theorem exists_isDossier {d : Option (Dossier W S)} (h : d ∈ c.dossiers) :
    ∃ t, e.IsDossier (SymbolTable.ofUnits trees e.compiled) c.begun c.walked t d := by
  obtain ⟨i, hi, rfl⟩ := List.mem_iff_getElem.mp h
  exact ⟨_, c.analyzed.get (c.analyzed.length_eq ▸ hi) hi⟩

theorem exists_passes {d : Dossier W S} (h : d ∈ c.completed) :
    ∃ w s, w.cancelled = false ∧ d.unit = s.unit ∧
      Unit.Passes (e.env (SymbolTable.ofUnits trees e.compiled) d.tree) e.registration
        (e.active d.tree.scope) w d.log true s := by
  obtain ⟨t, hdossier⟩ := c.exists_isDossier (mem_completed.mp h)
  obtain ⟨rfl, hpasses⟩ := hdossier.exists_passes
  exact hpasses

/-- A unit is missing only in a run that is cancelled. -/
theorem cancelled_of_none_mem (h : none ∈ c.dossiers) : c.ended.cancelled = true := by
  obtain ⟨t, hdossier⟩ := c.exists_isDossier h
  exact c.walked_ended hdossier.cancelled_of_none

theorem none_mem_of_length_lt (h : c.completed.length < trees.length) : none ∈ c.dossiers := by
  by_contra hnone
  have hall : ∀ d ∈ c.dossiers, (id d).isSome = true := by
    intro d hd
    refine Option.isSome_iff_ne_none.mpr ?_
    rintro rfl
    exact hnone hd
  rw [completed, List.length_filterMap_eq_countP, List.countP_eq_length.mpr hall,
    c.analyzed.length_eq] at h
  exact Nat.lt_irrefl _ h

theorem sink_eq :
    c.sink =
      { findings := e.ownFindings root unparsed ++ c.completed.flatMap Dossier.handedOn
        failures := c.completed.flatMap Dossier.failures
        files := c.completed.length
        suppressed := c.completed.foldr (fun d n => d.suppressed + n) 0
        cancelled := c.dossiers.any Option.isNone } := by
  rw [sink, Sink.foldl_enter]
  simp [completed]

/-- The two places where a report is marked agree. -/
theorem report_eq : c.report = { c.sink with cancelled := c.ended.cancelled }.finish := by
  rw [report]
  split
  · rename_i hcancelled
    rw [hcancelled, Sink.markCancelled]
  · rename_i hgo
    have hnone : c.dossiers.any Option.isNone = false := by
      rw [List.any_eq_false]
      intro d hd hd'
      rw [Option.isNone_iff_eq_none.mp hd'] at hd
      exact hgo (c.cancelled_of_none_mem hd)
    rw [Bool.eq_false_iff.mpr hgo, sink_eq, hnone]

theorem facts_eq : c.facts = e.projectFacts (c.completed.map fun d => some d.unit) := by
  have hunits : (c.dossiers.map (Option.map Dossier.unit)).filterMap id =
      (c.completed.map fun d => some d.unit).filterMap id := by
    simp [completed, List.filterMap_map, List.map_filterMap]
  rw [facts, factsOf, projectFacts, projectFacts, hunits]

/-- What a course keeps, it keeps of completed units, and it tells if there are
others. -/
structure IsAllOrNothing : Prop where
  /-- The completed units are units of the project. -/
  units : (c.completed.map Dossier.tree).Sublist trees
  /-- Each of them was walked to its end. -/
  walked : ∀ d ∈ c.completed, ∃ w s, w.cancelled = false ∧ d.unit = s.unit ∧
    Unit.Passes (e.env (SymbolTable.ofUnits trees e.compiled) d.tree) e.registration
      (e.active d.tree.scope) w d.log true s
  facts : c.facts = e.projectFacts (c.completed.map fun d => some d.unit)
  /-- Their findings are settled with these facts. -/
  settled : ∀ d ∈ c.completed, List.Forall₂ (e.IsFate c.facts) d.unit.findings d.fates
  findings : c.report.findings = (Sink.finish
    { findings := e.ownFindings root unparsed ++
        c.completed.flatMap Dossier.handedOn }).findings
  failures : c.report.failures = c.completed.flatMap Dossier.failures
  suppressed : c.report.suppressed = c.completed.foldr (fun d n => d.suppressed + n) 0
  files : c.report.files = c.completed.length
  /-- Cancellation is told of, whatever stage noticed it. -/
  cancelled : c.report.cancelled = c.ended.cancelled
  unfinished : c.report.files < trees.length →
    c.report.cancelled = true ∧ c.report.requireComplete = .error .cancelled

theorem isAllOrNothing : c.IsAllOrNothing where
  units := IsDossier.map_tree_sublist c.analyzed
  walked _ := c.exists_passes
  facts := c.facts_eq
  settled d hd := c.settled d (mem_completed.mp hd)
  findings := by rw [report_eq, sink_eq]; rfl
  failures := by rw [report_eq, sink_eq]; rfl
  suppressed := by rw [report_eq, sink_eq]; rfl
  files := by rw [report_eq, sink_eq]; rfl
  cancelled := by rw [report_eq]; rfl
  unfinished := by
    intro h
    have hcancelled : c.report.cancelled = true := by
      rw [report_eq, sink_eq] at h ⊢
      exact c.cancelled_of_none_mem (c.none_mem_of_length_lt h)
    exact ⟨hcancelled, by rw [Report.requireComplete, if_pos hcancelled]⟩

end Course

/-! ### Files -/

section

variable (e) (fs : FileSystem) (root : Path) (cancelledAt : Nat → Bool) (files : List SourceFile)

def parsedUnits : List Tree := (parseFiles fs cancelledAt files).filterMap fun r => r.toOption

def parseErrors : List Unparsed :=
  (parseFiles fs cancelledAt files).filterMap fun
    | .ok _ => none
    | .error u => some u

/-- A course of a run over files. Requests to cancel can be seen while they are
read. -/
structure FileCourse extends
    e.Course root (parsedUnits fs cancelledAt files) (parseErrors fs cancelledAt files) where
  seen : ∀ k < files.length, cancelledAt k = true → begun.cancelled = true

/-- Each file that is read is a unit or has an error. -/
theorem length_parsedUnits_add :
    (parsedUnits fs cancelledAt files).length + (parseErrors fs cancelledAt files).length =
      (parseFiles fs cancelledAt files).length := by
  rw [parsedUnits, parseErrors]
  induction parseFiles fs cancelledAt files with
  | nil => rfl
  | cons r rs ih =>
      cases r with
      | error u => simp [Except.toOption, ← ih, Nat.add_assoc]
      | ok t => simp [Except.toOption, ← ih, Nat.add_right_comm]

theorem exists_cancelledAt (h : (parseFiles fs cancelledAt files).length < files.length) :
    ∃ k < files.length, cancelledAt k = true := by
  by_contra hnone
  have hall : ∀ p ∈ files.zipIdx, (!cancelledAt p.2) = true := by
    intro p hp
    have hk : p.2 < files.length := by simpa using List.snd_lt_of_mem_zipIdx hp
    rw [Bool.not_eq_true', Bool.eq_false_iff]
    exact fun hcancelled => hnone ⟨p.2, hk, hcancelled⟩
  rw [parseFiles, List.length_map, List.filter_eq_self.mpr hall, List.length_zipIdx] at h
  exact Nat.lt_irrefl _ h

end

section

variable {fs : FileSystem} {root : Path} {cancelledAt : Nat → Bool} {files : List SourceFile}

namespace FileCourse

variable (c : e.FileCourse fs root cancelledAt files)

/-- A request that was seen while files were read still stands at the end. -/
theorem cancelled_of_cancelledAt {k : Nat} (hk : k < files.length) (h : cancelledAt k = true) :
    c.report.cancelled = true := by
  rw [c.toCourse.isAllOrNothing.cancelled]
  exact c.walked_ended (c.begun_walked (c.seen k hk h))

theorem cancelled_of_length_lt
    (h : c.report.files + (parseErrors fs cancelledAt files).length < files.length) :
    c.report.cancelled = true := by
  by_cases hunits : c.report.files < (parsedUnits fs cancelledAt files).length
  · exact (c.toCourse.isAllOrNothing.unfinished hunits).1
  · have hread := length_parsedUnits_add fs cancelledAt files
    obtain ⟨k, hk, hcancelled⟩ := exists_cancelledAt fs cancelledAt files (by omega)
    exact c.cancelled_of_cancelledAt hk hcancelled

end FileCourse

theorem exists_fileCourse (hkeeps : ∀ x ∈ e.registration.detectors, x.KeepsRequests)
    (fs : FileSystem) (root : Path) (cancelledAt : Nat → Bool) (files : List SourceFile)
    (w : World W) :
    ∃ c : e.FileCourse fs root cancelledAt files,
      c.report = (e.analyzeBelow fs root cancelledAt files w).1 := by
  obtain ⟨c, hrun⟩ := exists_isRun hkeeps root (parsedUnits fs cancelledAt files)
    (parseErrors fs cancelledAt files)
    { w with cancelled := w.cancelled || (List.range files.length).any cancelledAt }
  refine ⟨{ c with seen := fun k hk hcancelled => ?_ }, hrun.report⟩
  have hany : (List.range files.length).any cancelledAt = true :=
    List.any_eq_true.mpr ⟨k, List.mem_range.mpr hk, hcancelled⟩
  rw [hrun.begun, hany, Bool.or_true]

end

/-- In every course, a run keeps nothing of a unit that was not walked to its
end, and the report tells if a unit or a file was left out. The runs of the
engine are courses, if no detector takes a request to cancel back. -/
theorem courses_are_allOrNothing (e : Engine W S) (fs : FileSystem) (root : Path) :
    (∀ trees unparsed (c : e.Course root trees unparsed), c.IsAllOrNothing) ∧
    (∀ cancelledAt files (c : e.FileCourse fs root cancelledAt files),
      (∃ k < files.length, cancelledAt k = true) ∨
          c.report.files + (parseErrors fs cancelledAt files).length < files.length →
        c.report.cancelled = true ∧ c.report.requireComplete = .error .cancelled) ∧
    ((∀ x ∈ e.registration.detectors, x.KeepsRequests) →
      (∀ trees unparsed w, ∃ c : e.Course root trees unparsed, c.IsRun w) ∧
      ∀ cancelledAt files w, ∃ c : e.FileCourse fs root cancelledAt files,
        c.report = (e.analyzeBelow fs root cancelledAt files w).1) := by
  refine ⟨fun _ _ c => c.isAllOrNothing, ?_, fun hkeeps => ⟨?_, ?_⟩⟩
  · intro cancelledAt files c h
    have hcancelled : c.report.cancelled = true := by
      rcases h with ⟨k, hk, hseen⟩ | hlt
      · exact c.cancelled_of_cancelledAt hk hseen
      · exact c.cancelled_of_length_lt hlt
    exact ⟨hcancelled, by rw [Report.requireComplete, if_pos hcancelled]⟩
  · exact exists_isRun hkeeps root
  · exact exists_fileCourse hkeeps fs root

/-! ### A run that is cancelled in a unit -/

def stopIssue : Issue where
  id := "Seen"
  detector := "stopper"

def stopper : Detector Unit Unit where
  name := "stopper"
  issues := [stopIssue]
  interests := [⟨.source, .enter .classDecl⟩, ⟨.source, .exit .method⟩]
  on
    | .enter node => Task.reportAt stopIssue node "seen"
    | .exit _ => Task.cancel
    | _ => pure ()

theorem stopper_keepsRequests : stopper.KeepsRequests where
  on event env me desk := by
    intro hcancelled
    cases event with
    | exit => rfl
    | enter | beforeUnit | call | construct | usage | element | attribute_ | afterUnit =>
        exact hcancelled
  settle _ _ w := .refl w

def twoFiles : List Tree :=
  [((Builder.start ⟨"A.java"⟩ .source .javaFile none {}).leaf
      { kind := .classDecl, name := some "A" }).build,
    (((Builder.start ⟨"B.java"⟩ .source .javaFile none {}).within
      { kind := .classDecl, name := some "B" } (·.leaf { kind := .method, name := some "m" })).leaf
        { kind := .classDecl, name := some "C" }).build]

def unreadFile : SourceFile := ⟨⟨"A.java"⟩, .java⟩

/-- The second file is begun and not completed: what was found in its first class
is not reported, and the report is of no use to who needs a complete one. The
same holds for a file that is not read. -/
theorem run_stopper_allOrNothing :
    ∃ e, create {} ⟨[Issue.lintError, stopIssue]⟩ [stopper] = .ok e ∧
      (∀ x ∈ e.registration.detectors, x.KeepsRequests) ∧
      (∃ c : e.Course ⟨"."⟩ twoFiles [],
        (c.IsRun { host := () } ∧ c.IsAllOrNothing) ∧
        c.report.findings.map (·.location.file.text) = ["A.java"] ∧ c.report.files = 1 ∧
        c.report.requireComplete = .error .cancelled) ∧
      (e.analyzeBelow {} ⟨"."⟩ (fun _ => true) [unreadFile] { host := () }).1.requireComplete =
        .error .cancelled := by
  have hkeeps : ∀ x ∈ [stopper], x.KeepsRequests :=
    List.forall_mem_singleton.mpr stopper_keepsRequests
  have htrees (e : Engine Unit Unit) (h : ∀ x ∈ e.registration.detectors, x.KeepsRequests) :
      ∃ c : e.Course ⟨"."⟩ twoFiles [], c.IsRun { host := () } ∧ c.IsAllOrNothing := by
    obtain ⟨hcourses, -, hruns⟩ := courses_are_allOrNothing e {} ⟨"."⟩
    obtain ⟨c, hrun⟩ := (hruns h).1 twoFiles [] { host := () }
    exact ⟨c, hrun, hcourses _ _ c⟩
  have hfiles (e : Engine Unit Unit) (h : ∀ x ∈ e.registration.detectors, x.KeepsRequests) :
      (e.analyzeBelow {} ⟨"."⟩ (fun _ => true) [unreadFile] { host := () }).1.requireComplete =
        .error .cancelled := by
    obtain ⟨-, hunread, hruns⟩ := courses_are_allOrNothing e {} ⟨"."⟩
    obtain ⟨c, hreport⟩ := (hruns h).2 (fun _ => true) [unreadFile] { host := () }
    rw [← hreport]
    exact (hunread _ _ c (.inl ⟨0, Nat.zero_lt_one, rfl⟩)).2
  refine ⟨_, rfl, hkeeps, Exists.imp ?_ (htrees _ hkeeps), hfiles _ hkeeps⟩
  rintro c ⟨hrun, hall⟩
  have hone : c.report.files = 1 := by
    rw [hrun.report]
    decide +kernel
  refine ⟨⟨hrun, hall⟩, ?_, hone, (hall.unfinished (by rw [hone]; decide)).2⟩
  rw [hrun.report]
  decide +kernel

end Engine

end LintEngine
