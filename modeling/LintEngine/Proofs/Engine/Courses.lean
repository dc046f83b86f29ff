import LintEngine.Proofs.Engine.Answers
import LintEngine.Proofs.Engine.Fates

/-!
The courses that a run can take.

Whether a run is cancelled is decided outside, at any moment, and units may be
analyzed side by side. So there are many courses. In each of them a unit is
walked on its own; between two steps of a walk anything can happen to the
world, but a request to cancel is never taken back. What is known of a unit
that was walked to its end is its dossier, and the report of a course is made of
the dossiers. The run that takes the units one after the other, in a world that
only its detectors touch, takes one of these courses.
-/

namespace LintEngine

variable {W S : Type}

/-- The world `w'` can come after `w`: a request to cancel is never taken
back. -/
def World.Later (w w' : World W) : Prop := w.cancelled = true → w'.cancelled = true

namespace World.Later

theorem refl (w : World W) : w.Later w := id

theorem trans {w w' w'' : World W} (h : w.Later w') (h' : w'.Later w'') : w.Later w'' :=
  fun hcancelled => h' (h hcancelled)

end World.Later

structure Detector.KeepsRequests (x : Detector W S) : Prop where
  on : ∀ event env me (desk : Desk W S),
    desk.world.Later (((x.on event).run (env, me)).run desk).2.world
  settle : ∀ f facts (w : World W), w.Later (x.settle f facts w).2

/-! ### A unit -/

namespace Unit

/-- Following a schedule, while other things happen between its steps. The
answers of the detectors make up a log, and the flag tells whether the schedule
was followed to its end. -/
inductive Walks (env : Env W) (detectors : List (Detector W S)) (active : List Bool) :
    List Step → Session W S → List (Answer W S) → Bool → Session W S → Prop
  | ended (s : Session W S) : Walks env detectors active [] s [] true s
  | meanwhile {steps s w log finished s'} (later : s.world.Later w)
      (rest : Walks env detectors active steps { s with world := w } log finished s') :
      Walks env detectors active steps s log finished s'
  | stopped {steps s} (h : s.world.cancelled = true) :
      Walks env detectors active (.poll :: steps) s [] false s
  | passed {steps s log finished s'} (h : s.world.cancelled = false)
      (rest : Walks env detectors active steps s log finished s') :
      Walks env detectors active (.poll :: steps) s log finished s'
  | told {d event x steps s log finished s'} (hactive : active.getD d false = true)
      (hx : detectors[d]? = some x) (hfine : d ∉ s.unit.disabled)
      (rest : Walks env detectors active steps (call env d x event s) log finished s') :
      Walks env detectors active (.deliver d event :: steps) s
        (answer env d x event s :: log) finished s'
  | untold {d event steps s log finished s'}
      (h : ∀ x, active.getD d false = true → detectors[d]? = some x → d ∈ s.unit.disabled)
      (rest : Walks env detectors active steps s log finished s') :
      Walks env detectors active (.deliver d event :: steps) s log finished s'

section

variable {env : Env W} {detectors : List (Detector W S)} {active : List Bool} {steps : List Step}
  {s s' : Session W S} {log : List (Answer W S)} {finished : Bool}

/-- A unit comes from its log, whatever happens to the world. -/
theorem Walks.unit_eq (h : Walks env detectors active steps s log finished s') :
    s'.unit = (log.foldl (enter env) s).unit := by
  have hworld : ∀ (log : List (Answer W S)) {s s' : Session W S}, s.unit = s'.unit →
      (log.foldl (enter env) s).unit = (log.foldl (enter env) s').unit := by
    intro log
    induction log with
    | nil => exact id
    | cons a log ih =>
        intro s s' hunit
        refine ih ?_
        rw [enter, enter, hunit]
  induction h with
  | ended | stopped => rfl
  | meanwhile _ _ ih => exact ih.trans (hworld _ rfl)
  | passed _ _ ih | untold _ _ ih => exact ih
  | told _ _ _ _ ih => rw [ih, List.foldl_cons, call_eq_enter]

theorem Walks.cancelled_of_unfinished (h : Walks env detectors active steps s log finished s')
    (hfinished : finished = false) : s'.world.cancelled = true := by
  induction h with
  | ended => cases hfinished
  | stopped hcancelled => exact hcancelled
  | meanwhile _ _ ih | passed _ _ ih | told _ _ _ _ ih | untold _ _ ih => exact ih hfinished

/-- The function that follows a schedule does so in an undisturbed world. -/
theorem follow_walks (env : Env W) (detectors : List (Detector W S)) (active : List Bool)
    (steps : List Step) (s : Session W S) :
    Walks env detectors active steps s (answers env detectors active steps s)
      (follow env detectors active steps s).1 (follow env detectors active steps s).2 := by
  fun_induction answers env detectors active steps s with
  | case1 s => exact .ended s
  | case2 steps s hcancelled =>
      rw [follow, if_pos hcancelled]
      exact .stopped hcancelled
  | case3 steps s hcancelled ih =>
      rw [follow, if_neg hcancelled]
      exact .passed (Bool.eq_false_iff.mpr hcancelled) ih
  | case4 d e steps s x hx hactive hdisabled ih =>
      rw [follow, hactive, hx]
      simp only [deliver, if_pos hdisabled]
      exact .untold (fun _ _ _ => List.contains_iff_mem.mp hdisabled) ih
  | case5 d e steps s x hx hactive hdisabled a ih =>
      rw [follow, hactive, hx]
      simp only [deliver, if_neg hdisabled]
      refine .told hactive hx (mt List.contains_iff_mem.mpr hdisabled) ?_
      rw [call_eq_enter]
      exact ih
  | case6 d e steps s hnone ih =>
      rw [follow]
      split
      · exact (hnone _ ‹_› ‹_›).elim
      · exact .untold (fun x hactive hx => (hnone x hactive hx).elim) ih

theorem later_follow (hkeeps : ∀ x ∈ detectors, x.KeepsRequests) (steps : List Step)
    (s : Session W S) : s.world.Later (follow env detectors active steps s).2.world := by
  induction steps generalizing s with
  | nil => exact .refl _
  | cons step steps ih =>
      cases step with
      | poll =>
          rw [follow]
          split
          · exact .refl _
          · exact ih s
      | deliver d event =>
          rw [follow]
          split
          · rename_i x _ hx
            refine .trans ?_ (ih _)
            rw [deliver]
            split
            · exact .refl _
            · rw [call_eq_enter]
              exact (hkeeps x (List.mem_of_getElem? hx)).on event env _ (desk d s)
          · exact ih s

end

section

variable (env : Env W) (r : Registration W S) (active : List Bool) (w : World W)

/-- Analyzing a unit that way. A unit without listeners is not walked. -/
inductive Passes : List (Answer W S) → Bool → Session W S → Prop
  | idle (h : (listeners env r active).isEmpty = true) : Passes [] true { world := w }
  | walked {log finished s} (h : (listeners env r active).isEmpty = false)
      (walk : Walks env r.detectors active (agenda env r active) { world := w } log finished s) :
      Passes log finished s

variable {env r active w} in
theorem Passes.unit_eq {log : List (Answer W S)} {finished : Bool} {s : Session W S}
    (h : Passes env r active w log finished s) :
    s.unit = (log.foldl (enter env) { world := w }).unit := by
  cases h with
  | idle => rfl
  | walked _ walk => exact walk.unit_eq

variable {env r active w} in
theorem Passes.cancelled_of_unfinished {log : List (Answer W S)} {s : Session W S}
    (h : Passes env r active w log false s) : s.world.cancelled = true := by
  cases h with
  | walked _ walk => exact walk.cancelled_of_unfinished rfl

theorem run_passes :
    Passes env r active w (record env r active w) (run env r active w).1
      (run env r active w).2 := by
  rw [run_eq, record]
  split
  · rename_i hempty
    exact .idle hempty
  · rename_i hempty
    exact .walked (Bool.eq_false_iff.mpr hempty) (follow_walks ..)

theorem later_run (hkeeps : ∀ x ∈ r.detectors, x.KeepsRequests) :
    w.Later (run env r active w).2.world := by
  rw [run_eq]
  split
  · exact .refl _
  · exact later_follow hkeeps (agenda env r active) { world := w }

end

end Unit

/-! ### A run -/

/-- What is known of a unit that was walked to its end: what its detectors
answered, what was collected from that, and what became of its findings. -/
structure Dossier (W S : Type) where
  tree : Tree
  log : List (Unit.Answer W S)
  unit : UnitState S
  fates : List Fate := []

namespace Dossier

variable (d : Dossier W S)

def handedOn : List Finding := d.fates.filterMap Fate.finding?

def crashes : List Failure := d.fates.filterMap Fate.failure?

def failures : List Failure := d.unit.failures ++ d.crashes

def suppressed : Nat := d.unit.suppressed + d.fates.countP Fate.isDropped

end Dossier

namespace Sink

def enter (sink : Sink) : Option (Dossier W S) → Sink
  | none => sink.markCancelled
  | some d => d.fates.foldl note
      (d.unit.failures.foldl recordFailure ((sink.addFiles 1).addSuppressed d.unit.suppressed))

theorem foldl_enter (dossiers : List (Option (Dossier W S))) (sink : Sink) :
    dossiers.foldl enter sink =
      { findings := sink.findings ++ (dossiers.filterMap id).flatMap Dossier.handedOn
        failures := sink.failures ++ (dossiers.filterMap id).flatMap Dossier.failures
        files := sink.files + (dossiers.filterMap id).length
        suppressed := sink.suppressed +
          (dossiers.filterMap id).foldr (fun d n => d.suppressed + n) 0
        cancelled := sink.cancelled || dossiers.any Option.isNone } := by
  induction dossiers generalizing sink with
  | nil => simp
  | cons d dossiers ih =>
      rw [List.foldl_cons, ih]
      cases d with
      | none => simp [enter, markCancelled]
      | some d =>
          simp [enter, foldl_note, foldl_recordFailure, addFiles, addSuppressed, Dossier.handedOn,
            Dossier.failures, Dossier.crashes, Dossier.suppressed, Nat.add_assoc, Nat.add_comm 1]

end Sink

namespace Engine

variable (e : Engine W S) (symbols : SymbolTable)

/-- What can become of a unit between two moments. Nothing is known of a unit
that was not begun, or not walked to its end. -/
inductive Analyzed (t : Tree) : World W → Option (Dossier W S) → World W → Prop
  | skipped {w} (h : w.cancelled = true) : Analyzed t w none w
  | broken {w log s} (h : w.cancelled = false)
      (passes : Unit.Passes (e.env symbols t) e.registration (e.active t.scope) w log false s) :
      Analyzed t w none s.world
  | whole {w log s fates} (h : w.cancelled = false)
      (passes : Unit.Passes (e.env symbols t) e.registration (e.active t.scope) w log true s) :
      Analyzed t w (some { tree := t, log, unit := s.unit, fates }) s.world

def IsDossier (begun walked : World W) (t : Tree) (d : Option (Dossier W S)) : Prop :=
  ∃ before after, begun.Later before ∧ e.Analyzed symbols t before d after ∧ after.Later walked

def factsOf (dossiers : List (Option (Dossier W S))) : Facts :=
  e.projectFacts (dossiers.map (Option.map Dossier.unit))

/-- A course that a run can take. -/
structure Course (root : Path) (trees : List Tree) (unparsed : List Unparsed) where
  /-- The world before the first unit. -/
  begun : World W
  /-- The world when no unit is left. -/
  walked : World W
  /-- The world when the report is made. -/
  ended : World W
  begun_walked : begun.Later walked
  walked_ended : walked.Later ended
  /-- What is known of each unit. -/
  dossiers : List (Option (Dossier W S))
  analyzed : List.Forall₂ (e.IsDossier (SymbolTable.ofUnits trees e.compiled) begun walked) trees
    dossiers
  settled : ∀ d, some d ∈ dossiers →
    List.Forall₂ (e.IsFate (e.factsOf dossiers)) d.unit.findings d.fates

namespace Course

variable {e} {root : Path} {trees : List Tree} {unparsed : List Unparsed}
  (c : e.Course root trees unparsed)

def completed : List (Dossier W S) := c.dossiers.filterMap id

def facts : Facts := e.factsOf c.dossiers

def sink : Sink := c.dossiers.foldl Sink.enter { findings := e.ownFindings root unparsed }

def report : Report := (if c.ended.cancelled then c.sink.markCancelled else c.sink).finish

/-- The course that the engine takes when nothing but its detectors touches the
world. -/
structure IsRun (w : World W) : Prop where
  begun : c.begun = w
  units : c.dossiers.map (Option.map Dossier.unit) =
    (e.analyzeUnits (SymbolTable.ofUnits trees e.compiled) trees w).1
  report : c.report = (e.run root trees unparsed w).1
  ended : c.ended = (e.run root trees unparsed w).2

end Course

/-! ### The run of the engine is a course -/

section

variable {e symbols} {begun begun' walked : World W} {trees : List Tree} {t : Tree}

theorem IsDossier.mono {d : Option (Dossier W S)} (h : e.IsDossier symbols begun' walked t d)
    (hbegun : begun.Later begun') : e.IsDossier symbols begun walked t d := by
  obtain ⟨before, after, hbefore, hanalyzed, hafter⟩ := h
  exact ⟨before, after, hbegun.trans hbefore, hanalyzed, hafter⟩

/-- The fates of its findings do not belong to the walk of a unit. -/
theorem IsDossier.withFates {d : Dossier W S} (h : e.IsDossier symbols begun walked t (some d))
    (fates : List Fate) : e.IsDossier symbols begun walked t (some { d with fates }) := by
  obtain ⟨before, after, hbefore, hanalyzed, hafter⟩ := h
  refine ⟨before, after, hbefore, ?_, hafter⟩
  cases hanalyzed with
  | whole hgo hpasses => exact .whole hgo hpasses

variable (hkeeps : ∀ x ∈ e.registration.detectors, x.KeepsRequests)

include hkeeps

theorem exists_dossiers (symbols : SymbolTable) (trees : List Tree) (w : World W) :
    ∃ dossiers : List (Option (Dossier W S)),
      dossiers.map (Option.map Dossier.unit) = (e.analyzeUnits symbols trees w).1 ∧
      w.Later (e.analyzeUnits symbols trees w).2 ∧
      List.Forall₂ (e.IsDossier symbols w (e.analyzeUnits symbols trees w).2) trees dossiers := by
  induction trees generalizing w with
  | nil => exact ⟨[], rfl, .refl _, .nil⟩
  | cons t ts ih =>
      rw [analyzeUnits]
      split
      · rename_i hcancelled
        obtain ⟨dossiers, hunits, hlater, hdossiers⟩ := ih w
        refine ⟨none :: dossiers, congrArg (none :: ·) hunits, hlater, .cons ?_ hdossiers⟩
        exact ⟨w, w, .refl w, .skipped hcancelled, hlater⟩
      · rename_i hgo
        have hgo := Bool.eq_false_iff.mpr hgo
        have hpasses := Unit.run_passes (e.env symbols t) e.registration (e.active t.scope) w
        have hrun := Unit.later_run (e.env symbols t) e.registration (e.active t.scope) w hkeeps
        obtain ⟨dossiers, hunits, hlater, hdossiers⟩ :=
          ih (Unit.run (e.env symbols t) e.registration (e.active t.scope) w).2.world
        have hrest := hdossiers.imp fun _ _ h => h.mono hrun
        cases hfinished : (Unit.run (e.env symbols t) e.registration (e.active t.scope) w).1 with
        | false =>
            rw [hfinished] at hpasses
            refine ⟨none :: dossiers, ?_, hrun.trans hlater, .cons ?_ hrest⟩
            · simp [hunits, hfinished]
            · exact ⟨w, _, .refl w, .broken hgo hpasses, hlater⟩
        | true =>
            rw [hfinished] at hpasses
            have hwhole : e.Analyzed symbols t w (some ⟨t, _, _, []⟩) _ := .whole hgo hpasses
            refine ⟨_, ?_, hrun.trans hlater, .cons ⟨w, _, .refl w, hwhole, hlater⟩ hrest⟩
            simp [hunits, hfinished]

theorem later_fate (facts : Facts) (f : Finding) (w : World W) :
    w.Later (e.fate facts f w).2 := by
  rw [fate]
  split
  · rename_i x _ hx
    obtain ⟨d, -, hd⟩ := Option.bind_eq_some_iff.mp hx
    have hlater := (hkeeps x (List.mem_of_getElem? hd)).settle f facts w
    generalize x.settle f facts w = settled at hlater
    obtain ⟨verdict, w'⟩ := settled
    cases verdict <;> exact hlater
  · exact .refl w

theorem later_foldl_settle (facts : Facts) (fs : List Finding) (sink : Sink) (w : World W) :
    w.Later (fs.foldl (fun (sink, world) f => e.settle facts f sink world) (sink, w)).2 := by
  induction fs generalizing sink w with
  | nil => exact .refl w
  | cons f fs ih =>
      rw [List.foldl_cons]
      dsimp only
      rw [settle_eq]
      exact (later_fate hkeeps facts f w).trans (ih _ _)

theorem exists_deliverUnit (facts : Facts) (d : Dossier W S) (sink : Sink) (w : World W) :
    ∃ fates w', List.Forall₂ (e.IsFate facts) d.unit.findings fates ∧ w.Later w' ∧
      e.deliverUnit facts (some d.unit) sink w = (sink.enter (some { d with fates }), w') := by
  obtain ⟨fates, hfates, hsink⟩ := e.foldl_settle facts d.unit.findings
    (d.unit.failures.foldl Sink.recordFailure
      ((sink.addFiles 1).addSuppressed d.unit.suppressed)) w
  exact ⟨fates, _, hfates, later_foldl_settle hkeeps facts _ _ w, Prod.ext hsink rfl⟩

theorem exists_settled (facts : Facts) {dossiers : List (Option (Dossier W S))}
    (h : List.Forall₂ (e.IsDossier symbols begun walked) trees dossiers) (sink : Sink)
    (w : World W) :
    ∃ (settled : List (Option (Dossier W S))) (w' : World W),
      List.Forall₂ (e.IsDossier symbols begun walked) trees settled ∧
      settled.map (Option.map Dossier.unit) = dossiers.map (Option.map Dossier.unit) ∧
      (∀ d, some d ∈ settled → List.Forall₂ (e.IsFate facts) d.unit.findings d.fates) ∧
      w.Later w' ∧
      (dossiers.map (Option.map Dossier.unit)).foldl
        (fun (sink, world) u => e.deliverUnit facts u sink world) (sink, w) =
        (settled.foldl Sink.enter sink, w') := by
  induction h generalizing sink w with
  | nil => exact ⟨[], w, .nil, rfl, by simp, .refl w, rfl⟩
  | @cons t d ts ds hd _ ih =>
      cases d with
      | none =>
          obtain ⟨settled, w', hsettled, hunits, hfates, hlater, hfold⟩ := ih sink.markCancelled w
          refine ⟨none :: settled, w', .cons hd hsettled, congrArg (none :: ·) hunits, ?_, hlater,
            hfold⟩
          intro d hmem
          exact hfates d ((List.mem_cons.mp hmem).resolve_left (Option.some_ne_none d))
      | some d =>
          obtain ⟨fates, w₁, hnew, hnow, hdeliver⟩ := exists_deliverUnit hkeeps facts d sink w
          obtain ⟨settled, w', hsettled, hunits, hfates, hlater, hfold⟩ :=
            ih (sink.enter (some { d with fates })) w₁
          refine ⟨some { d with fates } :: settled, w', .cons (hd.withFates fates) hsettled,
            congrArg (some d.unit :: ·) hunits, ?_, hnow.trans hlater, ?_⟩
          · intro d' hmem
            rcases List.mem_cons.mp hmem with hmem | hmem
            · cases hmem
              exact hnew
            · exact hfates d' hmem
          · rw [List.foldl_cons, ← hfold, List.map_cons, List.foldl_cons, ← hdeliver]
            rfl

theorem exists_isRun (root : Path) (trees : List Tree) (unparsed : List Unparsed) (w : World W) :
    ∃ c : e.Course root trees unparsed, c.IsRun w := by
  rcases hanalyzed : e.analyzeUnits (SymbolTable.ofUnits trees e.compiled) trees w with
    ⟨units, walked⟩
  obtain ⟨dossiers, hunits, hwalked, hdossiers⟩ :=
    exists_dossiers hkeeps (SymbolTable.ofUnits trees e.compiled) trees w
  rw [hanalyzed] at hunits hwalked hdossiers
  subst hunits
  obtain ⟨settled, w', hsettled, hsame, hfates, hlater, hfold⟩ :=
    exists_settled hkeeps (e.factsOf dossiers) hdossiers
      { findings := e.ownFindings root unparsed } walked
  have hfacts : e.factsOf settled = e.factsOf dossiers := congrArg e.projectFacts hsame
  let c : e.Course root trees unparsed :=
    { begun := w
      walked
      ended := w'
      begun_walked := hwalked
      walked_ended := hlater
      dossiers := settled
      analyzed := hsettled
      settled := by rwa [hfacts] }
  have hrun : e.run root trees unparsed w = (c.report, c.ended) := by
    rw [run, reportMissing_eq, hanalyzed]
    rw [factsOf] at hfold
    dsimp only
    rw [hfold]
    rfl
  refine ⟨c, rfl, ?_, ?_, ?_⟩
  · rw [hanalyzed]
    exact hsame
  · rw [hrun]
  · rw [hrun]

end

end Engine

end LintEngine
