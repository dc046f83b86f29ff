import LintEngine.Proofs.Detector.Relevance
import LintEngine.Proofs.Engine.Answers

/-!
Containment: what one detector does in a unit does not depend on the others.

All detectors of a unit write into the same unit, and any of them can fail at
any callback. Still, what the unit holds of one detector is decided by the steps
for this detector alone. Two runs with different other detectors therefore agree
on it, once they agree on its steps. They do, but for one thing: an annotation
whose name could not be resolved is told to the detectors that asked for that
very name, and to those that asked for a qualified name ending in it only if
there are none.
-/

namespace LintEngine

open Registration

variable {W S V : Type}

namespace Detector

/-- A detector that goes by what it is told, by its private state and by what it
sees of the world. The facts of the unit do not count. -/
def Secluded (sees : World W → V) (env : Env W) (x : Detector W S) : Prop :=
  ∀ e (me me' : Caller) world world' slot, me.index = me'.index → me.name = me'.name →
    sees world = sees world' →
    let outcome := ((x.on e).run (env, me)).run { world, slot }
    let outcome' := ((x.on e).run (env, me')).run { world := world', slot }
    outcome.1 = outcome'.1 ∧ outcome.2.slot = outcome'.2.slot ∧
      outcome.2.reports = outcome'.2.reports ∧ sees outcome.2.world = sees outcome'.2.world

def Discreet (sees : World W → V) (env : Env W) (y : Detector W S) : Prop :=
  ∀ e me desk, sees (((y.on e).run (env, me)).run desk).2.world = sees desk.world

/-- Two detectors that ask for the same and do the same in a unit. -/
structure ActsAs (x x' : Detector W S) : Prop where
  name : x.name = x'.name
  interests : x.interests = x'.interests
  on : x.on = x'.on

end Detector

namespace Unit

structure Alike (sees : World W → V) (d : Nat) (s s' : Session W S) : Prop where
  findings : s.unit.findings.filter (·.detector == some d) =
    s'.unit.findings.filter (·.detector == some d)
  slot : s.unit.slots.lookup d = s'.unit.slots.lookup d
  failed : d ∈ s.unit.disabled ↔ d ∈ s'.unit.disabled
  world : sees s.world = sees s'.world

variable {sees : World W → V} {env : Env W} {d : Nat} {s s' : Session W S}

namespace Alike

theorem refl (s : Session W S) : Alike sees d s s := ⟨rfl, rfl, Iff.rfl, rfl⟩

theorem symm (h : Alike sees d s s') : Alike sees d s' s :=
  ⟨h.findings.symm, h.slot.symm, h.failed.symm, h.world.symm⟩

theorem trans {s'' : Session W S} (h : Alike sees d s s') (h' : Alike sees d s' s'') :
    Alike sees d s s'' :=
  ⟨h.findings.trans h'.findings, h.slot.trans h'.slot, h.failed.trans h'.failed,
    h.world.trans h'.world⟩

end Alike

/-! ### One answer -/

theorem of_mem_notice {a : Answer W S} {f : Finding} (h : f ∈ (a.notice env).toList) :
    f.detector = none ∧ f.issue = Issue.lintError := by
  rw [Option.mem_toList, Answer.notice] at h
  obtain ⟨fault, -, h⟩ := Option.bind_eq_some_iff.mp h
  split at h
  · split at h
    · cases h
      exact ⟨rfl, rfl⟩
    · cases h
  · cases h

/-- The finding about a fault is nobody's, all others are of the detector that
answers. -/
theorem filter_findings (a : Answer W S) :
    (a.findings env).filter (·.detector == some d) =
      if a.caller.index = d then a.desk.reports.filterMap (UnitState.kept env d) else [] := by
  have hnotice : (a.notice env).toList.filter (·.detector == some d) = [] := by
    refine List.filter_eq_nil_iff.mpr fun f hf => ?_
    rw [(of_mem_notice hf).1]
    simp
  have hkept : ∀ f ∈ a.desk.reports.filterMap (UnitState.kept env a.caller.index),
      f.detector = some a.caller.index := by
    intro f hf
    obtain ⟨g, -, hg⟩ := List.mem_filterMap.mp hf
    obtain ⟨severity, rfl⟩ := UnitState.issue_kept hg
    rfl
  rw [Answer.findings, List.filter_append, hnotice, List.append_nil]
  split
  · rename_i ha
    rw [← ha]
    exact List.filter_eq_self.mpr fun f hf => by simp [hkept f hf]
  · rename_i ha
    exact List.filter_eq_nil_iff.mpr fun f hf => by simpa [hkept f hf] using ha

theorem enter_other (h : Alike sees d s s') {a : Answer W S} (ha : a.caller.index ≠ d)
    (hworld : sees a.desk.world = sees s.world) : Alike sees d (enter env s a) s' where
  findings := by
    rw [findings_enter, List.filter_append, filter_findings, if_neg ha, List.append_nil, h.findings]
  slot := by rw [slots_enter, if_neg ha.symm, h.slot]
  failed := by
    rw [disabled_enter, ← h.failed]
    split
    · simp [ha.symm]
    · rfl
  world := hworld.trans h.world

theorem enter_own (h : Alike sees d s s') {a a' : Answer W S} (ha : a.caller.index = d)
    (ha' : a'.caller.index = d) (hfault : a.fault = a'.fault)
    (hslot : a.desk.slot = a'.desk.slot) (hreports : a.desk.reports = a'.desk.reports)
    (hworld : sees a.desk.world = sees a'.desk.world) :
    Alike sees d (enter env s a) (enter env s' a') where
  findings := by
    rw [findings_enter, findings_enter, List.filter_append, List.filter_append, filter_findings,
      filter_findings, if_pos ha, if_pos ha', hreports, h.findings]
  slot := by rw [slots_enter, slots_enter, if_pos ha.symm, if_pos ha'.symm, hslot, h.slot]
  failed := by
    rw [disabled_enter, disabled_enter, ha, ha', hfault]
    split
    · simp
    · exact h.failed
  world := hworld

/-! ### One step -/

theorem deliver_other {j : Nat} {y : Detector W S} (hy : y.Discreet sees env) (hj : j ≠ d)
    (e : Event) (h : Alike sees d s s') : Alike sees d (deliver env j y e s) s' := by
  rw [deliver]
  split
  · exact h
  · rw [call_eq_enter]
    exact enter_other h hj (hy ..)

theorem deliver_own {x x' : Detector W S} (hx : x.Secluded sees env) (hacts : x.ActsAs x')
    (e : Event) (h : Alike sees d s s') :
    Alike sees d (deliver env d x e s) (deliver env d x' e s') := by
  have hfailed : s.unit.disabled.contains d = s'.unit.disabled.contains d := by
    rw [Bool.eq_iff_iff, List.contains_iff_mem, List.contains_iff_mem]
    exact h.failed
  rw [deliver, deliver, hfailed]
  split
  · exact h
  · have hanswer := hx e { index := d, name := x.name, known := s.unit.facts }
      { index := d, name := x'.name, known := s'.unit.facts } s.world s'.world
      (s.unit.slots.lookup d) rfl hacts.name h.world
    obtain ⟨hresult, hslot, hreports, hworld⟩ := hanswer
    rw [call_eq_enter, call_eq_enter]
    refine enter_own h rfl rfl ?_ ?_ ?_ ?_ <;> simp only [answer, desk, ← hacts.on, ← h.slot]
    · exact congrArg faultOf hresult
    · exact hslot
    · exact hreports
    · exact hworld

/-! ### A schedule -/

def concerns (d : Nat) : Step → Bool
  | .poll => true
  | .deliver j _ => j == d

def OthersDiscreet (sees : World W → V) (env : Env W) (d : Nat) (detectors : List (Detector W S)) :
    Prop :=
  ∀ j y, j ≠ d → detectors[j]? = some y → y.Discreet sees env

section

variable {detectors detectors' : List (Detector W S)} {active active' : List Bool}
  {x x' : Detector W S}

/-- Steps without any for an active detector leave what there is of it. -/
theorem follow_other (hothers : OthersDiscreet sees env d detectors) {steps : List Step}
    (hsteps : ∀ e, .deliver d e ∈ steps → active.getD d false = false) (h : Alike sees d s s') :
    Alike sees d (follow env detectors active steps s).2 s' := by
  induction steps generalizing s with
  | nil => exact h
  | cons step steps ih =>
      have hrest : ∀ e, .deliver d e ∈ steps → active.getD d false = false :=
        fun e he => hsteps e (List.mem_cons_of_mem _ he)
      cases step with
      | poll =>
          rw [follow]
          split
          · exact h
          · exact ih hrest h
      | deliver j e =>
          rw [follow]
          split
          · rename_i y hactive hy
            have hj : j ≠ d := by
              rintro rfl
              rw [hsteps e List.mem_cons_self] at hactive
              cases hactive
            exact ih hrest (deliver_other (hothers j y hj hy) hj e h)
          · exact ih hrest h

/-- Of a schedule, only the steps for a detector count for it. -/
theorem follow_own (hsees : ∀ w w', sees w = sees w' → w.cancelled = w'.cancelled)
    (hx : detectors[d]? = some x) (hx' : detectors'[d]? = some x') (hacts : x.ActsAs x')
    (hsecluded : x.Secluded sees env) (hothers : OthersDiscreet sees env d detectors)
    (hactive : active.getD d false = active'.getD d false) (steps : List Step)
    (h : Alike sees d s s') :
    Alike sees d (follow env detectors active steps s).2
      (follow env detectors' active' (steps.filter (concerns d)) s').2 := by
  induction steps generalizing s s' with
  | nil => exact h
  | cons step steps ih =>
      cases step with
      | poll =>
          rw [List.filter_cons_of_pos rfl, follow, follow, hsees _ _ h.world]
          split
          · exact h
          · exact ih h
      | deliver j e =>
          by_cases hj : j = d
          · subst hj
            have hin : concerns j (.deliver j e) = true := beq_self_eq_true j
            rw [List.filter_cons_of_pos hin, follow, follow, hx, hx', hactive]
            cases active'.getD j false with
            | true => exact ih (deliver_own hsecluded hacts e h)
            | false => exact ih h
          · have hout : ¬concerns d (.deliver j e) = true := by simpa [concerns] using hj
            rw [List.filter_cons_of_neg hout, follow]
            split
            · rename_i y _ hy
              exact ih (deliver_other (hothers j y hj hy) hj e h)
            · exact ih h

end

/-! ### The steps for one detector -/

theorem filter_deliverAll_concerns {ds ds' : List Nat} (hds : ds.Nodup) (hds' : ds'.Nodup)
    (h : d ∈ ds ↔ d ∈ ds') (e : Event) :
    (Walk.deliverAll ds e).filter (concerns d) = (Walk.deliverAll ds' e).filter (concerns d) := by
  have hsteps : ∀ ds : List Nat, (Walk.deliverAll ds e).filter (concerns d) =
      (ds.filter (· == d)).map (.deliver · e) := by
    intro ds
    rw [Walk.deliverAll, List.filter_map]
    rfl
  rw [hsteps, hsteps, List.filter_beq, List.filter_beq, hds.count, hds'.count]
  simp only [h]

/-- Where the detector in position `d` asked for a qualified name but not for its
last part, that part is asked for by some detector on both sides or on
neither. -/
def NamesAgree (d : Nat) (phase : Phase) (detectors detectors' : List (Detector W S)) : Prop :=
  ∀ q name, Text.lastField '.' q = name → '.' ∉ name.toList →
    declares detectors phase (.annotated q) d = true →
    declares detectors phase (.annotated name) d = false →
    (IsAskedFor detectors phase name ↔ IsAskedFor detectors' phase name)

section

variable {detectors detectors' : List (Detector W S)}

theorem mem_onAnnotation_congr {phase : Phase}
    (hdeclares : ∀ trigger,
      declares detectors phase trigger d = declares detectors' phase trigger d)
    (hnames : NamesAgree d phase detectors detectors') (name : String) :
    d ∈ DispatchTable.onAnnotation (tableOf detectors phase) name ↔
      d ∈ DispatchTable.onAnnotation (tableOf detectors' phase) name := by
  rw [mem_onAnnotation_tableOf, mem_onAnnotation_tableOf]
  simp only [← hdeclares]
  cases hown : declares detectors phase (.annotated name) d with
  | true => simp
  | false =>
      simp only [Bool.false_eq_true, false_or]
      constructor
      · rintro ⟨hfree, hpoint, q, hq, hd⟩
        exact ⟨mt (hnames q name hq hpoint hd hown).mpr hfree, hpoint, q, hq, hd⟩
      · rintro ⟨hfree, hpoint, q, hq, hd⟩
        exact ⟨mt (hnames q name hq hpoint hd hown).mp hfree, hpoint, q, hq, hd⟩

variable {w w' : Walk} (hw : w.table = tableOf detectors w.view.tree.phase)
  (hw' : w'.table = tableOf detectors' w'.view.tree.phase) (hview : w.view = w'.view)
  (hdeclares : ∀ trigger, declares detectors w.view.tree.phase trigger d =
    declares detectors' w.view.tree.phase trigger d)

include hw hw' hview hdeclares

theorem filter_listed (trigger : Trigger) (e : Event) :
    (Walk.deliverAll (w.table.listed trigger) e).filter (concerns d) =
      (Walk.deliverAll (w'.table.listed trigger) e).filter (concerns d) := by
  rw [hw, hw', ← hview, listed_tableOf, listed_tableOf]
  apply filter_deliverAll_concerns (positions_nodup ..) (positions_nodup ..)
  rw [mem_positions_declares, mem_positions_declares, hdeclares]

theorem filter_useSteps (hnames : NamesAgree d w.view.tree.phase detectors detectors')
    (us : List Usage) :
    (Walk.useSteps w.table us).filter (concerns d) =
      (Walk.useSteps w'.table us).filter (concerns d) := by
  rw [Walk.useSteps, Walk.useSteps, List.filter_flatMap, List.filter_flatMap]
  refine List.flatMap_congr fun u _ => ?_
  rw [hw, hw', ← hview]
  exact filter_deliverAll_concerns (nodup_onAnnotation_tableOf ..) (nodup_onAnnotation_tableOf ..)
    (mem_onAnnotation_congr hdeclares hnames u.ann.name) _

theorem filter_enterSteps (hnames : NamesAgree d w.view.tree.phase detectors detectors')
    (n : NodeId) :
    (w.enterSteps n).filter (concerns d) = (w'.enterSteps n).filter (concerns d) := by
  have hlisted := filter_listed hw hw' hview hdeclares
  have hkind : (Walk.deliverAll (w.table.onEnter (w.view.tree.kind n)) (.enter n)).filter
        (concerns d) =
      (Walk.deliverAll (w'.table.onEnter (w.view.tree.kind n)) (.enter n)).filter (concerns d) :=
    hlisted (.enter (w.view.tree.kind n)) (.enter n)
  have htrigger : (triggerSteps w n).filter (concerns d) =
      (triggerSteps w' n).filter (concerns d) := by
    rw [triggerSteps, triggerSteps, ← hview]
    split
    · exact hlisted ..
    · rfl
  rw [Walk.enterSteps, Walk.enterSteps, namedSteps_eq, namedSteps_eq, ← hview]
  simp only [List.filter_append]
  rw [hkind, htrigger, filter_useSteps hw hw' hview hdeclares hnames]

/-- The same steps are meant for a detector, whoever else is there. -/
theorem filter_nodeSteps (hnames : NamesAgree d w.view.tree.phase detectors detectors')
    (n : NodeId) :
    (w.nodeSteps n).filter (concerns d) = (w'.nodeSteps n).filter (concerns d) := by
  apply Walk.filter_nodeSteps_congr
  · rw [hview]
  · exact filter_enterSteps hw hw' hview hdeclares hnames
  · intro n
    have hkind := filter_listed hw hw' hview hdeclares (.exit (w.view.tree.kind n)) (.exit n)
    rw [Walk.exitSteps, Walk.exitSteps, ← hview]
    exact hkind

end

/-! ### Two runs -/

/-- Two lists of detectors that agree in position `d`, where nobody else changes
what the detector there sees of the world. -/
structure AgreeAt (sees : World W → V) (env : Env W) (d : Nat)
    (detectors detectors' : List (Detector W S)) : Prop where
  own : ∃ x x', detectors[d]? = some x ∧ detectors'[d]? = some x' ∧ x.ActsAs x' ∧
    x.Secluded sees env
  others : OthersDiscreet sees env d detectors
  others' : OthersDiscreet sees env d detectors'
  names : NamesAgree d env.view.tree.phase detectors detectors'

section

variable {detectors detectors' : List (Detector W S)} {r r' : Registration W S}
  {active active' : List Bool}

theorem AgreeAt.declares_eq (h : AgreeAt sees env d detectors detectors') (phase : Phase)
    (trigger : Trigger) :
    declares detectors phase trigger d = declares detectors' phase trigger d := by
  obtain ⟨x, x', hx, hx', hacts, -⟩ := h.own
  rw [declares, declares, hx, hx', Option.any_some, Option.any_some, hacts.interests]

theorem AgreeAt.takesPart_eq (h : AgreeAt sees env d detectors detectors') (phase : Phase) :
    takesPart detectors phase d = takesPart detectors' phase d := by
  obtain ⟨x, x', hx, hx', hacts, -⟩ := h.own
  rw [takesPart, takesPart, hx, hx', Option.any_some, Option.any_some, hacts.interests]

theorem mem_listeners (htables : ∀ phase, r.tables phase = tableOf r.detectors phase) :
    d ∈ listeners env r active ↔
      takesPart r.detectors env.view.tree.phase d = true ∧ active.getD d false = true := by
  rw [listeners, htables, participants_tableOf, positions, List.mem_filter, List.mem_filter,
    List.mem_range]
  refine and_congr_left fun _ => and_iff_right_of_imp fun h => ?_
  cases hx : r.detectors[d]? with
  | none =>
      rw [takesPart, hx] at h
      cases h
  | some x => exact (List.getElem?_eq_some_iff.mp hx).1

theorem listeners_nodup (htables : ∀ phase, r.tables phase = tableOf r.detectors phase) :
    (listeners env r active).Nodup := by
  rw [listeners, htables, participants_tableOf]
  exact (positions_nodup ..).filter _

theorem run_of_mem_listeners (h : d ∈ listeners env r active) (world : World W) :
    run env r active world =
      follow env r.detectors active (agenda env r active) { world } := by
  rw [run_eq, if_neg]
  intro hempty
  rw [List.isEmpty_iff.mp hempty] at h
  cases h

/-- A run leaves nothing of a detector that does not listen. -/
theorem run_of_not_mem_listeners
    (htables : ∀ phase, r.tables phase = tableOf r.detectors phase)
    (hothers : OthersDiscreet sees env d r.detectors) (h : d ∉ listeners env r active)
    (world : World W) : Alike sees d (run env r active world).2 { world } := by
  rw [run_eq]
  split
  · exact Alike.refl _
  · apply follow_other hothers _ (Alike.refl _)
    intro e he
    have hw : (⟨env.view, r.tables env.view.tree.phase⟩ : Walk).table =
        tableOf r.detectors env.view.tree.phase := htables _
    have hpart := mem_participants_of_schedule hw (fun _ hd => (List.mem_filter.mp hd).1) he
    exact Bool.eq_false_iff.mpr fun hactive => h (List.mem_filter.mpr ⟨hpart, hactive⟩)

/-- Schedules with the same steps for a detector have the same effect on it. -/
theorem AgreeAt.follow_alike (h : AgreeAt sees env d detectors detectors')
    (hsees : ∀ w w', sees w = sees w' → w.cancelled = w'.cancelled)
    (hactive : active.getD d false = active'.getD d false) {steps steps' : List Step}
    (hsteps : steps.filter (concerns d) = steps'.filter (concerns d)) (s : Session W S) :
    Alike sees d (follow env detectors active steps s).2
      (follow env detectors' active' steps' s).2 := by
  obtain ⟨x, x', hx, hx', hacts, hsecluded⟩ := h.own
  have hacts' : x'.ActsAs x' := ⟨rfl, rfl, rfl⟩
  have hsecluded' : x'.Secluded sees env := by
    intro e
    rw [← hacts.on]
    exact hsecluded e
  -- both runs do what the common steps do
  have hrun := follow_own hsees hx hx' hacts hsecluded h.others hactive steps (Alike.refl s)
  have hrun' := follow_own hsees hx' hx' hacts' hsecluded' h.others'
    (Eq.refl (active'.getD d false)) steps' (Alike.refl s)
  rw [hsteps] at hrun
  exact hrun.trans hrun'.symm

section

variable (h : AgreeAt sees env d r.detectors r'.detectors)
  (htables : ∀ phase, r.tables phase = tableOf r.detectors phase)
  (htables' : ∀ phase, r'.tables phase = tableOf r'.detectors phase)
  (hactive : active.getD d false = active'.getD d false)

include h htables htables' hactive

theorem AgreeAt.mem_listeners_iff :
    d ∈ listeners env r active ↔ d ∈ listeners env r' active' := by
  rw [mem_listeners htables, mem_listeners htables', h.takesPart_eq, hactive]

theorem AgreeAt.filter_agenda :
    (agenda env r active).filter (concerns d) = (agenda env r' active').filter (concerns d) := by
  have hends := filter_deliverAll_concerns (listeners_nodup htables) (listeners_nodup htables')
    (h.mem_listeners_iff htables htables' hactive)
  have hw : (⟨env.view, r.tables env.view.tree.phase⟩ : Walk).table =
      tableOf r.detectors env.view.tree.phase := htables _
  have hw' : (⟨env.view, r'.tables env.view.tree.phase⟩ : Walk).table =
      tableOf r'.detectors env.view.tree.phase := htables' _
  have hnodes := filter_nodeSteps hw hw' rfl (h.declares_eq _) h.names Tree.root
  rw [agenda, agenda, Walk.schedule, Walk.schedule]
  simp only [List.filter_append, hnodes, hends]

theorem AgreeAt.run_alike (hsees : ∀ w w', sees w = sees w' → w.cancelled = w'.cancelled)
    (world : World W) :
    Alike sees d (run env r active world).2 (run env r' active' world).2 := by
  have hlisteners := h.mem_listeners_iff htables htables' hactive
  by_cases hd : d ∈ listeners env r active
  · rw [run_of_mem_listeners hd, run_of_mem_listeners (hlisteners.mp hd)]
    exact h.follow_alike hsees hactive (h.filter_agenda htables htables' hactive) _
  · exact (run_of_not_mem_listeners htables h.others hd world).trans
      (run_of_not_mem_listeners htables' h.others' (mt hlisteners.mpr hd) world).symm

end

end

/-- What a unit keeps of a failing detector: it is not called again, and one
failure is recorded, which is reported in one finding at most. -/
structure Contains (env : Env W) (log : List (Answer W S)) (s : Session W S) : Prop where
  silenced : log.Pairwise fun a b => a.caller.index = b.caller.index → a.fault = none
  findings : s.unit.findings = log.flatMap (Answer.findings env)
  failures : s.unit.failures = log.flatMap (Answer.failures env)
  recorded : ∀ d, ((log.filter (·.caller.index == d)).filterMap (Answer.breakdown env)).length =
    if d ∈ s.unit.disabled then 1 else 0
  reported : ∀ d, ((log.filter (·.caller.index == d)).filterMap (Answer.notice env)).length ≤
    if d ∈ s.unit.disabled then 1 else 0

theorem run_contains (env : Env W) (r : Registration W S) (active : List Bool) (world : World W) :
    Contains env (record env r active world) (run env r active world).2 where
  silenced := pairwise_record ..
  findings := by
    rw [run_eq_foldl, findings_foldl_enter]
    rfl
  failures := by
    rw [run_eq_foldl, failures_foldl_enter]
    rfl
  recorded d := by
    rw [← countP_isFaultOf, List.length_filterMap_eq_countP, List.countP_filter]
    refine List.countP_congr fun a _ => ?_
    simp [Answer.breakdown, isFaultOf, and_comm]
  reported d := by
    rw [← countP_isFaultOf, List.length_filterMap_eq_countP, List.countP_filter]
    refine List.countP_mono_left fun a _ ha => ?_
    obtain ⟨hnotice, hd⟩ := Bool.and_eq_true_iff.mp ha
    obtain ⟨f, hf⟩ := Option.isSome_iff_exists.mp hnotice
    obtain ⟨fault, hfault, -⟩ := Option.bind_eq_some_iff.mp hf
    rw [isFaultOf, hd, hfault]
    rfl

/-- What a unit keeps of one detector does not depend on the others, even if they
fail, where the lists agree on who is asked about unresolved names. Whoever
fails is not called again, and the failure is recorded once. -/
theorem run_isolates_detectors {W S : Type} :
    (∀ {V : Type} {registry registry' : Registry} {detectors detectors' : List (Detector W S)}
      {r r' : Registration W S}, ofDetectors registry detectors = .ok r →
      ofDetectors registry' detectors' = .ok r' →
      ∀ {sees : World W → V}, (∀ w w', sees w = sees w' → w.cancelled = w'.cancelled) →
      ∀ {env : Env W} {d : Nat}, AgreeAt sees env d detectors detectors' →
      ∀ {active active' : List Bool}, active.getD d false = active'.getD d false →
      ∀ world, Alike sees d (run env r active world).2 (run env r' active' world).2) ∧
    ∀ (env : Env W) (r : Registration W S) (active : List Bool) (world : World W),
      Contains env (record env r active world) (run env r active world).2 := by
  refine ⟨?_, run_contains⟩
  intro V registry registry' detectors detectors' r r' hr hr' sees hsees env d h active active'
    hactive world
  obtain ⟨hdetectors, htables⟩ := of_ofDetectors hr
  obtain ⟨hdetectors', htables'⟩ := of_ofDetectors hr'
  subst hdetectors hdetectors'
  exact h.run_alike htables htables' hactive hsees world

/-! ### An unresolved annotation -/

def seenIssue : Issue where
  id := "Seen"
  detector := "probe"

def probe : Detector Unit Nat where
  name := "probe"
  issues := [seenIssue]
  interests := [⟨.source, .annotated "a.Foo"⟩]
  on
    | .usage u => do
      Task.reportAt seenIssue u.node "seen"
      Task.setSlot ((← Task.slot) + 1)
    | _ => pure ()

def stubborn (interests : List Interest) (task : Task Unit Nat Unit) : Detector Unit Nat where
  name := "stubborn"
  issues := [seenIssue]
  interests := interests
  on _ := task

def company (interests : List Interest) (task : Task Unit Nat Unit) : List (Detector Unit Nat) :=
  [stubborn interests task, probe]

def unresolvedEnv : Env Unit where
  view :=
    { tree := (Builder.start ⟨"A.java"⟩ .source .javaFile none {}
        |>.within { kind := .classDecl, name := some "A" }
          (·.within { kind := .method, name := some "m" }
            (·.leaf { kind := .annotationUse, name := some "Foo" }))).build
      symbols := {}
      relevant := some ["Foo", "a.Foo"] }
  config := {}
  registry := ⟨[seenIssue]⟩

theorem probe_secluded : probe.Secluded id unresolvedEnv := by
  rintro e me me' world world' slot - - rfl
  cases e <;> exact ⟨rfl, rfl, rfl, rfl⟩

theorem company_discreet (interests : List Interest) {task : Task Unit Nat Unit}
    (h : ∀ me desk, ((task.run (unresolvedEnv, me)).run desk).2.world = desk.world) :
    OthersDiscreet id unresolvedEnv 1 (company interests task) := by
  intro j y hj hy
  match j with
  | 0 =>
      cases hy
      exact fun _ => h
  | 1 => exact (hj rfl).elim
  | j + 2 => cases hy

/-- A detector that crashes at once takes nothing away from the next one. -/
theorem run_probe_beside_crash :
    ∃ r r', ofDetectors ⟨[seenIssue]⟩ (company [⟨.source, .enter .method⟩] (pure ())) = .ok r ∧
      ofDetectors ⟨[seenIssue]⟩
        (company [⟨.source, .enter .method⟩] (Task.fail (.crash none))) = .ok r' ∧
      (run unresolvedEnv r' [true, true] { host := () }).2.unit.disabled = [0] ∧
      (run unresolvedEnv r' [true, true] { host := () }).2.unit.slots = [(1, 1)] ∧
      Alike id 1 (run unresolvedEnv r [true, true] { host := () }).2
        (run unresolvedEnv r' [true, true] { host := () }).2 ∧
      Contains unresolvedEnv (record unresolvedEnv r' [true, true] { host := () })
        (run unresolvedEnv r' [true, true] { host := () }).2 := by
  have hnames : NamesAgree 1 .source (company [⟨.source, .enter .method⟩] (pure ()))
      (company [⟨.source, .enter .method⟩] (Task.fail (.crash none))) := by
    intro q name _ _ _ _
    refine exists_congr fun j => ?_
    match j with
    | 0 | 1 | j + 2 => exact Iff.rfl
  have hagree : AgreeAt id unresolvedEnv 1 (company [⟨.source, .enter .method⟩] (pure ()))
      (company [⟨.source, .enter .method⟩] (Task.fail (.crash none))) :=
    ⟨⟨probe, probe, rfl, rfl, ⟨rfl, rfl, rfl⟩, probe_secluded⟩,
      company_discreet _ fun _ _ => rfl, company_discreet _ fun _ _ => rfl, hnames⟩
  have halike : ∀ r r', ofDetectors ⟨[seenIssue]⟩
        (company [⟨.source, .enter .method⟩] (pure ())) = .ok r →
      ofDetectors ⟨[seenIssue]⟩
        (company [⟨.source, .enter .method⟩] (Task.fail (.crash none))) = .ok r' →
      Alike id 1 (run unresolvedEnv r [true, true] { host := () }).2
        (run unresolvedEnv r' [true, true] { host := () }).2 := fun r r' hr hr' =>
    run_isolates_detectors.1 hr hr' (fun w w' h => congrArg World.cancelled h) hagree
      (Eq.refl ([true, true].getD 1 false)) _
  exact ⟨_, _, rfl, rfl, by decide +kernel, by decide +kernel, halike _ _ rfl rfl,
    run_isolates_detectors.2 ..⟩

/-- Who asks for an unresolved name keeps those from hearing of it who asked for
a qualified one. -/
theorem run_probe_beside_namesake :
    ∃ r r', ofDetectors ⟨[seenIssue]⟩ (company [⟨.bytecode, .annotated "Foo"⟩] (pure ())) = .ok r ∧
      ofDetectors ⟨[seenIssue]⟩ (company [⟨.source, .annotated "Foo"⟩] (pure ())) = .ok r' ∧
      unresolvedEnv.view.relevant = some r.relevant ∧
      unresolvedEnv.view.relevant = some r'.relevant ∧
      r.detectors[1]? = some probe ∧ r'.detectors[1]? = some probe ∧
      probe.Secluded id unresolvedEnv ∧
      OthersDiscreet id unresolvedEnv 1 r.detectors ∧
      OthersDiscreet id unresolvedEnv 1 r'.detectors ∧
      (run unresolvedEnv r [true, true] { host := () }).2.unit.findings.filter
          (·.detector == some 1) ≠
        (run unresolvedEnv r' [true, true] { host := () }).2.unit.findings.filter
          (·.detector == some 1) := by
  refine ⟨_, _, rfl, rfl, by decide +kernel, by decide +kernel, rfl, rfl, probe_secluded,
    company_discreet _ fun _ _ => rfl, company_discreet _ fun _ _ => rfl, fun h => ?_⟩
  have hmessages := congrArg (List.map Finding.message) h
  revert hmessages
  decide +kernel

end Unit

end LintEngine
