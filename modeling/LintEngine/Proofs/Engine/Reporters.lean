import LintEngine.Proofs.Engine.Cancellation
import LintEngine.Proofs.Engine.Containment

/-!
Detectors that never fail and whose findings depend on the event alone.

Whatever the other detectors do, such a detector is told everything that is due
in a unit that is walked to its end, so what the unit keeps of its findings can
be read off the tree. Which of them are handed on is decided later; `handedOnBy`
follows the findings of one detector to the sink.
-/

namespace LintEngine

open Registration

variable {W S : Type}

/-- A detector that never fails and hands in, for each event, the findings that
`reports` names. -/
def Detector.Reports (env : Env W) (reports : Event → List Finding) (x : Detector W S) : Prop :=
  ∀ event me desk, ∃ desk', ((x.on event).run (env, me)).run desk = (.ok (), desk') ∧
    desk'.reports = desk.reports ++ reports event

namespace Unit

variable {env : Env W} {detectors : List (Detector W S)} {active : List Bool} {k : Nat}
  {x : Detector W S} {reports : Event → List Finding}

/-- What a unit keeps of the findings of the detector in position `k` after a
callback. -/
def keptAfter (env : Env W) (k : Nat) (reports : Event → List Finding) (c : Callback) :
    List Finding :=
  if c.1 = k then (reports c.2).filterMap (UnitState.kept env k) else []

/-! ### One answer -/

theorem answer_of_reports (h : x.Reports env reports) (event : Event) (s : Session W S) :
    (answer env k x event s).fault = none ∧
      (answer env k x event s).desk.reports = reports event := by
  obtain ⟨desk', hrun, hreports⟩ := h event
    { index := k, name := x.name, known := s.unit.facts } (desk k s)
  rw [answer]
  simp only [hrun, hreports]
  exact ⟨rfl, List.nil_append _⟩

/-- The detector itself is not left out, and what it reports is kept. -/
theorem call_own (h : x.Reports env reports) (event : Event) {s : Session W S}
    (hfine : k ∉ s.unit.disabled) :
    k ∉ (call env k x event s).unit.disabled ∧
      (call env k x event s).unit.findings.filter (·.detector == some k) =
        s.unit.findings.filter (·.detector == some k) ++ keptAfter env k reports (k, event) := by
  obtain ⟨hfault, hreports⟩ := answer_of_reports (k := k) h event s
  rw [call_eq_enter]
  constructor
  · rw [disabled_enter, hfault]
    exact hfine
  · rw [findings_enter, List.filter_append, filter_findings, hreports, keptAfter, if_pos rfl]
    exact congrArg (_ ++ ·) (if_pos rfl)

/-- Other detectors do not matter, even if they fail. -/
theorem call_other {d : Nat} (hd : d ≠ k) (y : Detector W S) (event : Event) {s : Session W S}
    (hfine : k ∉ s.unit.disabled) :
    k ∉ (call env d y event s).unit.disabled ∧
      (call env d y event s).unit.findings.filter (·.detector == some k) =
        s.unit.findings.filter (·.detector == some k) := by
  rw [call_eq_enter]
  constructor
  · rw [disabled_enter]
    split
    · exact fun hmem => hfine ((List.mem_cons.mp hmem).resolve_left hd.symm)
    · exact hfine
  · rw [findings_enter, List.filter_append, filter_findings]
    exact (congrArg (_ ++ ·) (if_neg hd)).trans (List.append_nil _)

/-! ### A walk -/

/-- The findings that `p` selects are what the detector in position `k` hands in,
and it never fails. -/
structure Selects (env : Env W) (detectors : List (Detector W S)) (k : Nat) (p : Finding → Bool)
    (reports : Event → List Finding) : Prop where
  own : ∃ x, detectors[k]? = some x ∧ ∀ event s, k ∉ s.unit.disabled →
    k ∉ (call env k x event s).unit.disabled ∧
      (call env k x event s).unit.findings.filter p =
        s.unit.findings.filter p ++ keptAfter env k reports (k, event)
  other : ∀ d y, detectors[d]? = some y → d ≠ k → ∀ event s, k ∉ s.unit.disabled →
    k ∉ (call env d y event s).unit.disabled ∧
      (call env d y event s).unit.findings.filter p = s.unit.findings.filter p

theorem selects_of_reports (hx : detectors[k]? = some x) (hreports : x.Reports env reports) :
    Selects env detectors k (·.detector == some k) reports where
  own := ⟨x, hx, fun event _ => call_own hreports event⟩
  other _ y _ hd event _ := call_other hd y event

theorem Walks.filter_findings {p : Finding → Bool} {steps : List Step} {s s' : Session W S}
    {log : List (Answer W S)} {finished : Bool}
    (h : Walks env detectors active steps s log finished s')
    (hselects : Selects env detectors k p reports) (hfinished : finished = true)
    (hfine : k ∉ s.unit.disabled) :
    s'.unit.findings.filter p =
      s.unit.findings.filter p ++ (callbacks active steps).flatMap (keptAfter env k reports) := by
  obtain ⟨x, hx, hown⟩ := hselects.own
  induction h with
  | ended => exact (List.append_nil _).symm
  | stopped => cases hfinished
  | meanwhile _ _ ih => exact ih hfinished hfine
  | passed _ _ ih => exact ih hfinished hfine
  | @told d event y steps s log finished s' hactive hy _ _ ih =>
      have hcallbacks : callbacks active (.deliver d event :: steps) =
          (d, event) :: callbacks active steps := by
        rw [callbacks, List.filterMap_cons, callback?, if_pos hactive]
        rfl
      rw [hcallbacks, List.flatMap_cons]
      by_cases hd : d = k
      · subst hd
        obtain rfl : y = x := Option.some.inj (hy.symm.trans hx)
        obtain ⟨hfine', hfindings⟩ := hown event s hfine
        rw [ih hfinished hfine', hfindings, List.append_assoc]
      · obtain ⟨hfine', hfindings⟩ := hselects.other d y hy hd event s hfine
        rw [ih hfinished hfine', hfindings, keptAfter, if_neg hd, List.nil_append]
  | @untold d event steps s log finished s' huntold _ ih =>
      rw [ih hfinished hfine, callbacks, callbacks, List.filterMap_cons, callback?]
      by_cases hactive : active.getD d false = true
      · -- it is somebody else who has failed
        have hd : d ≠ k := by
          rintro rfl
          exact hfine (huntold x hactive hx)
        rw [if_pos hactive, List.flatMap_cons, keptAfter, if_neg hd, List.nil_append]
      · rw [if_neg hactive]

/-! ### Findings when nodes are entered and left -/

def onVisit (found : Visit → List Finding) : Event → List Finding
  | .enter n => found (.enter n)
  | .exit n => found (.leave n)
  | _ => []

def onEntry (found : NodeId → List Finding) : Event → List Finding
  | .enter n => found n
  | _ => []

theorem onEntry_eq_onVisit (found : NodeId → List Finding) :
    onEntry found = onVisit fun visit => visit.entered?.toList.flatMap found := by
  funext event
  cases event with
  | enter n => exact (List.flatMap_singleton ..).symm
  | _ => rfl

def triggerOf (t : Tree) : Visit → Trigger
  | .enter n => .enter (t.kind n)
  | .leave n => .exit (t.kind n)

theorem flatMap_keptAfter_eq_nil {cs : List Callback} (h : ∀ c ∈ cs, reports c.2 = []) :
    cs.flatMap (keptAfter env k reports) = [] := by
  refine List.flatMap_eq_nil_iff.mpr fun c hc => ?_
  rw [keptAfter, h c hc]
  exact ite_self _

/-- Of several detectors that are told the same, one is the detector in position
`k`, at most. -/
theorem flatMap_keptAfter_map {ds : List Nat} (hds : ds.Nodup) (e : Event) :
    (ds.map (·, e)).flatMap (keptAfter env k reports) =
      if k ∈ ds then (reports e).filterMap (UnitState.kept env k) else [] := by
  induction ds with
  | nil => rfl
  | cons d ds ih =>
      obtain ⟨hd, hds⟩ := List.nodup_cons.mp hds
      rw [List.map_cons, List.flatMap_cons, ih hds, keptAfter]
      by_cases hk : d = k
      · subst hk
        rw [if_pos rfl, if_neg hd, if_pos List.mem_cons_self, List.append_nil]
      · rw [if_neg hk, List.nil_append]
        refine if_congr ?_ rfl rfl
        rw [List.mem_cons]
        exact (or_iff_right (Ne.symm hk)).symm

theorem mem_interested {v : View} {trigger : Trigger} :
    k ∈ interested detectors active v trigger ↔
      declares detectors v.tree.phase trigger k = true ∧ active.getD k false = true := by
  rw [interested, positions, List.mem_filter, Bool.and_eq_true]
  refine ⟨And.right, fun h => ⟨?_, h⟩⟩
  exact (List.mem_filter.mp (mem_positions_declares.mpr h.1)).1

theorem flatMap_keptAfter_tellAll (v : View) (trigger : Trigger) (e : Event) :
    (tellAll detectors active v trigger e).flatMap (keptAfter env k reports) =
      if declares detectors v.tree.phase trigger k = true ∧ active.getD k false = true then
        (reports e).filterMap (UnitState.kept env k)
      else [] := by
  have hnodup : (interested detectors active v trigger).Nodup := positions_nodup ..
  rw [tellAll, flatMap_keptAfter_map hnodup]
  exact if_congr mem_interested rfl rfl

variable {found : Visit → List Finding}

theorem onVisit_namedTrigger? {v : View} {n : NodeId} {trigger : Trigger} {e : Event}
    (h : namedTrigger? v n = some (trigger, e)) : onVisit found e = [] := by
  rw [namedTrigger?] at h
  split at h
  all_goals first
    | (obtain ⟨_, -, h⟩ := Option.map_eq_some_iff.mp h
       cases h
       rfl)
    | cases h

/-- A moment of the walk is told to the detector just if it declared so. -/
theorem flatMap_keptAfter_dueAt {usages : NodeId → List Callback} {v : View}
    (husages : ∀ n, ∀ c ∈ usages n, IsDeclaredUsage detectors active v c) (visit : Visit) :
    (dueAt detectors active v usages visit).flatMap (keptAfter env k (onVisit found)) =
      if declares detectors v.tree.phase (triggerOf v.tree visit) k = true ∧
          active.getD k false = true then (found visit).filterMap (UnitState.kept env k)
      else [] := by
  cases visit with
  | leave n => exact flatMap_keptAfter_tellAll v _ _
  | enter n =>
      have husages : (usages n).flatMap (keptAfter env k (onVisit found)) = [] := by
        refine flatMap_keptAfter_eq_nil fun c hc => ?_
        obtain ⟨u, q, hc, -⟩ := husages n c hc
        rw [hc]
        rfl
      rw [dueAt, entryCallbacks, List.flatMap_append, List.flatMap_append, husages, List.append_nil,
        flatMap_keptAfter_tellAll]
      cases htrigger : namedTrigger? v n with
      | none => exact List.append_nil _
      | some news =>
          have hnamed : (tellAll detectors active v news.1 news.2).flatMap
              (keptAfter env k (onVisit found)) = [] := by
            rw [flatMap_keptAfter_tellAll, onVisit_namedTrigger? htrigger]
            exact ite_self _
          rw [hnamed]
          exact List.append_nil _

section

variable {registry : Registry} {r : Registration W S}
  (hr : ofDetectors registry detectors = .ok r)

include hr

/-- A detector that declared anything is among the listeners. -/
theorem not_declares_of_idle (hempty : (listeners env r active).isEmpty = true)
    (trigger : Trigger) :
    ¬(declares detectors env.view.tree.phase trigger k = true ∧ active.getD k false = true) := by
  obtain ⟨hdetectors, htables⟩ := of_ofDetectors hr
  rintro ⟨hdeclares, hactive⟩
  have hmem : k ∈ listeners env r active := (mem_listeners (hdetectors ▸ htables)).mpr
    ⟨hdetectors ▸ takesPart_of_declares hdeclares, hactive⟩
  rw [List.isEmpty_iff.mp hempty] at hmem
  cases hmem

/-- What a whole walk leaves of the findings of a detector, moment by moment. -/
theorem flatMap_keptAfter_agenda (hordered : env.view.tree.Ordered) :
    (callbacks active (agenda env r active)).flatMap (keptAfter env k (onVisit found)) =
      (env.view.tree.visits Tree.root).flatMap fun visit =>
        if declares detectors env.view.tree.phase (triggerOf env.view.tree visit) k = true ∧
            active.getD k false = true then (found visit).filterMap (UnitState.kept env k)
        else [] := by
  obtain ⟨hdetectors, htables⟩ := of_ofDetectors hr
  let wk : Walk := { view := env.view, table := r.tables env.view.tree.phase }
  have hw : wk.table = tableOf detectors wk.view.tree.phase := htables _
  choose usages husages henter using callbacks_enterSteps active hw
  have hends : ∀ ds e, onVisit found e = [] →
      (callbacks active (Walk.deliverAll ds e)).flatMap (keptAfter env k (onVisit found)) = [] := by
    intro ds e he
    refine flatMap_keptAfter_eq_nil fun c hc => ?_
    rw [callbacks_deliverAll] at hc
    obtain ⟨d, -, rfl⟩ := List.mem_map.mp hc
    exact he
  have hnodes : callbacks active (wk.nodeSteps Tree.root) =
      (env.view.tree.visits Tree.root).flatMap (dueAt detectors active env.view usages) :=
    callbacks_nodeSteps hw hordered henter hordered.pos
  rw [agenda, Walk.schedule, callbacks_append, callbacks_append, List.flatMap_append,
    List.flatMap_append, hends _ _ rfl, hends _ _ rfl, hnodes, List.flatMap_assoc,
    List.flatMap_congr fun visit _ => flatMap_keptAfter_dueAt husages visit, List.append_nil]
  rfl

end

/-- What a completed unit keeps of the selected findings, moment by moment. -/
theorem Passes.filter_findings {registry : Registry} {r : Registration W S} {w : World W}
    {log : List (Answer W S)} {s : Session W S} {p : Finding → Bool}
    (h : Passes env r active w log true s) (hr : ofDetectors registry detectors = .ok r)
    (hordered : env.view.tree.Ordered) (hselects : Selects env detectors k p (onVisit found)) :
    s.unit.findings.filter p =
      (env.view.tree.visits Tree.root).flatMap fun visit =>
        if declares detectors env.view.tree.phase (triggerOf env.view.tree visit) k = true ∧
            active.getD k false = true then (found visit).filterMap (UnitState.kept env k)
        else [] := by
  cases h with
  | idle hempty =>
      exact (List.flatMap_eq_nil_iff.mpr fun visit _ =>
        if_neg (not_declares_of_idle hr hempty _)).symm
  | walked _ walk =>
      rw [(of_ofDetectors hr).1] at walk
      rw [walk.filter_findings hselects rfl List.not_mem_nil, flatMap_keptAfter_agenda hr hordered]
      rfl

/-- What a completed unit keeps of the findings of a detector, node by node. -/
theorem Passes.findings_of_reports {registry : Registry} {r : Registration W S} {w : World W}
    {log : List (Answer W S)} {s : Session W S} {found : NodeId → List Finding}
    (h : Passes env r active w log true s) (hr : ofDetectors registry detectors = .ok r)
    (hordered : env.view.tree.Ordered) (hx : detectors[k]? = some x)
    (hreports : x.Reports env (onEntry found)) :
    s.unit.findings.filter (·.detector == some k) =
      env.view.tree.ids.flatMap fun n =>
        if declares detectors env.view.tree.phase (.enter (env.view.tree.kind n)) k = true ∧
            active.getD k false = true then (found n).filterMap (UnitState.kept env k) else [] := by
  have hselects := selects_of_reports hx hreports
  rw [onEntry_eq_onVisit] at hselects
  rw [h.filter_findings hr hordered hselects, Tree.ids, ← hordered.isWalk.entered,
    List.filterMap_eq_flatMap_toList, List.flatMap_assoc]
  refine List.flatMap_congr fun visit _ => ?_
  cases visit with
  | enter n => simp [Visit.entered?, triggerOf]
  | leave n => simp [Visit.entered?]

end Unit

/-! ### Following findings to the sink -/

def Dossier.handedOnBy (d : Dossier W S) (k : Nat) : List Finding :=
  ((d.unit.findings.zip d.fates).filter (·.1.detector == some k)).filterMap (·.2.finding?)

theorem Dossier.handedOnBy_sublist {e : Engine W S} {facts : Facts} {d : Dossier W S}
    (h : List.Forall₂ (e.IsFate facts) d.unit.findings d.fates) (k : Nat) :
    (d.handedOnBy k).Sublist d.handedOn := by
  have hfates : (d.unit.findings.zip d.fates).map (·.2) = d.fates :=
    List.map_snd_zip (Nat.le_of_eq h.length_eq.symm)
  have hall : d.handedOn = (d.unit.findings.zip d.fates).filterMap (·.2.finding?) := by
    rw [handedOn, ← hfates, List.filterMap_map, hfates]
    rfl
  rw [hall]
  exact List.filter_sublist.filterMap _

/-- If each finding of a detector has one fate only, what is handed on of them
follows. -/
theorem Dossier.handedOnBy_eq {e : Engine W S} {facts : Facts} {d : Dossier W S} {k : Nat}
    (h : List.Forall₂ (e.IsFate facts) d.unit.findings d.fates) {settled : Finding → Option Finding}
    (hsettled : ∀ f ∈ d.unit.findings, f.detector = some k → ∀ fate, e.IsFate facts f fate →
      fate.finding? = settled f) :
    d.handedOnBy k = (d.unit.findings.filter (·.detector == some k)).filterMap settled := by
  rw [handedOnBy]
  generalize d.unit.findings = findings at h hsettled
  generalize d.fates = fates at h
  induction h with
  | nil => rfl
  | @cons f fate findings fates hfate _ ih =>
      obtain ⟨hf, hrest⟩ := List.forall_mem_cons.mp hsettled
      rw [List.zip_cons_cons, List.filter_cons, List.filter_cons]
      by_cases hk : f.detector = some k
      · rw [if_pos (beq_iff_eq.mpr hk), if_pos (beq_iff_eq.mpr hk), List.filterMap_cons,
          List.filterMap_cons, hf hk fate hfate, ih hrest]
      · rw [if_neg (by simpa using hk), if_neg (by simpa using hk), ih hrest]

end LintEngine
