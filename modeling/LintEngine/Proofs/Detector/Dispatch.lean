import LintEngine.Engine.Unit
import LintEngine.Proofs.Detector.Tables
import LintEngine.Proofs.Detector.Uses
import LintEngine.Proofs.Tree.Visits

/-!
Dispatch: which detectors are told what while a unit is walked.

The expected callbacks are written down without tables and schedules, from
what the detectors declared and from a walk through the tree. A run of
detectors that never fail, and that nobody cancels, then makes exactly these
callbacks in this order: it leaves the session that making them one after the
other leaves, whatever the detectors do with them. So detectors that write down
what they are told have these callbacks in their log.
-/

namespace LintEngine

open Registration

variable {W S : Type}

/-- A detector that neither fails nor cancels the run. -/
def Detector.Steady (env : Env W) (detector : Detector W S) : Prop :=
  ∀ e me desk, ∃ desk', ((detector.on e).run (env, me)).run desk = (.ok (), desk') ∧
    (desk.world.cancelled = false → desk'.world.cancelled = false)

abbrev Unit.Callback := Nat × Event

/-- A detector that writes down in the host what it is told, and takes nothing
out of the log. -/
def Detector.Logs (env : Env W) (log : W → List Unit.Callback) (detector : Detector W S) : Prop :=
  ∀ e me desk, log (((detector.on e).run (env, me)).run desk).2.world.host =
    log desk.world.host ++ [(me.index, e)]

namespace Unit

def invoke (env : Env W) (detectors : List (Detector W S)) (s : Session W S) (c : Callback) :
    Session W S :=
  match detectors[c.1]? with
  | some detector => call env c.1 detector c.2 s
  | none => s

/-! ### The callbacks that are due -/

section

variable (detectors : List (Detector W S)) (active : List Bool) (v : View)

def interested (trigger : Trigger) : List Nat :=
  positions detectors fun d =>
    declares detectors v.tree.phase trigger d && active.getD d false

def involved : List Nat :=
  positions detectors fun d => takesPart detectors v.tree.phase d && active.getD d false

/-- The trigger that the name of a node, or of what it creates, sets off, and
the event that comes with it. -/
def namedTrigger? (n : NodeId) : Option (Trigger × Event) :=
  match v.tree.kind n with
  | .call => (v.tree.name n).map fun name =>
      (.methodCall name, .call n ((v.resolveCall n).getD default))
  | .new => (v.tree.typeName n).map fun written =>
      let className := (v.qualifyType written n).getD written
      (.constructorCall className, .construct n className)
  | .xmlElement => (v.tree.name n).map fun name => (.xmlElement name, .element n)
  | .xmlAttribute => (v.tree.name n).map fun name => (.xmlAttribute name, .attribute_ n)
  | _ => none

def tellAll (trigger : Trigger) (e : Event) : List Callback :=
  (interested detectors active v trigger).map (·, e)

/-- What is due when a node is entered, but for uses of annotated elements. -/
def entryCallbacks (n : NodeId) : List Callback :=
  tellAll detectors active v (.enter (v.tree.kind n)) (.enter n) ++
    match namedTrigger? v n with
    | some (trigger, e) => tellAll detectors active v trigger e
    | none => []

def exitCallbacks (n : NodeId) : List Callback :=
  tellAll detectors active v (.exit (v.tree.kind n)) (.exit n)

/-- What is due at a moment of the walk; `usages` are the uses of annotated
elements that come with entering a node. -/
def dueAt (usages : NodeId → List Callback) : Visit → List Callback
  | .enter n => entryCallbacks detectors active v n ++ usages n
  | .leave n => exitCallbacks detectors active v n

def due (usages : NodeId → List Callback) : List Callback :=
  (involved detectors active v).map (·, .beforeUnit) ++
    (v.tree.visits Tree.root).flatMap (dueAt detectors active v usages) ++
    (involved detectors active v).map (·, .afterUnit)

/-- A callback about a use of an annotation that its detector asked for, by
the qualified name or, for a name without a point, by a name that ends in
it. -/
def IsDeclaredUsage (c : Callback) : Prop :=
  ∃ u q, c.2 = .usage u ∧ active.getD c.1 false = true ∧
    declares detectors v.tree.phase (.annotated q) c.1 = true ∧
    (q = u.ann.name ∨ ('.' ∉ u.ann.name.toList ∧ Text.lastField '.' q = u.ann.name))

end

/-! ### The callbacks of a schedule -/

def callback? (active : List Bool) : Step → Option Callback
  | .poll => none
  | .deliver d e => if active.getD d false then some (d, e) else none

def callbacks (active : List Bool) (steps : List Step) : List Callback :=
  steps.filterMap (callback? active)

theorem callbacks_append (active : List Bool) (steps more : List Step) :
    callbacks active (steps ++ more) = callbacks active steps ++ callbacks active more :=
  List.filterMap_append

theorem callbacks_deliverAll (active : List Bool) (ds : List Nat) (e : Event) :
    callbacks active (Walk.deliverAll ds e) =
      (ds.filter fun d => active.getD d false).map (·, e) := by
  rw [callbacks, Walk.deliverAll, List.filterMap_map]
  induction ds with
  | nil => rfl
  | cons d ds ih =>
      rw [List.filterMap_cons, List.filter_cons, ih, Function.comp_apply, callback?]
      cases active.getD d false <;> rfl

/-- What no finding changes is not changed by several. -/
theorem foldl_take_eq {α : Type} (get : UnitState S → α) {env : Env W} {me : Caller}
    (h : ∀ (u : UnitState S) f, get (u.take env me f) = get u) (fs : List Finding)
    (u : UnitState S) : get (fs.foldl (UnitState.take env me) u) = get u := by
  induction fs generalizing u with
  | nil => rfl
  | cons f fs ih => exact (ih _).trans (h u f)

theorem disabled_collect (env : Env W) (me : Caller) (u : UnitState S) (desk : Desk W S) :
    (u.collect env me desk).disabled = u.disabled := by
  refine foldl_take_eq UnitState.disabled (fun u f => ?_) _ _
  rw [UnitState.take, UnitState.commit]
  split
  · split <;> rfl
  · rfl

/-- A step of a steady detector leaves nobody disabled and the run alive. -/
theorem call_steady {env : Env W} {detector : Detector W S} (h : detector.Steady env) (d : Nat)
    (e : Event) {s : Session W S} (hd : s.unit.disabled = []) (hc : s.world.cancelled = false) :
    (call env d detector e s).unit.disabled = [] ∧
      (call env d detector e s).world.cancelled = false := by
  obtain ⟨desk', hrun, hcancel⟩ :=
    h e { index := d, name := detector.name, known := s.unit.facts } (desk d s)
  rw [call]
  simp only [hrun]
  exact ⟨(disabled_collect ..).trans hd, hcancel hc⟩

theorem log_call {env : Env W} {detector : Detector W S} {log : W → List Callback}
    (h : detector.Logs env log) (d : Nat) (e : Event) (s : Session W S) :
    log (call env d detector e s).world.host = log s.world.host ++ [(d, e)] := by
  let me : Caller := { index := d, name := detector.name, known := s.unit.facts }
  have hlog := h e me (desk d s)
  rw [call]
  cases hrun : ((detector.on e).run (env, me)).run (desk d s) with
  | mk outcome desk' =>
      rw [hrun] at hlog
      cases outcome <;> exact hlog

/-- Following a schedule makes its callbacks, one after the other. -/
theorem follow_steady {env : Env W} {detectors : List (Detector W S)}
    (h : ∀ detector ∈ detectors, detector.Steady env) (active : List Bool) (steps : List Step)
    {s : Session W S} (hd : s.unit.disabled = []) (hc : s.world.cancelled = false) :
    follow env detectors active steps s =
      (true, (callbacks active steps).foldl (invoke env detectors) s) := by
  induction steps generalizing s with
  | nil => rfl
  | cons step steps ih =>
      cases step with
      | poll =>
          rw [follow, hc]
          exact ih hd hc
      | deliver d e =>
          rw [follow, callbacks, List.filterMap_cons, callback?]
          -- a detector that is not active is skipped by both
          by_cases ha : active.getD d false = true
          · rw [if_pos ha, ha, List.foldl_cons, invoke]
            cases hdet : detectors[d]? with
            | none => exact ih hd hc
            | some detector =>
                have hstep : deliver env d detector e s = call env d detector e s := by
                  rw [deliver, hd]
                  rfl
                simp only [hstep]
                obtain ⟨hd', hc'⟩ :=
                  call_steady (h detector (List.mem_of_getElem? hdet)) d e hd hc
                exact ih hd' hc'
          · rw [if_neg ha, Bool.eq_false_iff.mpr ha]
            exact ih hd hc

/-! ### The schedule of a unit -/

section

variable {detectors : List (Detector W S)} (active : List Bool) {w : Walk}
  (hw : w.table = tableOf detectors w.view.tree.phase)

include hw

theorem callbacks_listed (trigger : Trigger) (e : Event) :
    callbacks active (Walk.deliverAll (w.table.listed trigger) e) =
      tellAll detectors active w.view trigger e := by
  rw [callbacks_deliverAll, hw, listed_tableOf, tellAll, interested, positions, positions,
    List.filter_filter]
  simp only [Bool.and_comm]

theorem callbacks_exitSteps (n : NodeId) :
    callbacks active (w.exitSteps n) = exitCallbacks detectors active w.view n :=
  callbacks_listed active hw (.exit _) _

def IsUsageStep (w : Walk) (step : Step) : Prop :=
  ∃ d u, step = .deliver d (.usage u) ∧ d ∈ w.table.onAnnotation u.ann.name

omit hw in
theorem isUsageStep_of_mem_useSteps {us : List Usage} {step : Step}
    (h : step ∈ Walk.useSteps w.table us) : IsUsageStep w step := by
  obtain ⟨u, -, h⟩ := List.mem_flatMap.mp h
  obtain ⟨d, hd, rfl⟩ := List.mem_map.mp h
  exact ⟨d, u, rfl, hd⟩

theorem isDeclaredUsage_of_step {step : Step} (h : IsUsageStep w step) {c : Callback}
    (hc : callback? active step = some c) : IsDeclaredUsage detectors active w.view c := by
  obtain ⟨d, u, rfl, hd⟩ := h
  rw [callback?] at hc
  split at hc
  · rename_i ha
    cases hc
    have hdistinct : w.table.NamesDistinct := hw ▸ namesDistinct_tableOf ..
    obtain ⟨q, hq, hname⟩ := DispatchTable.annotated_of_mem hdistinct hd
    rw [hw, listed_tableOf] at hq
    exact ⟨u, q, rfl, ha, (List.mem_filter.mp hq).2, hname⟩
  · cases hc

end

theorem resolveCall_of_nameless {v : View} {n : NodeId} (h : v.tree.name n = none) :
    v.resolveCall n = none := by
  rw [View.resolveCall, View.bound, Nat.mul_add, View.callWithin, h]
  rfl

/-- A call with a name is always bound to something. -/
theorem resolveCall_of_name {v : View} {n : NodeId} {name : String}
    (h : v.tree.name n = some name) : ∃ m, v.resolveCall n = some m := by
  rw [View.resolveCall, View.bound, Nat.mul_add, View.callWithin, h]
  exact ⟨_, rfl⟩

def triggerSteps (w : Walk) (n : NodeId) : List Step :=
  match namedTrigger? w.view n with
  | some (trigger, e) => Walk.deliverAll (w.table.listed trigger) e
  | none => []

theorem callSteps_eq (w : Walk) {n : NodeId} (hk : w.view.tree.kind n = .call) :
    w.callSteps n = triggerSteps w n ++ Walk.useSteps w.table (w.view.callUses n) := by
  rw [Walk.callSteps, triggerSteps, namedTrigger?, View.callUses, hk]
  cases hname : w.view.tree.name n with
  | none =>
      rw [resolveCall_of_nameless hname]
      rfl
  | some name =>
      obtain ⟨m, hm⟩ := resolveCall_of_name hname
      rw [hm]
      refine congrArg (_ ++ ·) ?_
      cases hwants : w.wantsAnnotations with
      | false => rw [Walk.useSteps_of_not_wants hwants, Bool.false_and, if_neg Bool.false_ne_true]
      | true =>
          rw [Bool.true_and, Walk.usageSteps_eq, Walk.argumentSteps_eq, ← Walk.useSteps_append]
          simp only
          split <;> rfl

theorem creationSteps_eq (w : Walk) {n : NodeId} (hk : w.view.tree.kind n = .new) :
    w.creationSteps n = triggerSteps w n ++ Walk.useSteps w.table (w.view.creationUses n) := by
  rw [Walk.creationSteps, triggerSteps, namedTrigger?, View.creationUses, View.createdClass?, hk]
  cases w.view.tree.typeName n with
  | none => rfl
  | some written =>
      refine congrArg (_ ++ ·) ?_
      cases hwants : w.wantsAnnotations with
      | false => rw [Walk.useSteps_of_not_wants hwants]
      | true =>
          -- which constructor is bound does not depend on the table
          have hbound : w.constructor? n ((w.view.qualifyType written n).getD written) =
              (⟨w.view, {}⟩ : Walk).constructor? n ((w.view.qualifyType written n).getD written) :=
            rfl
          simp only [hbound, Option.map_some, Option.bind_some]
          split
          · rename_i hm
            rw [hm]
            exact w.argumentSteps_eq n _
          · rename_i hnone
            split
            · rename_i m hm
              exact (hnone m rfl hm).elim
            · rfl

/-- What a node's name sets off comes before the uses of annotated elements,
and there is nothing else. -/
theorem namedSteps_eq (w : Walk) (n : NodeId) :
    w.namedSteps n = triggerSteps w n ++ Walk.useSteps w.table (w.view.uses n) := by
  rw [Walk.namedSteps, View.uses]
  cases hk : w.view.tree.kind n
  case call => exact callSteps_eq w hk
  case new => exact creationSteps_eq w hk
  case annotationUse =>
    simp only [triggerSteps, namedTrigger?, hk, List.nil_append]
    exact w.definitionSteps_eq n
  case field | localVariable =>
    simp only [triggerSteps, namedTrigger?, hk, List.nil_append]
    exact w.variableSteps_eq n
  case xmlElement | xmlAttribute =>
    rw [triggerSteps, namedTrigger?, hk]
    cases w.view.tree.name n <;> simp [Walk.useSteps, DispatchTable.listed, Walk.deliverAll]
  all_goals simp [triggerSteps, namedTrigger?, hk, Walk.useSteps]

theorem callbacks_enterSteps {detectors : List (Detector W S)} (active : List Bool) {w : Walk}
    (hw : w.table = tableOf detectors w.view.tree.phase) (n : NodeId) :
    ∃ usages, (∀ c ∈ usages, IsDeclaredUsage detectors active w.view c) ∧
      callbacks active (w.enterSteps n) = entryCallbacks detectors active w.view n ++ usages := by
  refine ⟨callbacks active (Walk.useSteps w.table (w.view.uses n)), fun c hc => ?_, ?_⟩
  · obtain ⟨step, hstep, hc⟩ := List.mem_filterMap.mp hc
    exact isDeclaredUsage_of_step active hw (isUsageStep_of_mem_useSteps hstep) hc
  · have hkind := callbacks_listed active hw (.enter (w.view.tree.kind n)) (.enter n)
    have htrigger : callbacks active (triggerSteps w n) = match namedTrigger? w.view n with
        | some (trigger, e) => tellAll detectors active w.view trigger e
        | none => [] := by
      rw [triggerSteps]
      split
      · exact callbacks_listed active hw _ _
      · rfl
    rw [Walk.enterSteps, namedSteps_eq, callbacks_append, callbacks_append, htrigger,
      entryCallbacks, List.append_assoc]
    exact congrArg (· ++ _) hkind

/-- The steps of a node are what is due on the walk through it. -/
theorem callbacks_nodeSteps {detectors : List (Detector W S)} {active : List Bool} {w : Walk}
    (hw : w.table = tableOf detectors w.view.tree.phase) (ht : w.view.tree.Ordered)
    {usages : NodeId → List Callback}
    (husages : ∀ n, callbacks active (w.enterSteps n) =
      entryCallbacks detectors active w.view n ++ usages n) {n : Nat} (hn : n < w.view.tree.size) :
    callbacks active (w.nodeSteps n) =
      (w.view.tree.visits n).flatMap (dueAt detectors active w.view usages) := by
  refine ht.childInduction (motive := fun n => callbacks active (w.nodeSteps n) =
    (w.view.tree.visits n).flatMap (dueAt detectors active w.view usages)) hn fun n _ ih => ?_
  have hchildren : callbacks active ((w.view.tree.children n).flatMap w.nodeSteps) =
      ((w.view.tree.children n).flatMap w.view.tree.visits).flatMap
        (dueAt detectors active w.view usages) := by
    rw [callbacks, List.filterMap_flatMap, List.flatMap_assoc]
    exact List.flatMap_congr ih
  have hpoll : callbacks active
      (if w.view.tree.parent n == some Tree.root then [Step.poll] else []) = [] := by
    split <;> rfl
  rw [Walk.nodeSteps, ht.flatMap_children, callbacks_append, callbacks_append, callbacks_append,
    hpoll, husages, hchildren, callbacks_exitSteps active hw, ht.visits_eq, List.flatMap_append,
    List.flatMap_cons, List.flatMap_singleton]
  rfl

/-! ### A run -/

theorem interested_subset_involved (detectors : List (Detector W S)) (active : List Bool)
    (v : View) (trigger : Trigger) {d : Nat} (h : d ∈ interested detectors active v trigger) :
    d ∈ involved detectors active v := by
  rw [interested, positions, List.mem_filter, Bool.and_eq_true] at h
  rw [involved, positions, List.mem_filter, Bool.and_eq_true]
  exact ⟨h.1, takesPart_of_declares h.2.1, h.2.2⟩

theorem IsDeclaredUsage.involved {detectors : List (Detector W S)} {active : List Bool}
    {v : View} {c : Callback} (h : IsDeclaredUsage detectors active v c) :
    c.1 ∈ Unit.involved detectors active v := by
  obtain ⟨u, q, -, hactive, hdeclares, -⟩ := h
  apply interested_subset_involved detectors active v (.annotated q)
  obtain ⟨detector, hd, -⟩ := declares_eq_true.mp hdeclares
  have hlt : c.1 < detectors.length := (List.getElem?_eq_some_iff.mp hd).1
  rw [interested, positions, List.mem_filter, hdeclares, hactive]
  exact ⟨List.mem_range.mpr hlt, rfl⟩

/-- Only detectors that take part are ever told anything. -/
theorem involved_of_mem_due {detectors : List (Detector W S)} {active : List Bool} {v : View}
    {usages : NodeId → List Callback}
    (husages : ∀ n, ∀ c ∈ usages n, IsDeclaredUsage detectors active v c) {c : Callback}
    (h : c ∈ due detectors active v usages) : c.1 ∈ involved detectors active v := by
  have htold : ∀ trigger e, c ∈ tellAll detectors active v trigger e →
      c.1 ∈ involved detectors active v := by
    intro trigger e hc
    obtain ⟨d, hd, rfl⟩ := List.mem_map.mp hc
    exact interested_subset_involved detectors active v trigger hd
  rw [due, List.mem_append, List.mem_append] at h
  rcases h with (h | h) | h
  · obtain ⟨d, hd, rfl⟩ := List.mem_map.mp h
    exact hd
  · obtain ⟨moment, -, h⟩ := List.mem_flatMap.mp h
    cases moment with
    | enter n =>
        rw [dueAt, entryCallbacks, List.mem_append, List.mem_append] at h
        rcases h with (h | h) | h
        · exact htold _ _ h
        · split at h
          · exact htold _ _ h
          · cases h
        · exact (husages n c h).involved
    | leave n => exact htold _ _ h
  · obtain ⟨d, hd, rfl⟩ := List.mem_map.mp h
    exact hd

theorem lt_length_of_mem_involved {detectors : List (Detector W S)} {active : List Bool} {v : View}
    {d : Nat} (h : d ∈ involved detectors active v) : d < detectors.length := by
  rw [involved, positions, List.mem_filter] at h
  exact List.mem_range.mp h.1

/-- Callbacks of detectors that write them down leave themselves in the log. -/
theorem log_foldl_invoke {env : Env W} {detectors : List (Detector W S)} {log : W → List Callback}
    (h : ∀ detector ∈ detectors, detector.Logs env log) {cs : List Callback}
    (hcs : ∀ c ∈ cs, c.1 < detectors.length) (s : Session W S) :
    log (cs.foldl (invoke env detectors) s).world.host = log s.world.host ++ cs := by
  induction cs generalizing s with
  | nil => rw [List.foldl_nil, List.append_nil]
  | cons c cs ih =>
      obtain ⟨hc, hcs⟩ := List.forall_mem_cons.mp hcs
      have hhead : log (invoke env detectors s c).world.host = log s.world.host ++ [c] := by
        rw [invoke, List.getElem?_eq_getElem hc]
        exact log_call (h _ (List.getElem_mem hc)) c.1 c.2 s
      rw [List.foldl_cons, ih hcs, hhead, List.append_assoc]
      rfl

theorem run_eq_foldl_due {registry : Registry} {detectors : List (Detector W S)}
    {r : Registration W S} (hr : ofDetectors registry detectors = .ok r) {env : Env W}
    (hordered : env.view.tree.Ordered) (hsteady : ∀ detector ∈ detectors, detector.Steady env)
    {active : List Bool} {usages : NodeId → List Callback}
    (husages : ∀ n, ∀ c ∈ usages n, IsDeclaredUsage detectors active env.view c)
    (henter : ∀ n, callbacks active
      (({ view := env.view, table := r.tables env.view.tree.phase } : Walk).enterSteps n) =
        entryCallbacks detectors active env.view n ++ usages n)
    {world : World W} (hcancelled : world.cancelled = false) :
    run env r active world =
      (true, (due detectors active env.view usages).foldl (invoke env detectors) { world }) := by
  obtain ⟨hdetectors, htables⟩ := of_ofDetectors hr
  let w : Walk := { view := env.view, table := r.tables env.view.tree.phase }
  have hw : w.table = tableOf detectors w.view.tree.phase := htables _
  -- the table holds positions, the definition of `due` goes by what detectors declare
  have hparticipants : (w.table.participants.filter fun d => active.getD d false) =
      involved detectors active env.view := by
    rw [hw, participants_tableOf, involved, positions, positions, List.filter_filter]
    simp only [Bool.and_comm]
    rfl
  rw [run]
  simp only []
  rw [show r.tables env.view.tree.phase = w.table from rfl, hparticipants, hdetectors]
  split
  · rename_i hempty
    -- Nobody takes part, and then nothing is due.
    have hnil : due detectors active env.view usages = [] := by
      refine List.eq_nil_iff_forall_not_mem.mpr fun c hc => ?_
      have hmem := involved_of_mem_due husages hc
      rw [List.isEmpty_iff.mp hempty] at hmem
      cases hmem
    rw [hnil]
    rfl
  · have hself : (involved detectors active env.view).filter (fun d => active.getD d false) =
        involved detectors active env.view := by
      rw [← hparticipants, List.filter_filter]
      simp only [Bool.and_self]
    have hnodes : callbacks active (w.nodeSteps Tree.root) =
        (env.view.tree.visits Tree.root).flatMap (dueAt detectors active env.view usages) :=
      callbacks_nodeSteps hw hordered henter hordered.pos
    rw [follow_steady hsteady active _ rfl hcancelled, Walk.schedule, callbacks_append,
      callbacks_append, callbacks_deliverAll, callbacks_deliverAll, hself, due, ← hnodes]

/-- A run over a unit makes exactly the callbacks that are due, in order, and
detectors that write down what they are told have written down just these. -/
theorem run_makes_due_callbacks {registry : Registry} {detectors : List (Detector W S)}
    {r : Registration W S} (hr : ofDetectors registry detectors = .ok r) {env : Env W}
    {b : Builder} (hb : b.Made) (htree : env.view.tree = b.build)
    (hsteady : ∀ detector ∈ detectors, detector.Steady env) (active : List Bool)
    {world : World W} (hcancelled : world.cancelled = false) :
    ∃ usages : NodeId → List Callback,
      (∀ n, ∀ c ∈ usages n, IsDeclaredUsage detectors active env.view c) ∧
      env.view.tree.IsWalk (env.view.tree.visits Tree.root) ∧
      run env r active world =
        (true, (due detectors active env.view usages).foldl (invoke env detectors) { world }) ∧
      ∀ log : W → List Callback, (∀ detector ∈ detectors, detector.Logs env log) →
        log (run env r active world).2.world.host =
          log world.host ++ due detectors active env.view usages := by
  have hordered : env.view.tree.Ordered := htree ▸ hb.ordered
  let w : Walk := { view := env.view, table := r.tables env.view.tree.phase }
  have hw : w.table = tableOf detectors w.view.tree.phase := (of_ofDetectors hr).2 _
  choose usages husages henter using callbacks_enterSteps active hw
  have hrun := run_eq_foldl_due hr hordered hsteady husages henter hcancelled
  refine ⟨usages, husages, hordered.isWalk, hrun, fun log hlog => ?_⟩
  rw [hrun]
  exact log_foldl_invoke hlog
    (fun c hc => lt_length_of_mem_involved (involved_of_mem_due husages hc)) _

def recorder (name : String) (triggers : List Trigger) : Detector (List Callback) Unit where
  name := name
  issues := []
  interests := triggers.map (⟨.xml, ·⟩)
  on e := do
    let (_, me) ← read
    Task.updateHost (· ++ [(me.index, e)])

/-- The third of these is switched off below. -/
def recorders : List (Detector (List Callback) Unit) :=
  [recorder "elements" [.enter .xmlElement, .exit .xmlElement, .xmlElement "item"],
    recorder "names" [.xmlAttribute "name"],
    recorder "idle" [.enter .xmlElement]]

def recorded : Builder :=
  ((((Builder.start default .xml .manifest none default).enter
    { kind := .xmlElement, name := some "list" }).leaf
    { kind := .xmlAttribute, name := some "name" }).leaf
    { kind := .xmlElement, name := some "item" }).leave

def recordedEnv : Env (List Callback) where
  view := { tree := recorded.build, symbols := default }
  config := default
  registry := default

theorem exists_recorder_of_mem {detector : Detector (List Callback) Unit}
    (h : detector ∈ recorders) :
    ∃ name triggers, (∀ q, .annotated q ∉ triggers) ∧ detector = recorder name triggers := by
  simp only [recorders, List.mem_cons, List.not_mem_nil, or_false] at h
  rcases h with rfl | rfl | rfl <;> exact ⟨_, _, by simp, rfl⟩

theorem recorders_make_due_callbacks :
    ∃ r, ofDetectors default recorders = .ok r ∧
      (run recordedEnv r [true, true] { host := [] }).2.world.host =
        [(0, .beforeUnit), (1, .beforeUnit), (0, .enter 1), (1, .attribute_ 2), (0, .enter 3),
          (0, .element 3), (0, .exit 3), (0, .exit 1), (0, .afterUnit), (1, .afterUnit)] := by
  have hb : recorded.Made := ((((Builder.Made.start ..).enter _).leaf _).leaf _).leave
  have hsteady : ∀ detector ∈ recorders, detector.Steady recordedEnv := by
    intro detector hd
    obtain ⟨name, triggers, -, rfl⟩ := exists_recorder_of_mem hd
    exact fun _ _ _ => ⟨_, rfl, id⟩
  have hlogs : ∀ detector ∈ recorders, detector.Logs recordedEnv id := by
    intro detector hd
    obtain ⟨name, triggers, -, rfl⟩ := exists_recorder_of_mem hd
    exact fun _ _ _ => rfl
  have hr : ∃ r, ofDetectors default recorders = .ok r := ⟨_, rfl⟩
  obtain ⟨r, hr⟩ := hr
  obtain ⟨usages, husages, -, -, hlog⟩ := run_makes_due_callbacks hr hb rfl hsteady [true, true]
    (show ({ host := [] } : World (List Callback)).cancelled = false from rfl)
  -- nobody asks for an annotation
  have hnone : usages = fun _ => [] := by
    funext n
    refine List.eq_nil_iff_forall_not_mem.mpr fun c hc => ?_
    obtain ⟨u, q, -, -, hdeclares, -⟩ := husages n c hc
    obtain ⟨detector, hd, hmem⟩ := declares_eq_true.mp hdeclares
    obtain ⟨name, triggers, hq, rfl⟩ := exists_recorder_of_mem (List.mem_of_getElem? hd)
    obtain ⟨trigger, htrigger, heq⟩ := List.mem_map.mp hmem
    exact hq q ((Interest.mk.inj heq).2 ▸ htrigger)
  refine ⟨r, hr, (hlog id hlogs).trans ?_⟩
  rw [hnone]
  with_unfolding_all rfl

end Unit

end LintEngine
