import LintEngine.Proofs.Detector.Dispatch

/-!
What one unit keeps of what detectors hand in, and whom its schedule names.

Findings and facts are kept in the order in which they come in. The schedule
names the detectors that take part and are active, and a unit without any is not
walked.
-/

namespace LintEngine

/-! ### Facts -/

namespace Facts

theorem get?_record (f : Facts) (key : String) (v : DataValue) (k : String) :
    (f.record key v).get? k = (f.get? k).or (if k == key then some v else none) := by
  rw [record]
  split
  · rename_i hsome
    by_cases hk : k = key
    · subst hk
      obtain ⟨value, hvalue⟩ := Option.isSome_iff_exists.mp hsome
      rw [hvalue]
      rfl
    · rw [beq_eq_false_iff_ne.mpr hk]
      simp
  · rw [get?, List.lookup_append, get?, List.lookup_cons, List.lookup_nil]
    cases k == key <;> rfl

/-- Recorded facts fill the gaps. -/
theorem get?_foldl_record (data : Data) (f : Facts) (k : String) :
    (data.foldl (fun f e => f.record e.1 e.2) f).get? k = (f.get? k).or (data.lookup k) := by
  induction data generalizing f with
  | nil => simp
  | cons e data ih =>
      rw [List.foldl_cons, ih, get?_record, Option.or_assoc, List.lookup_cons]
      cases k == e.1 <;> rfl

theorem get?_merge (f g : Facts) (k : String) : (f.merge g).get? k = (f.get? k).or (g.get? k) :=
  get?_foldl_record g.entries f k

end Facts

/-! ### What a unit keeps -/

namespace UnitState

variable {W S : Type}

def kept (env : Env W) (d : Nat) (f : Finding) : Option Finding :=
  if env.registry.contains f.issue then
    match env.config.check f.issue env.view.tree f.anchor with
    | .keep severity => some { f with detector := some d, severity }
    | .drop _ => none
  else none

theorem findings_take (env : Env W) (me : Caller) (u : UnitState S) (f : Finding) :
    (u.take env me f).findings = u.findings ++ (kept env me.index f).toList := by
  rw [take, kept]
  split
  · rw [commit]
    cases env.config.check f.issue env.view.tree f.anchor <;> simp
  · simp

theorem facts_take (env : Env W) (me : Caller) (u : UnitState S) (f : Finding) :
    (u.take env me f).facts = u.facts := by
  rw [take, commit]
  split
  · split <;> rfl
  · rfl

/-- A list to which every finding adds at most one entry. -/
theorem foldl_append_eq {α : Type} {get : UnitState S → List α} {out : Finding → Option α}
    {env : Env W} {me : Caller} (h : ∀ u f, get (u.take env me f) = get u ++ (out f).toList)
    (fs : List Finding) (u : UnitState S) :
    get (fs.foldl (take env me) u) = get u ++ fs.filterMap out := by
  induction fs generalizing u with
  | nil => simp
  | cons f fs ih =>
      rw [List.foldl_cons, ih, h, List.append_assoc, List.filterMap_cons]
      cases out f <;> rfl

theorem findings_collect (env : Env W) (me : Caller) (u : UnitState S) (desk : Desk W S) :
    (u.collect env me desk).findings =
      u.findings ++ desk.reports.filterMap (kept env me.index) :=
  foldl_append_eq (findings_take env me) _ _

theorem facts_collect (env : Env W) (me : Caller) (u : UnitState S) (desk : Desk W S)
    (k : String) :
    (u.collect env me desk).facts.get? k = (u.facts.get? k).or (desk.recorded.lookup k) := by
  rw [collect, Unit.foldl_take_eq UnitState.facts (facts_take env me)]
  exact Facts.get?_foldl_record ..

theorem slots_take (env : Env W) (me : Caller) (u : UnitState S) (f : Finding) :
    (u.take env me f).slots = u.slots := by
  rw [take, commit]
  split
  · split <;> rfl
  · rfl

/-- A desk changes the private state of its own detector only. -/
theorem slots_collect (env : Env W) (me : Caller) (u : UnitState S) (desk : Desk W S) (d : Nat) :
    (u.collect env me desk).slots.lookup d =
      if d = me.index then desk.slot.or (u.slots.lookup d) else u.slots.lookup d := by
  rw [collect, Unit.foldl_take_eq UnitState.slots (slots_take env me)]
  cases desk.slot with
  | none => simp
  | some slot =>
      simp only [List.lookup_cons, Option.some_or]
      by_cases hd : d = me.index
      · simp [hd]
      · have hothers : (u.slots.filter (·.1 != me.index)).lookup d = u.slots.lookup d := by
          induction u.slots with
          | nil => rfl
          | cons slot slots ih =>
              rw [List.filter_cons, List.lookup_cons]
              split
              · rw [List.lookup_cons, ih]
              · rename_i hown
                have hown : slot.1 = me.index := by simpa using hown
                rw [ih, beq_false_of_ne (hown ▸ hd)]
        rw [beq_false_of_ne hd, if_neg hd]
        exact hothers

/-- What a finding that a detector hands in comes to, if its issue is not
registered. -/
def complaint (env : Env W) (name : String) (f : Finding) : Option Failure :=
  if env.registry.contains f.issue then none
  else some
    { detector := name
      file := env.view.tree.file
      message := "reported unregistered issue `" ++ f.issue.id ++ "`" }

theorem failures_take (env : Env W) (me : Caller) (u : UnitState S) (f : Finding) :
    (u.take env me f).failures = u.failures ++ (complaint env me.name f).toList := by
  rw [take, complaint]
  split
  · rw [commit]
    split <;> simp
  · rfl

theorem failures_collect (env : Env W) (me : Caller) (u : UnitState S) (desk : Desk W S) :
    (u.collect env me desk).failures =
      u.failures ++ desk.reports.filterMap (complaint env me.name) :=
  foldl_append_eq (failures_take env me) _ _

theorem issue_kept {env : Env W} {d : Nat} {f g : Finding} (h : kept env d f = some g) :
    ∃ severity, g = { f with detector := some d, severity } := by
  rw [kept] at h
  split at h
  · split at h
    · cases h
      exact ⟨_, rfl⟩
    · cases h
  · cases h

/-- Selecting by what is kept as it is can be done before or after. -/
theorem filter_filterMap_of_kept {p : Finding → Bool}
    (hp : ∀ (f : Finding) detector severity, p { f with detector, severity } = p f) (env : Env W)
    (d : Nat) (fs : List Finding) :
    (fs.filterMap (kept env d)).filter p = (fs.filter p).filterMap (kept env d) := by
  induction fs with
  | nil => rfl
  | cons f fs ih =>
      rw [List.filterMap_cons, List.filter_cons]
      cases hk : kept env d f with
      | none =>
          rw [ih]
          split
          · rw [List.filterMap_cons, hk]
          · rfl
      | some g =>
          obtain ⟨severity, rfl⟩ := issue_kept hk
          simp only [List.filter_cons, ih, hp]
          split
          · rw [List.filterMap_cons, hk]
          · rfl

theorem filter_filterMap_kept (env : Env W) (d : Nat) (x : String) (fs : List Finding) :
    (fs.filterMap (kept env d)).filter (·.issue.id != x) =
      (fs.filter (·.issue.id != x)).filterMap (kept env d) :=
  filter_filterMap_of_kept (fun _ _ _ => rfl) env d fs

end UnitState

namespace Unit

variable {W S : Type}

/-! ### The schedule of a unit

The schedule names the detectors that take part and are active, and a unit
without any is not walked. Neither matters: a schedule with all participants
leaves the same. -/

def isHeard (active : List Bool) : Step → Bool
  | .poll => true
  | .deliver d _ => active.getD d false

theorem follow_filter (env : Env W) (detectors : List (Detector W S)) (active : List Bool)
    (steps : List Step) (s : Session W S) :
    follow env detectors active (steps.filter (isHeard active)) s =
      follow env detectors active steps s := by
  induction steps generalizing s with
  | nil => rfl
  | cons step steps ih =>
      cases step with
      | poll =>
          rw [List.filter_cons_of_pos rfl, follow, follow]
          split
          · rfl
          · exact ih s
      | deliver d e =>
          by_cases ha : active.getD d false = true
          · have hheard : isHeard active (.deliver d e) = true := ha
            rw [List.filter_cons_of_pos hheard, follow, follow]
            split <;> exact ih _
          · have hheard : ¬isHeard active (.deliver d e) = true := ha
            rw [List.filter_cons_of_neg hheard, follow, Bool.eq_false_iff.mpr ha]
            exact ih s

theorem filter_deliverAll (active : List Bool) (ds : List Nat) (e : Event) :
    (Walk.deliverAll ds e).filter (isHeard active) =
      Walk.deliverAll (ds.filter fun d => active.getD d false) e := by
  rw [Walk.deliverAll, List.filter_map]
  rfl

/-- Steps that nobody active is told leave everything as it is. -/
theorem follow_of_unheard (env : Env W) (detectors : List (Detector W S)) {active : List Bool}
    {steps : List Step} (h : ∀ d e, .deliver d e ∈ steps → active.getD d false = false)
    {s : Session W S} (hs : s.world.cancelled = false) :
    follow env detectors active steps s = (true, s) := by
  induction steps with
  | nil => rfl
  | cons step steps ih =>
      have ih := ih fun d e hmem => h d e (List.mem_cons_of_mem _ hmem)
      cases step with
      | poll =>
          rw [follow, hs]
          exact ih
      | deliver d e =>
          rw [follow, h d e List.mem_cons_self]
          exact ih

section

variable {detectors : List (Detector W S)} {w : Walk}
  (hw : w.table = Registration.tableOf detectors w.view.tree.phase)

include hw

theorem mem_participants_of_listed {trigger : Trigger} {d : Nat}
    (h : d ∈ w.table.listed trigger) : d ∈ w.table.participants := by
  rw [hw, Registration.listed_tableOf, Registration.positions, List.mem_filter] at h
  rw [hw, Registration.participants_tableOf, Registration.positions, List.mem_filter]
  exact ⟨h.1, Registration.takesPart_of_declares h.2⟩

theorem mem_participants_of_deliverAll (trigger : Trigger) {d : Nat} {e e' : Event}
    (h : .deliver d e ∈ Walk.deliverAll (w.table.listed trigger) e') :
    d ∈ w.table.participants := by
  obtain ⟨d', hd', heq⟩ := List.mem_map.mp h
  cases heq
  exact mem_participants_of_listed hw hd'

theorem mem_participants_of_enterSteps {n : NodeId} {d : Nat} {e : Event}
    (h : .deliver d e ∈ w.enterSteps n) : d ∈ w.table.participants := by
  rcases List.mem_append.mp h with h | h
  · exact mem_participants_of_deliverAll hw (.enter (w.view.tree.kind n)) h
  · rw [namedSteps_eq] at h
    rcases List.mem_append.mp h with h | h
    · rw [triggerSteps] at h
      split at h
      · exact mem_participants_of_deliverAll hw _ h
      · cases h
    · obtain ⟨d', u, heq, hd'⟩ := isUsageStep_of_mem_useSteps h
      cases heq
      have hdistinct : w.table.NamesDistinct := hw ▸ Registration.namesDistinct_tableOf ..
      obtain ⟨q, hq, -⟩ := DispatchTable.annotated_of_mem hdistinct hd'
      exact mem_participants_of_listed hw hq

/-- Only participants are told anything. -/
theorem mem_participants_of_nodeSteps {n : NodeId} {d : Nat} {e : Event}
    (h : .deliver d e ∈ w.nodeSteps n) : d ∈ w.table.participants := by
  induction hm : w.view.tree.size - n using Nat.strongRecOn generalizing n with
  | _ m ih =>
      rw [Walk.nodeSteps, List.mem_append, List.mem_append, List.mem_append] at h
      rcases h with ((h | h) | h) | h
      · split at h
        · cases List.mem_singleton.mp h
        · cases h
      · exact mem_participants_of_enterSteps hw h
      · obtain ⟨c, -, h⟩ := List.mem_flatMap.mp h
        split at h
        · rename_i hbelow
          exact ih _ (hm ▸ Tree.size_sub_lt_of_below hbelow) h rfl
        · cases h
      · exact mem_participants_of_deliverAll hw (.exit (w.view.tree.kind n)) h

theorem mem_participants_of_schedule {ds : List Nat} (hds : ∀ d ∈ ds, d ∈ w.table.participants)
    {d : Nat} {e : Event} (h : .deliver d e ∈ w.schedule ds) : d ∈ w.table.participants := by
  have hends : ∀ e', .deliver d e ∈ Walk.deliverAll ds e' → d ∈ w.table.participants := by
    intro e' h
    obtain ⟨d', hd', heq⟩ := List.mem_map.mp h
    cases heq
    exact hds d hd'
  rw [Walk.schedule, List.mem_append, List.mem_append] at h
  rcases h with (h | h) | h
  · exact hends _ h
  · exact mem_participants_of_nodeSteps hw h
  · exact hends _ h

end

theorem run_eq_follow {r : Registration W S}
    (hr : ∀ phase, r.tables phase = Registration.tableOf r.detectors phase) (env : Env W)
    (active : List Bool) {world : World W} (hworld : world.cancelled = false) :
    let w : Walk := { view := env.view, table := r.tables env.view.tree.phase }
    run env r active world =
      follow env r.detectors active (w.schedule w.table.participants) { world } := by
  intro w
  have hw : w.table = Registration.tableOf r.detectors w.view.tree.phase := hr _
  rw [run]
  split
  · rename_i hempty
    -- the unit is not walked, and walking it would have told nobody
    have hidle : ∀ d ∈ w.table.participants, active.getD d false = false := by
      intro d hd
      have := List.filter_eq_nil_iff.mp (List.isEmpty_iff.mp hempty) d hd
      simpa using this
    refine (follow_of_unheard env r.detectors (fun d e h => hidle d ?_) hworld).symm
    exact mem_participants_of_schedule hw (fun _ hd => hd) h
  · rw [← follow_filter, ← follow_filter env r.detectors active (w.schedule w.table.participants)]
    simp only [Walk.schedule, List.filter_append, filter_deliverAll, List.filter_filter,
      Bool.and_self]
    rfl

end Unit

end LintEngine
