import LintEngine.Proofs.Engine.Independence
import LintEngine.Proofs.Engine.Issues
import LintEngine.Proofs.Rules.NewApi
import LintEngine.Proofs.Rules.Switches

/-!
The missing cases of switches, as they are reported.

Findings about switches come from one detector, when a switch is left, and they
stand as they are handed in. Those about missing cases say one name each, and
the report puts the names of one place together. So a switch that is alone at its
place is reported once, with all its missing cases. Two switches can share a
place, where units share a file or nodes share their text, and then one finding
speaks for both.
-/

namespace LintEngine

open Registration

variable {W S : Type}

namespace Rules

/-! ### The detectors -/

/-- A detector of the rules never fails, and it hands in findings of its own
issues. -/
theorem builtin_does {x : Detector W S} (hx : x ∈ builtinDetectors) (env : Env W) (event : Event)
    (w : World W) : ∃ w' new recorded, (x.on event).Does env w () w' new recorded ∧
      ∀ f ∈ new, f.issue ∈ x.issues := by
  have htells {x : Detector W S} {event : Event} {P : Finding → Prop} {Q : String → Prop}
      (h : (x.on event).Tells env.view P Q) (hP : ∀ f, P f → f.issue ∈ x.issues) :
      ∃ w' new recorded, (x.on event).Does env w () w' new recorded ∧
        ∀ f ∈ new, f.issue ∈ x.issues := by
    obtain ⟨new, recorded, hnew, -, hdoes⟩ := h
    exact ⟨w, new, recorded, hdoes env rfl w, fun f hf => hP f (hnew f hf)⟩
  simp only [builtinDetectors, List.mem_cons, List.not_mem_nil, or_false] at hx
  rcases hx with rfl | rfl | rfl | rfl | rfl | rfl
  · exact htells (rangeDetector_tells event) fun _ => id
  · exact htells (typedefDetector_tells event) fun _ => id
  · exact htells (recycleDetector_tells event) fun _ => id
  · cases event with
    | enter n =>
        exact ⟨w, _, _, checkRequirement_does env w n, fun f hf =>
          List.mem_singleton.mpr (issue_of_mem_newUses hf)⟩
    | element n => exact htells (recordLevels_tells n fun _ => False) fun _ => False.elim
    | _ => exact ⟨w, _, _, Task.Does.pure () env w, by simp⟩
  · exact htells (rightToLeftDetector_tells event) fun _ h => List.mem_singleton.mpr h.issue
  · cases event with
    | enter n =>
        exact ⟨_, _, _, checkDependency_does env w n, fun f => issue_of_mem_dependencyAnswer⟩
    | _ => exact ⟨w, _, _, Task.Does.pure () env w, by simp⟩

def foundLeaving (v : View) : Visit → List Finding
  | .enter _ => []
  | .leave n => switchFindings v n

theorem typedefDetector_reportsOf (env : Env W) :
    (typedefDetector : Detector W S).ReportsOf env switchIssue.id
      (Unit.onVisit (foundLeaving env.view)) := by
  intro event me desk
  cases event with
  | exit n =>
      refine ⟨_, _, checkSwitch_does env desk.world n me desk rfl, rfl, ?_⟩
      refine List.filter_eq_self.mpr fun f hf => ?_
      rcases mem_switchFindings hf with hlabel | ⟨c, rfl⟩
      · rw [hlabel.issue]
        exact beq_self_eq_true _
      · exact beq_self_eq_true _
  | usage u =>
      obtain ⟨new, recorded, hnew, -, hdoes⟩ :=
        typedefDetector_usage_tells (W := W) (S := S) (v := env.view) u
      refine ⟨_, new, hdoes env rfl desk.world me desk rfl, rfl, ?_⟩
      refine List.filter_eq_nil_iff.mpr fun f hf hid => ?_
      have hissue : f.issue.id ∈ [uniqueIssue, wrongConstantIssue].map Issue.id :=
        List.mem_map_of_mem (hnew f hf)
      rw [beq_iff_eq.mp hid] at hissue
      exact absurd hissue (by decide)
  | _ => exact ⟨desk, [], rfl, (List.append_nil _).symm, rfl⟩

/-- No other detector of the rules has to do with switches. -/
theorem builtin_isSilentOn {d : Nat} {x : Detector W S} (hx : builtinDetectors[d]? = some x)
    (hd : d ≠ 1) : x.IsSilentOn switchIssue.id := by
  have hother : switchIssue.id ∉ x.issues.map Issue.id := by
    rcases d with _ | _ | _ | _ | _ | _ | d
    all_goals cases hx
    · exact (by decide : switchIssue.id ∉ [rangeIssue, invalidRangeIssue].map Issue.id)
    · exact (hd rfl).elim
    · exact (by decide : switchIssue.id ∉ [recycleIssue].map Issue.id)
    · exact (by decide : switchIssue.id ∉ [newApiIssue].map Issue.id)
    · exact (by decide : switchIssue.id ∉ [useStartIssue].map Issue.id)
    · exact (by decide : switchIssue.id ∉ [dynamicVersionIssue, newerVersionIssue].map Issue.id)
  intro event env me desk
  obtain ⟨w', new, recorded, hdoes, hissues⟩ :=
    builtin_does (List.mem_of_getElem? hx) env event desk.world
  have hnone : new.filter (·.issue.id == switchIssue.id) = [] := by
    refine List.filter_eq_nil_iff.mpr fun f hf hid => hother ?_
    rw [← beq_iff_eq.mp hid]
    exact List.mem_map_of_mem (hissues f hf)
  rw [hdoes me desk rfl, List.filter_append, hnone, List.append_nil]

theorem builtin_changesMessageOnly {x : Detector W S} (hx : x ∈ builtinDetectors) :
    x.ChangesMessageOnly := by
  intro f facts w g hkeep
  obtain ⟨verdict, hverdict, hkept⟩ := Engine.builtin_settle hx f facts
  rw [hverdict] at hkeep
  refine hkept g ?_
  rw [show verdict = .keep g from hkeep]
  rfl

theorem declares_typedef_exit {detectors : List (Detector W S)} {k : Nat} {phase : Phase}
    {kind : NodeKind} (hk : detectors[k]? = some typedefDetector) :
    declares detectors phase (.exit kind) k = true ↔ phase = .source ∧ kind = .switch := by
  have hexit :
      Interest.mk phase (.exit kind) ∉ annotationInterests [intDef, longDef, stringDef] := by
    simp [annotationInterests]
  rw [declares, hk, Option.any_some, List.contains_iff_mem, typedefDetector, List.mem_append,
    or_iff_right hexit, List.mem_singleton, Interest.mk.injEq, Trigger.exit.injEq]

/-! ### Findings that are kept -/

def isAbout (l : Location) (f : Finding) : Bool :=
  f.issue.id == switchIssue.id && f.location.file == l.file && f.location.start == l.start &&
    f.location.stop == l.stop

theorem isAbout_iff {l : Location} {f : Finding} : isAbout l f = true ↔
    f.issue.id = switchIssue.id ∧ f.location.file.components = l.file.components ∧
      f.location.start = l.start ∧ f.location.stop = l.stop :=
  Sink.samePlace_iff (g := Finding.new switchIssue l "")

theorem isAbout_congr {l : Location} {f g : Finding} (h : Sink.samePlace f g = true) :
    isAbout l f = isAbout l g := by
  obtain ⟨hissue, hfile, hstart, hstop⟩ := Sink.samePlace_iff.mp h
  rw [Bool.eq_iff_iff, isAbout_iff, isAbout_iff, hissue, hfile, hstart, hstop]

theorem samePlace_of_isAbout {l : Location} {f g : Finding} (hf : isAbout l f = true)
    (hg : isAbout l g = true) : Sink.samePlace f g = true := by
  obtain ⟨hissue, hfile, hstart, hstop⟩ := isAbout_iff.mp hf
  obtain ⟨hissue', hfile', hstart', hstop'⟩ := isAbout_iff.mp hg
  exact Sink.samePlace_iff.mpr ⟨hissue.trans hissue'.symm, hfile.trans hfile'.symm,
    hstart.trans hstart'.symm, hstop.trans hstop'.symm⟩

section

variable {env : Env W} {k : Nat} {n : NodeId}

theorem isLabelFinding_of_kept {f g : Finding} (h : UnitState.kept env k f = some g)
    (hf : IsLabelFinding f) : IsLabelFinding g := by
  obtain ⟨severity, rfl⟩ := UnitState.issue_kept h
  exact ⟨hf.issue, hf.data, hf.merge, hf.message⟩

/-- What is kept of a missing case does not depend on the case. -/
theorem kept_missingFinding (hregistered : env.registry.contains switchIssue = true)
    (c : Constant) :
    UnitState.kept env k (missingFinding env.view.tree n c) =
      if env.config.isReportable switchIssue = true ∧
          env.config.suppressionAt switchIssue env.view.tree n = none then
        some { missingFinding env.view.tree n c with
          detector := some k
          severity := env.config.severityFor switchIssue }
      else none := by
  have hissue : (missingFinding env.view.tree n c).issue = switchIssue := rfl
  have hanchor : (missingFinding env.view.tree n c).anchor = some n := rfl
  rw [UnitState.kept, hissue, hanchor, if_pos hregistered]
  by_cases hreportable : env.config.isReportable switchIssue = true
  · rw [Config.check_some hreportable]
    cases env.config.suppressionAt switchIssue env.view.tree n with
    | none =>
        rw [if_pos ⟨hreportable, rfl⟩]
        rfl
    | some s => rw [if_neg (by simp)]
  · obtain ⟨reason, hreason⟩ := Config.check_of_not_isReportable
      (Bool.eq_false_iff.mpr hreportable) env.view.tree (some n)
    rw [hreason, if_neg fun h => hreportable h.1]

/-- Where nothing speaks against it, each missing case is told of by its name. -/
theorem flatMap_itemsOf_missing {l : Location}
    (hregistered : env.registry.contains switchIssue = true)
    (hreportable : env.config.isReportable switchIssue = true)
    (hsuppression : env.config.suppressionAt switchIssue env.view.tree n = none)
    (habout : ∀ c, isAbout l (missingFinding env.view.tree n c) = true) (cs : List Constant) :
    (((cs.map (missingFinding env.view.tree n)).filterMap (UnitState.kept env k)).filter
      (isAbout l)).flatMap Sink.itemsOf = cs.map shownName := by
  induction cs with
  | nil => rfl
  | cons c cs ih =>
      rw [List.map_cons, List.filterMap_cons, kept_missingFinding hregistered c,
        if_pos ⟨hreportable, hsuppression⟩]
      dsimp only
      rw [List.filter_cons_of_pos, List.flatMap_cons, ih]
      · rfl
      · exact habout c

/-- Labels that do not fit say nothing about missing cases. -/
theorem flatMap_itemsOf_labels {fs : List Finding} (h : ∀ f ∈ fs, IsLabelFinding f)
    (p : Finding → Bool) :
    ((fs.filterMap (UnitState.kept env k)).filter p).flatMap Sink.itemsOf = [] := by
  refine List.flatMap_eq_nil_iff.mpr fun g hg => ?_
  obtain ⟨f, hf, hkept⟩ := List.mem_filterMap.mp (List.mem_filter.mp hg).1
  rw [Sink.itemsOf, (isLabelFinding_of_kept hkept (h f hf)).merge]
  rfl

end

end Rules

/-! ### Switches of a project -/

open Rules

structure TypedSwitch where
  tree : Tree
  node : NodeId
  typedef : Typedef

namespace TypedSwitch

/-- The keyword of a switch is at a place, as far as findings are told apart by
their places. -/
structure IsAt (s : TypedSwitch) (l : Location) : Prop where
  file : (keywordOf s.tree s.node).file.components = l.file.components
  start : (keywordOf s.tree s.node).start = l.start
  stop : (keywordOf s.tree s.node).stop = l.stop

def missingNames (s : TypedSwitch) (v : View) : List String :=
  (s.typedef.constants.filter (IsMissing v s.typedef s.node ·)).map shownName

end TypedSwitch

namespace Engine

variable {e : Engine W S} {k : Nat} {trees : List Tree} {l : Location}

/-- An engine with the detector for typedefs in position `k`. No other detector
reports on switches, and none that settles a finding changes more than its
message. -/
structure HasSwitchDetector (e : Engine W S) (k : Nat) : Prop where
  registration : ofDetectors e.registry e.registration.detectors = .ok e.registration
  position : e.registration.detectors[k]? = some typedefDetector
  others : ∀ d y, e.registration.detectors[d]? = some y → d ≠ k → y.IsSilentOn switchIssue.id
  messages : ∀ x ∈ e.registration.detectors, x.ChangesMessageOnly

/-- The engine with the detectors of the rules is one of these. -/
theorem hasSwitchDetector_of_builtin
    (hr : ofDetectors e.registry builtinDetectors = .ok e.registration) :
    e.HasSwitchDetector 1 := by
  obtain ⟨hdetectors, -⟩ := of_ofDetectors hr
  constructor
  · rw [hdetectors]
    exact hr
  · rw [hdetectors]
    rfl
  · rw [hdetectors]
    exact fun d y => builtin_isSilentOn
  · rw [hdetectors]
    exact fun x => builtin_changesMessageOnly

def viewOf (e : Engine W S) (trees : List Tree) (t : Tree) : View :=
  (e.env (SymbolTable.ofUnits trees e.compiled) t).view

/-- A switch that ought to deal with all constants, and of which the settings and
the directives in the unit let the engine tell. -/
structure IsDue (e : Engine W S) (trees : List Tree) (s : TypedSwitch) : Prop where
  phase : s.tree.phase = .source
  scope : switchIssue.appliesTo s.tree.scope = true
  reportable : e.config.isReportable switchIssue = true
  not_suppressed : e.config.suppressionAt switchIssue s.tree s.node = none
  covers : OughtToCover (e.viewOf trees s.tree) s.typedef s.node

open Classical in
noncomputable def dueAt? (e : Engine W S) (trees : List Tree) (l : Location) (t : Tree)
    (n : NodeId) : Option TypedSwitch :=
  if h : ∃ d, e.IsDue trees ⟨t, n, d⟩ ∧ (TypedSwitch.mk t n d).IsAt l then some ⟨t, n, h.choose⟩
  else none

theorem dueAt?_eq_some {t : Tree} {n : NodeId} {s : TypedSwitch} :
    e.dueAt? trees l t n = some s ↔
      s.tree = t ∧ s.node = n ∧ e.IsDue trees s ∧ s.IsAt l := by
  rw [dueAt?]
  constructor
  · intro h
    split at h
    · rename_i hdue
      cases h
      exact ⟨rfl, rfl, hdue.choose_spec⟩
    · cases h
  · obtain ⟨t', n', d⟩ := s
    rintro ⟨rfl, rfl, hdue, hat⟩
    have hex : ∃ d, e.IsDue trees ⟨t', n', d⟩ ∧ (TypedSwitch.mk t' n' d).IsAt l := ⟨d, hdue, hat⟩
    have htypedef : hex.choose = d := hex.choose_spec.1.covers.typedef_eq hdue.covers
    rw [dif_pos hex, htypedef]

/-- The switches of a unit that are due at a place, in the order in which they are
left. -/
noncomputable def switchesAt (e : Engine W S) (trees : List Tree) (l : Location) (t : Tree) :
    List TypedSwitch :=
  ((t.visits Tree.root).filterMap Visit.left?).filterMap (e.dueAt? trees l t)

theorem mem_switchesAt {t : Tree} (hordered : t.Ordered) {s : TypedSwitch} :
    s ∈ e.switchesAt trees l t ↔ s.tree = t ∧ e.IsDue trees s ∧ s.IsAt l := by
  rw [switchesAt, List.mem_filterMap]
  constructor
  · rintro ⟨n, -, hs⟩
    obtain ⟨htree, -, hdue⟩ := dueAt?_eq_some.mp hs
    exact ⟨htree, hdue⟩
  · rintro ⟨rfl, hdue, hat⟩
    refine ⟨s.node, ?_, dueAt?_eq_some.mpr ⟨rfl, rfl, hdue, hat⟩⟩
    rw [hordered.isWalk.left.mem_iff, List.mem_range]
    refine Tree.lt_size_of_kind fun hother => ?_
    have hkind : s.tree.kind s.node = .switch := hdue.covers.kind
    rw [hother] at hkind
    cases hkind

/-! ### Findings of a unit -/

/-- The detector runs wherever findings about switches can be reported. -/
theorem runsOn_typedef {config : Config} {levels : Option ApiLevels} {scope : Scope}
    (hreportable : config.isReportable switchIssue = true) :
    runsOn config levels scope (typedefDetector : Detector W S) = true ↔
      switchIssue.appliesTo scope = true := by
  have hswitch : switchIssue ∈ (typedefDetector : Detector W S).issues := by simp [typedefDetector]
  have hlevels : (typedefDetector : Detector W S).needsLevels = false := rfl
  rw [runsOn, hlevels, Bool.and_false, Bool.false_and, Bool.not_false, Bool.and_true, isActive,
    List.any_eq_true]
  constructor
  · rintro ⟨i, hi, hon⟩
    rw [Issue.appliesTo, scopes_eq (by simp [builtinDetectors]) hswitch hi]
    exact (Bool.and_eq_true_iff.mp hon).1
  · intro hscope
    exact ⟨switchIssue, hswitch, Bool.and_eq_true_iff.mpr ⟨hscope, hreportable⟩⟩

section

variable (he : e.HasSwitchDetector k)

include he

/-- The findings about switches in a unit. -/
theorem filter_findings_of_isWalked {symbols : SymbolTable} {t : Tree} {u : UnitState S}
    (hordered : t.Ordered) (h : e.IsWalked symbols t u) :
    u.findings.filter (·.issue.id == switchIssue.id) =
      ((t.visits Tree.root).filterMap Visit.left?).flatMap fun n =>
        if (t.phase = .source ∧ t.kind n = .switch) ∧
            runsOn e.config e.levels t.scope (typedefDetector : Detector W S) = true then
          (switchFindings (e.env symbols t).view n).filterMap
            (UnitState.kept (e.env symbols t) k)
        else [] := by
  obtain ⟨w, log, s, hpasses, rfl⟩ := h
  have hactive : (e.active t.scope).getD k false =
      runsOn e.config e.levels t.scope (typedefDetector : Detector W S) := by
    rw [active_getD, he.position]
    rfl
  have hselects := Unit.selects_of_reportsOf (by decide) he.position
    (typedefDetector_reportsOf (e.env symbols t)) he.others
  rw [hpasses.filter_findings he.registration hordered hselects,
    List.filterMap_eq_flatMap_toList, List.flatMap_assoc]
  refine List.flatMap_congr fun visit _ => ?_
  cases visit with
  | enter n => exact ite_self _
  | leave n =>
      rw [Visit.left?, Option.toList_some, List.flatMap_singleton, hactive]
      exact if_congr (and_congr_left' (declares_typedef_exit he.position)) rfl rfl

/-- A finding about switches is final, and if it is not about missing cases, it
says something else. -/
theorem of_mem_findings {symbols : SymbolTable} {t : Tree} {u : UnitState S} (hordered : t.Ordered)
    (h : e.IsWalked symbols t u) {f : Finding} (hf : f ∈ u.findings)
    (hid : f.issue.id = switchIssue.id) : f.data = none ∧ Sink.KeepsToLead missingLead f := by
  have hmem : f ∈ u.findings.filter (·.issue.id == switchIssue.id) :=
    List.mem_filter.mpr ⟨hf, beq_iff_eq.mpr hid⟩
  rw [filter_findings_of_isWalked he hordered h] at hmem
  obtain ⟨n, -, hmem⟩ := List.mem_flatMap.mp hmem
  split at hmem
  · obtain ⟨g, hg, hkept⟩ := List.mem_filterMap.mp hmem
    rcases mem_switchFindings hg with hlabel | ⟨c, rfl⟩
    · have hlabel := isLabelFinding_of_kept hkept hlabel
      have hnone : ∀ m, f.merge ≠ some m := by simp [hlabel.merge]
      exact ⟨hlabel.data, fun m hm => (hnone m hm).elim, fun m hm => (hnone m hm).elim,
        fun _ => hlabel.message⟩
    · obtain ⟨severity, rfl⟩ := UnitState.issue_kept hkept
      refine ⟨rfl, ?_, ?_, fun hnone => by cases hnone⟩
      · rintro m ⟨⟩
        exact ⟨shownName c, rfl, rfl⟩
      · rintro m ⟨⟩
        rfl
  · cases hmem

omit he in
/-- A missing case that is kept makes its switch due. -/
theorem isDue_of_kept (hregistered : e.registry.contains switchIssue = true) {t : Tree} {n : NodeId}
    {d : Typedef} {c : Constant} {f : Finding} (hphase : t.phase = .source)
    (hruns : runsOn e.config e.levels t.scope (typedefDetector : Detector W S) = true)
    (hcovers : OughtToCover (e.viewOf trees t) d n)
    (h : UnitState.kept (e.env (SymbolTable.ofUnits trees e.compiled) t) k (missingFinding t n c) =
      some f) :
    e.IsDue trees ⟨t, n, d⟩ ∧ f.location = keywordOf t n := by
  have hkept := (kept_missingFinding (n := n) hregistered c).symm.trans h
  split at hkept
  · rename_i hkeeps
    cases hkept
    have hscope := (runsOn_typedef hkeeps.1).mp hruns
    exact ⟨⟨hphase, hscope, hkeeps.1, hkeeps.2, hcovers⟩, rfl⟩
  · cases hkept

omit he in
/-- The missing cases that a unit tells of at one of its nodes. -/
theorem flatMap_itemsOf_node (hregistered : e.registry.contains switchIssue = true) {t : Tree}
    (hordered : t.Ordered) (n : NodeId) :
    ((if (t.phase = .source ∧ t.kind n = .switch) ∧
          runsOn e.config e.levels t.scope (typedefDetector : Detector W S) = true then
        (switchFindings (e.viewOf trees t) n).filterMap
          (UnitState.kept (e.env (SymbolTable.ofUnits trees e.compiled) t) k)
      else []).filter (isAbout l)).flatMap Sink.itemsOf =
      (e.dueAt? trees l t n).toList.flatMap fun s => s.missingNames (e.viewOf trees s.tree) := by
  cases hdue : e.dueAt? trees l t n with
  | some s =>
      obtain ⟨rfl, rfl, hdue, hat⟩ := dueAt?_eq_some.mp hdue
      obtain ⟨labelled, hlabelled, hfindings⟩ := switchFindings_of_oughtToCover hordered hdue.covers
      rw [if_pos ⟨⟨hdue.phase, hdue.covers.kind⟩, (runsOn_typedef hdue.reportable).mpr hdue.scope⟩,
        hfindings, List.filterMap_append, List.filter_append, List.flatMap_append,
        flatMap_itemsOf_labels hlabelled, List.nil_append, Option.toList_some,
        List.flatMap_singleton]
      refine flatMap_itemsOf_missing hregistered hdue.reportable hdue.not_suppressed ?_ _
      exact fun c => isAbout_iff.mpr ⟨rfl, hat.file, hat.start, hat.stop⟩
  | none =>
      refine List.flatMap_eq_nil_iff.mpr fun f hf => ?_
      obtain ⟨hf, habout⟩ := List.mem_filter.mp hf
      split at hf
      · rename_i hlooks
        obtain ⟨⟨hphase, hkind⟩, hruns⟩ := hlooks
        obtain ⟨g, hg, hkept⟩ := List.mem_filterMap.mp hf
        have hlabel : IsLabelFinding g := by
          by_cases hcovers : ∃ d, OughtToCover (e.viewOf trees t) d n
          · obtain ⟨d, hcovers⟩ := hcovers
            refine (mem_switchFindings hg).resolve_right ?_
            rintro ⟨c, rfl⟩
            obtain ⟨hswitch, hlocation⟩ := isDue_of_kept hregistered hphase hruns hcovers hkept
            obtain ⟨-, hat⟩ := isAbout_iff.mp habout
            rw [hlocation] at hat
            have hsome : e.dueAt? trees l t n = some ⟨t, n, d⟩ :=
              dueAt?_eq_some.mpr ⟨rfl, rfl, hswitch, hat.1, hat.2.1, hat.2.2⟩
            rw [hdue] at hsome
            cases hsome
          · exact isLabelFinding_of_not_oughtToCover hordered hkind (not_exists.mp hcovers) g hg
        rw [Sink.itemsOf, (isLabelFinding_of_kept hkept hlabel).merge]
        rfl
      · cases hf

/-- The missing cases that a unit tells of at a place. -/
theorem flatMap_itemsOf_unit {t : Tree} {u : UnitState S} (hordered : t.Ordered)
    (h : e.IsWalked (SymbolTable.ofUnits trees e.compiled) t u) :
    ((u.findings.filter (·.issue.id == switchIssue.id)).filter (isAbout l)).flatMap Sink.itemsOf =
      (e.switchesAt trees l t).flatMap fun s => s.missingNames (e.viewOf trees s.tree) := by
  have hregistered : e.registry.contains switchIssue = true :=
    contains_of_ofDetectors he.registration (List.mem_of_getElem? he.position)
      (by simp [typedefDetector])
  rw [filter_findings_of_isWalked he hordered h, switchesAt]
  generalize (t.visits Tree.root).filterMap Visit.left? = nodes
  rw [List.filter_flatMap, List.flatMap_assoc, List.filterMap_eq_flatMap_toList, List.flatMap_assoc]
  exact List.flatMap_congr fun n _ => flatMap_itemsOf_node hregistered hordered n

end

/-! ### Reports -/

def missingMessages (report : Report) (l : Location) : List String :=
  ((report.findings.filter (isAbout l)).filter fun f =>
    missingLead.toList <+: f.message.toList).map (·.message)

/-- A report that lists, place by place, the missing cases of the units that were
walked to their end. -/
structure ListsMissingCases (e : Engine W S) (trees walked : List Tree) (report : Report) :
    Prop where
  /-- One message for all switches at a place, and none if no case is missing
  there. -/
  listed : ∀ l, ∃ switches : List TypedSwitch,
    (∀ s, s ∈ switches ↔ s.tree ∈ walked ∧ e.IsDue trees s ∧ s.IsAt l) ∧
      missingMessages report l = Sink.listing missingLead
        (switches.flatMap fun s => s.missingNames (e.viewOf trees s.tree)).eraseDups
  /-- A switch that shares its place with no other has this message for itself. -/
  alone : ∀ s, s.tree ∈ walked → e.IsDue trees s →
    (∀ s', s'.tree ∈ walked → e.IsDue trees s' → s'.IsAt (keywordOf s.tree s.node) → s' = s) →
      missingMessages report (keywordOf s.tree s.node) =
        Sink.listing missingLead (s.missingNames (e.viewOf trees s.tree)).eraseDups

section

variable (he : e.HasSwitchDetector k) (hordered : ∀ t ∈ trees, t.Ordered)

include he hordered

theorem missingMessages_eq {units : List (Tree × UnitState S)} {report : Report}
    (h : e.ReportsUnits switchIssue.id trees units report) (l : Location) :
    missingMessages report l = Sink.listing missingLead
      (((units.map (·.1)).flatMap (e.switchesAt trees l)).flatMap fun s =>
        s.missingNames (e.viewOf trees s.tree)).eraseDups := by
  have hissue : report.findings.filter (isAbout l) =
      (report.findings.filter (·.issue.id == switchIssue.id)).filter (isAbout l) := by
    rw [List.filter_filter]
    refine List.filter_congr fun f _ => ?_
    rw [isAbout]
    cases f.issue.id == switchIssue.id <;> simp
  have hkeeps : ∀ f ∈ (units.flatMap (·.2.findings)).filter (·.issue.id == switchIssue.id),
      isAbout l f = true → Sink.KeepsToLead missingLead f := by
    intro f hf _
    obtain ⟨hf, hid⟩ := List.mem_filter.mp hf
    obtain ⟨p, hp, hf⟩ := List.mem_flatMap.mp hf
    exact (of_mem_findings he (hordered p.1 (h.mem p hp)) (h.walked p hp) hf (beq_iff_eq.mp hid)).2
  have hitems : (((units.flatMap (·.2.findings)).filter (·.issue.id == switchIssue.id)).filter
        (isAbout l)).flatMap Sink.itemsOf =
      ((units.map (·.1)).flatMap (e.switchesAt trees l)).flatMap fun s =>
        s.missingNames (e.viewOf trees s.tree) := by
    rw [List.filter_flatMap, List.filter_flatMap, List.flatMap_assoc, List.flatMap_map,
      List.flatMap_assoc]
    exact List.flatMap_congr fun p hp =>
      flatMap_itemsOf_unit he (hordered p.1 (h.mem p hp)) (h.walked p hp)
  rw [missingMessages, hissue, h.findings, ← hitems]
  exact Sink.map_message_filter (fun _ _ => isAbout_congr) (fun _ _ => samePlace_of_isAbout) hkeeps

theorem listsMissingCases {units : List (Tree × UnitState S)} {report : Report}
    (h : e.ReportsUnits switchIssue.id trees units report) :
    e.ListsMissingCases trees (units.map (·.1)) report := by
  have hmem : ∀ l s, s ∈ (units.map (·.1)).flatMap (e.switchesAt trees l) ↔
      s.tree ∈ units.map (·.1) ∧ e.IsDue trees s ∧ s.IsAt l := by
    intro l s
    have hunits : ∀ t ∈ units.map (·.1), t.Ordered :=
      List.forall_mem_map.mpr fun p hp => hordered p.1 (h.mem p hp)
    rw [List.mem_flatMap]
    constructor
    · rintro ⟨t, ht, hs⟩
      obtain ⟨rfl, hdue⟩ := (mem_switchesAt (hunits t ht)).mp hs
      exact ⟨ht, hdue⟩
    · rintro ⟨ht, hdue⟩
      exact ⟨s.tree, ht, (mem_switchesAt (hunits s.tree ht)).mpr ⟨rfl, hdue⟩⟩
  refine ⟨fun l => ⟨_, hmem l, missingMessages_eq he hordered h l⟩, fun s hs hdue halone => ?_⟩
  rw [missingMessages_eq he hordered h]
  refine congrArg (Sink.listing missingLead) (Sink.eraseDups_flatMap ?_ ?_ _)
  · exact (hmem _ s).mpr ⟨hs, hdue, rfl, rfl, rfl⟩
  · intro s' hs'
    obtain ⟨hwalked, hdue', hat⟩ := (hmem _ s').mp hs'
    exact halone s' hwalked hdue' hat

end

/-- A switch with a typedef that has neither a default nor a bare value among its
labels: the constants that no label deals with are handed in as missing, in the
order of the typedef, and every report lists their names. -/
theorem switches_list_missing_cases (he : e.HasSwitchDetector k) (root : Path)
    {trees : List Tree} (htrees : ∀ t ∈ trees, ∃ b : Builder, b.Made ∧ t = b.build)
    (unparsed : List Unparsed) :
    (∀ (env : Env W) (w : World W) (n : NodeId) (d : Typedef), env.view.tree ∈ trees →
      OughtToCover env.view d n →
        ∃ labelled, (∀ f ∈ labelled, IsLabelFinding f) ∧
          (checkSwitch n : Task W S Unit).Does env w () w
            (labelled ++ (d.constants.filter (IsMissing env.view d n ·)).map
              (missingFinding env.view.tree n)) []) ∧
    (∀ w, e.ListsMissingCases trees ((completed trees (e.results trees w).1).map (·.1))
      (e.run root trees unparsed w).1) ∧
    ∀ c : e.Course root trees unparsed,
      e.ListsMissingCases trees (c.completed.map Dossier.tree) c.report := by
  have hordered : ∀ t ∈ trees, t.Ordered := by
    intro t ht
    obtain ⟨b, hb, rfl⟩ := htrees t ht
    exact hb.ordered
  have hfinal : e.AreFinal switchIssue.id trees := fun t ht u hu f hf hissue =>
    (of_mem_findings he (hordered t ht) hu hf hissue).1
  have hid : switchIssue.id ≠ Issue.lintError.id := by decide
  refine ⟨fun env w n d htree hcovers => ?_, fun w => ?_, fun c => ?_⟩
  · obtain ⟨labelled, hlabelled, hfindings⟩ :=
      switchFindings_of_oughtToCover (hordered _ htree) hcovers
    exact ⟨labelled, hlabelled, hfindings ▸ checkSwitch_does env w n⟩
  · exact listsMissingCases he hordered (run_reportsUnits he.messages hid hfinal root unparsed w)
  · have hlists := listsMissingCases he hordered (c.reportsUnits he.messages hid hfinal)
    rwa [List.map_map] at hlists

/-! ### Two variants of a file -/

def withSwitch (label : String) (b : Builder) : Builder :=
  b.within { kind := .method, name := some "f", typeName := some "void" } fun b =>
    (b.within { kind := .parameter, name := some "m", typeName := some "int" }
      (·.leaf { kind := .annotationUse, name := some "Mode" })).within
        { kind := .switch, start := 166, stop := 197 } fun b =>
          (b.leaf { kind := .reference, name := some "m" }).within { kind := .case }
            (·.leaf { kind := .reference, name := some label })

/-- A variant of the file `A.java`: a class with two constants and a switch with
one case. -/
def variant (owner label : String) : Builder :=
  (Builder.start ⟨"A.java"⟩ .source .javaFile none {})
    |>.within { kind := .classDecl, name := some owner }
      (withSwitch label ∘ withMode (·.leaf { kind := .reference, name := some "TWO" }) ∘
        withConstant "TWO" 2 ∘ withConstant "ONE" 1)

theorem made_variant (owner label : String) : (variant owner label).Made := by
  have hconstant {b : Builder} (hb : b.Made) (name : String) (value : Int32) :
      (withConstant name value b).Made :=
    .leave (.leaf (.enter hb _) _)
  have hmode {b : Builder} (hb : b.Made) :
      (withMode (·.leaf { kind := .reference, name := some "TWO" }) b).Made :=
    .leave (.leave (.leave (.leave (.leaf (.leaf (.enter (.enter (.enter (.enter hb _) _) _) _) _)
      _))))
  have hparameter {b : Builder} (hb : b.Made) (p q : Payload) : (b.within p (·.leaf q)).Made :=
    .leave (.leaf (.enter hb p) q)
  have hswitch {b : Builder} (hb : b.Made) : (withSwitch label b).Made :=
    .leave (.leave (hparameter (.leaf (.enter (hparameter (.enter hb _) _ _) _) _) _ _))
  exact .leave (hswitch (hmode (hconstant (hconstant (.enter (.start ..) _) _ _) _ _)))

def variantA : Tree := (variant "A" "ONE").build

/-- Both variants have the same path. -/
def variants : List Tree := [variantA, (variant "B" "TWO").build]

theorem variantA_isDue {trees : List Tree} (htrees : trees = [variantA] ∨ trees = variants) :
    ∃ d, (ofRules {}).IsDue trees ⟨variantA, 15, d⟩ ∧
      (TypedSwitch.mk variantA 15 d).missingNames ((ofRules {}).viewOf trees variantA) =
        ["`A.TWO`"] := by
  have hselector : ((variantA.children 15).head?.bind
      (selectorTypedef ((ofRules {}).viewOf trees variantA) maxSteps)).map
        (fun d => (TypedSwitch.mk variantA 15 d).missingNames
          ((ofRules {}).viewOf trees variantA)) = some ["`A.TWO`"] := by
    rcases htrees with rfl | rfl <;> decide +kernel
  obtain ⟨d, hd, hnames⟩ := Option.map_eq_some_iff.mp hselector
  have hsuppression : (ofRules {}).config.suppressionAt switchIssue variantA 15 = none := by
    decide +kernel
  have hkind : variantA.kind 15 = .switch := by decide +kernel
  have hdefault : ∀ c ∈ casesOf variantA 15, variantA.name c ≠ some "default" := by decide +kernel
  have hliteral : ∀ l ∈ labelNodes variantA 15, variantA.kind l ≠ .literal := by decide +kernel
  exact ⟨d, ⟨rfl, by rfl, by decide, hsuppression, hkind, hd, hdefault, hliteral⟩, hnames⟩

/-- A case that is missing in one variant is reported. -/
theorem run_variantA_lists_missing_case :
    (ofRules {}).HasSwitchDetector 1 ∧ (∃ b : Builder, b.Made ∧ variantA = b.build) ∧
      ∃ d, (ofRules {}).IsDue [variantA] ⟨variantA, 15, d⟩ ∧
        missingMessages ((ofRules {}).run ⟨"."⟩ [variantA] [] { host := () }).1
          (keywordOf variantA 15) = [missingLead ++ "`A.TWO`"] := by
  have he := hasSwitchDetector_of_builtin (ofDetectors_ofRules {})
  have hmade : ∃ b : Builder, b.Made ∧ variantA = b.build := ⟨_, made_variant "A" "ONE", rfl⟩
  obtain ⟨d, hdue, hnames⟩ := variantA_isDue (.inl rfl)
  obtain ⟨-, hrun, -⟩ :=
    switches_list_missing_cases he ⟨"."⟩ (List.forall_mem_singleton.mpr hmade) []
  refine ⟨he, hmade, d, hdue, ?_⟩
  have hwalked : (completed [variantA]
      ((ofRules {}).results [variantA] { host := () }).1).map (·.1) = [variantA] := by
    have hall : ((ofRules {}).results [variantA] { host := () }).1.map Option.isSome = [true] := by
      decide +kernel
    obtain ⟨u, hunits, hu⟩ := List.map_eq_singleton_iff.mp hall
    obtain ⟨v, rfl⟩ := Option.isSome_iff_exists.mp hu
    rw [hunits]
    rfl
  have halone := (hrun { host := () }).alone ⟨variantA, 15, d⟩
  rw [hwalked] at halone
  rw [halone List.mem_cons_self hdue, hnames]
  · decide +kernel
  · rintro ⟨t, n, d'⟩ ht hdue' -
    obtain rfl : t = variantA := List.mem_singleton.mp ht
    have hkind : variantA.kind n = .switch := hdue'.covers.kind
    have hnode : ∀ n < variantA.size, variantA.kind n = .switch → n = 15 := by decide +kernel
    obtain rfl : n = 15 := hnode n (Tree.lt_size_of_kind (by simp [hkind])) hkind
    exact congrArg (TypedSwitch.mk variantA 15) (hdue'.covers.typedef_eq hdue.covers)

/-- Two variants that miss different cases at one place get one finding, which
names them both. -/
theorem run_variants_share_place :
    ∃ d, (ofRules {}).IsDue variants ⟨variantA, 15, d⟩ ∧
      (TypedSwitch.mk variantA 15 d).missingNames ((ofRules {}).viewOf variants variantA) =
        ["`A.TWO`"] ∧
      let report := ((ofRules {}).run ⟨"."⟩ variants [] { host := () }).1
      report.files = 2 ∧ report.cancelled = false ∧
      missingMessages report (keywordOf variantA 15) = [missingLead ++ "`A.TWO`, `B.ONE`"] := by
  obtain ⟨d, hdue, hnames⟩ := variantA_isDue (.inr rfl)
  have hcomplete : ((ofRules {}).run ⟨"."⟩ variants [] { host := () }).1.files = 2 ∧
      ((ofRules {}).run ⟨"."⟩ variants [] { host := () }).1.cancelled = false := by
    decide +kernel
  refine ⟨d, hdue, hnames, hcomplete.1, hcomplete.2, ?_⟩
  rw [missingMessages, run]
  dsimp only [Sink.finish]
  rw [List.mergeSort_of_pairwise (by decide +kernel)]
  decide +kernel

end Engine

end LintEngine
