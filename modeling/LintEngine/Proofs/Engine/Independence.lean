import LintEngine.Proofs.Engine.Settling
import LintEngine.Proofs.Engine.Units
import LintEngine.Proofs.Rules.RightToLeft

/-!
Settings for one issue and findings of the others.

Two runs over the same project, with settings that differ in what they say of
one issue or in whether there are API levels, report the same on every other
issue, with one exception: the detector for new parts of the platform records
the levels that the manifest gives, and findings about left and right are
settled by them. Where it runs on one side only, these findings are the same
just if each of them is settled alike on both sides.
-/

namespace LintEngine

open Rules

variable {W S : Type}

/-! ### The issues of the rules -/

namespace Rules

def issueGroups : List (List Issue) :=
  [[rangeIssue, invalidRangeIssue], [uniqueIssue, wrongConstantIssue, switchIssue], [recycleIssue],
   [newApiIssue], [useStartIssue], [dynamicVersionIssue, newerVersionIssue]]

variable {detector : Detector W S} (h : detector ∈ builtinDetectors)

include h

theorem issues_mem_issueGroups : detector.issues ∈ issueGroups := by
  simp only [builtinDetectors, List.mem_cons, List.not_mem_nil, or_false] at h
  rcases h with rfl | rfl | rfl | rfl | rfl | rfl <;>
    simp only [issueGroups, rangeDetector, typedefDetector, recycleDetector, newApiDetector,
      rightToLeftDetector, dependencyDetector, List.mem_cons, true_or, or_true]

theorem scopes_eq {i j : Issue} (hi : i ∈ detector.issues) (hj : j ∈ detector.issues) :
    i.scopes = j.scopes := by
  have hall : ∀ group ∈ issueGroups, ∀ i ∈ group, ∀ j ∈ group, i.scopes = j.scopes := by decide
  exact hall _ (issues_mem_issueGroups h) i hi j hj

theorem issues_of_factIssue {i : Issue} (hi : i ∈ detector.issues) {key : String}
    (hkey : i.id = factIssue key) : detector.issues = [i] := by
  have hall : ∀ group ∈ issueGroups, ∀ i ∈ group,
      i.id = useStartIssue.id ∨ i.id = newApiIssue.id → group.length = 1 := by decide
  have hid : i.id = useStartIssue.id ∨ i.id = newApiIssue.id := by
    rw [hkey, factIssue]
    split
    · exact .inl rfl
    · exact .inr rfl
  obtain ⟨j, hj⟩ := List.length_eq_one_iff.mp (hall _ (issues_mem_issueGroups h) i hi hid)
  rw [hj, List.mem_singleton] at hi
  rw [hj, hi]

theorem eq_useStartIssue {i : Issue} (hi : i ∈ detector.issues) (hid : i.id = useStartIssue.id) :
    detector = rightToLeftDetector ∧ i = useStartIssue := by
  simp only [builtinDetectors, List.mem_cons, List.not_mem_nil, or_false] at h
  rcases h with rfl | rfl | rfl | rfl | rfl | rfl <;>
    simp only [rangeDetector, typedefDetector, recycleDetector, newApiDetector,
      rightToLeftDetector, dependencyDetector, List.mem_cons, List.not_mem_nil, or_false] at hi
  · rcases hi with rfl | rfl <;> exact absurd hid (by decide)
  · rcases hi with rfl | rfl | rfl <;> exact absurd hid (by decide)
  · rw [hi] at hid
    exact absurd hid (by decide)
  · rw [hi] at hid
    exact absurd hid (by decide)
  · exact ⟨rfl, hi⟩
  · rcases hi with rfl | rfl <;> exact absurd hid (by decide)

theorem issues_of_needsLevels (hlevels : detector.needsLevels = true) :
    detector.issues = [newApiIssue] := by
  simp only [builtinDetectors, List.mem_cons, List.not_mem_nil, or_false] at h
  rcases h with rfl | rfl | rfl | rfl | rfl | rfl
  · cases hlevels
  · cases hlevels
  · cases hlevels
  · rfl
  · cases hlevels
  · cases hlevels

end Rules

namespace Engine

/-! ### Active detectors -/

def runsOn (c : Config) (levels : Option ApiLevels) (scope : Scope) (detector : Detector W S) :
    Bool :=
  Registration.isActive c scope detector &&
    !(levels.isNone && detector.needsLevels && detector.issues.any c.isReportable)

theorem active_getD (e : Engine W S) (scope : Scope) (d : Nat) :
    (e.active scope).getD d false =
      ((e.registration.detectors[d]?).map (runsOn e.config e.levels scope)).getD false := by
  rw [active, excluded, Registration.activeFor, List.zipWith_map, List.zipWith_self,
    List.getD_eq_getElem?_getD, List.getElem?_map]
  rfl

/-- A detector that runs on one side only has nothing to report there, but of
one issue. -/
theorem confined_of_runsOn {x : String} {detector : Detector W S}
    (hd : detector ∈ builtinDetectors) {env : Env W} {c' : Config}
    {levels' : Option ApiLevels} {scope : Scope} (hc : env.config.AgreesExcept x c')
    (hlevels : x = newApiIssue.id ∨ env.levels = levels')
    (hon : runsOn env.config env.levels scope detector = true)
    (hoff : runsOn c' levels' scope detector = false) : Unit.Confined x env detector := by
  rw [runsOn, Bool.and_eq_true, Registration.isActive, List.any_eq_true] at hon
  obtain ⟨⟨j, hj, hjactive⟩, hincluded⟩ := hon
  rw [Bool.and_eq_true, Issue.appliesTo] at hjactive
  obtain ⟨hjscope, hjreportable⟩ := hjactive
  have hsilent : ∀ i ∈ detector.issues, i.id ≠ x → env.config.isReportable i = false := by
    intro i hi hix
    rw [runsOn, Bool.and_eq_false_iff] at hoff
    rcases hoff with hoff | hoff
    · have happlies : i.appliesTo scope = true := by
        rw [Issue.appliesTo, scopes_eq hd hi hj]
        exact hjscope
      rw [Registration.isActive, List.any_eq_false] at hoff
      have hnot := hoff i hi
      rw [happlies, Bool.true_and, ← hc.isReportable hix] at hnot
      exact Bool.eq_false_iff.mpr hnot
    · -- the other side misses API levels that this side has
      simp only [Bool.not_eq_false', Bool.and_eq_true] at hoff
      obtain ⟨⟨hnone, hneeds⟩, -⟩ := hoff
      have hissues := issues_of_needsLevels hd hneeds
      rcases hlevels with rfl | hlevels
      · rw [hissues, List.mem_singleton] at hi
        exact absurd (congrArg Issue.id hi) hix
      · have hexcluded : (env.levels.isNone && detector.needsLevels &&
            detector.issues.any env.config.isReportable) = true := by
          rw [hlevels, hnone, hneeds]
          exact List.any_eq_true.mpr ⟨j, hj, hjreportable⟩
        rw [hexcluded] at hincluded
        cases hincluded
  refine ⟨hsilent, fun i hi key hkey => ?_⟩
  -- the detector has this issue alone, and it is one that can be reported
  have hissues := issues_of_factIssue hd hi hkey
  rw [hissues, List.mem_singleton] at hj
  subst hj
  refine Classical.byContradiction fun hx => ?_
  have := hsilent j hi fun heq => hx (hkey.symm.trans heq)
  exact Bool.false_ne_true (this.symm.trans hjreportable)

/-! ### The units on both sides -/

def reconfigured (e : Engine W S) (c : Config) (levels : Option ApiLevels) : Engine W S :=
  { e with config := c, levels }

def KeepsAlive (e : Engine W S) : Prop :=
  ∀ lookup, e.lookup = some lookup ∨ e.remote = some lookup → Rules.KeepsAlive lookup

theorem lookupsKeepAlive_env {e : Engine W S} (h : e.KeepsAlive) (symbols : SymbolTable)
    (t : Tree) : Unit.LookupsKeepAlive (e.env symbols t) := by
  intro lookup hlookup
  rw [env, effectiveLookup] at hlookup
  refine h lookup ?_
  cases hown : e.lookup with
  | some own =>
      rw [hown] at hlookup
      exact .inl hlookup
  | none =>
      rw [hown] at hlookup
      change (if e.config.remote.enabled then e.remote else none) = some lookup at hlookup
      split at hlookup
      · exact .inr hlookup
      · cases hlookup

section

variable {e : Engine W S} (hbuiltin : e.IsBuiltin) (halive : e.KeepsAlive) {x : String} {c : Config}
  (hc : e.config.AgreesExcept x c) {levels : Option ApiLevels}
  (hlevels : x = newApiIssue.id ∨ e.levels = levels)

include hc hlevels in
theorem env_agree (symbols : SymbolTable) (t : Tree) :
    EnvsAgree x (e.env symbols t) ((e.reconfigured c levels).env symbols t) where
  view := rfl
  registry := rfl
  lookup := by
    rw [env, env, effectiveLookup, effectiveLookup, reconfigured, hc.remote]
  config := hc
  levels := hlevels

include hbuiltin hc hlevels in
theorem active_agree (symbols : SymbolTable) (t : Tree) (scope : Scope) :
    Unit.ActiveAgree (S := S) x (e.env symbols t) ((e.reconfigured c levels).env symbols t)
      (e.active scope) ((e.reconfigured c levels).active scope) := by
  intro d detector hd
  have hmem := List.mem_of_getElem? hd
  have hc' : c.AgreesExcept x e.config :=
    ⟨fun id hid => (hc.severity id hid).symm, fun id hid => (hc.enabled id hid).symm, hc.rest.symm⟩
  rw [active_getD, active_getD, reconfigured, hbuiltin.detectors, hd, Option.map_some,
    Option.getD_some, Option.map_some, Option.getD_some]
  cases hon : runsOn e.config e.levels scope detector <;>
    cases hon' : runsOn c levels scope detector
  · exact .inl rfl
  · exact .inr (.inr ⟨rfl, confined_of_runsOn hmem hc' (hlevels.imp_right Eq.symm) hon' hon⟩)
  · exact .inr (.inl ⟨rfl, confined_of_runsOn hmem hc hlevels hon hon'⟩)
  · exact .inl rfl

def ResultsAgree (W : Type) (x : String) :
    Option (UnitState S) → Option (UnitState S) → Prop
  | some u, some u' => Unit.UnitsAgree x u u' ∧ Unit.IsTidy W u ∧ Unit.IsTidy W u'
  | none, none => True
  | _, _ => False

theorem resultsAgree_of_sessionsAgree {x : String} {s s' : Session W S} {finished finished' : Bool}
    (hfinished : finished = finished') (h : Unit.SessionsAgree x s s') :
    ResultsAgree W x (if finished then some s.unit else none)
      (if finished' then some s'.unit else none) := by
  subst hfinished
  cases finished with
  | true => exact ⟨h.unit, h.tidy, h.tidy'⟩
  | false => trivial

include hbuiltin halive hc hlevels in
theorem run_agree (symbols : SymbolTable) (t : Tree) {w w' : World W} (hw : WorldsAgree x w w')
    (hcancelled : w.cancelled = false) :
    let left := Unit.run (e.env symbols t) e.registration (e.active t.scope) w
    let right := Unit.run ((e.reconfigured c levels).env symbols t) e.registration
      ((e.reconfigured c levels).active t.scope) w'
    left.1 = right.1 ∧ Unit.SessionsAgree x left.2 right.2 := by
  have htidy : Unit.IsTidy W ({} : UnitState S) := ⟨by simp, rfl⟩
  intro left right
  have hleft : left = _ := Unit.run_eq_follow hbuiltin.tables (e.env symbols t)
    (e.active t.scope) hcancelled
  have hright : right = _ := Unit.run_eq_follow hbuiltin.tables
    ((e.reconfigured c levels).env symbols t) ((e.reconfigured c levels).active t.scope) (hw.1 ▸ hcancelled)
  rw [hleft, hright, hbuiltin.detectors]
  exact Unit.follow_agree (env_agree hc hlevels symbols t) (lookupsKeepAlive_env halive symbols t)
    (active_agree hbuiltin hc hlevels symbols t t.scope) _
    ⟨⟨rfl, fun _ _ => rfl⟩, hw, htidy, htidy⟩

include hbuiltin halive hc hlevels in
theorem analyzeUnits_agree (symbols : SymbolTable) (trees : List Tree) {w w' : World W}
    (hw : WorldsAgree x w w') :
    List.Forall₂ (ResultsAgree W x) (e.analyzeUnits symbols trees w).1
        ((e.reconfigured c levels).analyzeUnits symbols trees w').1 ∧
      WorldsAgree x (e.analyzeUnits symbols trees w).2
        ((e.reconfigured c levels).analyzeUnits symbols trees w').2 := by
  induction trees generalizing w w' with
  | nil => exact ⟨.nil, hw⟩
  | cons t trees ih =>
      rw [analyzeUnits, analyzeUnits, ← hw.1]
      by_cases hcancelled : w.cancelled = true
      · rw [if_pos hcancelled, if_pos hcancelled]
        obtain ⟨hrest, hworld⟩ := ih hw
        exact ⟨.cons trivial hrest, hworld⟩
      · rw [if_neg hcancelled, if_neg hcancelled]
        obtain ⟨hfinished, hsession⟩ := run_agree hbuiltin halive hc hlevels symbols t hw
          (Bool.eq_false_iff.mpr hcancelled)
        obtain ⟨hrest, hworld⟩ := ih hsession.world
        exact ⟨.cons (resultsAgree_of_sessionsAgree hfinished hsession) hrest, hworld⟩

end

/-! ### Facts and findings of all units -/

section

variable {x : String} {units units' : List (Option (UnitState S))}
  (h : List.Forall₂ (ResultsAgree W x) units units')

include h

theorem found_agree :
    (found units).filter (·.issue.id != x) = (found units').filter (·.issue.id != x) := by
  induction h with
  | nil => rfl
  | @cons u u' units units' hu _ ih =>
      rw [found_cons, found_cons, List.filter_append, List.filter_append, ih]
      match u, u', hu with
      | some u, some u', hu => exact congrArg (· ++ _) hu.1.findings
      | none, none, _ => rfl

theorem exists_handedIn {f : Finding} (hf : f ∈ found units ∨ f ∈ found units') :
    ∃ d, ∃ detector : Detector W S, builtinDetectors[d]? = some detector ∧
      Unit.IsHandedIn detector d f := by
  induction h with
  | nil => simp [found] at hf
  | @cons u u' units units' hu _ ih =>
      rw [found_cons, found_cons, List.mem_append, List.mem_append] at hf
      rcases hf with (hf | hf) | (hf | hf)
      · match u, u', hu with
        | some u, some u', hu => exact hu.2.1.handedIn f hf
      · exact ih (.inl hf)
      · match u, u', hu with
        | some u, some u', hu => exact hu.2.2.handedIn f hf
      · exact ih (.inr hf)

theorem projectFacts_agree {e : Engine W S} {c : Config} (hc : e.config.AgreesExcept x c)
    (levels : Option ApiLevels) {key : String} (hkey : factIssue key ≠ x) :
    (e.projectFacts units).get? key =
      ((e.reconfigured c levels).projectFacts units').get? key := by
  have fold : ∀ f f' : Facts, f.get? key = f'.get? key →
      ((units.filterMap id).foldl (fun f u => f.merge u.facts) f).get? key =
        ((units'.filterMap id).foldl (fun f u => f.merge u.facts) f').get? key := by
    induction h with
    | nil => exact fun _ _ hf => hf
    | @cons u u' units units' hu _ ih =>
        intro f f' hf
        match u, u', hu with
        | some u, some u', hu =>
            refine ih _ _ ?_
            rw [Facts.get?_merge, Facts.get?_merge, hf, hu.1.facts key hkey]
        | none, none, _ => exact ih f f' hf
  rw [projectFacts, projectFacts, reconfigured, hc.minSdk]
  exact fold _ _ rfl

end

/-! ### Reports -/

/-- Whether a finding is about another issue than one, and not about the
analysis itself. -/
def isOther (x : String) (f : Finding) : Bool :=
  f.issue.id != x && f.issue.id != Issue.lintError.id

theorem isOther_congr {x : String} (f g : Finding) (h : f.issue.id = g.issue.id) :
    isOther x f = isOther x g := by
  rw [isOther, isOther, h]

def others (x : String) (r : Report) : List Finding := r.findings.filter (isOther x)

/-! ### Settling on both sides -/

theorem minSdk_congr {facts facts' : Facts}
    (h : facts.get? Facts.minSdkKey = facts'.get? Facts.minSdkKey) :
    facts.minSdk = facts'.minSdk := by
  rw [Facts.get?, Facts.get?] at h
  rw [Facts.minSdk, Facts.minSdk, Data.int?, Data.int?, h]

theorem supportsRtl_congr {facts facts' : Facts}
    (h : facts.get? Facts.supportsRtlKey = facts'.get? Facts.supportsRtlKey) :
    facts.supportsRtl = facts'.supportsRtl := by
  rw [Facts.get?, Facts.get?] at h
  rw [Facts.supportsRtl, Facts.supportsRtl, Data.bool?, Data.bool?, h]

theorem settledMessage_congr {facts facts' : Facts}
    (hmin : facts.get? Facts.minSdkKey = facts'.get? Facts.minSdkKey)
    (htarget : facts.get? Facts.targetSdkKey = facts'.get? Facts.targetSdkKey) (f : Finding)
    (d : Data) : settledMessage facts f d = settledMessage facts' f d := by
  have htarget : facts.entries.int? Facts.targetSdkKey = facts'.entries.int? Facts.targetSdkKey := by
    rw [Facts.get?, Facts.get?] at htarget
    rw [Data.int?, Data.int?, htarget]
  rw [settledMessage, settledMessage, minSdk_congr hmin, htarget]

theorem keptBy_rightToLeft (facts : Facts) (f : Finding) (w : World W) :
    keptBy ((rightToLeftDetector : Detector W S).settle f facts w).1 =
      (finalMessage facts f).map fun message => { f with message } := by
  simp only [rightToLeftDetector, finalMessage]
  split
  · cases hdata : f.data with
    | none =>
        simp only [Option.elim_none, Option.map_some, keptBy]
        rw [← hdata]
    | some d =>
        simp only [Option.elim_some]
        cases settledMessage facts f d <;> rfl
  · rfl

theorem finalMessage_congr {facts facts' : Facts}
    (h : ∀ key, key = Facts.supportsRtlKey ∨ key = Facts.minSdkKey ∨ key = Facts.targetSdkKey →
      facts.get? key = facts'.get? key) (f : Finding) :
    finalMessage facts f = finalMessage facts' f := by
  have hmessage : settledMessage facts f = settledMessage facts' f :=
    funext (settledMessage_congr (h _ (.inr (.inl rfl))) (h _ (.inr (.inr rfl))) f)
  rw [finalMessage, finalMessage, supportsRtl_congr (h _ (.inl rfl)), hmessage]

/-- Another finding is settled alike on both sides, unless it is about left and
right and the facts about levels differ. -/
theorem settled_agree {e : Engine W S} (hbuiltin : e.IsBuiltin) {x : String} {f : Finding}
    (hx : f.issue.id ≠ x) {facts facts' : Facts}
    (hfacts : ∀ key, factIssue key ≠ x → facts.get? key = facts'.get? key)
    {d : Nat} {detector : Detector W S} (hd : builtinDetectors[d]? = some detector)
    (hf : Unit.IsHandedIn detector d f)
    (hrtl : x = newApiIssue.id → f.issue = useStartIssue →
      finalMessage facts f = finalMessage facts' f) (w w' : World W) :
    e.settled facts w f = e.settled facts' w' f := by
  have hbind : (f.detector.bind fun d => e.registration.detectors[d]?) = some detector := by
    rw [hf.position, hbuiltin.detectors]
    exact hd
  cases hdata : f.data with
  | none => simp only [settled, hdata]
  | some data =>
      simp only [settled, hdata, hbind]
      have hmem := List.mem_of_getElem? hd
      simp only [builtinDetectors, List.mem_cons, List.not_mem_nil, or_false] at hmem
      have hissue := hf.issue
      -- only two detectors look at facts
      rcases hmem with rfl | rfl | rfl | rfl | rfl | rfl
      · rfl
      · rfl
      · rfl
      · rw [List.mem_singleton.mp hissue] at hx
        have hmin := minSdk_congr (hfacts Facts.minSdkKey hx)
        simp only [newApiDetector, hmin]
        split
        · rfl
        · split <;> rfl
      · have hissue := List.mem_singleton.mp hissue
        rw [keptBy_rightToLeft, keptBy_rightToLeft]
        by_cases hnew : x = newApiIssue.id
        · rw [hrtl hnew hissue]
        · rw [hissue] at hx
          rw [finalMessage_congr fun key hkey => hfacts key fun heq => ?_]
          rcases hkey with rfl | rfl | rfl
          · exact hx heq
          · exact hnew heq.symm
          · exact hnew heq.symm
      · rfl

/-! ### The two runs -/

section

variable {e : Engine W S} (hbuiltin : e.IsBuiltin) (halive : e.KeepsAlive) {x : String}
  {c : Config} (hc : e.config.AgreesExcept x c) {levels : Option ApiLevels}
  (hlevels : x = newApiIssue.id ∨ e.levels = levels) (trees : List Tree) (w : World W)

include hbuiltin halive hc hlevels

theorem results_agree :
    List.Forall₂ (ResultsAgree W x) (e.results trees w).1
      ((e.reconfigured c levels).results trees w).1 :=
  (analyzeUnits_agree hbuiltin halive hc hlevels _ trees (WorldsAgree.refl x w)).1

theorem facts_agree {key : String} (hkey : factIssue key ≠ x) :
    (e.facts trees w).get? key = ((e.reconfigured c levels).facts trees w).get? key :=
  projectFacts_agree (results_agree hbuiltin halive hc hlevels trees w) hc levels hkey

theorem found_isOther :
    (found (e.results trees w).1).filter (isOther x) =
      (found ((e.reconfigured c levels).results trees w).1).filter (isOther x) := by
  have h := found_agree (results_agree hbuiltin halive hc hlevels trees w)
  have hsplit : ∀ fs : List Finding, fs.filter (isOther x) =
      (fs.filter (·.issue.id != x)).filter (·.issue.id != Issue.lintError.id) := by
    intro fs
    rw [List.filter_filter]
    refine List.filter_congr fun f _ => ?_
    rw [isOther, Bool.and_comm]
  rw [hsplit, hsplit, h]

/-- Where findings about left and right get the same messages, the findings of
all other issues are the same. -/
theorem reported_agree
    (hrtl : x = newApiIssue.id → ∀ f ∈ found (e.results trees w).1, f.issue = useStartIssue →
      finalMessage (e.facts trees w) f =
        finalMessage ((e.reconfigured c levels).facts trees w) f) :
    (e.reported trees w).filter (isOther x) =
      ((e.reconfigured c levels).reported trees w).filter (isOther x) := by
  have hbuiltin' : (e.reconfigured c levels).IsBuiltin := ⟨hbuiltin.detectors, hbuiltin.tables⟩
  rw [reported, reported, filter_filterMap_settled hbuiltin _ isOther_congr,
    filter_filterMap_settled hbuiltin' _ isOther_congr,
    ← found_isOther hbuiltin halive hc hlevels trees w]
  refine List.filterMap_congr fun f hf => ?_
  obtain ⟨hf, hother⟩ := List.mem_filter.mp hf
  rw [isOther, Bool.and_eq_true, bne_iff_ne] at hother
  obtain ⟨d, detector, hd, hhanded⟩ :=
    exists_handedIn (results_agree hbuiltin halive hc hlevels trees w) (.inl hf)
  exact settled_agree hbuiltin hother.1
    (fun key hkey => facts_agree hbuiltin halive hc hlevels trees w hkey) hd hhanded
    (fun hx => hrtl hx f hf) _ _

end

/-! ### Findings about left and right -/

def isAboutStart (f : Finding) : Bool := f.issue.id == useStartIssue.id

theorem isAboutStart_congr (f g : Finding) (h : f.issue.id = g.issue.id) :
    isAboutStart f = isAboutStart g := by
  rw [isAboutStart, isAboutStart, h]

section

variable {e : Engine W S} (hbuiltin : e.IsBuiltin) {f : Finding}
  (hf : ∃ d, ∃ detector : Detector W S, builtinDetectors[d]? = some detector ∧
    Unit.IsHandedIn detector d f) (hstart : isAboutStart f = true)

include hf hstart

theorem isProvisional_of_isAboutStart : IsProvisional f := by
  obtain ⟨d, detector, hd, hhanded⟩ := hf
  obtain ⟨-, hissue⟩ :=
    eq_useStartIssue (List.mem_of_getElem? hd) hhanded.issue (beq_iff_eq.mp hstart)
  exact hhanded.provisional hissue

include hbuiltin

theorem settled_of_isAboutStart (facts : Facts) (w : World W) :
    e.settled facts w f = (finalMessage facts f).map fun message => { f with message } := by
  have hprovisional := isProvisional_of_isAboutStart hf hstart
  obtain ⟨d, detector, hd, hhanded⟩ := hf
  obtain ⟨rfl, -⟩ :=
    eq_useStartIssue (List.mem_of_getElem? hd) hhanded.issue (beq_iff_eq.mp hstart)
  have hbind : (f.detector.bind fun d => e.registration.detectors[d]?) =
      some (rightToLeftDetector : Detector W S) := by
    rw [hhanded.position, hbuiltin.detectors]
    exact hd
  have hdata : ∃ data, f.data = some data := by
    rcases hprovisional.shape with ⟨hdata, -⟩ | ⟨_, _, _, _, _, -, hdata⟩ <;> exact ⟨_, hdata⟩
  obtain ⟨data, hdata⟩ := hdata
  rw [← keptBy_rightToLeft (S := S) facts f w]
  simp only [settled, hdata, hbind]

end

section

variable {e : Engine W S} (hbuiltin : e.IsBuiltin) {trees : List Tree} {w : World W}
  (hhanded : ∀ f ∈ found (e.results trees w).1, ∃ d, ∃ detector : Detector W S,
    builtinDetectors[d]? = some detector ∧ Unit.IsHandedIn detector d f)

include hbuiltin hhanded

theorem mem_reported_isAboutStart {g : Finding} :
    g ∈ (e.reported trees w).filter isAboutStart ↔
      ∃ f ∈ (found (e.results trees w).1).filter isAboutStart,
        ∃ message, finalMessage (e.facts trees w) f = some message ∧ g = { f with message } := by
  rw [reported, filter_filterMap_settled hbuiltin _ isAboutStart_congr, List.mem_filterMap]
  refine exists_congr fun f => and_congr_right fun hf => ?_
  obtain ⟨hf, hstart⟩ := List.mem_filter.mp hf
  rw [settled_of_isAboutStart hbuiltin (hhanded f hf) hstart, Option.map_eq_some_iff]
  exact exists_congr fun message => and_congr_right fun _ => eq_comm

/-- The report says just the messages that the findings end with. -/
theorem exists_message_iff (root : Path) (unparsed : List Unparsed) (message : String) :
    (∃ f ∈ (found (e.results trees w).1).filter isAboutStart,
        finalMessage (e.facts trees w) f = some message) ↔
      ∃ g ∈ (e.run root trees unparsed w).1.findings.filter isAboutStart, g.message = message := by
  -- these findings are in no group, so the sink can only drop repetitions
  have hplain : ∀ g ∈ (e.reported trees w).filter isAboutStart, g.merge = none := by
    intro g hg
    obtain ⟨f, hf, _, -, rfl⟩ := (mem_reported_isAboutStart hbuiltin hhanded).mp hg
    obtain ⟨hf, hstart⟩ := List.mem_filter.mp hf
    exact (isProvisional_of_isAboutStart (hhanded f hf) hstart).merge
  have hgathers : Sink.Gathers ((e.reported trees w).filter isAboutStart) _ :=
    Sink.merged_gathers fun g hg m hm => by rw [hplain g hg] at hm; cases hm
  rw [filter_run hbuiltin isAboutStart_congr (fun f hf => by rw [isAboutStart, hf]; decide)]
  constructor
  · rintro ⟨f, hf, hm⟩
    have hg : { f with message } ∈ (e.reported trees w).filter isAboutStart :=
      (mem_reported_isAboutStart hbuiltin hhanded).mpr ⟨f, hf, message, hm, rfl⟩
    obtain ⟨g, hg, hrepeat⟩ :=
      Sink.exists_isRepeat_distinct (hgathers.alone _ hg (hplain _ hg))
    exact ⟨g, List.mem_mergeSort.mpr hg, (Sink.isRepeat_iff.mp hrepeat).2⟩
  · rintro ⟨g, hg, rfl⟩
    have hg := Sink.distinct_subset (List.mem_mergeSort.mp hg)
    have hmem : g ∈ (e.reported trees w).filter isAboutStart := by
      refine hgathers.known g hg (Classical.byContradiction fun hsome => ?_)
      obtain ⟨k, hk, hgk⟩ := hgathers.backed g hg hsome
      exact (Sink.merge_ne_none_of_belongsTo hgk).2 (hplain k hk)
    obtain ⟨f, hf, message, hm, rfl⟩ := (mem_reported_isAboutStart hbuiltin hhanded).mp hmem
    exact ⟨f, hf, hm⟩

end

section

variable {e : Engine W S} (hbuiltin : e.IsBuiltin) (halive : e.KeepsAlive) {c : Config}
  (hc : e.config.AgreesExcept newApiIssue.id c) (levels : Option ApiLevels) (trees : List Tree)
  (w : World W)

include hbuiltin halive hc

/-- If two runs report the same, but for new parts of the platform, then each
finding about left and right ends with the same message. -/
theorem finalMessage_eq_of_others_eq {root : Path} {unparsed : List Unparsed}
    (h : others newApiIssue.id (e.run root trees unparsed w).1 =
      others newApiIssue.id ((e.reconfigured c levels).run root trees unparsed w).1) :
    ∀ f ∈ found (e.results trees w).1, f.issue = useStartIssue →
      finalMessage (e.facts trees w) f =
        finalMessage ((e.reconfigured c levels).facts trees w) f := by
  have hbuiltin' : (e.reconfigured c levels).IsBuiltin := ⟨hbuiltin.detectors, hbuiltin.tables⟩
  have hresults := results_agree hbuiltin halive hc (.inl rfl : _ ∨ e.levels = levels) trees w
  have hsub : ∀ fs : List Finding,
      (fs.filter (isOther newApiIssue.id)).filter isAboutStart = fs.filter isAboutStart := by
    intro fs
    rw [List.filter_filter]
    refine List.filter_congr fun f _ => ?_
    cases hstart : isAboutStart f with
    | false => rfl
    | true =>
        have hid : f.issue.id = useStartIssue.id := beq_iff_eq.mp hstart
        rw [isOther, hid]
        decide
  have hfound : (found (e.results trees w).1).filter isAboutStart =
      (found ((e.reconfigured c levels).results trees w).1).filter isAboutStart := by
    rw [← hsub, found_isOther hbuiltin halive hc (.inl rfl) trees w, hsub]
  -- what is found agrees before it is settled; what is said agrees afterwards
  have hreports : (e.run root trees unparsed w).1.findings.filter isAboutStart =
      ((e.reconfigured c levels).run root trees unparsed w).1.findings.filter isAboutStart := by
    rw [← hsub, ← hsub ((e.reconfigured c levels).run root trees unparsed w).1.findings]
    exact congrArg (List.filter isAboutStart) h
  have hmessages := exists_message_iff (w := w) hbuiltin
    (fun f hf => exists_handedIn hresults (.inl hf)) root unparsed
  have hmessages' := exists_message_iff (w := w) hbuiltin'
    (fun f hf => exists_handedIn hresults (.inr hf)) root unparsed
  rw [← hfound, ← hreports] at hmessages'
  intro f hf hissue
  refine finalMessage_eq_of_same_messages ?_ (fun f hf => ?_)
    (fun f hf message hm => (hmessages' message).mpr ((hmessages message).mp ⟨f, hf, hm⟩))
    (fun f hf message hm => (hmessages message).mpr ((hmessages' message).mp ⟨f, hf, hm⟩)) f
    (List.mem_filter.mpr ⟨hf, by rw [isAboutStart, hissue]; decide⟩)
  · exact supportsRtl_congr (facts_agree hbuiltin halive hc (.inl rfl) trees w (by decide))
  · obtain ⟨hf, hstart⟩ := List.mem_filter.mp hf
    exact isProvisional_of_isAboutStart (exists_handedIn hresults (.inl hf)) hstart

end

/-- Settings for one issue, or the presence of API levels, do not change what is
reported on the others, unless findings about left and right end with other
messages because the levels in the manifest are recorded on one side only. -/
theorem others_run_eq_iff {e : Engine W S}
    (hregistration : Registration.ofDetectors e.registry builtinDetectors = .ok e.registration)
    (halive : e.KeepsAlive) {x : String} {c : Config} (hc : e.config.AgreesExcept x c)
    {levels : Option ApiLevels} (hlevels : x = newApiIssue.id ∨ e.levels = levels) (root : Path)
    (trees : List Tree) (unparsed : List Unparsed) (w : World W) :
    others x (e.run root trees unparsed w).1 =
        others x ((e.reconfigured c levels).run root trees unparsed w).1 ↔
      (x = newApiIssue.id → ∀ f ∈ found (e.results trees w).1, f.issue = useStartIssue →
        finalMessage (e.facts trees w) f =
          finalMessage ((e.reconfigured c levels).facts trees w) f) := by
  have hbuiltin := isBuiltin_of_ofDetectors hregistration
  have hbuiltin' : (e.reconfigured c levels).IsBuiltin := ⟨hbuiltin.detectors, hbuiltin.tables⟩
  have htrouble : ∀ f : Finding, f.issue = Issue.lintError → isOther x f = false := by
    intro f hf
    rw [isOther, hf, bne_self_eq_false, Bool.and_false]
  constructor
  · rintro h rfl
    exact finalMessage_eq_of_others_eq hbuiltin halive hc levels trees w h
  · intro h
    rw [others, others, filter_run hbuiltin isOther_congr htrouble,
      filter_run hbuiltin' isOther_congr htrouble,
      reported_agree hbuiltin halive hc hlevels trees w h]

/-! ### A manifest and a layout -/

def ruleRegistration? : Option (Registration Unit Unit) :=
  (Registration.ofDetectors ⟨Issue.lintError :: builtinIssues⟩ builtinDetectors).toOption

theorem isSome_ruleRegistration? : ruleRegistration?.isSome = true := by
  decide +kernel

/-- An engine with the rules and without lookups, where no class has an API
level. -/
def ofRules (config : Config) : Engine Unit Unit where
  config := config
  registry := ⟨Issue.lintError :: builtinIssues⟩
  registration := ruleRegistration?.get isSome_ruleRegistration?
  levels := some {}

theorem ofDetectors_ofRules (config : Config) :
    Registration.ofDetectors (ofRules config).registry builtinDetectors =
      .ok (ofRules config).registration := by
  have hget : (Registration.ofDetectors (ofRules config).registry builtinDetectors).toOption =
      some (ofRules config).registration :=
    (Option.some_get isSome_ruleRegistration?).symm
  cases h : Registration.ofDetectors (W := Unit) (S := Unit) (ofRules config).registry
    builtinDetectors with
  | error error =>
      rw [h] at hget
      cases hget
  | ok r =>
      rw [h] at hget
      exact congrArg Except.ok (Option.some.inj hget)

theorem keepsAlive_ofRules (config : Config) : (ofRules config).KeepsAlive := by
  rintro lookup (h | h) <;> cases h

def levelManifest : Tree :=
  (Builder.start ⟨"AndroidManifest.xml"⟩ .xml .manifest none {}
    |>.within { kind := .xmlElement, name := some "uses-sdk" }
      (·.leaf { kind := .xmlAttribute, name := some "minSdkVersion", value := some "21" })
    |>.within { kind := .xmlElement, name := some "application" }
      (·.leaf { kind := .xmlAttribute, name := some "supportsRtl", value := some "true" })).build

def leftLayout : Tree :=
  (Builder.start ⟨"res/layout/main.xml"⟩ .xml .resourceFile none {}
    |>.within { kind := .xmlElement, name := some "TextView" }
      (·.leaf { kind := .xmlAttribute, name := some "paddingLeft", value := some "8dp" })).build

def withoutNewApi (config : Config) : Config :=
  { config with enabled := [(newApiIssue.id, false)] }

theorem agreesExcept_withoutNewApi {config : Config} (h : config.enabled = []) :
    config.AgreesExcept newApiIssue.id (withoutNewApi config) where
  severity _ _ := rfl
  enabled id hid := by
    rw [h, withoutNewApi, List.lookup_cons, beq_false_of_ne hid]
  rest := rfl

/-- With a minimum level in the settings, the manifest does not count. -/
theorem others_run_withoutNewApi_of_minSdk :
    others newApiIssue.id ((ofRules { minSdk := some 21 }).run ⟨"."⟩ [levelManifest, leftLayout] []
        { host := () }).1 =
      others newApiIssue.id (((ofRules { minSdk := some 21 }).reconfigured
        (withoutNewApi { minSdk := some 21 }) (some {})).run ⟨"."⟩ [levelManifest, leftLayout] []
          { host := () }).1 := by
  have hfinal : ∀ f ∈ found ((ofRules { minSdk := some 21 }).results [levelManifest, leftLayout]
        { host := () }).1,
      finalMessage ((ofRules { minSdk := some 21 }).facts [levelManifest, leftLayout]
          { host := () }) f =
        finalMessage (((ofRules { minSdk := some 21 }).reconfigured
          (withoutNewApi { minSdk := some 21 }) (some {})).facts [levelManifest, leftLayout]
            { host := () }) f := by
    decide +kernel
  exact (others_run_eq_iff (ofDetectors_ofRules _) (keepsAlive_ofRules _)
    (agreesExcept_withoutNewApi rfl) (.inl rfl) _ _ _ _).mpr fun _ f hf _ => hfinal f hf

/-- Without one, the finding in the layout says something else when the issue of
new parts of the platform is off. -/
theorem others_run_withoutNewApi_ne :
    Config.AgreesExcept newApiIssue.id {} (withoutNewApi {}) ∧
      others newApiIssue.id ((ofRules {}).run ⟨"."⟩ [levelManifest, leftLayout] []
          { host := () }).1 ≠
        others newApiIssue.id (((ofRules {}).reconfigured (withoutNewApi {}) (some {})).run ⟨"."⟩
          [levelManifest, leftLayout] [] { host := () }).1 := by
  refine ⟨agreesExcept_withoutNewApi rfl, fun h => ?_⟩
  have hmessages := congrArg (List.map Finding.message) h
  revert hmessages
  decide +kernel

end Engine

end LintEngine
