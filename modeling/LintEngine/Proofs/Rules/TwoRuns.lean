import LintEngine.Proofs.Rules.Effects

/-!
The detectors of the rules under two settings that differ in what they say of
one issue.

`AgreesExcept` says for settings, for what a unit is analyzed against, and for
the world, that the two differ at most because of one issue. The main statement
is that a detector, told the same on both sides, hands in the same findings of
all other issues and the same facts.
-/

namespace LintEngine

/-! ### Settings -/

/-- Settings that differ at most in the severity and the switch of one
issue. -/
structure Config.AgreesExcept (x : String) (c c' : Config) : Prop where
  severity : ∀ id, id ≠ x → c.severity.lookup id = c'.severity.lookup id
  enabled : ∀ id, id ≠ x → c.enabled.lookup id = c'.enabled.lookup id
  rest : { c with severity := [], enabled := [] } = { c' with severity := [], enabled := [] }

namespace Config.AgreesExcept

variable {x : String} {c c' : Config} (h : c.AgreesExcept x c')

theorem refl (x : String) (c : Config) : c.AgreesExcept x c :=
  ⟨fun _ _ => rfl, fun _ _ => rfl, rfl⟩

include h

theorem fatalOnly : c.fatalOnly = c'.fatalOnly :=
  (congrArg Config.fatalOnly h.rest :)

theorem commentSuppression : c.commentSuppression = c'.commentSuppression :=
  (congrArg Config.commentSuppression h.rest :)

theorem minSdk : c.minSdk = c'.minSdk :=
  (congrArg Config.minSdk h.rest :)

theorem remote : c.remote = c'.remote :=
  (congrArg Config.remote h.rest :)

variable {i : Issue} (hi : i.id ≠ x)

include hi

theorem severityFor : c.severityFor i = c'.severityFor i := by
  rw [Config.severityFor, Config.severityFor, Config.isEnabled, Config.isEnabled, h.severity _ hi,
    h.enabled _ hi]

theorem isReportable : c.isReportable i = c'.isReportable i := by
  rw [Config.isReportable, Config.isReportable, h.severityFor hi, h.fatalOnly]

theorem check (t : Tree) (id : Option NodeId) : c.check i t id = c'.check i t id := by
  have hdirective : c.directiveOn i t = c'.directiveOn i t := by
    funext n
    rw [Config.directiveOn, Config.directiveOn, h.commentSuppression]
  have hsuppression : c.suppressionAt i t = c'.suppressionAt i t := by
    funext n
    rw [Config.suppressionAt, Config.suppressionAt, hdirective]
  rw [Config.check, Config.check, h.severityFor hi, h.fatalOnly, hsuppression]

end Config.AgreesExcept

/-- Findings of an issue that cannot be reported are dropped. -/
theorem Config.check_of_not_isReportable {c : Config} {i : Issue} (h : c.isReportable i = false)
    (t : Tree) (id : Option NodeId) : ∃ reason, c.check i t id = .drop reason := by
  rw [Config.check]
  split
  · exact ⟨_, rfl⟩
  · rename_i hignore
    rw [Config.isReportable] at h
    simp only [Bool.and_eq_false_iff, Bool.or_eq_false_iff, Bool.not_eq_false'] at h
    rcases h with h | h
    · simp_all
    · rw [if_pos (by simp_all)]
      exact ⟨_, rfl⟩

/-! ### What a unit is analyzed against -/

namespace Rules

variable {W S : Type}

structure EnvsAgree (x : String) (env env' : Env W) : Prop where
  view : env.view = env'.view
  registry : env.registry = env'.registry
  lookup : env.lookup = env'.lookup
  config : env.config.AgreesExcept x env'.config
  levels : x = newApiIssue.id ∨ env.levels = env'.levels

/-- Worlds in which the run is alive or not on both sides, and which are the
same unless lookups are made on one side only. -/
def WorldsAgree (x : String) (w w' : World W) : Prop :=
  w.cancelled = w'.cancelled ∧ (x = newerVersionIssue.id ∨ w = w')

def KeepsAlive (lookup : Lookup W) : Prop :=
  ∀ group artifact allowPreview w, (lookup group artifact allowPreview w).2.cancelled = w.cancelled

theorem EnvsAgree.refl (x : String) (env : Env W) : EnvsAgree x env env :=
  ⟨rfl, rfl, rfl, .refl x _, .inr rfl⟩

theorem WorldsAgree.refl (x : String) (w : World W) : WorldsAgree x w w := ⟨rfl, .inr rfl⟩

theorem WorldsAgree.symm {x : String} {w w' : World W} (h : WorldsAgree x w w') : WorldsAgree x w' w :=
  ⟨h.1.symm, h.2.imp_right Eq.symm⟩

theorem WorldsAgree.trans {x : String} {w w' w'' : World W} (h : WorldsAgree x w w')
    (h' : WorldsAgree x w' w'') : WorldsAgree x w w'' := by
  refine ⟨h.1.trans h'.1, ?_⟩
  rcases h.2 with hx | heq
  · exact .inl hx
  · exact h'.2.imp_right heq.trans

def factIssue (key : String) : String :=
  if key = Facts.supportsRtlKey then useStartIssue.id else newApiIssue.id

/-- What a detector of the rules does, told `e` in the world `w`. -/
structure Telling (detector : Detector W S) (env : Env W) (e : Event) (w w' : World W)
    (reports : List Finding) (recorded : Data) : Prop where
  does : (detector.on e).Does env w () w' reports recorded
  issues : ∀ f ∈ reports, f.issue ∈ detector.issues
  provisional : ∀ f ∈ reports, f.issue = useStartIssue → IsProvisional f
  owned : ∀ fact ∈ recorded, ∃ i ∈ detector.issues, i.id = factIssue fact.1
  alive : w'.cancelled = w.cancelled
  quiet : w' = w ∨ newerVersionIssue ∈ detector.issues ∧
    env.config.isReportable newerVersionIssue = true

/-! ### One detector on two sides -/

/-- A detector that looks at the view alone does the same wherever the view is
the same. -/
theorem telling_of_tells {detector : Detector W S} {e : Event} {v : View} {P : Finding → Prop}
    {Q : String → Prop} (h : (detector.on e).Tells v P Q)
    (hP : ∀ f, P f → f.issue ∈ detector.issues ∧ (f.issue = useStartIssue → IsProvisional f))
    (hQ : ∀ key, Q key → ∃ i ∈ detector.issues, i.id = factIssue key) :
    ∃ reports recorded, ∀ env : Env W, env.view = v → ∀ w,
      Telling detector env e w w reports recorded := by
  obtain ⟨reports, recorded, hreports, hrecorded, hdoes⟩ := h
  refine ⟨reports, recorded, fun env hv w => ?_⟩
  exact
    { does := hdoes env hv w
      issues := fun f hf => (hP f (hreports f hf)).1
      provisional := fun f hf => (hP f (hreports f hf)).2
      owned := fun fact hfact => hQ _ (hrecorded fact hfact)
      alive := rfl
      quiet := .inl rfl }

/-- A detector, told the same on two sides, hands in the same findings but for
one issue, and the same facts. -/
def Twins (x : String) (detector : Detector W S) (e : Event) : Prop :=
  ∀ env env' : Env W, EnvsAgree x env env' → (∀ lookup, env.lookup = some lookup → KeepsAlive lookup) →
    ∀ w w', WorldsAgree x w w' →
      ∃ reports reports' recorded after after',
        Telling detector env e w after reports recorded ∧
        Telling detector env' e w' after' reports' recorded ∧
        reports.filter (·.issue.id != x) = reports'.filter (·.issue.id != x) ∧
        WorldsAgree x after after'

theorem twins_of_tells {x : String} {detector : Detector W S} {e : Event} {P : Finding → Prop}
    {Q : String → Prop} (h : ∀ v, (detector.on e).Tells v P Q)
    (hP : ∀ f, P f → f.issue ∈ detector.issues ∧ (f.issue = useStartIssue → IsProvisional f))
    (hQ : ∀ key, Q key → ∃ i ∈ detector.issues, i.id = factIssue key) : Twins x detector e := by
  intro env env' henv _ w w' hw
  obtain ⟨reports, recorded, htelling⟩ := telling_of_tells (h env.view) hP hQ
  exact ⟨reports, reports, recorded, w, w', htelling env rfl w, htelling env' henv.view.symm w',
    rfl, hw⟩

theorem not_mem_of_id {i : Issue} {issues : List Issue} (h : i.id ∉ issues.map Issue.id) :
    i ∉ issues :=
  fun hmem => h (List.mem_map_of_mem hmem)

/-- For detectors that record nothing and do not look at layouts. -/
theorem twins_of_isOf {x : String} {detector : Detector W S} {e : Event} {issues : List Issue}
    (h : ∀ v, (detector.on e).Tells v (IsOf issues) NoFact) (hissues : detector.issues = issues)
    (hstart : useStartIssue.id ∉ issues.map Issue.id) : Twins x detector e :=
  twins_of_tells h
    (fun _ hf => ⟨hissues ▸ hf, fun heq => absurd (heq ▸ hf) (not_mem_of_id hstart)⟩)
    fun _ h => h.elim

theorem newApi_twins (x : String) (e : Event) :
    Twins x (newApiDetector : Detector W S) e := by
  have hstart : newApiIssue ≠ useStartIssue := fun h => absurd (congrArg Issue.id h) (by decide)
  have hquiet : ∀ e, (∀ v, ((newApiDetector : Detector W S).on e).Tells v (IsOf [newApiIssue])
      fun key => key = Facts.minSdkKey ∨ key = Facts.targetSdkKey) →
      Twins x (newApiDetector : Detector W S) e := by
    intro e h
    refine twins_of_tells h (fun f hf => ⟨hf, fun heq => ?_⟩) ?_
    · exact absurd ((List.mem_singleton.mp hf).symm.trans heq) hstart
    · rintro key (rfl | rfl) <;> exact ⟨newApiIssue, List.mem_cons_self, by decide⟩
  cases e with
  | element id => exact hquiet _ fun v => recordLevels_tells id _
  | enter id =>
      have htelling : ∀ (env : Env W) (w : World W),
          Telling (newApiDetector : Detector W S) env (.enter id) w w
            (newUses env.view env.levels env.config.minSdk id) [] := fun env w =>
        { does := checkRequirement_does env w id
          issues := fun f hf => List.mem_singleton.mpr (issue_of_mem_newUses hf)
          provisional := fun f hf heq => absurd ((issue_of_mem_newUses hf).symm.trans heq) hstart
          owned := by simp
          alive := rfl
          quiet := .inl rfl }
      intro env env' henv _ w w' hw
      refine ⟨_, _, _, w, w', htelling env w, htelling env' w', ?_, hw⟩
      -- different levels are allowed only where these findings do not count
      rcases henv.levels with rfl | hlevels
      · have hnone : ∀ env : Env W, (newUses env.view env.levels env.config.minSdk id).filter
            (·.issue.id != newApiIssue.id) = [] := by
          intro env
          refine List.filter_eq_nil_iff.mpr fun f hf => ?_
          simp [issue_of_mem_newUses hf]
        rw [hnone, hnone]
      · rw [henv.view, hlevels, henv.config.minSdk]
  | _ => exact hquiet _ fun v => Task.Tells.pure

theorem issue_of_mem_newerAnswer {v : View} {lookup : Option (Lookup W)} {w : World W}
    {id : NodeId} {group artifact current : String} {f : Finding}
    (h : f ∈ (newerAnswer v lookup w id group artifact current).1) :
    f.issue = newerVersionIssue := by
  unfold newerAnswer at h
  split at h
  · cases h
  · dsimp only at h
    split at h
    · split at h
      · rw [List.mem_singleton.mp h]
        rfl
      · cases h
    · cases h

theorem newerAnswer_alive {lookup : Option (Lookup W)}
    (h : ∀ l, lookup = some l → KeepsAlive l) (v : View) (w : World W) (id : NodeId)
    (group artifact current : String) :
    (newerAnswer v lookup w id group artifact current).2.cancelled = w.cancelled := by
  unfold newerAnswer
  split
  · rfl
  · rename_i lookup
    dsimp only
    split
    · split <;> exact h lookup rfl ..
    · exact h lookup rfl ..

/-- A dependency gets one fixed finding, a lookup if lookups are made, or
nothing. -/
theorem dependencyAnswer_cases (v : View) (id : NodeId) :
    (∃ f : Finding, f.issue = dynamicVersionIssue ∧ ∀ (lookup : Option (Lookup W)) asks w,
      dependencyAnswer v lookup asks w id = ([f], w)) ∨
    (∃ group artifact current, ∀ (lookup : Option (Lookup W)) asks w,
      dependencyAnswer v lookup asks w id =
        if asks then newerAnswer v lookup w id group artifact current else ([], w)) ∨
    ∀ (lookup : Option (Lookup W)) asks w, dependencyAnswer v lookup asks w id = ([], w) := by
  unfold dependencyAnswer
  rcases (v.tree.node id).space with _ | group
  · exact .inr (.inr fun _ _ _ => rfl)
  rcases (v.tree.node id).name with _ | artifact
  · exact .inr (.inr fun _ _ _ => rfl)
  rcases (v.tree.node id).value with _ | version
  · exact .inr (.inr fun _ _ _ => rfl)
  by_cases hplus : version.toList.contains '+' = true
  · exact .inl ⟨_, rfl, fun _ _ _ => if_pos hplus⟩
  · exact .inr (.inl ⟨group, artifact, version, fun _ _ _ => if_neg hplus⟩)

theorem issue_of_mem_dependencyAnswer {v : View} {lookup : Option (Lookup W)} {asks : Bool}
    {w : World W} {id : NodeId} {f : Finding}
    (h : f ∈ (dependencyAnswer v lookup asks w id).1) :
    f.issue ∈ [dynamicVersionIssue, newerVersionIssue] := by
  rcases dependencyAnswer_cases v id with ⟨g, hg, heq⟩ | ⟨_, _, _, heq⟩ | heq
  · rw [heq] at h
    rw [List.mem_singleton.mp h, hg]
    exact List.mem_cons_self
  · rw [heq] at h
    split at h
    · rw [issue_of_mem_newerAnswer h]
      exact List.mem_cons_of_mem _ List.mem_cons_self
    · cases h
  · rw [heq] at h
    cases h

theorem dependency_telling (env : Env W) (h : ∀ l, env.lookup = some l → KeepsAlive l)
    (w : World W) (id : NodeId) :
    let answer := dependencyAnswer env.view env.lookup
      (env.config.isReportable newerVersionIssue) w id
    Telling (dependencyDetector : Detector W S) env (.enter id) w answer.2 answer.1 [] := by
  have hstart : useStartIssue ∉ [dynamicVersionIssue, newerVersionIssue] :=
    not_mem_of_id (by decide)
  exact
    { does := checkDependency_does env w id
      issues := fun f => issue_of_mem_dependencyAnswer
      provisional := fun f hf hf' => absurd (hf' ▸ issue_of_mem_dependencyAnswer hf) hstart
      owned := by simp
      alive := by
        rcases dependencyAnswer_cases env.view id with ⟨g, hg, heq⟩ | ⟨_, _, _, heq⟩ | heq
        · rw [heq]
        · rw [heq]
          split
          · exact newerAnswer_alive h ..
          · rfl
        · rw [heq]
      quiet := by
        by_cases hasks : env.config.isReportable newerVersionIssue = true
        · exact .inr ⟨by simp [dependencyDetector], hasks⟩
        · refine .inl ?_
          rw [Bool.eq_false_iff.mpr hasks]
          rcases dependencyAnswer_cases env.view id with ⟨g, hg, heq⟩ | ⟨_, _, _, heq⟩ | heq
          · rw [heq]
          · rw [heq]
            rfl
          · rw [heq] }

theorem dependency_twins (x : String) (e : Event) :
    Twins x (dependencyDetector : Detector W S) e := by
  have hpure : ∀ v, (pure () : Task W S Unit).Tells v
      (IsOf [dynamicVersionIssue, newerVersionIssue]) NoFact := fun v => Task.Tells.pure
  cases e with
  | enter id =>
      intro env env' henv hlookup w w' hw
      have htelling := dependency_telling (S := S) env hlookup w id
      have htelling' := dependency_telling (S := S) env' (henv.lookup ▸ hlookup) w' id
      by_cases hx : newerVersionIssue.id = x
      · -- lookups may be made on one side only, but all they lead to is of this issue
        refine ⟨_, _, _, _, _, htelling, htelling', ?_, ?_, .inl hx.symm⟩
        · have hnone : ∀ (env : Env W) (w : World W) group artifact current,
              (newerAnswer env.view env.lookup w id group artifact current).1.filter
                (·.issue.id != x) = [] := by
            intro env w group artifact current
            refine List.filter_eq_nil_iff.mpr fun f hf => ?_
            simp [issue_of_mem_newerAnswer hf, hx]
          rw [← henv.view]
          rcases dependencyAnswer_cases env.view id with ⟨g, hg, heq⟩ | ⟨_, _, _, heq⟩ | heq
          · rw [heq, heq]
          · have hside : ∀ (env : Env W) (asks : Bool) (w : World W) group artifact current,
                (if asks then newerAnswer env.view env.lookup w id group artifact current
                  else ([], w)).1.filter (·.issue.id != x) = [] := by
              intro env asks w group artifact current
              split
              · exact hnone ..
              · rfl
            rw [heq, heq, hside, henv.view, hside]
          · rw [heq, heq]
        · rw [htelling.alive, htelling'.alive, hw.1]
      · have hsame : w = w' := hw.2.resolve_left fun h => hx h.symm
        have heq : dependencyAnswer env.view env.lookup (env.config.isReportable newerVersionIssue)
            w id = dependencyAnswer env'.view env'.lookup
              (env'.config.isReportable newerVersionIssue) w' id := by
          rw [henv.view, henv.lookup, henv.config.isReportable hx, hsame]
        refine ⟨_, _, _, _, _, htelling, htelling', ?_, ?_⟩
        · rw [heq]
        · rw [heq]
          exact WorldsAgree.refl x _
  | _ => exact twins_of_isOf hpure rfl (by decide)

theorem rightToLeft_twins (x : String) (e : Event) :
    Twins x (rightToLeftDetector : Detector W S) e := by
  refine twins_of_tells (fun v => rightToLeftDetector_tells e) (fun f hf => ⟨?_, fun _ => hf⟩) ?_
  · rw [hf.issue]
    exact List.mem_cons_self
  · rintro key rfl
    exact ⟨useStartIssue, List.mem_cons_self, by decide⟩

theorem builtin_twins (x : String) {detector : Detector W S} (h : detector ∈ builtinDetectors)
    (e : Event) : Twins x detector e := by
  simp only [builtinDetectors, List.mem_cons, List.not_mem_nil, or_false] at h
  rcases h with rfl | rfl | rfl | rfl | rfl | rfl
  · exact twins_of_isOf (fun v => rangeDetector_tells e) rfl (by decide)
  · exact twins_of_isOf (fun v => typedefDetector_tells e) rfl (by decide)
  · exact twins_of_isOf (fun v => recycleDetector_tells e) rfl (by decide)
  · exact newApi_twins x e
  · exact rightToLeft_twins x e
  · exact dependency_twins x e

end Rules

end LintEngine
