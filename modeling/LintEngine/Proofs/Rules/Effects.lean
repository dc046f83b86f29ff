import LintEngine.Proofs.Detector.Effects
import LintEngine.Rules.Builtin

/-!
What the detectors of the rules do when they are told something.

Most of them look at nothing but the view. The detector for new parts of the
platform also looks at the API levels and at the minimum level in the settings,
and the detector for dependencies at one severity, the lookup and the world;
for these two, what they hand in is written down as a function.
-/

namespace LintEngine.Rules

variable {W S : Type} {v : View}

def IsOf (issues : List Issue) (f : Finding) : Prop := f.issue ∈ issues

def NoFact (_ : String) : Prop := False

theorem isOf_findingAt {issues : List Issue} {issue : Issue} (h : issue ∈ issues) (node : NodeId)
    (message : String) : IsOf issues (Task.findingAt v issue node message) := h

/-! ### Detectors that look at the view alone -/

theorem rangeDetector_tells (e : Event) :
    ((rangeDetector : Detector W S).on e).Tells v (IsOf [rangeIssue, invalidRangeIssue]) NoFact := by
  cases e with
  | usage u =>
      refine Task.Tells.view_bind ?_
      cases u.kind with
      | definition =>
          simp only []
          split
          · exact Task.Tells.reportAt (isOf_findingAt (by simp) ..)
          · exact Task.Tells.pure
      | argument | initializer =>
          exact Task.Tells.forM fun _ _ => Task.Tells.reportAt (isOf_findingAt (by simp) ..)
      | call => exact Task.Tells.pure
  | _ => exact Task.Tells.pure

theorem recycleDetector_tells (e : Event) :
    ((recycleDetector : Detector W S).on e).Tells v (IsOf [recycleIssue]) NoFact := by
  cases e with
  | call id m =>
      refine Task.Tells.view_bind ?_
      split
      · split
        · exact Task.Tells.reportAt (isOf_findingAt (by simp) ..)
        · exact Task.Tells.pure
      · exact Task.Tells.pure
  | _ => exact Task.Tells.pure

theorem checkSwitch_tells (id : NodeId) :
    (checkSwitch id : Task W S Unit).Tells v (IsOf [switchIssue]) NoFact := by
  refine Task.Tells.view_bind ?_
  dsimp only
  split
  · split
    · split
      · exact Task.Tells.pure
      · refine Task.Tells.seq (Task.Tells.forM fun _ _ =>
          Task.Tells.reportAt (isOf_findingAt (by simp) ..)) ?_
        split
        · exact Task.Tells.pure
        · exact Task.Tells.forM fun _ _ => Task.Tells.report (by simp [IsOf, Finding.new])
    · exact Task.Tells.pure
  · exact Task.Tells.pure

theorem checkUsage_tells (u : Usage) :
    (checkUsage u : Task W S Unit).Tells v (IsOf [uniqueIssue, wrongConstantIssue]) NoFact := by
  refine Task.Tells.view_bind ?_
  split
  · split
    · exact Task.Tells.pure
    · dsimp only
      split
      · exact Task.Tells.finding_bind
          (Task.Tells.report (by simp [IsOf, Task.findingAt, Finding.new]))
      · exact Task.Tells.pure
  · exact Task.Tells.pure

/-- Uses of annotated elements have nothing to do with switches. -/
theorem typedefDetector_usage_tells (u : Usage) :
    ((typedefDetector : Detector W S).on (.usage u)).Tells v
      (IsOf [uniqueIssue, wrongConstantIssue]) NoFact := by
  simp only [typedefDetector]
  split
  · split
    · refine Task.Tells.view_bind ?_
      split
      · exact Task.Tells.finding_bind
          (Task.Tells.report (by simp [IsOf, Task.findingAt, Finding.new]))
      · exact Task.Tells.pure
    · exact Task.Tells.pure
  · exact checkUsage_tells u
  · exact checkUsage_tells u
  · exact Task.Tells.pure

theorem typedefDetector_tells (e : Event) :
    ((typedefDetector : Detector W S).on e).Tells v
      (IsOf [uniqueIssue, wrongConstantIssue, switchIssue]) NoFact := by
  cases e with
  | usage u =>
      exact (typedefDetector_usage_tells u).mono fun _ => List.mem_append_left [switchIssue]
  | exit id =>
      exact (checkSwitch_tells id).mono fun _ =>
        List.mem_append_right [uniqueIssue, wrongConstantIssue]
  | _ => exact Task.Tells.pure

/-! ### Layouts from right to left -/

def sideData (mode name replacement space value : String) : Data :=
  [(modeKey, .str mode), (nameKey, .str name), (replacementKey, .str replacement),
    (spaceKey, .str space), (valueKey, .str value)]

structure IsProvisional (f : Finding) : Prop where
  issue : f.issue = useStartIssue
  merge : f.merge = none
  shape : (f.data = some [(modeKey, .str gravityMode)] ∧ ∃ rest, f.message = "Use \"`" ++ rest) ∨
    ∃ mode name replacement space value, (mode = redundantMode ∨ mode = missingMode) ∧
      f.data = some (sideData mode name replacement space value)

theorem checkGravity_tells (id : NodeId) (Q : String → Prop) :
    (checkGravity id : Task W S Unit).Tells v IsProvisional Q := by
  refine Task.Tells.tree_bind ?_
  split
  · dsimp only
    split
    · rename_i side _
      refine Task.Tells.finding_bind (Task.Tells.report ⟨rfl, rfl, .inl ⟨rfl, ?_⟩⟩)
      refine ⟨(sideGravity? side).getD "" ++ ("`\" instead of \"`" ++ (side ++
        "`\" to ensure correct behavior in right-to-left locales")), ?_⟩
      simp only [Task.findingAt, Finding.new, String.append_assoc]
    · exact Task.Tells.pure
  · exact Task.Tells.pure

theorem checkSide_tells (id : NodeId) (name replacement : String) (Q : String → Prop) :
    (checkSide id name replacement : Task W S Unit).Tells v IsProvisional Q := by
  refine Task.Tells.tree_bind ?_
  dsimp only
  refine Task.Tells.finding_bind (Task.Tells.report ⟨rfl, rfl, .inr ⟨_, _, _, _, _, ?_, rfl⟩⟩)
  split
  · exact .inl rfl
  · exact .inr rfl

theorem rightToLeftDetector_tells (e : Event) :
    ((rightToLeftDetector : Detector W S).on e).Tells v IsProvisional (· = Facts.supportsRtlKey) := by
  cases e with
  | attribute_ id =>
      refine Task.Tells.tree_bind ?_
      split
      · split
        · exact checkGravity_tells ..
        · split
          · exact checkSide_tells ..
          · exact Task.Tells.pure
      · exact Task.Tells.pure
  | element id =>
      refine Task.Tells.tree_bind ?_
      dsimp only
      split
      · exact Task.Tells.recordFact (Q := (· = Facts.supportsRtlKey)) rfl _
      · exact Task.Tells.pure
  | _ => exact Task.Tells.pure

/-! ### New parts of the platform -/

def newUses (v : View) (levels : Option ApiLevels) (minSdk : Option Nat) (id : NodeId) :
    List Finding :=
  match levels.bind (requirement v · id) with
  | some (level, message) =>
      if level ≤ guaranteedLevel v id ∨ minSdk.any (level ≤ ·) = true then []
      else [{ Task.findingAt v newApiIssue id message with
        data := some [(requiredLevelKey, .int level)] }]
  | none => []

theorem issue_of_mem_newUses {levels : Option ApiLevels} {minSdk : Option Nat} {id : NodeId}
    {f : Finding} (h : f ∈ newUses v levels minSdk id) : f.issue = newApiIssue := by
  rw [newUses] at h
  split at h
  · split at h
    · cases h
    · rw [List.mem_singleton.mp h]
      rfl
  · cases h

theorem checkRequirement_does (env : Env W) (w : World W) (id : NodeId) :
    (checkRequirement id : Task W S Unit).Does env w () w
      (newUses env.view env.levels env.config.minSdk id) [] := by
  refine (Task.Does.env_ env w).read_bind ?_
  rw [newUses]
  cases hlevels : env.levels with
  | none => exact Task.Does.pure () env w
  | some levels =>
      simp only [Option.bind_some]
      cases hrequirement : requirement env.view levels id with
      | none => exact Task.Does.pure () env w
      | some r =>
          obtain ⟨level, message⟩ := r
          simp only []
          split
          · rename_i hguard
            rw [if_pos (.inl hguard)]
            exact Task.Does.pure () env w
          · rename_i hguard
            split
            · rename_i hmin
              rw [if_pos (.inr hmin)]
              exact Task.Does.pure () env w
            · rename_i hmin
              rw [if_neg (not_or.mpr ⟨hguard, hmin⟩)]
              exact (Task.Does.finding newApiIssue id message env w).read_bind
                (Task.Does.report _ env w)

theorem recordLevels_tells (id : NodeId) (P : Finding → Prop) :
    (recordLevels id : Task W S Unit).Tells v P
      (fun key => key = Facts.minSdkKey ∨ key = Facts.targetSdkKey) := by
  refine Task.Tells.tree_bind (Task.Tells.forM fun c _ => ?_)
  dsimp only
  split
  · rename_i key _ hkey _
    refine Task.Tells.recordFact (Q := fun key => key = Facts.minSdkKey ∨ key = Facts.targetSdkKey)
      ?_ _
    split at hkey
    · exact .inl (Option.some.inj hkey).symm
    · split at hkey
      · exact .inr (Option.some.inj hkey).symm
      · cases hkey
  · exact Task.Tells.pure

/-! ### Dependencies -/

def newerAnswer (v : View) (lookup : Option (Lookup W)) (w : World W) (id : NodeId)
    (group artifact current : String) : List Finding × World W :=
  match lookup with
  | none => ([], w)
  | some lookup =>
      let answer := lookup group artifact (Versions.isPreview current) w
      match answer.1 with
      | .ok (some latest) =>
          if Versions.compareVersions latest current == .gt then
            ([Task.findingAt v newerVersionIssue id ("A newer version of " ++ group ++ ":" ++
              artifact ++ " than " ++ current ++ " is available: " ++ latest)], answer.2)
          else ([], answer.2)
      | _ => ([], answer.2)

/-- What is handed in for a dependency, with the world after it. Lookups are
made only if `asks` says so. -/
def dependencyAnswer (v : View) (lookup : Option (Lookup W)) (asks : Bool) (w : World W)
    (id : NodeId) : List Finding × World W :=
  match (v.tree.node id).space, (v.tree.node id).name, (v.tree.node id).value with
  | some group, some artifact, some version =>
      if version.toList.contains '+' then
        ([Task.findingAt v dynamicVersionIssue id ("Avoid using + in version numbers; can lead to " ++
          "unpredictable and unrepeatable builds (" ++ group ++ ":" ++ artifact ++ ":" ++ version ++
          ")")], w)
      else if asks then newerAnswer v lookup w id group artifact version
      else ([], w)
  | _, _, _ => ([], w)

theorem checkNewer_does (env : Env W) (w : World W) (id : NodeId)
    (group artifact current : String) :
    (checkNewer id group artifact current : Task W S Unit).Does env w ()
      (newerAnswer env.view env.lookup w id group artifact current).2
      (newerAnswer env.view env.lookup w id group artifact current).1 [] := by
  refine (Task.Does.env_ env w).read_bind ?_
  unfold newerAnswer
  cases env.lookup with
  | none => exact Task.Does.pure () env w
  | some lookup =>
      refine (Task.Does.latestVersion lookup group artifact _ env w).bind ?_
      simp only []
      cases (lookup group artifact (Versions.isPreview current) w).1 with
      | error e => exact Task.Does.pure () env _
      | ok latest =>
          cases latest with
          | none => exact Task.Does.pure () env _
          | some latest =>
              simp only []
              split
              · exact (Task.Does.finding newerVersionIssue id _ env _).read_bind
                  (Task.Does.report _ env _)
              · exact Task.Does.pure () env _

theorem checkDependency_does (env : Env W) (w : World W) (id : NodeId) :
    ((dependencyDetector : Detector W S).on (.enter id)).Does env w ()
      (dependencyAnswer env.view env.lookup (env.config.isReportable newerVersionIssue) w id).2
      (dependencyAnswer env.view env.lookup (env.config.isReportable newerVersionIssue) w id).1
      [] := by
  refine (Task.Does.tree_ env w).read_bind ?_
  unfold dependencyAnswer
  dsimp only
  rcases (env.view.tree.node id).space with _ | group
  · exact Task.Does.pure () env w
  rcases (env.view.tree.node id).name with _ | artifact
  · exact Task.Does.pure () env w
  rcases (env.view.tree.node id).value with _ | version
  · exact Task.Does.pure () env w
  simp only [checkDependency]
  by_cases hplus : version.toList.contains '+' = true
  · rw [if_pos hplus, if_pos hplus]
    exact (Task.Does.finding dynamicVersionIssue id _ env w).read_bind (Task.Does.report _ env w)
  · rw [if_neg hplus, if_neg hplus]
    refine (Task.Does.env_ env w).read_bind ?_
    by_cases hasks : env.config.isReportable newerVersionIssue = true
    · rw [if_pos hasks, if_pos hasks]
      exact checkNewer_does env w id group artifact version
    · rw [if_neg hasks, if_neg hasks]
      exact Task.Does.pure () env w

end LintEngine.Rules
