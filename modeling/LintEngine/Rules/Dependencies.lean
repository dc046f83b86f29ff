import LintEngine.Detector.Basic
import LintEngine.Versions.Order

/-!
Library dependencies: versions that are not fixed, and versions that are out
of date.
-/

namespace LintEngine.Rules

def dynamicVersionIssue : Issue where
  id := "GradleDynamicVersion"
  brief := "Gradle Dynamic Version"
  explanation := "Using `+` in dependencies lets you automatically pick up the latest available " ++
    "version rather than a specific, named version. However, this is not recommended; " ++
    "your builds are not repeatable; you may have tested with a slightly different " ++
    "version than what the build server used."
  priority := 4
  severity := .warning
  detector := "DependencyVersionDetector"
  scopes := [.gradleFile]

def newerVersionIssue : Issue where
  id := "NewerVersionAvailable"
  brief := "Newer Library Versions Available"
  explanation := "This detector checks with a central repository to see if there are newer " ++
    "versions available for the dependencies used by this project. This check " ++
    "requires network access and is therefore off by default."
  priority := 4
  severity := .warning
  enabledByDefault := false
  detector := "DependencyVersionDetector"
  scopes := [.gradleFile]

variable {W S : Type}

/-- Looks for a newer version. Previews are suggested only in place of a
preview; a lookup that fails is passed over. -/
def checkNewer (id : NodeId) (group artifact current : String) : Task W S Unit := do
  let some lookup := (← Task.env).lookup | return
  match ← Task.latestVersion lookup group artifact (Versions.isPreview current) with
  | .ok (some latest) =>
    if Versions.compareVersions latest current == .gt then
      Task.reportAt newerVersionIssue id ("A newer version of " ++ group ++ ":" ++ artifact ++
        " than " ++ current ++ " is available: " ++ latest)
  | _ => return

def checkDependency (id : NodeId) (group artifact version : String) : Task W S Unit := do
  if version.toList.contains '+' then
    Task.reportAt dynamicVersionIssue id ("Avoid using + in version numbers; can lead to " ++
      "unpredictable and unrepeatable builds (" ++ group ++ ":" ++ artifact ++ ":" ++ version ++ ")")
  else if (← Task.env).config.isReportable newerVersionIssue then
    checkNewer id group artifact version

def dependencyDetector : Detector W S where
  name := "DependencyVersionDetector"
  issues := [dynamicVersionIssue, newerVersionIssue]
  interests := [⟨.build, .enter .dependency⟩]
  on
    | .enter id => do
      let n := (← Task.tree).node id
      match n.space, n.name, n.value with
      | some group, some artifact, some version => checkDependency id group artifact version
      | _, _, _ => return
    | _ => return

end LintEngine.Rules
