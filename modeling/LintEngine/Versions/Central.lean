import LintEngine.Detector.Basic
import LintEngine.Versions.Order

/-!
Asking a library repository for the newest version of a library.

A client remembers every answer, also that there is none, so that a library
is asked for once. A failed lookup is an error once and no answer from then
on. After a request that was never answered the repository counts as
unreachable, and nothing is sent any more.
-/

namespace LintEngine.Versions.Central

/-- The libraries of one group and artifact; with `newestOnly`, only the one
that was published last. -/
structure Search where
  group : String
  artifact : String
  newestOnly : Bool
deriving DecidableEq, Repr, Inhabited

/-- What comes of sending a request. -/
inductive Reply where
  | answered (status : Nat) (body : String)
  | timedOut
  | refused (text : String)
  /-- A failure after the connection was made. -/
  | broken (text : String)
deriving DecidableEq, Repr, Inhabited

/-- The network: what becomes of a request, and of the world while it is
under way. -/
abbrev Transport (W : Type) := Search → World W → Reply × World W

/-- What is remembered under: group, artifact, and whether previews are
allowed. -/
abbrev Key := String × String × Bool

structure Client where
  /-- The answers so far, the latest first. -/
  answers : List (Key × Option String) := []
  unreachable : Bool := false
  /-- The number of requests sent. -/
  requests : Nat := 0
deriving Repr, Inhabited

/-- A step of a client in the world. -/
abbrev Call (W : Type) := ExceptT LintError (StateM (Client × World W))

/-- The versions in the body of an answer. -/
def versionsOf? (body : String) : Option (List String) := do
  match ← (← Json.parse? body).record? ["response"] with
  | [some response] =>
    match ← response.record? ["docs"] with
    | [docs] => Json.orDefault (Json.list? documentVersion?) [] docs
    | _ => none
  | _ => none
where
  documentVersion? (j : Json) : Option String := do
    match ← j.record? ["v"] with
    | [some v] => v.string?
    | _ => none

/-- The first version that will do, and whether the last one looked at was a
preview. -/
def choose (allowPreview : Bool) : List String → Option String × Bool
  | [] => (none, false)
  | v :: rest =>
    let preview := isPreview v
    if allowPreview || !preview then (some v, preview)
    else match rest with
      | [] => (none, preview)
      | _ => choose allowPreview rest

/-- What a reply says. -/
def Reply.versions (s : Search) : Reply → Except LintError (List String)
  | .timedOut =>
    .error (.remote ("request for " ++ s.group ++ ":" ++ s.artifact ++ " timed out"))
  | .refused text | .broken text => .error (.remote text)
  | .answered status body =>
    if status < 200 || 300 ≤ status then
      .error (.remote ("HTTP " ++ toString status ++ " for " ++ s.group ++ ":" ++ s.artifact))
    else match versionsOf? body with
      | some versions => .ok versions
      | none => .error (.remote "unexpected answer")

/-- Whether a reply shows that nobody answers. -/
def Reply.isSilence : Reply → Bool
  | .timedOut | .refused _ => true
  | .answered _ _ | .broken _ => false

section

variable {W : Type} (net : Transport W)

/-- Sends a search, unless the run has been cancelled. -/
def search (s : Search) : Call W (List String) := do
  let (client, world) ← get
  if world.cancelled then throw .cancelled
  let (reply, world) := net s world
  set ({ client with
    requests := client.requests + 1
    unreachable := client.unreachable || reply.isSilence }, world)
  liftExcept (reply.versions s)
where
  liftExcept {α : Type} : Except LintError α → Call W α
    | .ok a => pure a
    | .error e => throw e

/-- Asks for the newest version. If that one is a preview and a stable one is
wanted, all versions are searched. -/
def ask (group artifact : String) (allowPreview : Bool) : Call W (Option String) := do
  let newest ← search net ⟨group, artifact, true⟩
  match choose allowPreview newest with
  | (some v, _) => return some v
  | (none, false) => return none
  | (none, true) =>
    if allowPreview then return none
    return (choose false (← search net ⟨group, artifact, false⟩)).1

/-- Remembers an answer. -/
def remember (key : Key) (answer : Option String) : Call W Unit :=
  modify fun (client, world) => ({ client with answers := (key, answer) :: client.answers }, world)

/-- The newest version of a library, remembered or asked for. -/
def latest (group artifact : String) (allowPreview : Bool) : Call W (Option String) := do
  let key := (group, artifact, allowPreview)
  let (client, _) ← get
  match client.answers.lookup key with
  | some answer => return answer
  | none =>
    if client.unreachable then return none
    try
      let answer ← ask net group artifact allowPreview
      remember key answer
      return answer
    catch
      | .cancelled => throw .cancelled
      | e => do
        remember key none
        throw e

/-- A lookup for detectors, by a client that is a part of the host. -/
def lookup (client : W → Client) (setClient : Client → W → W) : Lookup W :=
  fun group artifact allowPreview world =>
    let (answer, c, world) := (latest net group artifact allowPreview).run.run
      (client world.host, world)
    (answer, { world with host := setClient c world.host })

end

end LintEngine.Versions.Central
