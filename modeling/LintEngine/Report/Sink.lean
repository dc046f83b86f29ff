import LintEngine.Error
import LintEngine.Finding

/-!
The sink: it takes the findings of a run and makes the final report of them.
Findings that belong together become one, repeated findings count once, and
the rest is sorted by file, offset and issue.
-/

namespace LintEngine

/-- The result of a run. -/
structure Report where
  findings : List Finding := []
  /-- How often each severity occurs, of those that do, in ascending order. -/
  counts : List (Severity × Nat) := []
  failures : List Failure := []
  /-- The number of files analyzed. -/
  files : Nat := 0
  /-- The number of findings dropped. -/
  suppressed : Nat := 0
  /-- The run was cancelled, so the report is incomplete. -/
  cancelled : Bool := false
deriving Inhabited

namespace Report

/-- The number of findings of a severity. -/
def count (r : Report) (s : Severity) : Nat := (r.counts.lookup s).getD 0

/-- Whether a finding makes the run fail. -/
def hasErrors (r : Report) : Bool := r.findings.any (·.severity.isError)

def isEmpty (r : Report) : Bool := r.findings.isEmpty

/-- Whether the run went to its end. -/
def isComplete (r : Report) : Bool := !r.cancelled

/-- The report, for a caller that has no use for an incomplete one. -/
def requireComplete (r : Report) : Except LintError Report :=
  if r.cancelled then .error .cancelled else .ok r

end Report

/-- What has come in during a run. -/
structure Sink where
  findings : List Finding := []
  failures : List Failure := []
  files : Nat := 0
  suppressed : Nat := 0
  cancelled : Bool := false
deriving Inhabited

namespace Sink

def accept (s : Sink) (f : Finding) : Sink := { s with findings := s.findings ++ [f] }

def recordFailure (s : Sink) (f : Failure) : Sink := { s with failures := s.failures ++ [f] }

def addFiles (s : Sink) (n : Nat) : Sink := { s with files := s.files + n }

def addSuppressed (s : Sink) (n : Nat) : Sink := { s with suppressed := s.suppressed + n }

def markCancelled (s : Sink) : Sink := { s with cancelled := true }

/-! ### Merging -/

/-- Whether two findings are about the same text and of the same issue. -/
def samePlace (f g : Finding) : Bool :=
  f.issue.id == g.issue.id && f.location.file == g.location.file &&
    f.location.start == g.location.start && f.location.stop == g.location.stop

/-- Whether `g` is to be merged into `f`. -/
def belongsTo (f g : Finding) : Bool :=
  match f.merge, g.merge with
  | some a, some b => samePlace f g && a.lead == b.lead
  | _, _ => false

/-- Adds the items that are not there yet. -/
def addItems (items new : List String) : List String :=
  new.foldl (fun out x => if out.contains x then out else out ++ [x]) items

/-- Takes the items of `g` into `f`. -/
def absorb (f g : Finding) : Finding :=
  match f.merge, g.merge with
  | some a, some b =>
    let items := addItems a.items b.items
    { f with
      merge := some { a with items }
      message := a.lead ++ Text.join ", " items }
  | _, _ => f

/-- Merges a finding into the first one that it belongs to, or puts it
last. -/
def mergeInto (g : Finding) : List Finding → List Finding
  | [] => [g]
  | f :: fs => if belongsTo f g then absorb f g :: fs else f :: mergeInto g fs

def merged (findings : List Finding) : List Finding :=
  findings.foldl (fun out g => mergeInto g out) []

/-! ### Repetitions and order -/

/-- Whether two findings say the same about the same place. -/
def isRepeat (f g : Finding) : Bool := samePlace f g && f.message == g.message

/-- Keeps the first of findings that say the same. -/
def distinct (findings : List Finding) : List Finding :=
  findings.foldl (fun out g => if out.any (isRepeat · g) then out else out ++ [g]) []

/-- The order of a report: by file, then offset, then issue. -/
def precedes (f g : Finding) : Bool :=
  ((compare f.location.file g.location.file).then
    ((compare f.location.start g.location.start).then (compare f.issue.id g.issue.id))).isLE

/-- Counts a severity once more. -/
def tally (s : Severity) : List (Severity × Nat) → List (Severity × Nat)
  | [] => [(s, 1)]
  | (t, n) :: counts =>
    if s = t then (t, n + 1) :: counts
    else if s.ctorIdx < t.ctorIdx then (s, 1) :: (t, n) :: counts
    else (t, n) :: tally s counts

/-- The final report. Findings that the order does not tell apart stay as
they came in. -/
def finish (s : Sink) : Report :=
  let findings := (distinct (merged s.findings)).mergeSort precedes
  { findings
    counts := findings.foldl (fun counts f => tally f.severity counts) []
    failures := s.failures
    files := s.files
    suppressed := s.suppressed
    cancelled := s.cancelled }

end Sink

end LintEngine
