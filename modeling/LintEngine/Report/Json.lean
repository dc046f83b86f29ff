import LintEngine.Json.Value
import LintEngine.Report.Sink

/-!
The report as a JSON document.
-/

namespace LintEngine

namespace Report

/-- The name and version under which the tool presents itself. -/
def toolName : String := "lintscan"

def toolVersion : String := "0.1.0"

def nat (n : Nat) : Json := .int n

def locationJson (l : Location) : Json :=
  .object [("file", .string l.file.text), ("start", nat l.start), ("end", nat l.stop),
    ("line", nat l.line), ("column", nat l.column)]

def fixJson (f : Fix) : Json :=
  .object [("description", .string f.description),
    ("replacement", (f.replacement.map Json.string).getD .null)]

def findingJson (f : Finding) : Json :=
  .object <|
    [("id", .string f.issue.id), ("severity", .string f.severity.name),
     ("location", locationJson f.location)] ++
    (if f.secondary.isEmpty then [] else [("secondary", .array (f.secondary.map locationJson))]) ++
    [("message", .string f.message)] ++ (f.fix.map fun fix => ("fix", fixJson fix)).toList

def failureJson (f : Failure) : Json :=
  .object [("detector", .string f.detector), ("file", .string f.file.text),
    ("message", .string f.message)]

def toJson (r : Report) : Json :=
  .object <|
    [("tool", .string toolName), ("version", .string toolVersion), ("files", nat r.files),
     ("suppressed", nat r.suppressed), ("cancelled", .bool r.cancelled),
     ("counts", .object (r.counts.map fun (s, n) => (s.name, nat n))),
     ("findings", .array (r.findings.map findingJson))] ++
    if r.failures.isEmpty then [] else [("failures", .array (r.failures.map failureJson))]

/-- The text of the document. -/
def json (r : Report) : String := r.toJson.pretty

end Report

end LintEngine
