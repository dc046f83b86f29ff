import LintEngine.Text.Basic
import LintEngine.Text.Digits
import LintEngine.Word

/-!
The order of library versions. A version is a list of numbers and perhaps a
qualifier after the first hyphen. Numbers are compared one by one, missing
ones count as zero, and a version without qualifier comes after all versions
with the same numbers and a qualifier.
-/

namespace LintEngine.Versions

structure Version where
  numbers : List Nat
  qualifier : Option String
deriving DecidableEq, Repr, Inhabited

/-- The number that a segment starts with. A segment without digits counts as
zero, and so does a number that needs more than 64 bits. -/
def segmentNumber (segment : String) : Nat :=
  match Text.number? 10 (segment.toList.takeWhile Char.isDigit) with
  | some n => if n < Word.size 64 then n else 0
  | none => 0

def Version.parse (text : String) : Version :=
  let (numbers, qualifier) := match Text.splitOnce? '-' text with
    | some (numbers, qualifier) => (numbers, some qualifier)
    | none => (text, none)
  ⟨(Text.split '.' numbers).map segmentNumber, qualifier⟩

/-- Compares numbers from the front; the shorter list goes on with zeros. -/
def compareNumbers : List Nat → List Nat → Ordering
  | [], [] => .eq
  | [], y :: ys => (compare 0 y).then (compareNumbers [] ys)
  | x :: xs, [] => (compare x 0).then (compareNumbers xs [])
  | x :: xs, y :: ys => (compare x y).then (compareNumbers xs ys)

/-- Compares qualifiers; none comes last. -/
def compareQualifiers : Option String → Option String → Ordering
  | none, none => .eq
  | none, some _ => .gt
  | some _, none => .lt
  | some a, some b => compare a b

def Version.compare (a b : Version) : Ordering :=
  (compareNumbers a.numbers b.numbers).then (compareQualifiers a.qualifier b.qualifier)

/-- Compares two versions as written. -/
def compareVersions (a b : String) : Ordering := (Version.parse a).compare (Version.parse b)

/-- The marks of versions that come before a release. -/
def previewMarks : List String :=
  ["alpha", "beta", "rc", "preview", "snapshot", "-dev", "eap", "-m"]

/-- Whether a version names a preview, in any letter case. -/
def isPreview (version : String) : Bool :=
  let lower := String.ofList (version.toList.map Char.toLower)
  previewMarks.any (Text.contains · lower)

end LintEngine.Versions
