import LintEngine.Discovery.Glob

/-!
Lists of rules that say which files to leave out. A rule is a pattern in a
line of its own; it counts from the directory that the list belongs to, and
of several rules that fit a path the last one decides.
-/

namespace LintEngine

/-- What a list of rules says about a path. -/
inductive Ruling where
  | ignored
  | kept
deriving DecidableEq, Repr, Inhabited

structure IgnoreRule where
  pattern : Glob
  ruling : Ruling
  onlyDirectories : Bool
deriving Inhabited

namespace IgnoreRule

/-- The pattern that a rule is matched with. A rule without a slash counts at
any depth, and one for everything below a directory spares the directory. -/
def patternText (anchored : Bool) (body : String) : String :=
  let isDeep := Text.startsWith "**/" body || body == "**"
  let text := if !anchored && !Text.contains "/" body && !isDeep then "**/" ++ body else body
  if Text.endsWith "/**" text then text ++ "/*" else text

/-- The body of a rule without its final slash, and whether it had one. An
escape of that slash goes with it. -/
def directoryBody (body : String) : String × Bool :=
  match Text.dropSuffix? "/" body with
  | some rest => ((Text.dropSuffix? "\\" rest).getD rest, true)
  | none => (body, false)

/-- The rule of a line. Outer `none` means that the line is broken, inner
`none` that it says nothing. -/
def ofLine? (lenient : Glob.Lenient) (line : String) : Option (Option IgnoreRule) :=
  let line := if Text.endsWith "\\ " line then line else Text.trimEnd line
  if line.isEmpty || Text.startsWith "#" line then some none
  else
    let escaped := Text.startsWith "\\!" line || Text.startsWith "\\#" line
    let (ruling, body) :=
      if escaped then (Ruling.ignored, String.ofList (line.toList.drop 1))
      else match Text.dropPrefix? "!" line with
        | some body => (.kept, body)
        | none => (.ignored, line)
    let (anchored, body) := match Text.dropPrefix? "/" body with
      | some rest => (true, rest)
      | none => (false, body)
    let (body, onlyDirectories) := directoryBody body
    (Glob.parse? lenient (patternText anchored body)).map fun pattern =>
      some { pattern, ruling, onlyDirectories }

end IgnoreRule

structure IgnoreList where
  /-- The directory that the rules count from, as it is written. -/
  base : String
  rules : List IgnoreRule := []
deriving Inhabited

namespace IgnoreList

/-- A path as the rules of a list see it. -/
def relative (l : IgnoreList) (path : String) : String :=
  let path := (Text.dropPrefix? "./" path).getD path
  if l.base == "." || !Text.contains "/" path then path
  else match Text.dropPrefix? l.base path with
    | some rest => (Text.dropPrefix? "/" rest).getD rest
    | none => path

def ruling (l : IgnoreList) (path : String) (isDirectory : Bool) : Option Ruling :=
  let seen := l.relative path
  (l.rules.reverse.find? fun r =>
    (!r.onlyDirectories || isDirectory) && r.pattern.fits seen).map (·.ruling)

/-- The lines of a file, up to the first that is no valid text. -/
def linesOf (bytes : List UInt8) : List String :=
  readable (fields bytes)
where
  /-- The bytes between line ends. -/
  fields : List UInt8 → List (List UInt8)
    | [] => [[]]
    | b :: bs =>
      if b == 10 then [] :: fields bs
      else match fields bs with
        | [] => [[b]]
        | first :: rest => (b :: first) :: rest
  readable : List (List UInt8) → List String
    | [] => []
    | line :: rest =>
      match String.fromUTF8? ⟨line.toArray⟩ with
      | some text => (Text.dropSuffix? "\r" text).getD text :: readable rest
      | none => []

/-- The list in a file. Broken lines are left out. -/
def ofBytes (base : String) (bytes : ByteArray) : IgnoreList :=
  let lines := match linesOf bytes.toList with
    | [] => []
    | first :: rest => Text.trimStartMatches "\ufeff" first :: rest
  { base, rules := (lines.filterMap (IgnoreRule.ofLine? true)).filterMap id }

end IgnoreList

end LintEngine
