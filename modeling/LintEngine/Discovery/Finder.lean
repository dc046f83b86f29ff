import LintEngine.Config.Basic
import LintEngine.Discovery.IgnoreRules
import LintEngine.FileSystem
import LintEngine.SourceFile

/-!
Finding the files of a project. Below each target, everything is found that
is not hidden, is not excluded by the settings, and is not ignored by a file
of rules in its directory or in one above.
-/

namespace LintEngine.Discovery

/-- The rules of one directory. -/
structure Level where
  ignore : IgnoreList
  /-- The rules that count inside a repository only. -/
  repository : IgnoreList
  /-- The rules that a repository keeps for itself. -/
  exclude : IgnoreList
  isRepository : Bool

/-- A level, and a path as it is seen from there. -/
abbrev Seen := Level × String

def levelOf (fs : FileSystem) (dir : Place) (base : String) : Level :=
  let list := fun (names : List String) =>
    match fs.contents? (dir ++ names) with
    | some bytes => IgnoreList.ofBytes base bytes
    | none => { base }
  { ignore := list [".ignore"]
    repository := list [".gitignore"]
    exclude := list [".git", "info", "exclude"]
    isRepository := fs.holds (dir ++ [".git"]) }

/-- What the levels say, the nearest first. Rules of a repository end at its
top directory, and without any repository they do not count. -/
def ignoreRuling (levels : List Seen) (isDirectory : Bool) : Option Ruling :=
  let first := fun (lists : List (IgnoreList × String)) =>
    lists.findSome? fun (list, path) => list.ruling path isDirectory
  let inRepository :=
    match levels.span fun (l, _) => !l.isRepository with
    | (_, []) => []
    | (inside, top :: _) => inside ++ [top]
  first (levels.map fun (l, p) => (l.ignore, p))
    <|> first (inRepository.map fun (l, p) => (l.repository, p))
    <|> first (inRepository.map fun (l, p) => (l.exclude, p))

/-- A target under search. -/
structure Search where
  fs : FileSystem
  excluded : IgnoreList
  /-- The path of the target, as it is written. -/
  target : String
  /-- The place of the target. -/
  place : Place
  /-- The rules of the directories above the target, the nearest first. -/
  above : List Level

/-- The absolute form of a path below the target. -/
def Search.absolute (s : Search) (path : String) : String :=
  let rest := (Text.dropPrefix? s.target path).getD path
  (s.place.path.join ((Text.dropPrefix? "/" rest).getD rest)).text

/-- Whether an entry of a directory is left out. -/
def Search.skips (s : Search) (levels : List Level) (path : Path) (name : String)
    (isDirectory : Bool) : Bool :=
  let seen := levels.map (·, path.text) ++ s.above.map (·, s.absolute path.text)
  match s.excluded.ruling path.text isDirectory <|> ignoreRuling seen isDirectory with
  | some .ignored => true
  | some .kept => false
  | none => Text.startsWith "." name

/-- The files below a directory, at most `n` levels deep. -/
def Search.below (s : Search) : Nat → Path → Place → List Level → List Path
  | 0, _, _, _ => []
  | n + 1, dir, place, levels =>
    (s.fs.names place).flatMap fun name =>
      let path := dir.join name
      let inner := place ++ [name]
      let isDirectory := s.fs.isDirectory inner
      if s.skips levels path name isDirectory then []
      else if isDirectory then
        s.below n path inner (levelOf s.fs inner path.text :: levels)
      else [path]

/-- The directories above a place, the nearest first. -/
def ancestors (p : Place) : List Place := (List.range p.length).reverse.map p.take

/-- The files of a target. A target that is a file is found as it is. -/
def filesOf (fs : FileSystem) (excluded : IgnoreList) (target : Path) : List Path :=
  match fs.place? target with
  | none => []
  | some place =>
    if fs.isDirectory place then
      let above := (ancestors place).map fun p => levelOf fs p p.path.text
      let depth := (fs.files.map (·.1.length)).foldl max 0
      let s : Search := { fs, excluded, target := target.text, place, above }
      s.below (depth + 1) target place [levelOf fs place target.text]
    else [target]

/-- The rules of the patterns in the settings. A pattern is read like what
follows the `!` of a rule, so that a `!` or `#` at its front stands for
itself. -/
def excludedBy (root : Path) (patterns : List String) : Except LintError IgnoreList := do
  let rules ← patterns.mapM fun p =>
    match IgnoreRule.ofLine? false ("!" ++ p) with
    | some rule => Except.ok rule
    | none => .error (.configuration ("bad exclude `" ++ p ++ "`"))
  return {
    base := root.text
    rules := (rules.filterMap id).map fun r => { r with ruling := .ignored } }

/-- Leaves out what equals its predecessor. -/
def dedup : List SourceFile → List SourceFile
  | a :: b :: rest =>
    if a.path == b.path && a.type == b.type then dedup (a :: rest) else a :: dedup (b :: rest)
  | short => short

/-- The files of a project that can be analyzed, in the order of their
paths. -/
def find (fs : FileSystem) (config : Config) (root : Path) :
    Except LintError (List SourceFile) := do
  let excluded ← excludedBy root config.exclude
  let targets := if config.targets.isEmpty then [root]
    else config.targets.map fun t => root.join t.text
  let files := (targets.flatMap (filesOf fs excluded)).filterMap fun path =>
    (FileType.ofPath? path).map fun type => ({ path, type } : SourceFile)
  return dedup (files.mergeSort fun a b => (a.path.compare b.path).isLE)

end LintEngine.Discovery
