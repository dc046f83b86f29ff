import LintEngine.Error

/-!
The files that a run can see. A file has an absolute place, which is the list
of the names that lead to it from the root; a directory is whatever lies
above a file, or above the directory that relative paths start from.
-/

namespace LintEngine

/-- The names from the root to a file or a directory. -/
abbrev Place := List String

/-- The path of a place. -/
def Place.path (p : Place) : Path := ⟨"/" ++ Text.join "/" p⟩

structure FileSystem where
  files : List (Place × ByteArray) := []
  /-- The directory that relative paths start from. -/
  here : Place := []

namespace FileSystem

variable (fs : FileSystem)

def contents? (p : Place) : Option ByteArray := fs.files.lookup p

def isDirectory (p : Place) : Bool :=
  p.isPrefixOf fs.here || fs.files.any fun (f, _) => p.isPrefixOf f && p.length < f.length

def holds (p : Place) : Bool := fs.isDirectory p || (fs.contents? p).isSome

/-- The place that one component leads to. -/
def step? (p : Place) : Path.Component → Option Place
  | .root => some []
  | .current => if fs.isDirectory p then some p else none
  | .parent => if fs.isDirectory p then some p.dropLast else none
  | .normal name =>
    if fs.isDirectory p && fs.holds (p ++ [name]) then some (p ++ [name]) else none

/-- The place that a path leads to, if something is there. -/
def place? (path : Path) : Option Place := path.components.foldlM fs.step? fs.here

def reaches (path : Path) : Bool := (fs.place? path).isSome

def isFile (path : Path) : Bool := ((fs.place? path).bind fs.contents?).isSome

/-- The text of a file. -/
def readText (path : Path) : Except LintError String :=
  match (fs.place? path).bind fs.contents? with
  | none => .error (.io path "no such file")
  | some bytes => match String.fromUTF8? bytes with
    | some text => .ok text
    | none => .error (.io path "no valid text")

/-- The names in a directory. -/
def names (dir : Place) : List String :=
  (fs.files.filterMap fun (f, _) => (dir.isPrefixOf? f).bind List.head?).eraseDups

/-- The file system after a file was written. The directory must be there. -/
def write (path : Path) (text : String) : Except LintError FileSystem :=
  match path.components.reverse with
  | .normal name :: above =>
    match above.reverse.foldlM fs.step? fs.here with
    | some dir =>
      let file := dir ++ [name]
      if fs.isDirectory dir && !fs.isDirectory file then
        .ok { fs with files := (file, text.toUTF8) :: fs.files.filter (·.1 != file) }
      else .error (.io path "cannot be written")
    | none => .error (.io path "no such directory")
  | _ => .error (.io path "cannot be written")

end FileSystem

end LintEngine
