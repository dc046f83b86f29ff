import LintEngine.Text.Basic

/-!
File paths. A path is shown as it was given, and compared by its components:
empty components and inner `.` say nothing about the file, so `a//b`, `a/./b`
and `a/b` are equal, and a directory sorts before its siblings whose names
only continue its own.
-/

namespace LintEngine

structure Path where
  text : String
deriving Inhabited, Repr

namespace Path

/-- One step of a path. The order of the constructors is the sort order. -/
inductive Component where
  | root
  | current
  | parent
  | normal (name : String)
deriving DecidableEq, Repr

/-- The rank of a component's form, before its name counts. -/
def Component.rank : Component → Nat
  | .root => 0
  | .current => 1
  | .parent => 2
  | .normal _ => 3

def Component.name : Component → String
  | .normal name => name
  | _ => ""

def Component.compare (a b : Component) : Ordering :=
  (Ord.compare a.rank b.rank).then (Ord.compare a.name b.name)

/-- The components of the fields between slashes. -/
def normalFields (fields : List String) : List Component :=
  (fields.filter fun f => f != "" && f != ".").map fun f =>
    if f == ".." then .parent else .normal f

/-- The components of a path. A `.` counts only as the very first one. -/
def components (p : Path) : List Component :=
  let fields := Text.split '/' p.text
  match fields with
  | "" :: _ :: _ => .root :: normalFields fields
  | "." :: _ => .current :: normalFields fields
  | _ => normalFields fields

/-- Compares two lists of components from the front. -/
def compareComponents : List Component → List Component → Ordering
  | [], [] => .eq
  | [], _ :: _ => .lt
  | _ :: _, [] => .gt
  | a :: as, b :: bs => (a.compare b).then (compareComponents as bs)

def compare (p q : Path) : Ordering := compareComponents p.components q.components

instance : Ord Path := ⟨compare⟩

instance : BEq Path := ⟨fun p q => p.components == q.components⟩

/-- The path of `name` below `p`; an absolute `name` stands for itself. -/
def join (p : Path) (name : String) : Path :=
  if name.toList.head? == some '/' then ⟨name⟩
  else if p.text.isEmpty || Text.endsWith "/" p.text then ⟨p.text ++ name⟩
  else ⟨p.text ++ "/" ++ name⟩

/-- The last component, if it is a name. -/
def fileName (p : Path) : Option String :=
  match p.components.getLast? with
  | some (.normal name) => some name
  | _ => none

/-- The text after the last point of the file name, if a point stands after
its first character. -/
def extension (p : Path) : Option String := do
  let name ← p.fileName
  let (stem, ext) ← Text.splitLast? '.' name
  if stem.isEmpty then none else some ext

/-- Drops fields from the front of a path until so many components are gone,
and then what says nothing. -/
def dropFields : Nat → List String → List String
  | 0, fs => fs.dropWhile fun f => f == "" || f == "."
  | _, [] => []
  | n + 1, f :: fs => if f == "" || f == "." then dropFields (n + 1) fs else dropFields n fs

/-- The rest of the path below a directory, as it is written. -/
def below? (p base : Path) : Option Path :=
  if base.components.isPrefixOf p.components then
    let fields := Text.split '/' p.text
    let fields := (fields.reverse.dropWhile fun f => f == "" || f == ".").reverse
    match base.components, fields with
    | [], _ => some ⟨Text.join "/" fields⟩
    | cs, first :: rest =>
      -- the root and a leading point are components that a field stands for
      if first == "" || first == "." then
        some ⟨Text.join "/" (dropFields (cs.length - 1) rest)⟩
      else some ⟨Text.join "/" (dropFields cs.length fields)⟩
    | _, [] => some ⟨""⟩
  else none

end Path

end LintEngine
