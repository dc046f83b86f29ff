import LintEngine.Text.Basic

/-!
Patterns for paths. They are matched byte by byte: a question mark stands for
one byte and a star for any bytes of a name, neither for a slash; two stars
stand for whole directories. Brackets enclose a set of bytes and braces a
choice of patterns.
-/

namespace LintEngine

inductive Glob.Piece where
  | byte (b : UInt8)
  /-- One byte of a name. -/
  | one
  /-- Any bytes of a name. -/
  | run
  /-- Any directories at the front. -/
  | leading
  /-- Everything below a directory. -/
  | trailing
  /-- Any directories between two others. -/
  | between
  | set (negated : Bool) (ranges : List (UInt8 × UInt8))
  | choice (branches : List (List Glob.Piece))
deriving Inhabited

/-- A pattern, as the sequence of its pieces. -/
structure Glob where
  pieces : List Glob.Piece
deriving Inhabited

namespace Glob

/-! ### Matching -/

def slash : UInt8 := 47

/-- What can be left after some bytes of a kind. -/
def restsWhile (p : UInt8 → Bool) : List UInt8 → List (List UInt8)
  | [] => [[]]
  | b :: bs => (b :: bs) :: if p b then restsWhile p bs else []

/-- What can be left after a slash. -/
def restsAfterSlash : List UInt8 → List (List UInt8)
  | [] => []
  | b :: bs => if b == slash then bs :: restsAfterSlash bs else restsAfterSlash bs

/-- What can be left after one byte of a kind. -/
def restsAfter (p : UInt8 → Bool) : List UInt8 → List (List UInt8)
  | [] => []
  | b :: bs => if p b then [bs] else []

mutual

/-- What can be left of a path after a piece. -/
def Piece.rests (s : List UInt8) : Piece → List (List UInt8)
  | .byte b => restsAfter (· == b) s
  | .one => restsAfter (· != slash) s
  | .run => restsWhile (· != slash) s
  | .leading => s :: restsAfterSlash s
  | .trailing => (restsAfter (· == slash) s).flatMap (restsWhile fun _ => true)
  | .between => (restsAfter (· == slash) s).flatMap fun r => r :: restsAfterSlash r
  | .set negated ranges =>
    restsAfter (fun b => (ranges.any fun (low, high) => low ≤ b && b ≤ high) != negated) s
  | .choice branches => if noneLeft branches then [s] else choiceRests s branches

/-- What can be left after a sequence of pieces. -/
def sequenceRests (starts : List (List UInt8)) : List Piece → List (List UInt8)
  | [] => starts
  | p :: ps => sequenceRests (starts.flatMap fun s => p.rests s).eraseDups ps

/-- What can be left after one of several sequences. An empty one is no
choice. -/
def choiceRests (s : List UInt8) : List (List Piece) → List (List UInt8)
  | [] => []
  | [] :: rest => choiceRests s rest
  | (p :: ps) :: rest => sequenceRests (p.rests s) ps ++ choiceRests s rest

/-- Whether there is nothing to choose from. -/
def noneLeft : List (List Piece) → Bool
  | [] => true
  | branch :: rest => branch.isEmpty && noneLeft rest

end

/-- Whether a whole path fits. Two stars alone fit everything. -/
def fits (g : Glob) (path : String) : Bool :=
  match g.pieces with
  | [.leading] => true
  | pieces => (sequenceRests [path.toUTF8.toList] pieces).contains []

/-! ### Reading -/

def bytesOf (c : Char) : List UInt8 := (String.singleton c).toUTF8.toList

/-- The end of a set: its ranges, and what follows it. The flags say whether
a character is the first one, and whether it ends a range. -/
def setRanges (first inRange : Bool) (ranges : List (Char × Char)) :
    List Char → Option (Option (List (Char × Char)) × List Char)
  | [] => none
  | c :: cs =>
    if c == ']' && !first then
      some (some (if inRange then ranges ++ [('-', '-')] else ranges), cs)
    else if c == '-' && !first && !inRange then setRanges false true ranges cs
    else if inRange then
      match ranges.getLast? with
      | some (low, _) =>
        if c < low then some (none, cs)
        else setRanges false false (ranges.dropLast ++ [(low, c)]) cs
      | none => some (none, cs)
    else setRanges false false (ranges ++ [(c, c)]) cs

/-- The bytes of a range of characters. -/
def byteRanges (range : Char × Char) : List (UInt8 × UInt8) :=
  match bytesOf range.1, bytesOf range.2 with
  | [low], [high] => [(low, high)]
  | low, high => (low ++ high).map fun b => (b, b)

/-- Two stars after something: whole directories if slashes enclose them. -/
def doubleStar (done : List Piece) (isLast : Bool) : List Piece :=
  match done with
  | .leading :: rest => .leading :: rest
  | .trailing :: rest => .trailing :: rest
  | _ :: rest => (if isLast then .trailing else .between) :: rest
  | [] => []

/-- Whether a bracket without an end stands for itself. -/
abbrev Lenient := Bool

mutual

/-- The pieces up to the end of the pattern or of a branch of a choice, with
the pieces before in reverse. `depth` counts the open braces, and `before` is
the character in front. -/
def readPieces (lenient : Lenient) (depth : Nat) (before : Option Char) (done : List Piece) :
    Nat → List Char → Option (List Piece × List Char)
  | 0, _ => none
  | _ + 1, [] => if depth == 0 then some (done.reverse, []) else none
  | n + 1, c :: cs =>
    let literal := fun (c : Char) => (bytesOf c).reverse.map Piece.byte ++ done
    let twoRuns := Piece.run :: .run :: done
    match c, cs with
    | '?', _ => readPieces lenient depth '?' (.one :: done) n cs
    | '*', '*' :: after =>
      let next := after.head?
      if done.isEmpty then
        if next.all (· == '/') then
          readPieces lenient depth (next.getD '*') [.leading] n (after.drop 1)
        else readPieces lenient depth '*' twoRuns n after
      else if !(before == some '/' ||
          (depth > 0 && (before == some ',' || before == some '\x7b'))) then
        readPieces lenient depth '*' twoRuns n after
      else if next.isNone || (depth > 0 && (next == some ',' || next == some '\x7d')) then
        readPieces lenient depth '*' (doubleStar done true) n after
      else if next == some '/' then
        readPieces lenient depth '/' (doubleStar done false) n (after.drop 1)
      else readPieces lenient depth '*' twoRuns n after
    | '*', _ => readPieces lenient depth '*' (.run :: done) n cs
    | '[', _ =>
      let negated := cs.head?.any fun c => c == '!' || c == '^'
      match setRanges true false [] (if negated then cs.drop 1 else cs) with
      | none => if lenient then readPieces lenient depth '[' (literal '[') n cs else none
      | some (none, _) => none
      | some (some ranges, rest) =>
        readPieces lenient depth ']' (.set negated (ranges.flatMap byteRanges) :: done) n rest
    | '\x7b', _ => do
      let (branches, rest) ← readBranches lenient (depth + 1) '\x7b' n cs
      readPieces lenient depth '\x7d' (.choice branches :: done) n rest
    | '\x7d', _ => if depth == 0 then none else some (done.reverse, c :: cs)
    | ',', _ =>
      if depth == 0 then readPieces lenient depth ',' (literal ',') n cs
      else some (done.reverse, c :: cs)
    | '\\', _ =>
      match cs with
      | [] => none
      | e :: rest => readPieces lenient depth e (literal e) n rest
    | c, _ => readPieces lenient depth c (literal c) n cs

/-- The branches of a choice, and what follows its closing brace. -/
def readBranches (lenient : Lenient) (depth : Nat) (before : Char) :
    Nat → List Char → Option (List (List Piece) × List Char)
  | 0, _ => none
  | n + 1, cs => do
    let (branch, rest) ← readPieces lenient depth before [] n cs
    match rest with
    | ',' :: rest =>
      let (branches, rest) ← readBranches lenient depth ',' n rest
      return (branch :: branches, rest)
    | _ :: rest => return ([branch], rest)
    | [] => none

end

/-- Reads a pattern. -/
def parse? (lenient : Lenient) (pattern : String) : Option Glob :=
  match readPieces lenient 0 none [] (2 * pattern.length + 2) pattern.toList with
  | some (pieces, []) => some ⟨pieces⟩
  | _ => none

end Glob

end LintEngine
