import LintEngine.Text.Basic
import LintEngine.Text.Digits

/-!
Reading text character by character. A scanner takes characters from the
front of a list, or fails; the formats that are read from text are put
together from these.
-/

namespace LintEngine

/-- A reader of characters: it consumes some from the front, or fails. -/
abbrev Scan := StateT (List Char) Option

namespace Scan

def peek? : Scan (Option Char) := return (← get).head?

def next : Scan Char := do
  match ← get with
  | [] => failure
  | c :: cs => set cs; return c

def check (condition : Bool) : Scan Unit := if condition then pure () else failure

def char (c : Char) : Scan Unit := do check ((← next) == c)

/-- One character of a class. -/
def one (p : Char → Bool) : Scan Char := do
  let c ← next
  check (p c)
  return c

/-- The longest run of characters of a class. -/
def run (p : Char → Bool) : Scan (List Char) := do
  let cs ← get
  set (cs.dropWhile p)
  return cs.takeWhile p

def skip (p : Char → Bool) : Scan Unit := do
  set ((← get).dropWhile p)

/-- Exactly this text. -/
def text (s : String) : Scan Unit := do
  match s.toList.isPrefixOf? (← get) with
  | some rest => set rest
  | none => failure

/-- Whether this text is next; nothing is taken. -/
def sees (s : String) : Scan Bool := return s.toList.isPrefixOf (← get)

def atEnd : Scan Bool := return (← get).isEmpty

/-- Exactly `n` characters. -/
def exactly (n : Nat) : Scan (List Char) := do
  let cs ← get
  check (n ≤ cs.length)
  set (cs.drop n)
  return cs.take n

/-- As many as there are, up to a bound. -/
def many {α : Type} : Nat → Scan α → Scan (List α)
  | 0, _ => pure []
  | n + 1, p => (do
      let x ← p
      let xs ← many n p
      return x :: xs) <|> pure []

/-- The number of characters left, which bounds every repetition. -/
def left : Scan Nat := return (← get).length

/-- As many as there are. -/
def all {α : Type} (p : Scan α) : Scan (List α) := do many (← left) p

/-- Runs a scanner on a whole text. -/
def whole? {α : Type} (p : Scan α) (cs : List Char) : Option α :=
  match StateT.run p cs with
  | some (a, []) => some a
  | _ => none

end Scan

end LintEngine
