import LintEngine.Json.Value
import LintEngine.Text.Scan
import LintEngine.Word

/-!
Reading JSON. A document is one value with blanks around it.

`record?` and the accessors beside it read a value as data of a known shape:
an object with known fields, each at most once, other fields being passed
over; or the values of those fields in order, as an array.
-/

namespace LintEngine.Json

open Scan

def isSpace (c : Char) : Bool := c == ' ' || c == '\n' || c == '\r' || c == '\t'

/-- Skips blanks. -/
def space : Scan Unit := skip isSpace

/-- A character sequence of a string: itself, or `none` for half of a pair
that has no other half. -/
abbrev Piece := Option Char

/-- The number of a four-digit escape. -/
def hex4 : Scan Nat := do
  match Text.number? 16 (← exactly 4) with
  | some n => return n
  | none => failure

/-- The second half of a pair of escapes. -/
def lowHalf : Scan Nat := do
  text "\\u"
  let n ← hex4
  check (0xDC00 ≤ n && n < 0xE000)
  return n

/-- What follows a backslash. -/
def escaped : Scan Piece := do
  match ← next with
  | '"' => return some '"'
  | '\\' => return some '\\'
  | '/' => return some '/'
  | 'b' => return some '\x08'
  | 'f' => return some '\x0c'
  | 'n' => return some '\n'
  | 'r' => return some '\r'
  | 't' => return some '\t'
  | 'u' =>
    let n ← hex4
    if 0xD800 ≤ n && n < 0xDC00 then
      (do
        let low ← lowHalf
        return Text.charOf? (0x10000 + (n - 0xD800) * 0x400 + (low - 0xDC00))) <|> return none
    else return Text.charOf? n
  | _ => failure

def piece : Scan Piece := do
  let c ← next
  check (c != '"' && 32 ≤ c.toNat)
  if c == '\\' then escaped else return some c

/-- A quoted string; `none` if it stands for no text. -/
def quotedString : Scan (Option String) := do
  char '"'
  let pieces ← all piece
  char '"'
  return (pieces.mapM id).map String.ofList

def isDigit (c : Char) : Bool := '0' ≤ c && c ≤ '9'

/-- Digits without a needless zero at the front. -/
def wholePart : Scan (List Char) := do
  let ds ← run isDigit
  check (ds == ['0'] || (!ds.isEmpty && ds.head? != some '0'))
  return ds

def fractionPart : Scan (List Char) := (do
  char '.'
  let ds ← run isDigit
  check !ds.isEmpty
  return '.' :: ds) <|> return []

def exponentPart : Scan (List Char) := (do
  let e ← one fun c => c == 'e' || c == 'E'
  let sign ← (do return [← one fun c => c == '+' || c == '-']) <|> return []
  let ds ← run isDigit
  check !ds.isEmpty
  return e :: sign ++ ds) <|> return []

def number : Scan Json := do
  let minus ← (do char '-'; return true) <|> return false
  let whole ← wholePart
  let rest := (← fractionPart) ++ (← exponentPart)
  let n := (Text.number? 10 whole).getD 0
  if rest.isEmpty && !(minus && n == 0) then return .int (if minus then -n else n)
  else return .fraction (String.ofList ((if minus then ['-'] else []) ++ whole ++ rest))

/-- Items between brackets, with commas between them. -/
def separated {α : Type} (opening closing : Char) (item : Scan α) : Scan (List α) := do
  char opening
  space
  let items ← (do
      let first ← item
      let others ← all (do char ','; space; item)
      return first :: others) <|> return []
  char closing
  space
  return items

/-- A value nested at most `n` deep, with the blanks after it. -/
def value : Nat → Scan Json
  | 0 => failure
  | n + 1 => do
    match ← peek? with
    | some '"' =>
      let s ← quotedString
      space
      return (s.map Json.string).getD .brokenString
    | some '[' => return .array (← separated '[' ']' (value n))
    | some '\x7b' => return .object (← separated '\x7b' '\x7d' do
        let key ← quotedString
        space
        char ':'
        space
        let v ← value n
        match key with
        | some key => return (key, v)
        | none => failure)
    | some 't' => text "true"; space; return .bool true
    | some 'f' => text "false"; space; return .bool false
    | some 'n' => text "null"; space; return .null
    | _ => do
      let n ← number
      space
      return n

/-- Reads a document. -/
def parse? (s : String) : Option Json :=
  whole? (do space; value (s.length + 1)) s.toList

/-! ### Data of a known shape -/

def string? : Json → Option String
  | .string s => some s
  | _ => none

/-- An unsigned number of 32 bits. -/
def word? : Json → Option Nat
  | .int v => Word.unsigned? 32 v
  | _ => none

/-- The items of an array, each read in the same way. -/
def list? {α : Type} (item : Json → Option α) : Json → Option (List α)
  | .array items => items.mapM item
  | _ => none

/-- The entries of an object, each value read in the same way. Of several
entries with one key the last counts. -/
def map? {α : Type} (item : Json → Option α) : Json → Option (List (String × α))
  | .object fields => do
    let entries ← fields.mapM fun (k, v) => do return (k, ← item v)
    return entries.foldl (fun out (k, v) => out.filter (·.1 != k) ++ [(k, v)]) []
  | _ => none

/-- The values of known fields, in their order. -/
def record? (names : List String) : Json → Option (List (Option Json))
  | .object fields =>
    if names.all fun n => (fields.filter (·.1 == n)).length ≤ 1 then
      some (names.map fun n => fields.lookup n)
    else none
  | .array items =>
    if items.length ≤ names.length then
      some (items.map some ++ List.replicate (names.length - items.length) none)
    else none
  | _ => none

/-- A field that may be left out. -/
def orDefault {α : Type} (read : Json → Option α) (d : α) : Option Json → Option α
  | some j => read j
  | none => some d

end LintEngine.Json
