import LintEngine.Text.Digits

/-!
Entities in attribute values. A value with a reference that means nothing is
kept as it was written.
-/

namespace LintEngine.Xml

/-- The entities that need no declaration. -/
def predefined : List (String × Char) :=
  [("lt", '<'), ("gt", '>'), ("amp", '&'), ("apos", '\''), ("quot", '"')]

/-- A character given by its code; code 0 is none. -/
def charOfCode? (base : Nat) (digits : List Char) : Option Char :=
  match Text.number? base digits with
  | some 0 => none
  | some n => Text.charOf? n
  | none => none

/-- What stands between `&` and `;`. -/
def entity? : List Char → Option Char
  | '#' :: 'x' :: digits => charOfCode? 16 digits
  | '#' :: digits => charOfCode? 10 digits
  | name => predefined.lookup (String.ofList name)

/-- Replaces references. `pending` holds the characters after an open `&`,
the last one first. -/
def unescapeWith : (pending : Option (List Char)) → List Char → Option (List Char)
  | none, [] => some []
  | some _, [] => none
  | none, c :: cs =>
    if c == '&' then unescapeWith (some []) cs else (unescapeWith none cs).map (c :: ·)
  | some name, c :: cs =>
    if c == ';' then do
      let x ← entity? name.reverse
      (unescapeWith none cs).map (x :: ·)
    else if c == '&' then none
    else unescapeWith (some (c :: name)) cs

def unescape? (value : List Char) : Option (List Char) := unescapeWith none value

end LintEngine.Xml
