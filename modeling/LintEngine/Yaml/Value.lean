import LintEngine.Text.Digits

/-!
YAML values. A scalar has no type of its own: what it means depends on what
is asked for, and on whether it was written without quotes.
-/

namespace LintEngine.Yaml

inductive Value where
  | scalar (text : String) (plain : Bool)
  | sequence (items : List Value)
  | mapping (entries : List (Value × Value))
deriving Inhabited, Repr

namespace Value

/-- Nothing at all. -/
def empty : Value := scalar "" true

def isEmpty : Value → Bool
  | scalar "" true => true
  | _ => false

/-- Whether a value stands for no value. -/
def isNull : Value → Bool
  | scalar text true => ["", "~", "null", "Null", "NULL"].contains text
  | _ => false

/-- Any scalar is a text. -/
def string? : Value → Option String
  | scalar text _ => some text
  | _ => none

def bool? : Value → Option Bool
  | scalar text true =>
    if ["true", "True", "TRUE"].contains text then some true
    else if ["false", "False", "FALSE"].contains text then some false
    else none
  | _ => none

/-- The number of a text with a marked base, or in plain decimal digits
without a needless zero at the front. -/
def naturalOf? (cs : List Char) : Option Nat :=
  let cs := match cs with
    | '+' :: rest => rest
    | cs => cs
  match cs with
  | '0' :: 'x' :: rest => Text.number? 16 rest
  | '0' :: 'o' :: rest => Text.number? 8 rest
  | '0' :: 'b' :: rest => Text.number? 2 rest
  | '0' :: _ :: _ => none
  | cs => Text.number? 10 cs

def natural? : Value → Option Nat
  | scalar text true => naturalOf? text.toList
  | _ => none

/-- The items of a sequence; nothing counts as an empty one. -/
def items? : Value → Option (List Value)
  | sequence items => some items
  | v => if v.isEmpty then some [] else none

/-- The entries of a mapping with scalar keys; nothing counts as an empty
one. -/
def entries? : Value → Option (List (String × Value))
  | mapping entries => entries.mapM fun (k, v) => do return (← k.string?, v)
  | v => if v.isEmpty then some [] else none

end Value

end LintEngine.Yaml
