import LintEngine.Text.Basic

/-!
JSON values and their written form, indented by two blanks per level. The
fields of an object keep their order.
-/

namespace LintEngine

inductive Json where
  | null
  | bool (b : Bool)
  | int (v : Int)
  /-- A number that is not written as a plain integer. -/
  | fraction (written : String)
  | string (s : String)
  /-- A string with an escape that stands for no character. -/
  | brokenString
  | array (items : List Json)
  | object (fields : List (String × Json))
deriving Inhabited

namespace Json

def hexDigit (n : Nat) : Char := "0123456789abcdef".toList.getD n '0'

/-- A character inside a quoted string. -/
def escape (c : Char) : List Char :=
  match c with
  | '"' => ['\\', '"']
  | '\\' => ['\\', '\\']
  | '\n' => ['\\', 'n']
  | '\r' => ['\\', 'r']
  | '\t' => ['\\', 't']
  | '\x08' => ['\\', 'b']
  | '\x0c' => ['\\', 'f']
  | c =>
    if c.toNat < 32 then ['\\', 'u', '0', '0', hexDigit (c.toNat / 16), hexDigit (c.toNat % 16)]
    else [c]

def quoted (s : String) : String := "\"" ++ String.ofList (s.toList.flatMap escape) ++ "\""

def newline (depth : Nat) : String := "\n" ++ Text.repeated "  " depth

mutual

/-- The written form of a value that starts at a level of indentation. -/
def render (depth : Nat) : Json → String
  | null => "null"
  | bool b => if b then "true" else "false"
  | int v => toString v
  | fraction written => written
  | string s => quoted s
  | brokenString => quoted ""
  | array [] => "[]"
  | array (x :: xs) =>
    "[" ++ newline (depth + 1) ++ render (depth + 1) x ++ renderItems (depth + 1) xs ++
      newline depth ++ "]"
  | object [] => "\x7b\x7d"
  | object ((k, v) :: fields) =>
    "\x7b" ++ newline (depth + 1) ++ quoted k ++ ": " ++ render (depth + 1) v ++
      renderFields (depth + 1) fields ++ newline depth ++ "\x7d"

def renderItems (depth : Nat) : List Json → String
  | [] => ""
  | x :: xs => "," ++ newline depth ++ render depth x ++ renderItems depth xs

def renderFields (depth : Nat) : List (String × Json) → String
  | [] => ""
  | (k, v) :: fields =>
    "," ++ newline depth ++ quoted k ++ ": " ++ render depth v ++ renderFields depth fields

end

/-- The written form of a document. -/
def pretty (j : Json) : String := j.render 0

end Json

end LintEngine
