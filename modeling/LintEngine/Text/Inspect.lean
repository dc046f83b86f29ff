import LintEngine.Text.Basic

/-!
A text in quotes, as messages show it to tell it from the words around it.
-/

namespace LintEngine.Text

/-- A character between quotes: quotes and backslashes are marked, and control
characters are written by name or number. -/
def inspectChar (c : Char) : List Char :=
  match c with
  | '"' => ['\\', '"']
  | '\\' => ['\\', '\\']
  | '\n' => ['\\', 'n']
  | '\r' => ['\\', 'r']
  | '\t' => ['\\', 't']
  | '\x00' => ['\\', '0']
  | c =>
    if c.toNat < 32 || (127 ≤ c.toNat && c.toNat < 160) then
      ['\\', 'u', '\x7b'] ++ Nat.toDigits 16 c.toNat ++ ['\x7d']
    else [c]

/-- The text in quotes. -/
def inspect (s : String) : String := "\"" ++ String.ofList (s.toList.flatMap inspectChar) ++ "\""

end LintEngine.Text
