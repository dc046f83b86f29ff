import LintEngine.Literal
import LintEngine.Text.Basic
import LintEngine.Text.Digits
import LintEngine.Word

/-!
The values of Java literals, read from their text.
-/

namespace LintEngine.Java

/-- The base of an integer literal and its digits. -/
def baseOf : List Char → Nat × List Char
  | '0' :: 'x' :: cs => (16, cs)
  | '0' :: 'b' :: cs => (2, cs)
  | '0' :: c :: cs => (8, c :: cs)
  | cs => (10, cs)

/-- The digits of an integer literal, and whether it has the suffix of
`long`. -/
def splitSuffix (cs : List Char) : List Char × Bool :=
  match cs.getLast? with
  | some c => if c == 'l' || c == 'L' then (cs.dropLast, true) else (cs, false)
  | none => ([], false)

/-- The value of an integer literal. A decimal literal may be one larger than
the type's greatest value, since it can only stand after a minus; in the other
bases all bit patterns of the type are allowed. -/
def integer? (text : String) : Option Literal :=
  let (cs, isLong) := splitSuffix (text.toList.filter (· != '_'))
  let (base, digits) := baseOf (cs.map Char.toLower)
  let bits := if isLong then 64 else 32
  let greatest := if base == 10 then Word.size (bits - 1) else Word.size bits - 1
  ((Text.unsigned? base digits).filter (· ≤ greatest)).map fun n =>
    if isLong then .long (Int64.ofNat n) else .int (Int32.ofNat n)

/-- The value of a floating-point literal; hexadecimal ones have none. -/
def floating? (text : String) : Option Float :=
  let digits := text.toList.filter (· != '_')
  Decimal.read? (String.ofList (Text.dropEndWhile (fun c => "fFdD".toList.contains c) digits))

/-- What an escape has read so far. -/
inductive Escape where
  | outside
  | opened
  /-- A Unicode escape with its digits, the last one first. -/
  | unicode (digits : List Char)

/-- The character of a finished Unicode escape. A surrogate has none. -/
def unicodeChar (digits : List Char) : List Char :=
  ((Text.unsigned? 16 digits.reverse).bind Text.charOf?).toList

/-- The character after a backslash. -/
def escaped : Char → Char
  | 'n' => '\n'
  | 't' => '\t'
  | 'r' => '\r'
  | 'b' => '\x08'
  | 'f' => '\x0c'
  | 's' => ' '
  | '0' => '\x00'
  | c => c

/-- Replaces escapes by what they stand for. -/
def unescape : Escape → List Char → List Char
  | .outside, [] => []
  | .opened, [] => ['\\']
  | .unicode digits, [] => unicodeChar digits
  | .outside, c :: cs => if c == '\\' then unescape .opened cs else c :: unescape .outside cs
  | .opened, c :: cs =>
    if c == 'u' then unescape (.unicode []) cs else escaped c :: unescape .outside cs
  | .unicode digits, c :: cs =>
    if c == 'u' && digits.isEmpty then unescape (.unicode []) cs
    else if digits.length < 3 then unescape (.unicode (c :: digits)) cs
    else unicodeChar (c :: digits) ++ unescape .outside cs

/-- The content of a text block without its delimiters and the newline after
the first one. -/
def textBlock? (cs : List Char) : Option (List Char) := do
  let quotes := ['"', '"', '"']
  let rest ← quotes.isPrefixOf? cs
  let inner ← quotes.isSuffixOf? rest
  return match inner with
    | '\n' :: cs => cs
    | cs => cs

/-- The content of a string literal without its quotes. -/
def quoted? (cs : List Char) : Option (List Char) := do
  let rest ← ['"'].isPrefixOf? cs
  ['"'].isSuffixOf? rest

def string (text : String) : String :=
  let cs := text.toList
  let inner := (textBlock? cs).getD ((quoted? cs).getD cs)
  String.ofList (unescape .outside inner)

/-- The value of a character literal; a lone surrogate has none. -/
def character? (text : String) : Option Char :=
  (unescape .outside (text.toList.drop 1).dropLast).head?

end LintEngine.Java
