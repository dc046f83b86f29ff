import LintEngine.Decimal.Format
import LintEngine.Text.Scan
import LintEngine.Toml.Value
import LintEngine.Word

/-!
Reading TOML documents.
-/

namespace LintEngine.Toml

open Scan

/-! ### White space -/

def isGap (c : Char) : Bool := c == ' ' || c == '\t'

/-- Control characters stand nowhere in a document, tabs and newlines apart. -/
def isControl (c : Char) : Bool := (c.toNat < 0x20 && c != '\t') || c.toNat == 0x7F

def gap : Scan Unit := skip isGap

def newline : Scan Unit := text "\n" <|> text "\r\n"

def comment : Scan Unit := do
  char '#'
  skip fun c => !isControl c

/-- White space, comments and newlines. -/
def spread : Scan Unit := do
  let _ ← all (one isGap *> pure () <|> newline <|> comment)

/-- What may follow on a line. -/
def lineEnd : Scan Unit := do
  gap
  comment <|> pure ()
  if ← atEnd then pure () else newline

/-! ### Strings -/

/-- A character given by a number of hexadecimal digits. -/
def codePoint (digits : Nat) : Scan Char := do
  match (Text.number? 16 (← exactly digits)).bind Text.charOf? with
  | some c => return c
  | none => failure

/-- What follows a backslash. -/
def escape : Scan Char := do
  match ← next with
  | 'b' => return '\x08'
  | 't' => return '\t'
  | 'n' => return '\n'
  | 'f' => return '\x0c'
  | 'r' => return '\r'
  | '"' => return '"'
  | '\\' => return '\\'
  | 'u' => codePoint 4
  | 'U' => codePoint 8
  | _ => failure

def basicChar : Scan Char := (char '\\' *> escape) <|> one fun c => c != '"' && c != '\\' && !isControl c

def basicString : Scan String := do
  char '"'
  let cs ← all basicChar
  char '"'
  return String.ofList cs

def literalString : Scan String := do
  char '\''
  let cs ← run fun c => c != '\'' && !isControl c
  char '\''
  return String.ofList cs

/-- Quotes inside a string of several lines: fewer than three, or up to two
directly before the closing ones. -/
def innerQuotes (quote : Char) : Scan (List Char) := do
  let rest ← get
  let n := (rest.takeWhile (· == quote)).length
  let taken := if n < 3 then n else n - 3
  check (0 < taken && taken ≤ 2)
  exactly taken

/-- A backslash at the end of a line takes the white space that follows. -/
def lineContinuation : Scan (List Char) := do
  char '\\'
  gap
  newline
  let _ ← all ((one isGap *> pure ()) <|> newline)
  return []

def longChar (plain : Char → Bool) : Scan (List Char) :=
  (newline *> pure ['\n']) <|> (return [← one fun c => plain c && !isControl c])

def longBasicString : Scan String := do
  text "\"\"\""
  newline <|> pure ()
  let parts ← all (lineContinuation <|> (char '\\' *> return [← escape]) <|>
    longChar (fun c => c != '"' && c != '\\') <|> innerQuotes '"')
  text "\"\"\""
  return String.ofList parts.flatten

def longLiteralString : Scan String := do
  text "'''"
  newline <|> pure ()
  let parts ← all (longChar (· != '\'') <|> innerQuotes '\'')
  text "'''"
  return String.ofList parts.flatten

def anyString : Scan String :=
  longBasicString <|> longLiteralString <|> basicString <|> literalString

/-! ### Keys -/

def isBare (c : Char) : Bool := c.isAlphanum || c == '_' || c == '-'

def simpleKey : Scan String := basicString <|> literalString <|> do
  let cs ← run isBare
  check (!cs.isEmpty)
  return String.ofList cs

/-- A key, perhaps with points in it. -/
def key : Scan (List String) := do
  let first ← simpleKey
  let rest ← all do
    gap
    char '.'
    gap
    simpleKey
  return first :: rest

/-! ### Numbers, dates and words -/

/-- Digits of a base, with single underscores between them. -/
def digits? (base : Nat) (cs : List Char) : Option (List Char) :=
  let fields := Text.splitChars (· == '_') cs
  if fields.all fun f => !f.isEmpty && f.all fun c => (Text.digit? base c).isSome then
    some (cs.filter (· != '_'))
  else none

/-- An optional sign and the rest. -/
def signed (cs : List Char) : Bool × List Char :=
  match cs with
  | '-' :: cs => (true, cs)
  | '+' :: cs => (false, cs)
  | cs => (false, cs)

/-- The digits of a decimal number, without needless zeros in front. -/
def decimal? (cs : List Char) : Option (List Char) := do
  let ds ← digits? 10 cs
  match ds with
  | '0' :: _ :: _ => none
  | ds => some ds

def integerOf? (cs : List Char) : Option Int :=
  match cs with
  | '0' :: 'x' :: cs => ((digits? 16 cs).bind (Text.number? 16)).map Int.ofNat
  | '0' :: 'o' :: cs => ((digits? 8 cs).bind (Text.number? 8)).map Int.ofNat
  | '0' :: 'b' :: cs => ((digits? 2 cs).bind (Text.number? 2)).map Int.ofNat
  | cs =>
    let (negative, cs) := signed cs
    ((decimal? cs).bind (Text.number? 10)).map fun n => if negative then -(n : Int) else n

/-- Integers have 64 bits. -/
def integer? (cs : List Char) : Option Int := do
  Word.signed? 63 (← integerOf? cs)

def isExponentMark (c : Char) : Bool := c == 'e' || c == 'E'

/-- A number with a fraction, an exponent or both. -/
def float? (cs : List Char) : Option Float :=
  let (negative, body) := signed cs
  if body == "inf".toList then some (if negative then -(1.0 / 0.0) else 1.0 / 0.0)
  else if body == "nan".toList then some (0.0 / 0.0)
  else do
    let mantissa := body.takeWhile fun c => !isExponentMark c
    let exponent := (body.drop mantissa.length).drop 1
    let hasExponent := body.any isExponentMark
    let whole := mantissa.takeWhile (· != '.')
    let fraction := (mantissa.drop whole.length).drop 1
    let hasFraction := mantissa.contains '.'
    if !hasExponent && !hasFraction then none
    else
      let w ← decimal? whole
      let f ← if hasFraction then digits? 10 fraction else some []
      let e ← if hasExponent then digits? 10 (signed exponent).2 else some ['0']
      let sign := if (signed exponent).1 then "-" else ""
      let text := String.ofList w ++ "." ++ String.ofList f ++ "e" ++ sign ++ String.ofList e
      let magnitude ← Decimal.read? text
      some (if negative then -magnitude else magnitude)

/-- A number of a fixed width within limits. -/
def within (low high : Nat) (cs : List Char) : Bool :=
  cs.all Char.isDigit && (Text.number? 10 cs).any fun n => low ≤ n && n ≤ high

/-- A date such as `1979-05-27`. -/
def isDate (cs : List Char) : Bool :=
  match cs with
  | [y1, y2, y3, y4, '-', m1, m2, '-', d1, d2] =>
    within 0 9999 [y1, y2, y3, y4] && within 1 12 [m1, m2] && within 1 31 [d1, d2]
  | _ => false

/-- A time such as `07:32:00.5`. -/
def isTime (cs : List Char) : Bool :=
  match cs with
  | h1 :: h2 :: ':' :: m1 :: m2 :: ':' :: s1 :: s2 :: rest =>
    within 0 23 [h1, h2] && within 0 59 [m1, m2] && within 0 60 [s1, s2] &&
      match rest with
      | [] => true
      | '.' :: fraction => !fraction.isEmpty && fraction.all Char.isDigit
      | _ => false
  | _ => false

/-- A distance from universal time. -/
def isOffset (cs : List Char) : Bool :=
  match cs with
  | [] => true
  | [z] => z == 'Z' || z == 'z'
  | [sign, h1, h2, ':', m1, m2] =>
    (sign == '+' || sign == '-') && within 0 23 [h1, h2] && within 0 59 [m1, m2]
  | _ => false

/-- A date, a time, or both. -/
def isDatetime (cs : List Char) : Bool :=
  let time := cs.drop 11
  let clock := time.takeWhile fun c => c.isDigit || c == ':' || c == '.'
  isDate cs || isTime cs ||
    (isDate (cs.take 10) && (cs.drop 10).head?.any (fun c => c == 'T' || c == 't' || c == ' ') &&
      isTime clock && isOffset (time.drop clock.length))

def isScalarChar (c : Char) : Bool := c.isAlphanum || "+-_.:".toList.contains c

/-- A value without quotes or brackets. A date and a time may be divided by a
space. -/
def scalar : Scan Value := do
  let word ← run isScalarChar
  let cs ← (do
      check (isDate word)
      char ' '
      let time ← run isScalarChar
      check (isDatetime (word ++ [' '] ++ time))
      return word ++ [' '] ++ time) <|> pure word
  if cs == "true".toList then return .boolean true
  else if cs == "false".toList then return .boolean false
  else match integer? cs with
    | some n => return .integer n
    | none => match float? cs with
      | some x => return .float x
      | none => if isDatetime cs then return .datetime (String.ofList cs) else failure

/-! ### Values -/

/-- The assignments of an inline table, made into one. -/
def inlineTable (pairs : List (List String × Value)) : Option Value :=
  (pairs.foldlM (fun entries (keys, v) => assign keys v entries) []).map fun entries =>
    .table (toEntries entries)

/-- A value with brackets nested at most `n` deep. -/
def value : Nat → Scan Value
  | 0 => failure
  | n + 1 =>
    (return .string (← anyString))
    <|> (do
      char '['
      let items ← all do
        spread
        let v ← value n
        spread
        char ',' <|> (do check ((← peek?) == some ']'))
        return v
      spread
      char ']'
      return .array items)
    <|> (do
      char '\x7b'
      gap
      let pairs ← (do
          let pair := do
            let k ← key
            gap
            char '='
            gap
            let v ← value n
            gap
            return (k, v)
          let first ← pair
          let rest ← all (char ',' *> gap *> pair)
          return first :: rest) <|> pure []
      char '\x7d'
      match inlineTable pairs with
      | some v => return v
      | none => failure)
    <|> scalar

/-! ### Documents -/

/-- One line of a document that says something. -/
inductive Expression where
  | header (path : List String)
  | repeated (path : List String)
  | assignment (key : List String) (value : Value)

def expression : Scan Expression := (do
    text "[["
    gap
    let path ← key
    gap
    text "]]"
    return .repeated path)
  <|> (do
    char '['
    gap
    let path ← key
    gap
    char ']'
    return .header path)
  <|> (do
    let k ← key
    gap
    char '='
    gap
    let v ← value (← left)
    return .assignment k v)

def line : Scan Expression := do
  spread
  let e ← expression
  lineEnd
  return e

def lines : Scan (List Expression) := do
  let es ← all line
  spread
  return es

/-- Applies one line to the document; `path` names the current table. -/
def apply (state : List String × Entries) (e : Expression) : Option (List String × Entries) :=
  let (path, entries) := state
  match e with
  | .header p => ((along p.dropLast (define (p.getLastD ""))) entries).map (p, ·)
  | .repeated p => ((along p.dropLast (append (p.getLastD ""))) entries).map (p, ·)
  | .assignment k v => ((along path (assign k v)) entries).map (path, ·)

/-- The top table of a document. A byte order mark in front is not part of
it. -/
def parse? (source : String) : Option Value := do
  let es ← whole? lines (Text.unmarked source.toList)
  let (_, entries) ← es.foldlM apply ([], [])
  return .table (toEntries entries)

end LintEngine.Toml
