import LintEngine.Text.Basic

/-!
The tokens of Java source. Offsets are in bytes. A `>` is always a token of
its own, so that nested type arguments close one by one; the grammar joins
neighbours into shift operators where it reads an expression.
-/

namespace LintEngine.Java

inductive TokenKind where
  | word
  | integer
  | floating
  | character
  | string
  | symbol
  | comment
deriving DecidableEq, Repr, Inhabited

structure Token where
  kind : TokenKind
  text : String
  start : Nat
  stop : Nat
deriving Inhabited, Repr

/-- Words that are never identifiers. -/
def keywords : List String :=
  ["abstract", "assert", "boolean", "break", "byte", "case", "catch", "char", "class", "const",
   "continue", "default", "do", "double", "else", "enum", "extends", "final", "finally", "float",
   "for", "goto", "if", "implements", "import", "instanceof", "int", "interface", "long", "native",
   "new", "package", "private", "protected", "public", "return", "short", "static", "strictfp",
   "super", "switch", "synchronized", "this", "throw", "throws", "transient", "try", "void",
   "volatile", "while", "true", "false", "null"]

/-- Operators and separators of more than one character, longest first. -/
def longSymbols : List (List Char) :=
  ["...", "<<=", "->", "::", "++", "--", "&&", "||", "==", "!=", "<=", "<<", "+=", "-=", "*=", "/=",
   "&=", "|=", "^=", "%="].map String.toList

/-- Letters, digits, `_`, `$` and everything beyond ASCII. -/
def isWordChar (c : Char) : Bool :=
  c.isAlphanum || c == '_' || c == '$' || 127 < c.toNat

/-- The length of the rest of a number. Letters are taken with the digits; a
sign belongs to the number after an exponent mark. -/
def numberLength (mark : Char → Bool) : (seenPoint : Bool) → (last : Char) → List Char → Nat
  | _, _, [] => 0
  | seenPoint, last, c :: cs =>
    if c.isAlphanum || c == '_' then numberLength mark seenPoint c cs + 1
    else if c == '.' && !seenPoint then numberLength mark true c cs + 1
    else if (c == '+' || c == '-') && mark last then numberLength mark seenPoint c cs + 1
    else 0

/-- The length of the rest of a quoted literal, its closing quote included. -/
def quotedLength (quote : Char) : List Char → Nat
  | [] => 0
  | '\\' :: _ :: cs => quotedLength quote cs + 2
  | c :: cs => if c == quote then 1 else quotedLength quote cs + 1

/-- The length of the rest of a text block. -/
def blockLength : List Char → Nat
  | [] => 0
  | '\\' :: _ :: cs => blockLength cs + 2
  | '"' :: '"' :: '"' :: _ => 3
  | _ :: cs => blockLength cs + 1

/-- The length of the rest of a comment that ends in `*/`. -/
def commentLength : List Char → Nat
  | [] => 0
  | '*' :: '/' :: _ => 2
  | _ :: cs => commentLength cs + 1

def isHex : List Char → Bool
  | '0' :: c :: _ => c == 'x' || c == 'X'
  | _ => false

/-- The whole length of the number that a text starts with. -/
def wholeNumberLength (cs : List Char) : Nat :=
  let mark := fun (c : Char) => if isHex cs then c == 'p' || c == 'P' else c == 'e' || c == 'E'
  numberLength mark false ' ' cs

/-- A number is floating by a point, an exponent or a suffix; in hexadecimal
only by a point or an exponent. -/
def numberKind (text : List Char) : TokenKind :=
  let floating :=
    if isHex text then text.any fun c => c == '.' || c == 'p' || c == 'P'
    else text.any fun c => c == '.' || "eEfFdD".toList.contains c
  if floating && !(text.take 2 == ['0', 'b'] || text.take 2 == ['0', 'B']) then .floating else .integer

/-- The kind and length of the token at the front of a non-blank text. -/
def scanOne : List Char → TokenKind × Nat
  | '/' :: '/' :: cs => (.comment, (cs.takeWhile (· != '\n')).length + 2)
  | '/' :: '*' :: cs => (.comment, commentLength cs + 2)
  | '"' :: '"' :: '"' :: cs => (.string, blockLength cs + 3)
  | '"' :: cs => (.string, quotedLength '"' cs + 1)
  | '\'' :: cs => (.character, quotedLength '\'' cs + 1)
  | cs =>
    let startsNumber := match cs with
      | '.' :: d :: _ => d.isDigit
      | d :: _ => d.isDigit
      | [] => false
    if startsNumber then
      let n := wholeNumberLength cs
      (numberKind (cs.take n), n)
    else
      let n := (cs.takeWhile isWordChar).length
      if n != 0 then (.word, n)
      else match longSymbols.find? (·.isPrefixOf cs) with
        | some s => (.symbol, s.length)
        | none => (.symbol, 1)

/-- The tokens of a text that begins at a byte offset. Every step takes at
least one character, so the length of the text bounds their number. -/
def tokensFrom : Nat → Nat → List Char → List Token
  | 0, _, _ => []
  | _, _, [] => []
  | n + 1, offset, c :: cs =>
    if Text.isBlank c then tokensFrom n (offset + c.utf8Size) cs
    else
      let (kind, length) := scanOne (c :: cs)
      let text := (c :: cs).take (max 1 length)
      let stop := offset + Text.byteLength text
      { kind, text := String.ofList text, start := offset, stop } ::
        tokensFrom n stop ((c :: cs).drop (max 1 length))

/-- The tokens of a text. A byte order mark in front is part of none. -/
def tokens (source : String) : List Token :=
  let rest := Text.unmarked source.toList
  tokensFrom rest.length (source.utf8ByteSize - Text.byteLength rest) rest

end LintEngine.Java
