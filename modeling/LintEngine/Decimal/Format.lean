import LintEngine.Decimal.Shortest

/-!
How floating-point values are written and read. `Decimal.Shortest` chooses
the digits; here a record of decisions lays them out, and `read?` is the
grammar of decimal numbers.
-/

namespace LintEngine.Decimal

/-- The decisions of a number format. Values whose leading digit has an
exponent `e` with `plainFrom ≤ e < plainBelow` are written positionally. -/
structure Format where
  plainFrom : Int
  plainBelow : Int
  /-- Integral values end in `.0`. -/
  pointZero : Bool

/-- The format of constants: positional between `10 ^ -4` and `10 ^ 16`,
with a point in every positional text. -/
def constantText : Format where
  plainFrom := -4
  plainBelow := 16
  pointZero := true

def zeros (n : Nat) : String := String.ofList (List.replicate n '0')

/-- Lays out a decimal number. -/
def Format.layout (f : Format) (d : Dec) : String :=
  let ds := Nat.toDigits 10 d.digits
  let n := ds.length
  let e : Int := if d.digits = 0 then 0 else d.exp + n - 1
  if f.plainFrom ≤ e && e < f.plainBelow then
    if 0 ≤ d.exp then
      String.ofList ds ++ zeros d.exp.toNat ++ (if f.pointZero then ".0" else "")
    else if e < 0 then
      "0." ++ zeros (-e - 1).toNat ++ String.ofList ds
    else
      String.ofList (ds.take (e.toNat + 1)) ++ "." ++ String.ofList (ds.drop (e.toNat + 1))
  else
    let rest := ds.drop 1
    String.ofList (ds.take 1) ++ (if rest.isEmpty then "" else "." ++ String.ofList rest) ++
      "e" ++ toString e

/-- Writes a value with the fewest digits that identify it. -/
def Format.write (f : Format) (x : Float) : String :=
  if x.isNaN then "NaN"
  else
    let sign := if x.toBits >>> 63 == 1 then "-" else ""
    if x.isInf then sign ++ "inf"
    else sign ++ f.layout (Binary.ofBits x.toBits).shortest

/-! ### Reading -/

def digitValue (c : Char) : Nat := c.toNat - '0'.toNat

def digitsValue (cs : List Char) : Nat := cs.foldl (fun n c => 10 * n + digitValue c) 0

/-- The value nearest to `m * 10 ^ e`. Exponents far outside the range are
settled without computing the power. -/
def nearest (m : Nat) (e : Int) : Float :=
  if m = 0 then 0.0
  else
    let top := e + (Nat.toDigits 10 m).length
    if top > 400 then 1.0 / 0.0
    else if top < -400 then 0.0
    else Float.ofScientific m (e < 0) e.natAbs

/-- Reads an optional sign. -/
def sign? : List Char → Bool × List Char
  | '-' :: cs => (true, cs)
  | '+' :: cs => (false, cs)
  | cs => (false, cs)

/-- The exponent part after the mark: a sign and at least one digit. -/
def exponent? (cs : List Char) : Option Int :=
  let (neg, ds) := sign? cs
  if ds.isEmpty || !ds.all Char.isDigit then none
  else some (if neg then -(digitsValue ds : Int) else digitsValue ds)

/-- An unsigned decimal number: digits with an optional point and an optional
exponent, and a digit on at least one side of the point. -/
def magnitude? (cs : List Char) : Option Float :=
  let whole := cs.takeWhile Char.isDigit
  let rest := cs.dropWhile Char.isDigit
  let (frac, rest) := match rest with
    | '.' :: r => (r.takeWhile Char.isDigit, r.dropWhile Char.isDigit)
    | r => ([], r)
  if whole.isEmpty && frac.isEmpty then none
  else
    let scaled := fun (e : Int) => nearest (digitsValue (whole ++ frac)) (e - frac.length)
    match rest with
    | [] => some (scaled 0)
    | c :: r => if c == 'e' || c == 'E' then (exponent? r).map scaled else none

/-- Reads a decimal number with an optional sign; the words `inf`,
`infinity` and `nan` count, in any letter case. -/
def read? (s : String) : Option Float :=
  let (neg, cs) := sign? s.toList
  let word := String.ofList (cs.map Char.toLower)
  let value :=
    if word == "inf" || word == "infinity" then some (1.0 / 0.0)
    else if word == "nan" then some (0.0 / 0.0)
    else magnitude? cs
  value.map fun v => if neg then -v else v

end LintEngine.Decimal
