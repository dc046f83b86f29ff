import LintEngine.Decimal.Shortest
import LintEngine.Text.Basic

/-!
Rounding a binary floating-point value to a fixed number of decimal places,
and to a whole number. Both work on the exact value.
-/

namespace LintEngine.Decimal

/-- The quotient rounded to the nearest natural; a tie goes to the even one. -/
def roundEven (num den : Nat) : Nat :=
  let q := num / den
  match compare (2 * (num % den)) den with
  | .lt => q
  | .gt => q + 1
  | .eq => if q % 2 == 0 then q else q + 1

/-- Numerator and denominator of a finite non-negative value. -/
def Binary.ratio (x : Binary) : Nat × Nat := (x.m * Nat.pow 2 x.q.toNat, Nat.pow 2 (-x.q).toNat)

/-- A finite non-negative value with so many decimal places; a tie goes to
the even digit. -/
def fixed (places : Nat) (x : Float) : String :=
  let (num, den) := (Binary.ofBits x.toBits).ratio
  let scaled := roundEven (num * Nat.pow 10 places) den
  let whole := toString (scaled / Nat.pow 10 places)
  if places == 0 then whole
  else
    let digits := toString (scaled % Nat.pow 10 places)
    whole ++ "." ++ Text.repeated "0" (places - digits.length) ++ digits

/-- A finite non-negative value rounded to a whole number; a tie goes up. -/
def nearestWhole (x : Float) : Nat :=
  let (num, den) := (Binary.ofBits x.toBits).ratio
  (2 * num + den) / (2 * den)

end LintEngine.Decimal
