import LintEngine.Word

/-!
Numbers written with digits, and characters given by their code.
-/

namespace LintEngine.Text

/-- The value of a digit in a base up to 16. -/
def digit? (base : Nat) (c : Char) : Option Nat :=
  let v :=
    if c.isDigit then c.toNat - '0'.toNat
    else if 'a' ≤ c && c ≤ 'f' then c.toNat - 'a'.toNat + 10
    else if 'A' ≤ c && c ≤ 'F' then c.toNat - 'A'.toNat + 10
    else base
  if v < base then some v else none

/-- The number that digits stand for; there is at least one. -/
def number? (base : Nat) (digits : List Char) : Option Nat :=
  if digits.isEmpty then none
  else digits.foldlM (fun n c => (digit? base c).map (base * n + ·)) 0

/-- A number that a plus sign may stand before. -/
def unsigned? (base : Nat) : List Char → Option Nat
  | '+' :: ds => number? base ds
  | ds => number? base ds

/-- The character with a code. A surrogate is no character. -/
def charOf? (n : Nat) : Option Char :=
  if n < 0xD800 || (0xDFFF < n && n < 0x110000) then some (Char.ofNat n) else none

/-- A decimal integer of 64 bits, with a sign or without. -/
def integer? (s : String) : Option Int :=
  let value := match s.toList with
    | '-' :: ds => (number? 10 ds).map fun n : Nat => -(n : Int)
    | ds => (unsigned? 10 ds).map Int.ofNat
  value.bind (Word.signed? 63)

end LintEngine.Text
