/-!
Binary floating-point values as exact numbers, and the fewest decimal
digits that identify one.

A finite value is `m * 2 ^ q`. The reals that round to it form an interval,
from halfway to the neighbour below to halfway to the neighbour above, whose
ends belong to it exactly when `m` is even. `readsBack` decides membership by
cross-multiplying naturals. `shortest` walks over finer and finer decimal
grids and tries the two grid points next to the value; the first grid with a
point in the interval wins.
-/

namespace LintEngine.Decimal

/-- A finite non-negative value, `m * 2 ^ q`. -/
structure Binary where
  m : Nat
  q : Int
  /-- The gap to the value below is half the gap to the value above. -/
  narrowBelow : Bool

/-- The magnitude that the bits of a finite value stand for. -/
def Binary.ofBits (b : UInt64) : Binary :=
  let e := ((b >>> 52) &&& 0x7FF).toNat
  let f := (b &&& 0xFFFFFFFFFFFFF).toNat
  if e == 0 then ⟨f, -1074, false⟩ else ⟨Nat.pow 2 52 + f, (e : Int) - 1075, f == 0 && e > 1⟩

/-- The decimal number `digits * 10 ^ exp`. -/
structure Dec where
  digits : Nat
  exp : Int
deriving Repr, DecidableEq

/-- Compares `a * 10 ^ i` with `n * 2 ^ j`, exactly. -/
def cmpScaled (a : Nat) (i : Int) (n : Nat) (j : Int) : Ordering :=
  compare (a * Nat.pow 10 i.toNat * Nat.pow 2 (-j).toNat)
    (n * Nat.pow 2 j.toNat * Nat.pow 10 (-i).toNat)

/-- Whether `d` lies among the reals that round to `x`. -/
def Binary.readsBack (x : Binary) (d : Dec) : Bool :=
  let lo := if x.narrowBelow then 4 * x.m - 1 else 4 * x.m - 2
  let hi := 4 * x.m + 2
  let closed := x.m % 2 == 0
  let below := cmpScaled d.digits d.exp lo (x.q - 2)
  let above := cmpScaled d.digits d.exp hi (x.q - 2)
  (below == .gt || (closed && below == .eq)) && (above == .lt || (closed && above == .eq))

/-- The exact decimal value of `m * 2 ^ q`. -/
def Binary.exact (x : Binary) : Dec :=
  if 0 ≤ x.q then ⟨x.m * Nat.pow 2 x.q.toNat, 0⟩ else ⟨x.m * Nat.pow 5 (-x.q).toNat, x.q⟩

/-- The least `k` in a range with the value below `10 ^ k`. -/
def Binary.scale (x : Binary) : Int :=
  let low := ((x.m.log2 : Int) + x.q) * 30103 / 100000 - 1
  let fits := fun (k : Int) => cmpScaled 1 k x.m x.q == .gt
  if fits low then low else if fits (low + 1) then low + 1
  else if fits (low + 2) then low + 2 else low + 3

/-- The multiple of `10 ^ exp` at or below the value, in units of
`10 ^ exp`. -/
def Binary.floorAt (x : Binary) (exp : Int) : Nat :=
  (x.m * Nat.pow 2 x.q.toNat * Nat.pow 10 (-exp).toNat) /
    (Nat.pow 2 (-x.q).toNat * Nat.pow 10 exp.toNat)

/-- The grid point of `10 ^ exp` that stands for `x`, if one does: of the
two neighbours of the value the nearer, and the upper one on a tie. -/
def Binary.onGrid? (x : Binary) (exp : Int) : Option Dec :=
  let lower : Dec := ⟨x.floorAt exp, exp⟩
  let upper : Dec := ⟨x.floorAt exp + 1, exp⟩
  match x.readsBack lower, x.readsBack upper with
  | true, true =>
    -- twice the value against the sum of the two neighbours
    if cmpScaled (lower.digits + upper.digits) exp x.m (x.q + 1) == .gt then some lower
    else some upper
  | true, false => some lower
  | false, true => some upper
  | false, false => none

/-- Moves trailing zeros of the digits into the exponent. -/
def Dec.strip : Nat → Dec → Dec
  | 0, d => d
  | n + 1, d => if d.digits % 10 == 0 && d.digits != 0 then strip n ⟨d.digits / 10, d.exp + 1⟩ else d

/-- The fewest digits that read back as `x`. -/
def Binary.shortest (x : Binary) : Dec :=
  if x.m = 0 then ⟨0, 0⟩
  else
    let k := x.scale
    let found := (List.range 17).findSome? fun (n : Nat) => x.onGrid? (k - ((n : Int) + 1))
    (found.getD x.exact).strip 400

/-! ### Remainder -/

/-- The remainder of two magnitudes, taken on their common binary grid. -/
def Binary.rem (x y : Binary) : Nat × Int :=
  let q := min x.q y.q
  ((x.m * Nat.pow 2 (x.q - q).toNat) % (y.m * Nat.pow 2 (y.q - q).toNat), q)

/-- The remainder of a division whose quotient is rounded toward zero; it
has the sign of the dividend. -/
def remainder (a b : Float) : Float :=
  if a.isNaN || b.isNaN || a.isInf || b == 0.0 then 0.0 / 0.0
  else if b.isInf then a
  else
    let (r, q) := (Binary.ofBits a.toBits).rem (Binary.ofBits b.toBits)
    let magnitude := (Float.ofNat r).scaleB q
    if a.toBits >>> 63 == 1 then -magnitude else magnitude

end LintEngine.Decimal
