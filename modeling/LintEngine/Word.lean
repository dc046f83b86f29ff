/-!
Numbers that fit a machine word.
-/

namespace LintEngine.Word

/-- The number of values that so many bits have. -/
def size (bits : Nat) : Nat := Nat.pow 2 bits

/-- A number as an unsigned word, if it fits. -/
def unsigned? (bits : Nat) (n : Int) : Option Nat :=
  if 0 ≤ n && n.toNat < size bits then some n.toNat else none

/-- A number as a signed word with so many bits beside its sign, if it
fits. -/
def signed? (bits : Nat) (n : Int) : Option Int :=
  if -(size bits : Int) ≤ n && n < (size bits : Int) then some n else none

end LintEngine.Word
