import LintEngine.Decimal.Format

/-!
Compile-time values. The integral types keep their width, since folding
wraps at it; `float` and `double` share one representation.
-/

namespace LintEngine

inductive Literal where
  | int (value : Int32)
  | long (value : Int64)
  | float (value : Float)
  | bool (value : Bool)
  | char (value : Char)
  | str (value : String)
  | null
deriving Inhabited, Repr

namespace Literal

/-- Equality of type and value. Floating-point values compare as numbers, so
a NaN equals nothing and the two zeros are equal. -/
def equal : Literal → Literal → Bool
  | int a, int b => a == b
  | long a, long b => a == b
  | float a, float b => a == b
  | bool a, bool b => a == b
  | char a, char b => a == b
  | str a, str b => a == b
  | null, null => true
  | _, _ => false

instance : BEq Literal := ⟨equal⟩

def asInt : Literal → Option Int64
  | int v => some v.toInt64
  | long v => some v
  | char c => some (Int64.ofNat c.toNat)
  | _ => none

/-- Equality of numbers across `int`, `long` and `char`, and of type and
value elsewhere. -/
def sameValue (a b : Literal) : Bool :=
  match a.asInt, b.asInt with
  | some x, some y => x == y
  | _, _ => a == b

def asFloat : Literal → Option Float
  | float v => some v
  | l => l.asInt.map Int64.toFloat

def asBool : Literal → Option Bool
  | bool b => some b
  | _ => none

def asStr : Literal → Option String
  | str s => some s
  | _ => none

/-- The type of a value. -/
def typeName : Literal → String
  | int _ => "int"
  | long _ => "long"
  | float _ => "double"
  | bool _ => "boolean"
  | char _ => "char"
  | str _ => "java.lang.String"
  | null => "null"

def render : Literal → String
  | int v => toString v.toInt
  | long v => toString v.toInt
  | float v => Decimal.constantText.write v
  | bool true => "true"
  | bool false => "false"
  | char c => c.toString
  | str s => s
  | null => "null"

end Literal

end LintEngine
