import LintEngine.Decimal.Shortest
import LintEngine.Literal
import LintEngine.Symbols.TypeName
import LintEngine.Text.Digits

/-!
Operators on compile-time values.

Integral operands are promoted first: `char` becomes `int`, and arithmetic is
64 bits wide exactly when an operand is `long`. Both widths wrap. A shift has
the width of its left operand, and its count is taken modulo that width.
-/

namespace LintEngine

namespace Folding

/-- An integral operand after promotion. -/
inductive Integral where
  | int (value : Int32)
  | long (value : Int64)

namespace Integral

def ofLiteral? : Literal → Option Integral
  | .int v => some (int v)
  | .long v => some (long v)
  | .char c => some (int (Int32.ofNat c.toNat))
  | _ => none

def wide : Integral → Int64
  | int v => v.toInt64
  | long v => v

def toLiteral : Integral → Literal
  | int v => .int v
  | long v => .long v

end Integral

def unaryIntegral (op : String) (x : Integral) : Option Literal :=
  match op, x with
  | "-", .int v => some (.int (-v))
  | "-", .long v => some (.long (-v))
  | "~", .int v => some (.int (~~~v))
  | "~", .long v => some (.long (~~~v))
  | "+", x => some x.toLiteral
  | _, _ => none

/-- Applies a unary operator. -/
def unary (op : String) (x : Literal) : Option Literal :=
  match op, x with
  | "-", .float v => some (.float (-v))
  | "+", .float v => some (.float v)
  | "!", .bool b => some (.bool (!b))
  | op, x => (Integral.ofLiteral? x).bind (unaryIntegral op)

def boolean (op : String) (a b : Bool) : Option Literal :=
  match op with
  | "&&" | "&" => some (.bool (a && b))
  | "||" | "|" => some (.bool (a || b))
  | "^" | "!=" => some (.bool (a != b))
  | "==" => some (.bool (a == b))
  | _ => none

def floating (op : String) (a b : Float) : Option Literal :=
  match op with
  | "+" => some (.float (a + b))
  | "-" => some (.float (a - b))
  | "*" => some (.float (a * b))
  | "/" => if b == 0.0 then none else some (.float (a / b))
  | "%" => if b == 0.0 then none else some (.float (Decimal.remainder a b))
  | "<" => some (.bool (a < b))
  | "<=" => some (.bool (a ≤ b))
  | ">" => some (.bool (b < a))
  | ">=" => some (.bool (b ≤ a))
  | "==" => some (.bool (a == b))
  | "!=" => some (.bool (a != b))
  | _ => none

/-- Comparisons of integral values, made at 64 bits. -/
def compare (op : String) (a b : Int64) : Option Bool :=
  match op with
  | "<" => some (a < b)
  | "<=" => some (a ≤ b)
  | ">" => some (b < a)
  | ">=" => some (b ≤ a)
  | "==" => some (a == b)
  | "!=" => some (a != b)
  | _ => none

def int32 (op : String) (a b : Int32) : Option Int32 :=
  match op with
  | "+" => some (a + b)
  | "-" => some (a - b)
  | "*" => some (a * b)
  | "/" => if b == 0 then none else some (a / b)
  | "%" => if b == 0 then none else some (a % b)
  | "&" => some (a &&& b)
  | "|" => some (a ||| b)
  | "^" => some (a ^^^ b)
  | _ => none

def int64 (op : String) (a b : Int64) : Option Int64 :=
  match op with
  | "+" => some (a + b)
  | "-" => some (a - b)
  | "*" => some (a * b)
  | "/" => if b == 0 then none else some (a / b)
  | "%" => if b == 0 then none else some (a % b)
  | "&" => some (a &&& b)
  | "|" => some (a ||| b)
  | "^" => some (a ^^^ b)
  | _ => none

/-- Shifts, with the count already at 64 bits. -/
def shift (op : String) (x : Integral) (count : Int64) : Option Literal :=
  match op, x with
  | "<<", .int v => some (.int (v <<< count.toInt32))
  | ">>", .int v => some (.int (v >>> count.toInt32))
  | ">>>", .int v => some (.int (v.toUInt32 >>> count.toInt32.toUInt32).toInt32)
  | "<<", .long v => some (.long (v <<< count))
  | ">>", .long v => some (.long (v >>> count))
  | ">>>", .long v => some (.long (v.toUInt64 >>> count.toUInt64).toInt64)
  | _, _ => none

def integral (op : String) (a b : Integral) : Option Literal :=
  match compare op a.wide b.wide with
  | some r => some (.bool r)
  | none => match shift op a b.wide with
    | some r => some r
    | none => match a, b with
      | .int a, .int b => (int32 op a b).map .int
      | a, b => (int64 op a.wide b.wide).map .long

def isString : Literal → Bool
  | .str _ => true
  | _ => false

def isFloat : Literal → Bool
  | .float _ => true
  | _ => false

/-- Applies a binary operator. A string operand makes `+` a concatenation. -/
def binary (op : String) (a b : Literal) : Option Literal :=
  if op == "+" && (isString a || isString b) then
    if a == .null || b == .null then none else some (.str (a.render ++ b.render))
  else match a, b with
    | .bool x, .bool y => boolean op x y
    | a, b =>
      if isFloat a || isFloat b then do floating op (← a.asFloat) (← b.asFloat)
      else do integral op (← Integral.ofLiteral? a) (← Integral.ofLiteral? b)

/-- Applies a cast. A cast to a type that is not known here keeps the value. -/
def cast (typeName : String) (x : Literal) : Option Literal :=
  match TypeName.strip typeName with
  | "int" => match x with
    | .float f => some (.int f.toInt32)
    | x => x.asInt.map fun i => .int i.toInt32
  | "long" => match x with
    | .float f => some (.long f.toInt64)
    | x => x.asInt.map .long
  | "short" => x.asInt.map fun i => .int i.toInt16.toInt32
  | "byte" => x.asInt.map fun i => .int i.toInt8.toInt32
  | "char" => x.asInt.bind fun i => (Text.charOf? i.toUInt64.toUInt16.toNat).map .char
  | "float" | "double" => x.asFloat.map .float
  | "boolean" => x.asBool.map .bool
  | "String" | "java.lang.String" => x.asStr.map .str
  | _ => some x

end Folding

end LintEngine
