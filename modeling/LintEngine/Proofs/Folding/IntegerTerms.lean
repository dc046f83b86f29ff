import LintEngine.Expr
import LintEngine.Proofs.Folding.Words

/-!
Integer expressions and what they mean: literals of the types `int`, `long`,
`char` and `boolean` under unary and binary operators and casts.

The type of an expression is found from the types of its parts alone. Its value
is a number or a truth value; the arithmetic is that of the integers, brought
back into the range of the type. Two things can go wrong in an expression that
has a type: a division by zero, and a cast to a character that is half of a
surrogate pair.
-/

namespace LintEngine.Java

/-! ### Types and values -/

inductive Ty where
  | byte
  | short
  | char
  | int
  | long
  | boolean
deriving DecidableEq

namespace Ty

def name : Ty → String
  | byte => "byte"
  | short => "short"
  | char => "char"
  | int => "int"
  | long => "long"
  | boolean => "boolean"

def promoted? : Ty → Option Ty
  | boolean => none
  | long => some long
  | _ => some int

def common? (a b : Ty) : Option Ty := do
  let a ← a.promoted?
  let b ← b.promoted?
  return if a = long ∨ b = long then long else int

/-- The type of a cast from one type to another. Truth values cannot be cast to
numbers, nor numbers to truth values. -/
def cast? (source target : Ty) : Option Ty :=
  if source = boolean ↔ target = boolean then some target else none

def width (t : Ty) : Nat := if t = long then 64 else 32

end Ty

inductive Value where
  | number (n : Int)
  | truth (b : Bool)
deriving DecidableEq

def Ty.convert : Ty → Value → Value
  | .byte, .number n => .number (Word.wrap 8 n)
  | .short, .number n => .number (Word.wrap 16 n)
  | .char, .number n => .number (n % 2 ^ 16)
  | .int, .number n => .number (Word.wrap 32 n)
  | .long, .number n => .number (Word.wrap 64 n)
  | _, x => x

def Value.isSurrogate : Value → Bool
  | .number n => 0xD800 ≤ n && n ≤ 0xDFFF
  | .truth _ => false

/-! ### Operators -/

inductive UnaryOp where
  | plus
  | minus
  | complement
  | not

namespace UnaryOp

def symbol : UnaryOp → String
  | plus => "+"
  | minus => "-"
  | complement => "~"
  | not => "!"

def type? : UnaryOp → Ty → Option Ty
  | not, t => if t = .boolean then some .boolean else none
  | _, t => t.promoted?

def value (width : Nat) : UnaryOp → Value → Value
  | minus, .number n => .number (Word.wrap width (-n))
  | complement, .number n => .number (Word.wrap width (-n - 1))
  | not, .truth b => .truth (!b)
  | _, x => x

end UnaryOp

inductive Arithmetic where
  | add
  | sub
  | mul
  | div
  | rem

namespace Arithmetic

def symbol : Arithmetic → String
  | add => "+"
  | sub => "-"
  | mul => "*"
  | div => "/"
  | rem => "%"

/-- The result before it is brought into range. Division goes toward zero. -/
def exact : Arithmetic → Int → Int → Int
  | add => (· + ·)
  | sub => (· - ·)
  | mul => (· * ·)
  | div => Int.tdiv
  | rem => Int.tmod

def divides : Arithmetic → Bool
  | div | rem => true
  | _ => false

end Arithmetic

inductive Bitwise where
  | and
  | or
  | xor

namespace Bitwise

def symbol : Bitwise → String
  | and => "&"
  | or => "|"
  | xor => "^"

def onNumbers : Bitwise → Int → Int → Int
  | and => Int.land
  | or => Int.lor
  | xor => Int.xor

def onTruths : Bitwise → Bool → Bool → Bool
  | and => Bool.and
  | or => Bool.or
  | xor => Bool.xor

end Bitwise

inductive Shift where
  | left
  | right
  | logical

namespace Shift

def symbol : Shift → String
  | left => "<<"
  | right => ">>"
  | logical => ">>>"

/-- A number of so many bits, moved by `k` places. The logical shift takes the
bits as those of an unsigned number. -/
def apply (width : Nat) (n : Int) (k : Nat) : Shift → Int
  | left => Word.wrap width (n * 2 ^ k)
  | right => n / 2 ^ k
  | logical => Word.wrap width (n % 2 ^ width / 2 ^ k)

end Shift

inductive Comparison where
  | lt
  | le
  | gt
  | ge
  | eq
  | ne

namespace Comparison

def symbol : Comparison → String
  | lt => "<"
  | le => "<="
  | gt => ">"
  | ge => ">="
  | eq => "=="
  | ne => "!="

def holds (m n : Int) : Comparison → Bool
  | lt => m < n
  | le => m ≤ n
  | gt => n < m
  | ge => n ≤ m
  | eq => m = n
  | ne => m ≠ n

def onTruths? (a b : Bool) : Comparison → Option Bool
  | eq => some (a == b)
  | ne => some (a != b)
  | _ => none

end Comparison

inductive Logical where
  | and
  | or

namespace Logical

def symbol : Logical → String
  | and => "&&"
  | or => "||"

def apply : Logical → Bool → Bool → Bool
  | and => Bool.and
  | or => Bool.or

end Logical

inductive BinaryOp where
  | arithmetic (o : Arithmetic)
  | bitwise (o : Bitwise)
  | shift (o : Shift)
  | comparison (o : Comparison)
  | logical (o : Logical)

namespace BinaryOp

def symbol : BinaryOp → String
  | arithmetic o => o.symbol
  | bitwise o => o.symbol
  | shift o => o.symbol
  | comparison o => o.symbol
  | logical o => o.symbol

def onTruths? : BinaryOp → Option Ty
  | bitwise _ | logical _ | comparison .eq | comparison .ne => some .boolean
  | _ => none

def onNumbers? (a b : Ty) : BinaryOp → Option Ty
  | arithmetic _ | bitwise _ => a.common? b
  | shift _ => do
    let _ ← b.promoted?
    a.promoted?
  | comparison _ => (a.common? b).map fun _ => .boolean
  | logical _ => none

def type? (op : BinaryOp) (a b : Ty) : Option Ty :=
  if a = .boolean ∧ b = .boolean then op.onTruths? else op.onNumbers? a b

def value (wa wb : Nat) : BinaryOp → Value → Value → Value
  | arithmetic o, .number m, .number n => .number (Word.wrap (max wa wb) (o.exact m n))
  | bitwise o, .number m, .number n => .number (o.onNumbers m n)
  | shift o, .number m, .number n => .number (o.apply wa m (n % wa).toNat)
  | comparison o, .number m, .number n => .truth (o.holds m n)
  | bitwise o, .truth a, .truth b => .truth (o.onTruths a b)
  | comparison o, .truth a, .truth b => .truth ((o.onTruths? a b).getD false)
  | logical o, .truth a, .truth b => .truth (o.apply a b)
  | _, x, _ => x

def divides : BinaryOp → Bool
  | arithmetic o => o.divides
  | _ => false

end BinaryOp

/-! ### Expressions -/

inductive Term where
  | int (v : Int32)
  | long (v : Int64)
  | char (c : Char)
  | boolean (b : Bool)
  | unary (op : UnaryOp) (x : Term)
  | binary (op : BinaryOp) (a b : Term)
  | cast (t : Ty) (x : Term)

namespace Term

def toExpr : Term → Expr
  | int v => .literal (.int v)
  | long v => .literal (.long v)
  | char c => .literal (.char c)
  | boolean b => .literal (.bool b)
  | unary op x => .unary op.symbol x.toExpr
  | binary op a b => .binary op.symbol a.toExpr b.toExpr
  | cast t x => .cast t.name x.toExpr

def height : Term → Nat
  | unary _ x | cast _ x => x.height + 1
  | binary _ a b => max a.height b.height + 1
  | _ => 0

def type? : Term → Option Ty
  | int _ => some .int
  | long _ => some .long
  | char _ => some .char
  | boolean _ => some .boolean
  | unary op x => x.type?.bind op.type?
  | binary op a b => do op.type? (← a.type?) (← b.type?)
  | cast t x => x.type?.bind (·.cast? t)

def width (t : Term) : Nat := (t.type?.getD .int).width

def value : Term → Value
  | int v => .number v.toInt
  | long v => .number v.toInt
  | char c => .number c.toNat
  | boolean b => .truth b
  | unary op x => op.value x.width x.value
  | binary op a b => op.value a.width b.width a.value b.value
  | cast t x => t.convert x.value

def WellTyped (t : Term) : Prop := t.type?.isSome

def dividesByZero : Term → Bool
  | unary _ x | cast _ x => x.dividesByZero
  | binary op a b => a.dividesByZero || b.dividesByZero || (op.divides && b.value == .number 0)
  | _ => false

def producesSurrogate : Term → Bool
  | unary _ x => x.producesSurrogate
  | binary _ a b => a.producesSurrogate || b.producesSurrogate
  | cast t x => x.producesSurrogate || (t == .char && (t.convert x.value).isSurrogate)
  | _ => false

end Term

end LintEngine.Java
