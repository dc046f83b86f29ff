import LintEngine.Tree.Basic

/-!
Expressions as far as they can be folded. Expressions in a tree and the
initializers kept in the symbol table are both brought into this form, so
that one folding function serves both.
-/

namespace LintEngine

inductive Expr where
  | literal (value : Literal)
  /-- A name, perhaps with a dotted qualifier. -/
  | reference (qualifier : Option String) (name : String)
  | unary (op : String) (operand : Expr)
  | binary (op : String) (lhs rhs : Expr)
  | conditional (condition yes no : Expr)
  | cast (typeName : String) (operand : Expr)
  | array (items : List Expr)
  | unknown
deriving Inhabited, Repr

namespace Expr

/-- The expression that a node stands for. -/
def ofNode (t : Tree) (id : NodeId) : Expr :=
  let n := t.node id
  let sub := fun (c : NodeId) => if _ : t.Below id c then ofNode t c else .unknown
  let child := fun (i : Nat) => match n.children[i]? with
    | some c => sub c
    | none => .unknown
  match n.kind with
  | .literal => match n.literal with
    | some l => .literal l
    | none => .unknown
  | .reference => match n.name with
    | some name => .reference none name
    | none => .unknown
  | .select => match n.name, n.qualifier.bind t.dottedName with
    | some name, some qualifier => .reference (some qualifier) name
    | _, _ => .unknown
  | .parenthesized => child 0
  | .unary => .unary (n.operator.getD "") (child 0)
  | .binary => .binary (n.operator.getD "") (child 0) (child 1)
  | .conditional => .conditional (child 0) (child 1) (child 2)
  | .cast => .cast (n.typeName.getD "") (child 0)
  | .arrayInit => .array (n.children.map sub)
  | .new =>
    -- an array creation keeps its initializer as a child
    if n.typeName.any (Text.endsWith "[]") then
      match n.children.find? fun c => t.kind c == .arrayInit with
      | some c => sub c
      | none => .unknown
    else .unknown
  | _ => .unknown
termination_by t.size - id
decreasing_by exact Tree.size_sub_lt_of_below ‹_›

def literal? : Expr → Option Literal
  | literal l => some l
  | _ => none

mutual

/-- The strings of a literal or of an array of literals. -/
def strings : Expr → List String
  | literal (.str s) => [s]
  | array items => stringsAll items
  | _ => []

def stringsAll : List Expr → List String
  | [] => []
  | e :: es => strings e ++ stringsAll es

end

mutual

def render : Expr → String
  | literal (.str s) => "\"" ++ s ++ "\""
  | literal l => l.render
  | reference (some q) name => q ++ "." ++ name
  | reference none name => name
  | unary op x => op ++ render x
  | binary op l r => render l ++ " " ++ op ++ " " ++ render r
  | conditional c yes no => render c ++ " ? " ++ render yes ++ " : " ++ render no
  | cast type x => "(" ++ type ++ ") " ++ render x
  | array items => "\x7b" ++ Text.join ", " (renderAll items) ++ "\x7d"
  | unknown => "?"

def renderAll : List Expr → List String
  | [] => []
  | e :: es => render e :: renderAll es

end

mutual

/-- Equality of expressions, with literals compared as values. -/
def equal : Expr → Expr → Bool
  | literal a, literal b => a == b
  | reference q n, reference q' n' => q == q' && n == n'
  | unary o x, unary o' x' => o == o' && equal x x'
  | binary o l r, binary o' l' r' => o == o' && equal l l' && equal r r'
  | conditional c y n, conditional c' y' n' => equal c c' && equal y y' && equal n n'
  | cast t x, cast t' x' => t == t' && equal x x'
  | array xs, array ys => equalAll xs ys
  | unknown, unknown => true
  | _, _ => false

def equalAll : List Expr → List Expr → Bool
  | [], [] => true
  | x :: xs, y :: ys => equal x y && equalAll xs ys
  | _, _ => false

end

instance : BEq Expr := ⟨equal⟩

end Expr

end LintEngine
