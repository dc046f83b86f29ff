import LintEngine.Text.Basic

/-!
Text in columns: padding to a width in characters, and digits in groups.
-/

namespace LintEngine.Text

/-- Blanks before a text, up to a width. -/
def padStart (width : Nat) (s : String) : String := repeated " " (width - s.length) ++ s

/-- Blanks after a text, up to a width. -/
def padEnd (width : Nat) (s : String) : String := s ++ repeated " " (width - s.length)

/-- Puts a comma after every third of the characters, which come in reverse
order. -/
def groupReversed : Nat → List Char → List Char
  | _, [] => []
  | 0, c :: cs => ',' :: c :: groupReversed 2 cs
  | n + 1, c :: cs => c :: groupReversed n cs

/-- A number with a comma between groups of three digits. -/
def grouped (n : Nat) : String :=
  String.ofList (groupReversed 3 (toString n).toList.reverse).reverse

end LintEngine.Text
