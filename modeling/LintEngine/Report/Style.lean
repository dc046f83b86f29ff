import LintEngine.Issue.Basic
import LintEngine.Decimal.Fixed
import LintEngine.Text.Layout

/-!
Colours and emphasis in reports for a terminal. A styled text is written
between an escape sequence that switches the style on and one that ends it.
-/

namespace LintEngine.Report

inductive Colour where
  | red
  | green
  | yellow
  | blue
  | magenta
  | cyan
  | white
deriving DecidableEq, Repr

def Colour.code : Colour → String
  | .red => "31"
  | .green => "32"
  | .yellow => "33"
  | .blue => "34"
  | .magenta => "35"
  | .cyan => "36"
  | .white => "37"

structure Style where
  bold : Bool := false
  dimmed : Bool := false
  underline : Bool := false
  colour : Option Colour := none
deriving DecidableEq, Repr

namespace Style

def codes (s : Style) : List String :=
  (if s.bold then ["1"] else []) ++ (if s.dimmed then ["2"] else []) ++
    (if s.underline then ["4"] else []) ++ (s.colour.map Colour.code).toList

/-- The sequence that ends every style. -/
def reset : String := "\x1b[0m"

/-- The sequence that switches a style on. -/
def start (s : Style) : String := "\x1b[" ++ Text.join ";" s.codes ++ "m"

end Style

/-- Writes text in a style, if styles are on. A reset inside the text is
followed by the style again; the text is laid out after that. -/
def paint (styled : Bool) (s : Style) (text : String) (layout : String → String := id) : String :=
  if styled && !s.codes.isEmpty then
    s.start ++ layout (Text.replace Style.reset (Style.reset ++ s.start) text) ++ Style.reset
  else layout text

/-! ### The styles of a report -/

def filePath : Style := { bold := true, colour := some .cyan }

def faint : Style := { dimmed := true }

def issueId : Style := { colour := some .magenta }

def strongWhite : Style := { bold := true, colour := some .white }

def strongGreen : Style := { bold := true, colour := some .green }

def plain (c : Colour) : Style := { colour := some c }

/-- The sign before a finding, with its style. -/
def severitySymbol : Severity → Style × String
  | .fatal => ({ bold := true, underline := true, colour := some .red }, "✖")
  | .error => ({ bold := true, colour := some .red }, "✖")
  | .warning => ({ colour := some .yellow }, "⚠")
  | .info | .ignore => ({ colour := some .blue }, "ℹ")

def severityLabel : Severity → Style
  | .fatal | .error => { bold := true, colour := some .red }
  | .warning => { colour := some .yellow }
  | .info | .ignore => { colour := some .blue }

def categoryColour : Category → Colour
  | .correctness => .red
  | .performance => .yellow
  | .security => .magenta
  | .internationalization | .bidirectional => .green
  | .lint => .white

/-- The share of a part as a bar of a fixed width. -/
def bar (part total width : Nat) : String :=
  let filled :=
    if total == 0 then 0
    else min width (Decimal.nearestWhole (Float.ofNat part / Float.ofNat total * Float.ofNat width))
  Text.repeated "█" filled ++ Text.repeated "░" (width - filled)

def cancelledLine (styled : Bool) : String :=
  paint styled (plain .yellow) "Analysis was cancelled; results are incomplete"

def heavyRule : String := Text.repeated "━" 50

def lightRule : String := Text.repeated "─" 50

/-- The share of a part in percent, with one place. -/
def percent (part total : Nat) : String :=
  Decimal.fixed 1 (Float.ofNat part / Float.ofNat total * 100.0)

end LintEngine.Report
