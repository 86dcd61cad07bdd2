/-!
# Colored text

Text for a terminal that understands the usual control sequences. A color is switched back to the
terminal's own behind the text, and everything is switched back behind bold text; so bold goes
around color.
-/

namespace LiveConstraints.Console

/-- A color of the terminal. -/
inductive Color where
  /-- White. -/
  | white
  /-- Yellow. -/
  | yellow
  /-- Gray. -/
  | brightBlack
  /-- Bright red. -/
  | brightRed
  /-- Bright green. -/
  | brightGreen
  /-- Bright yellow. -/
  | brightYellow
  /-- Bright blue. -/
  | brightBlue
  /-- Bright magenta. -/
  | brightMagenta
  /-- Bright cyan. -/
  | brightCyan
  deriving DecidableEq, Repr

/-- The number of a color in control sequences. -/
def Color.code : Color → Nat
  | .white => 37
  | .yellow => 33
  | .brightBlack => 90
  | .brightRed => 91
  | .brightGreen => 92
  | .brightYellow => 93
  | .brightBlue => 94
  | .brightMagenta => 95
  | .brightCyan => 96

/-- The control sequence that switches an attribute on or off. -/
def control (code : Nat) : String := "\x1b[" ++ toString code ++ "m"

/-- Text in a color. -/
def colored (color : Color) (s : String) : String := control color.code ++ s ++ control 39

/-- Text in bold. -/
def bold (s : String) : String := control 1 ++ s ++ control 0

end LiveConstraints.Console
