import MisuseSlice.Text.Quoted

/-!
How texts are shown on a terminal: with colors where these are on, and with control characters
escaped so that a text stays on one line.
-/
namespace MisuseSlice.Report

/-- Whether colors are shown. -/
abbrev Colors := Bool

/-- A text between the start of a rendition and its reset. -/
def render (code : String) (on : Colors) (s : String) : String :=
  if on then "\x1b[" ++ code ++ "m" ++ s ++ "\x1b[0m" else s

def bold := render "1"
def faint := render "2"
def red := render "1;31"
def green := render "1;32"
def yellow := render "1;33"
def cyan := render "1;36"

/-- A control character. -/
def isControl (c : Char) : Bool :=
  c.toNat < 0x20 || (0x7F ≤ c.toNat && c.toNat < 0xA0)

/-- A text with its control characters escaped. -/
def sanitize (s : String) : String :=
  String.ofList (s.toList.flatMap fun c => if isControl c then Text.escapeChar '\'' c else [c])

end MisuseSlice.Report
