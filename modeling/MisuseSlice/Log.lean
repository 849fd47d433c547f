import MisuseSlice.Text.Basic

/-!
Messages about a run. Messages are values that an analysis returns; which of them are shown is decided
by a level when they are written, so no result depends on it.
-/
namespace MisuseSlice

/-- How important a message is. -/
inductive LogLevel where
  | error | warn | info | debug | trace
  deriving DecidableEq, Repr, Inhabited

namespace LogLevel

/-- The number of a level; a higher one shows more. -/
def number : LogLevel → Int
  | error => 1
  | warn => 2
  | info => 3
  | debug => 4
  | trace => 5

/-- The mark before a message. -/
def mark : LogLevel → String
  | error => "[ERROR] "
  | warn => "[WARN] "
  | info => "[INFO] "
  | debug => "[DEBUG] "
  | trace => "[TRACE] "

end LogLevel

/-- One message. -/
structure LogEntry where
  level : LogLevel
  message : String
  deriving DecidableEq, Repr, Inhabited

/-- Messages in the order in which they arose. -/
abbrev Log := List LogEntry

namespace LogEntry

/-- The message is shown at a level. -/
def isShown (e : LogEntry) (level : Int) : Bool := e.level.number ≤ level

/-- The written form; it ends in exactly one added newline unless the message has one. -/
def text (e : LogEntry) : String :=
  let s := e.level.mark ++ e.message
  if Text.endsWith s "\n" then s else s ++ "\n"

end LogEntry

namespace Log

/-- A message of a level. -/
def one (level : LogLevel) (message : String) : Log := [⟨level, message⟩]

/-- The written messages that a level shows. -/
def shownAt (log : Log) (level : Int) : String :=
  String.join ((log.filter (·.isShown level)).map (·.text))

end Log

end MisuseSlice
