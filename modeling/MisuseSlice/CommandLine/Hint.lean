import MisuseSlice.Text.Regex.Parser

/-!
Advice for common failures, given by the wording of the error.
-/
namespace MisuseSlice.CommandLine

private def inputFailure : Option Text.Regex :=
  Text.Regex.read? "input .*: |unknown program dump extension"

private def mentions (s part : String) : Bool := Text.contains s part

/-- Advice for an error message, empty where there is none. -/
def hint (message : String) : String :=
  if mentions message "could not decode program dump" ||
      mentions message "could not decode msgpack program dump" then
    "the dump extension must match its encoding: yaml or json for .yaml, .yml and .json, msgpack for .msgpack and .mp"
  else if !Text.startsWith message "fatal: " then ""
  else if (match inputFailure with | some r => r.matchesIn message | none => false) then
    "-i must be the path of a program dump ending in .yaml, .yml, .json, .msgpack or .mp"
  else if mentions message "platform directory" then
    "-p must be the directory of the platform SDK (e.g. platforms/android-33), or be omitted"
  else if mentions message "rules directory" || mentions message "no rule in" then
    "-r must be a directory holding json or yaml rule files; check them with `cryptoslice rules validate`"
  else ""

end MisuseSlice.CommandLine
