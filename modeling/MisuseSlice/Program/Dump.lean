import MisuseSlice.Program.Decode
import MisuseSlice.Program.Encode
import MisuseSlice.Program.Format
import MisuseSlice.Program.Packed
import MisuseSlice.Program.Shown

/-!
Program dumps: a program as the bytes of a file, in one of the two formats. A dump is written of the bytes that texts
hold, and the texts that are read hold the bytes of the dump. The analysis goes by the texts as they are shown.
-/
namespace MisuseSlice

/-- Why bytes are no program dump. -/
inductive DumpError where
  | readable (cause : Document.DecodeError)
  | packed
  deriving DecidableEq, Repr

/-- The wording of a cause; where packed data goes wrong is left out. -/
def DumpError.message : DumpError → String
  | readable e => "could not decode program dump: " ++ e.message
  | packed => "could not decode msgpack program dump: ..."

namespace Program

/-- Reads a dump. -/
def parse (format : Format) (bytes : Text.Bytes) : Except DumpError Program :=
  match format with
  | .readable =>
    match Document.decode bytes Program.decode with
    | .error e => .error (.readable e)
    | .ok p => .ok p
  | .packed =>
    match (Packed.Item.ofBytes? bytes).bind Program.ofPacked? with
    | none => .error .packed
    | some p => .ok p

/-- Reads a dump for the analysis and finalizes the program (`Decode`). -/
def ofDump (format : Format) (bytes : Text.Bytes) : Except DumpError (Program × List Problem) :=
  (parse format bytes).map fun p => p.shown.finalize

/-- The dump of a program (`Encode`). -/
def dump (p : Program) (format : Format) : Text.Bytes :=
  match format with
  | .readable => Text.bytesOf p.toContent.render
  | .packed => p.packed.write

end Program

end MisuseSlice
