import MisuseSlice.CommandLine.Hint
import MisuseSlice.CommandLine.Run

/-!
The command line program: the files of the machine, a fresh run identifier, and the streams that a command
prints to.
-/
namespace MisuseSlice.Main

/-- The cause of a failed operation. -/
private def causeOf : IO.Error → FileError
  | .noFileOrDirectory _ _ _ => .missing
  | e => .other (toString e)

/-- The value of an operation, or why it fails. -/
private def attempt (x : IO α) : IO (Except FileError α) := do
  match ← x.toBaseIO with
  | .ok v => pure (.ok v)
  | .error e => pure (.error (causeOf e))

/-- What a path leads to. -/
private def status (path : String) : IO (Except FileError FileKind) :=
  attempt do
    let found ← (← IO.FS.realPath path).metadata
    pure (if found.type == .dir then .directory else .file)

/-- The names in a directory, in order. -/
private def list (path : String) : IO (Except FileError (List (String × FileKind))) := do
  match ← status path with
  | .error e => pure (.error e)
  | .ok .file => pure (.error .notDirectory)
  | .ok .directory =>
    attempt do
      let entries ← (← IO.FS.realPath path).readDir
      let names := Text.sort (entries.toList.map (·.fileName))
      names.mapM fun n => do
        match ← status (Text.Path.join path n) with
        | .ok kind => pure (n, kind)
        | .error _ => pure (n, .file)

/-- The files of the machine. -/
private def files : FileAccess IO where
  status := status
  list := list
  read path := do
    match ← status path with
    | .error e => pure (.error e)
    | .ok .directory => pure (.error .isDirectory)
    | .ok .file => attempt do pure (← IO.FS.readBinFile path).toList
  write path bytes := do
    match ← status path with
    | .ok .directory => pure (.error .isDirectory)
    | _ => attempt (IO.FS.writeBinFile path ⟨bytes.toArray⟩)

/-- The text of a random identifier: sixteen bytes of which two mark its kind. -/
def identifier (bytes : Text.Bytes) : String :=
  let marked := bytes.mapIdx fun i b =>
    if i == 6 then b % 16 + 64 else if i == 8 then b % 64 + 128 else b
  let hex (i n : Nat) : String :=
    String.ofList (((marked.drop i).take n).flatMap fun b => Text.padded 16 2 b.toNat)
  Text.joinWith "-" [hex 0 4, hex 4 2, hex 6 2, hex 8 2, hex 10 6]

end MisuseSlice.Main

open MisuseSlice

/-- Runs the command that the arguments select. -/
def main (args : List String) : IO UInt32 := do
  let out ← IO.getStdout
  let runId := Main.identifier (← IO.getRandomBytes 16).toList
  let (failure, printed) ← CommandLine.run Main.files runId (← out.isTty) args
  IO.eprint (printed.log.shownAt printed.level)
  out.putStr printed.out
  out.flush
  match failure with
  | none => pure 0
  | some e =>
    IO.eprintln ("error: " ++ e.message)
    let hint := CommandLine.hint e.message
    if hint != "" then IO.eprintln ("Hint: " ++ hint)
    pure 2
