import DefTable.Cli.Command

/-!
# The program

The command line in its real surroundings: files are read and written, a watched file is compiled
again when its content changes, and what a run has written goes to the streams of the process.
-/

namespace DefTable
namespace Shell

def openError : IO.Error → FileError
  | .noFileOrDirectory .. => .missing
  | _ => .notDirectory

def readRest (path : String) (handle : IO.FS.Handle) : IO (Except FileFailure (List UInt8)) := do
  try
    let bytes ← handle.readBinToEnd
    return .ok bytes.toList
  catch _ => return .error ⟨"read", path, .isDirectory⟩

def readFile (path : String) : IO (Except FileFailure (List UInt8)) := do
  try
    readRest path (← IO.FS.Handle.mk path .read)
  catch e => return .error ⟨"open", path, openError e⟩

def absence? (path : String) : IO (Option FileError) := do
  try
    let _ ← IO.FS.Handle.mk path .read
    return none
  catch e => return some (openError e)

def saveFile (path : String) (bytes : List UInt8) : IO (Except FileFailure Unit) := do
  try
    IO.FS.writeBinFile path ⟨bytes.toArray⟩
    return .ok ()
  catch e =>
    let found := (← absence? path).isNone
    return .error ⟨"open", path, if found then .isDirectory else openError e⟩

instance : Cli.Host IO where
  workingDirectory := do return (← IO.currentDir).toString
  read := readFile
  write := saveFile
  absence? := absence?

def runOnce (args : List String) : IO Nat := do
  let stdin ← if Cli.readsInput args then (← IO.getStdin).readBinToEnd else pure ByteArray.empty
  let outcome ← Cli.run false args stdin.toList
  let stdout ← IO.getStdout
  stdout.write ⟨outcome.stdout.toArray⟩
  stdout.flush
  (← IO.getStderr).write ⟨outcome.stderr.toArray⟩
  return outcome.code

partial def watchLoop (args : List String) (file : String) (last : Option (List UInt8)) :
    IO Unit := do
  IO.sleep 50
  let now := (← readFile file).toOption
  if now.isSome && now ≠ last then discard (runOnce args)
  watchLoop args file (now <|> last)

def runAll (args : List String) : IO UInt32 := do
  let code ← runOnce args
  match Cli.watchedFile? args with
  | none => return code.toUInt32
  | some file =>
    if code = 0 then watchLoop args file (← readFile file).toOption
    return code.toUInt32

end Shell
end DefTable

def main (args : List String) : IO UInt32 :=
  DefTable.Shell.runAll args
