import DefTable.Cli.Setup

/-!
# Compiling files

One source is compiled to standard output, and several sources each to a file of its own.
-/

namespace DefTable
namespace Cli

variable {m : Type → Type} [Monad m] [Host m]

def compileUnit (s : Setting) (path : String) (source : List UInt8) :
    Run m (Except (List Report) (List UInt8)) := do
  match (← get).cache with
  | none => return (s.compileUnit none path source).1
  | some opened =>
    let (result, after) := s.compileCached opened.cache path source
    keepCache opened after
    return result

def readSource (stdin : List UInt8) (files : List String) :
    Run m (Except FileFailure (String × List UInt8)) := do
  match files with
  | [] => return .ok ("", stdin)
  | file :: _ =>
    if file = Options.standardInput then return .ok ("", stdin)
    else return (← readHost file).map fun bytes => (file, bytes)

def compileToStdout (s : Setting) (stdin : List UInt8) (files : List String) : Run m Unit := do
  match ← readSource stdin files with
  | .error f => fail s!"Error reading input: {f.message}"
  | .ok (path, source) =>
    match ← compileUnit s path source with
    | .error reports => reportAll reports
    | .ok output => printBytes output

/-! ## Batches

The files of a batch are independent jobs.  A job reads its source, compiles it and writes its
output; a job that fails ends there, and the others go on.
-/

/-- How far a job has come. -/
inductive Phase where
  | waiting
  | loaded (source : List UInt8)
  | compiled (output : List UInt8)
  | finished
deriving DecidableEq, Repr

/-- The next step of the job of a file.  A failure to write is kept for the end of the batch. -/
def jobStep (s : Setting) (file : String) : Phase → Run m (Phase × Option String)
  | .waiting => do
    match ← readHost file with
    | .error f => fail s!"Error reading input: {f.message}"; return (.finished, none)
    | .ok source => return (.loaded source, none)
  | .loaded source => do
    match ← compileUnit s file source with
    | .error reports => reportAll reports; return (.finished, none)
    | .ok output => return (.compiled output, none)
  | .compiled output => do
    let dest := outputPath file s.format
    match ← writeHost dest output with
    | .ok _ => return (.finished, none)
    | .error f => return (.finished, some s!"writing {dest}: {f.message}")
  | .finished => return (.finished, none)

def jobLength : Nat := 3

def jobSteps (s : Setting) (file : String) : Nat → Phase → Run m (Option String)
  | 0, _ => return none
  | n + 1, phase => do
    let (phase, failure) ← jobStep s file phase
    let later ← jobSteps s file n phase
    return failure <|> later

def runJobs (s : Setting) : List String → Run m (Option String)
  | [] => return none
  | file :: files => do
    let failure ← jobSteps s file jobLength .waiting
    let later ← runJobs s files
    return failure <|> later

def compileBatch (s : Setting) (files : List String) : Run m Unit := do
  match ← runJobs s files with
  | none => return
  | some message => fail s!"Error: {message}"

def runCompile (cancelled : Bool) (stdin : List UInt8) (args : List String) : Run m Unit := do
  match ← setUp cancelled args with
  | none => return
  | some plan =>
    if plan.options.files.length ≤ 1 then compileToStdout plan.setting stdin plan.options.files
    else compileBatch plan.setting plan.options.files

end Cli
end DefTable
