import DefTable.Cli.Address
import DefTable.Cli.Batch
import DefTable.Service
import DefTable.Watch

/-!
# The command line

A run takes its arguments and its standard input and leaves an outcome: an exit code and what it
wrote.  Without a command it compiles.
-/

namespace DefTable
namespace Cli

variable {m : Type → Type} [Monad m] [Host m]

/-! ## Other commands -/

def usage : String :=
  s!"asc {Config.compilerVersion}: compiles programs to a flat definition table

Usage:
  asc [flags] < main.asc         compile stdin, write the result to stdout
  asc [flags] main.asc           compile a file, write the result to stdout
  asc [flags] a.asc b.asc ...    compile files concurrently, writing a.json, b.json, ...
  asc fmt [-explicit] main.asc   print the program with operator grouping resolved
  asc watch [flags] main.asc     recompile whenever the file changes
  asc serve [flags]              run the {Service.name} gRPC service

Flags:
  -format json|yaml|proto|text   output format (default json)
  -config path                   asc.yaml to use (default: nearest one)
  -cache path                    sqlite cache of compiled units
  -listen addr                   serve address (default {Config.defaultListen})
  -explicit                      fmt: parenthesise every operator application
  -v, -version                   print the version
"

def runFormat (stdin : List UInt8) (args : List String) : Run m Unit := do
  match Options.read args with
  | .error fault => fail s!"Error: {fault.message}"
  | .ok o =>
    if o.files.length > 1 then fail "Usage: asc fmt [-explicit] [file]"
    else match ← readSource stdin o.files with
      | .error f => fail s!"Error reading input: {f.message}"
      | .ok (path, source) =>
        let c := parseSource path (Text.decode source)
        match c.errors, c.program with
        | [], some program =>
          let printed := Source.program (if o.explicit then .explicit else .minimal) program
          if printed ≠ "" then printLine printed
        | errors, _ => reportAll (errors.map .diagnostic)

def handleWatched (s : Setting) (path : String) : Run m Unit := do
  match ← readHost path with
  | .error f => note s!"reading {path}: {f.message}"
  | .ok source =>
    match ← compileUnit s path source with
    | .error reports => reportAll reports
    | .ok output =>
      printBytes output
      note s!"compiled {path}"

/-- Start to watch a file and compile it once.  A source that does not compile is no failure here.
-/
def runWatch (cancelled : Bool) (args : List String) : Run m Unit := do
  match ← setUp cancelled args with
  | none => return
  | some plan =>
    match plan.options.files with
    | [file] =>
      if file = Options.standardInput then fail "Usage: asc watch [flags] <file>"
      else
        let directory := Watch.directory (← liftM (Host.workingDirectory : m String)) file
        match ← liftM (Host.absence? directory : m _) with
        | some e => fail s!"Error: {(⟨directory, e⟩ : Watch.Failure).message}"
        | none =>
          handleWatched plan.setting file
          setCode 0
    | _ => fail "Usage: asc watch [flags] <file>"

def runServe (cancelled : Bool) (args : List String) : Run m Unit := do
  match ← setUp cancelled args with
  | none => return
  | some plan =>
    if !plan.options.files.isEmpty then fail "Usage: asc serve [-listen addr] [-cache path]"
    else match Address.ofString plan.listen with
      | .error fault => fail s!"Error: listening on {plan.listen}: {fault.message}"
      | .ok address => note (Service.announcement address.shown)

/-! ## All commands -/

inductive Command where
  | version
  | help
  | format (args : List String)
  | watch (args : List String)
  | serve (args : List String)
  | compile (args : List String)
deriving DecidableEq, Repr

def Command.ofArgs (args : List String) : Command :=
  match args with
  | [] => .compile []
  | first :: rest =>
    if rest.isEmpty && ["-v", "-version", "--version"].contains first then .version
    else if ["-h", "-help", "--help", "help"].contains first then .help
    else match first with
      | "fmt" => .format rest
      | "watch" => .watch rest
      | "serve" => .serve rest
      | _ => .compile args

def Command.run (cancelled : Bool) (stdin : List UInt8) : Command → Run m Unit
  | version => printLine s!"asc {Config.compilerVersion}"
  | help => printBytes (Text.ofString usage).bytes
  | format args => runFormat stdin args
  | watch args => runWatch cancelled args
  | serve args => runServe cancelled args
  | compile args => runCompile cancelled stdin args

/-- The arguments name standard input, or no file at all where one source is read. -/
def readsInput (args : List String) : Bool :=
  let one (args : List String) : Bool := match Options.read args with
    | .ok o => o.files.isEmpty || o.files = [Options.standardInput]
    | .error _ => false
  match Command.ofArgs args with
  | .compile args => one args
  | .format args => one args
  | _ => false

def watchedFile? (args : List String) : Option String :=
  match Command.ofArgs args with
  | .watch args => (Options.read args).toOption.bind fun o => o.files.head?
  | _ => none

/-- Run with the given arguments and standard input.  A run that was cancelled before it starts
opens no cache. -/
def run (cancelled : Bool) (args : List String) (stdin : List UInt8) : m Outcome := do
  let (_, desk) ← (Command.run cancelled stdin (Command.ofArgs args)).run ⟨⟨0, [], []⟩, none⟩
  return desk.outcome

end Cli
end DefTable
