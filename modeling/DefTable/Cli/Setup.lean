import DefTable.Cache.File
import DefTable.Cli.Host
import DefTable.Cli.Options
import DefTable.Cli.Setting
import DefTable.Config

/-!
# Setting up a run

A run has a desk: what it has written so far, and the cache it has opened.  Before anything is
compiled the options are read, the configuration is found and checked, and the cache is opened.
-/

namespace DefTable
namespace Cli

structure Outcome where
  code : Nat
  stdout : List UInt8
  stderr : List UInt8
deriving DecidableEq, Repr, Inhabited

/-- A cache and the file that keeps it; a transient cache has none. -/
structure OpenCache where
  file : Option String
  cache : Cache

structure Desk where
  outcome : Outcome
  cache : Option OpenCache

abbrev Run (m : Type → Type) := StateT Desk m

variable {m : Type → Type} [Monad m] [Host m]

/-! ## Writing -/

def printBytes (bytes : List UInt8) : Run m Unit :=
  modify fun d => { d with outcome := { d.outcome with stdout := d.outcome.stdout ++ bytes } }

def printError (t : Text) : Run m Unit :=
  modify fun d => { d with outcome := { d.outcome with stderr := d.outcome.stderr ++ t.bytes } }

def setCode (code : Nat) : Run m Unit :=
  modify fun d => { d with outcome := { d.outcome with code := code } }

def printLine (s : String) : Run m Unit :=
  printBytes (Text.ofString (s ++ "\n")).bytes

def note (s : String) : Run m Unit :=
  printError (s ++ "\n")

def fail (message : String) : Run m Unit := do
  note message
  setCode 1

def reportAll (rs : List Report) : Run m Unit := do
  printError (rs.flatMap Report.line)
  setCode 1

/-! ## Configuration -/

def readHost (path : String) : Run m (Except FileFailure (List UInt8)) :=
  liftM (Host.read path : m _)

def loadConfig (path : String) : Run m (Except String Config) := do
  match ← readHost path with
  | .error f => return .error s!"reading config {path}: {f.message}"
  | .ok bytes =>
    match Config.read (Text.decode bytes) with
    | .error fault => return .error (fault.message path)
    | .ok c => return .ok (c.located path)

def firstFound : List String → Run m (Option String)
  | [] => return none
  | path :: paths => do
    match ← liftM (Host.absence? path : m _) with
    | none => return some path
    | some _ => firstFound paths

def configPaths (directory : String) : List String :=
  (Path.ancestors directory).flatMap fun d => Config.fileNames.map (Path.join d)

/-- The configuration that the options name, or else the nearest one to the first file. -/
def findConfig (o : Options) : Run m (Except String Config) := do
  if o.config ≠ "" then loadConfig o.config
  else
    let directory := match o.files with
      | [] => "."
      | file :: _ => if file = Options.standardInput then "." else Path.parent file
    let root ← liftM (Host.workingDirectory : m String)
    match ← firstFound (configPaths (Path.absolute root directory)) with
    | none => return .ok Config.default
    | some path => loadConfig path

/-! ## The cache -/

def writeHost (path : String) (bytes : List UInt8) : Run m (Except FileFailure Unit) :=
  liftM (Host.write path bytes : m _)

/-- Open the cache in a file.  A file that is not there is made. -/
def openCache (cancelled : Bool) (path : String) : Run m (Except Cache.OpenFault OpenCache) := do
  if cancelled then return .error .cancelled
  else if path = Cache.transientPath then return .ok ⟨none, .empty⟩
  else
    let content ← readHost path
    match Cache.ofRead content with
    | .error fault => return .error fault
    | .ok store =>
      let opened : OpenCache := ⟨some path, ⟨store, true⟩⟩
      if !Cache.needsFile content then return .ok opened
      else match ← writeHost path store.fileBytes with
        | .ok _ => return .ok opened
        | .error _ => return .error .unopenable

def keepCache (before : OpenCache) (after : Cache) : Run m Unit := do
  modify fun d => { d with cache := some { before with cache := after } }
  match before.file with
  | none => return
  | some path =>
    if after.store ≠ before.cache.store then discard (writeHost path after.store.fileBytes)

/-! ## Setting up -/

structure Plan where
  options : Options
  setting : Setting
  listen : String

def orElse (option configured : String) : String :=
  if option = "" then configured else option

def setUp (cancelled : Bool) (args : List String) : Run m (Option Plan) := do
  match Options.read args with
  | .error fault => fail s!"Error: {fault.message}"; return none
  | .ok o =>
    match ← findConfig o with
    | .error message => fail s!"Error: {message}"; return none
    | .ok c =>
      match c.misfit? Config.compilerVersion with
      | some misfit => fail s!"Error: {misfit.message Config.compilerVersion}"; return none
      | none =>
        match Format.ofName (orElse o.format c.format.name) with
        | .error u => fail s!"Error: {u.message}"; return none
        | .ok format =>
          let plan : Plan := ⟨o, ⟨format, c.builtins⟩, orElse o.listen c.listen⟩
          let path := orElse o.cache c.cache
          if path = "" then return some plan
          else match ← openCache cancelled path with
            | .error fault => fail s!"Error: {fault.message path}"; return none
            | .ok opened =>
              modify fun d => { d with cache := some opened }
              return some plan

end Cli
end DefTable
