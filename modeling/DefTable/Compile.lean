import DefTable.Expr.Source
import DefTable.Format
import DefTable.Lowering
import DefTable.Program.Parse
import DefTable.Token.Scan

/-!
# Compiling a source text

A compilation passes through stages that each add to what is known: tokens, the program, its table,
the output.  Scanning and parsing always run, so that every fault of the source is reported;
lowering and writing are left out once something was reported.
-/

namespace DefTable

/-- What is known of one compilation. -/
structure Compilation where
  source : Text
  path : String
  extra : List String
  tokens : Option (List Token)
  program : Option Program
  table : Option Table
  output : Option (List UInt8)
  errors : List Diagnostic
deriving Inhabited

namespace Compilation

def start (path : String) (source : Text) (extra : List String) : Compilation where
  source := source
  path := path
  extra := extra
  tokens := none
  program := none
  table := none
  output := none
  errors := []

def failed (c : Compilation) : Bool :=
  !c.errors.isEmpty

def report (c : Compilation) (ds : List Diagnostic) : Compilation :=
  { c with errors := c.errors ++ ds.map (Diagnostic.within c.path) }

/-! ## Stages -/

inductive Stage where
  | scan
  | parse
  | lower
  | emit (format : Format)
  | fail (message : Text)
deriving DecidableEq, Repr

def loweringDiagnostic (e : Lowering.Error) : Diagnostic :=
  let (code, message) : Diagnostic.Code × String := match e with
    | .name (.duplicate name) _ => (.duplicateName, name ++ " is already defined in this scope")
    | .name (.unresolved name) _ => (.unresolvedName, name ++ " is not defined")
    | .hole => (.otherLowering, e.cause)
  ⟨code, e.token, message, ""⟩

def outputDiagnostic (f : Format) (u : Json.Unwritable) : Diagnostic :=
  ⟨.output, .absent, s!"encoding {f.name} output: {u.message}", ""⟩

def parse (c : Compilation) : Compilation :=
  match c.tokens with
  | none => c.report [Parse.Fault.noTokens.diagnostic]
  | some ts =>
    let outcomes := Parse.outcomes ts
    { c with program := some ⟨c.path, Parse.decls outcomes⟩ }.report
      ((Parse.faults outcomes).map Parse.Fault.diagnostic)

def lower (c : Compilation) : Compilation :=
  match c.program with
  | none => c
  | some p =>
    if c.failed then c
    else match p.lower c.extra with
      | .ok table => { c with table := some table }
      | .error e => c.report [loweringDiagnostic e]

def emit (f : Format) (c : Compilation) : Compilation :=
  match c.table with
  | none => c
  | some table =>
    if c.failed then c
    else match f.emit table with
      | .ok bytes => { c with output := some bytes }
      | .error u => c.report [outputDiagnostic f u]

def Stage.run : Stage → Compilation → Compilation
  | scan, c => { c with tokens := some (Token.scan c.source) }
  | parse, c => c.parse
  | lower, c => c.lower
  | emit f, c => c.emit f
  | fail message, c => c.report [⟨.output, .absent, message, ""⟩]

def run (stages : List Stage) (c : Compilation) : Compilation :=
  stages.foldl (fun c stage => stage.run c) c

def parseStages : List Stage := [.scan, .parse]

/-- The stages that compile to a table and, with a format, write it. -/
def stages (format : Option Format) : List Stage :=
  parseStages ++ [.lower] ++ (format.map Stage.emit).toList

end Compilation

def parseSource (path : String) (source : Text) : Compilation :=
  (Compilation.start path source []).run Compilation.parseStages

/-- Compile a source text. -/
def compile (format : Option Format) (path : String) (source : Text) (extra : List String) :
    Compilation :=
  (Compilation.start path source extra).run (Compilation.stages format)

end DefTable
