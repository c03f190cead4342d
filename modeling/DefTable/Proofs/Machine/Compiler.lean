import DefTable.Compile
import DefTable.Proofs.Machine.Declarations
import DefTable.Proofs.Machine.Emitter
import DefTable.Proofs.Machine.Scanning

/-!
# The compiler always returns

The stages of the compiler, each as the machine that does its work, pass on what is known of one
compilation.  Tokens come from the scanner, so they end with an end mark; programs come from the
parser, so they have no holes; and tables come from lowering, so all of their definitions are of a
known kind.  Hence no stage crashes or goes on forever, whatever the source.
-/

namespace DefTable
namespace Machine

structure Context where
  source : List UInt8
  path : String
  extra : List String
  tokens : Option (List Token)
  program : Option Program
  nodes : Option Nodes
  output : Option (List UInt8)
  errors : List Diagnostic

namespace Context

def start (path : String) (source : List UInt8) (extra : List String) : Context :=
  ⟨source, path, extra, none, none, none, none, []⟩

def failed (c : Context) : Bool :=
  !c.errors.isEmpty

def report (c : Context) (ds : List Diagnostic) : Context :=
  { c with errors := c.errors ++ ds.map (Diagnostic.within c.path) }

/-!
## Stages
-/

def scan (c : Context) : Run Context := do
  let ts ← tokenize c.source
  return { c with tokens := some ts }

def parse (c : Context) : Run Context :=
  match c.tokens with
  | none => return c.report [Parse.Fault.noTokens.diagnostic]
  | some ts => do
      let (decls, faults) ← parseProgram ts
      return { c with program := some ⟨c.path, decls⟩ }.report
        (faults.map Parse.Fault.diagnostic)

def lower (c : Context) : Run Context :=
  match c.program with
  | none => return c
  | some p =>
      if c.failed then return c
      else do
        match ← (lowerProgram p c.extra).run with
        | .ok nodes => return { c with nodes := some nodes }
        | .error e => return c.report [Compilation.loweringDiagnostic e]

def emit (f : Format) (c : Context) : Run Context :=
  match c.nodes with
  | none => return c
  | some nodes =>
      if c.failed then return c
      else do
        match ← Machine.emit f nodes with
        | .ok bytes => return { c with output := some bytes }
        | .error u => return c.report [Compilation.outputDiagnostic f u]

end Context

def compile (format : Option Format) (path : String) (source : List UInt8) (extra : List String) :
    Run Context := do
  let c ← (Context.start path source extra).scan
  let c ← c.parse
  let c ← c.lower
  match format with
  | none => return c
  | some f => c.emit f

/-!
## Each stage
-/

def Context.ofCompilation (source : List UInt8) (c : Compilation) : Context :=
  ⟨source, c.path, c.extra, c.tokens, c.program, c.table.map .ofTable, c.output, c.errors⟩

section

variable {source : List UInt8} {c : Compilation}

theorem scan_returns (h : c.source = Text.decode source) :
    (Context.ofCompilation source c).scan =
      pure (.ofCompilation source (Compilation.Stage.scan.run c)) := by
  unfold Context.scan
  rw [show (Context.ofCompilation source c).source = source from rfl, tokenize_eq, ← h, pure_bind]
  rfl

theorem parse_returns {t : Text} (h : c.tokens = some (Token.scan t)) :
    (Context.ofCompilation source c).parse = pure (.ofCompilation source c.parse) := by
  rcases Token.scan_proper t with ⟨body, q, hscan, hproper⟩
  have hbody : forall u, u ∈ body -> u.kind ≠ .endOfInput :=
    fun u hu => (hproper u hu).ne_endOfInput
  have htokens : (Context.ofCompilation source c).tokens = some (body ++ [Token.endAt q]) := by
    rw [← hscan]
    exact h
  unfold Context.parse Compilation.parse
  rw [htokens, h, hscan]
  dsimp only
  rw [parseProgram_eq hbody rfl, pure_bind]
  rfl

theorem lower_returns (h : forall p, c.program = some p -> p.Whole) :
    (Context.ofCompilation source c).lower = pure (.ofCompilation source c.lower) := by
  unfold Context.lower Compilation.lower
  rw [show (Context.ofCompilation source c).program = c.program from rfl]
  cases hprogram : c.program with
  | none => rfl
  | some p =>
      dsimp only
      by_cases hfailed : c.failed = true
      · rw [if_pos hfailed]
        exact if_pos hfailed
      · rw [if_neg hfailed]
        refine (if_neg hfailed).trans ?_
        have hextra : (Context.ofCompilation source c).extra = c.extra := rfl
        rw [lowerProgram_eq (h p hprogram), hextra]
        cases p.lower c.extra with
        | error e => rfl
        | ok t => rfl

theorem emit_returns (f : Format) :
    (Context.ofCompilation source c).emit f = pure (.ofCompilation source (c.emit f)) := by
  unfold Context.emit Compilation.emit
  rw [show (Context.ofCompilation source c).nodes = c.table.map .ofTable from rfl]
  cases c.table with
  | none => rfl
  | some t =>
      rw [Option.map_some]
      dsimp only
      by_cases hfailed : c.failed = true
      · rw [if_pos hfailed]
        exact if_pos hfailed
      · rw [if_neg hfailed, emit_eq]
        refine (if_neg hfailed).trans ?_
        cases f.emit t with
        | error u => rfl
        | ok bytes => rfl

theorem lower_program (c : Compilation) : c.lower.program = c.program := by
  unfold Compilation.lower
  split
  · rfl
  · split
    · rfl
    · split <;> rfl

theorem emit_program (f : Format) (c : Compilation) : (c.emit f).program = c.program := by
  unfold Compilation.emit
  split
  · rfl
  · split
    · rfl
    · split <;> rfl

end

/-- For all bytes, paths, names and formats the compiler ends without a crash.  It gives what is
known of the compilation of the decoded text, and in its program nothing is missing. -/
theorem compile_returns
    (format : Option Format) (path : String) (source : List UInt8) (extra : List String) :
    exists c p, compile format path source extra = pure c ∧
      c = .ofCompilation source (DefTable.compile format path (Text.decode source) extra) ∧
      c.program = some p ∧ p.Whole := by
  let started := Compilation.start path (Text.decode source) extra
  let scanned := Compilation.Stage.scan.run started
  let read := Parse.outcomes (Token.scan (Text.decode source))
  have hwhole : Program.Whole ⟨path, Parse.decls read⟩ := Grammar.program_whole _ _
  have hprogram : scanned.parse.program = some ⟨path, Parse.decls read⟩ := rfl
  have hscan : (Context.start path source extra).scan = pure (.ofCompilation source scanned) :=
    scan_returns (show started.source = Text.decode source from rfl)
  have htokens : scanned.tokens = some (Token.scan (Text.decode source)) := rfl
  have hparse : (Context.ofCompilation source scanned).parse =
      pure (.ofCompilation source scanned.parse) := parse_returns htokens
  have hlower : (Context.ofCompilation source scanned.parse).lower =
      pure (.ofCompilation source scanned.parse.lower) := by
    refine lower_returns fun p hp => ?_
    rw [hprogram] at hp
    exact Option.some.inj hp ▸ hwhole
  unfold compile
  rw [hscan, pure_bind, hparse, pure_bind, hlower, pure_bind]
  cases format with
  | none =>
      refine ⟨_, _, rfl, rfl, ?_, hwhole⟩
      exact (lower_program scanned.parse).trans hprogram
  | some f =>
      refine ⟨_, _, emit_returns f, rfl, ?_, hwhole⟩
      exact (emit_program f _).trans ((lower_program scanned.parse).trans hprogram)

end Machine
end DefTable
