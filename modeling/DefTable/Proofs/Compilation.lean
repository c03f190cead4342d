import DefTable.Cli.Setting
import DefTable.Proofs.Lowering.NameSets
import DefTable.Proofs.Lowering.Regular

/-!
# Outcomes of a compilation

A source compiles exactly if all of it can be read, its program can be lowered and the table can be
written.  The table depends on the source and on the set of names known besides the builtins, and on
nothing else.
-/

namespace DefTable

def readings (source : List UInt8) : List (Except Parse.Fault Decl) :=
  Parse.outcomes (Token.scan (Text.decode source))

/-- The table that a source stands for among the given names. -/
structure Compiles (source : List UInt8) (names : List String) (t : Table) : Prop where
  faultless : Parse.faults (readings source) = []
  lowered : (⟨"", Parse.decls (readings source)⟩ : Program).lower names = .ok t

theorem Compiles.unique
    {source : List UInt8} {names names' : List String} {t t' : Table}
    (h : Compiles source names t) (h' : Compiles source names' t')
    (hsame : forall name, name ∈ names <-> name ∈ names') : t = t' := by
  have hlower := h.lowered
  rw [Program.lower_congr _ hsame, h'.lowered] at hlower
  exact (Except.ok.inj hlower).symm

theorem Compiles.congr
    {source : List UInt8} {names names' : List String} {t : Table}
    (h : Compiles source names t) (hsame : forall name, name ∈ names <-> name ∈ names') :
    Compiles source names' t where
  faultless := h.faultless
  lowered := by rw [← Program.lower_congr _ hsame, h.lowered]

theorem Compiles.regular
    {source : List UInt8} {names : List String} {t : Table} (h : Compiles source names t) :
    t.Regular Wire.nestingLimit :=
  @Lowering.regular_of_lower "" (Text.decode source) names _ t rfl h.lowered

/-!
## Stages
-/

namespace Compilation

theorem lower_of_failed {c : Compilation} (h : c.failed = true) : c.lower = c := by
  unfold lower
  cases c.program with
  | none => rfl
  | some p => exact if_pos h

theorem emit_of_failed {c : Compilation} (f : Format) (h : c.failed = true) : c.emit f = c := by
  unfold emit
  cases c.table with
  | none => rfl
  | some t => exact if_pos h

def read (path : String) (source : List UInt8) (names : List String) : Compilation :=
  (start path (Text.decode source) names).run parseStages

theorem compile_eq (f : Format) (path : String) (source : List UInt8) (names : List String) :
    compile (some f) path (Text.decode source) names = (read path source names).lower.emit f :=
  rfl

theorem errors_read (path : String) (source : List UInt8) (names : List String) :
    (read path source names).errors =
      ((Parse.faults (readings source)).map Parse.Fault.diagnostic).map
        (Diagnostic.within path) :=
  rfl

theorem failed_read_iff (path : String) (source : List UInt8) (names : List String) :
    (read path source names).failed = false <-> Parse.faults (readings source) = [] := by
  unfold failed
  rw [errors_read, Bool.not_eq_false', List.isEmpty_iff, List.map_eq_nil_iff,
    List.map_eq_nil_iff]

theorem failed_report (c : Compilation) (d : Diagnostic) : (c.report [d]).failed = true := by
  simp [failed, report]

theorem lower_read
    {path : String} {source : List UInt8} {names : List String}
    (hfaultless : (read path source names).failed = false) :
    (read path source names).lower =
      match (⟨"", Parse.decls (readings source)⟩ : Program).lower names with
      | .ok t => { read path source names with table := some t }
      | .error e => (read path source names).report [loweringDiagnostic e] := by
  unfold lower
  rw [show (read path source names).program = some ⟨path, Parse.decls (readings source)⟩ from rfl,
    hfaultless]
  rfl

theorem lower_read_of_error
    {path : String} {source : List UInt8} {names : List String} {e : Lowering.Error}
    (h : (⟨"", Parse.decls (readings source)⟩ : Program).lower names = .error e)
    (hfaultless : (read path source names).failed = false) :
    (read path source names).lower = (read path source names).report [loweringDiagnostic e] := by
  rw [lower_read hfaultless, h]

theorem lower_read_of_ok
    {path : String} {source : List UInt8} {names : List String} {t : Table}
    (h : Compiles source names t) :
    (read path source names).lower = { read path source names with table := some t } := by
  rw [lower_read ((failed_read_iff path source names).mpr h.faultless), h.lowered]

theorem lower_read_gives_iff
    {path : String} {source : List UInt8} {names : List String} {t : Table} :
    ((read path source names).lower.errors = [] ∧ (read path source names).lower.table = some t) <->
      Compiles source names t := by
  constructor
  · rintro ⟨herrors, htable⟩
    cases hread : (read path source names).failed with
    | true =>
        rw [lower_of_failed hread] at htable
        cases htable
    | false =>
        have hfaultless := (failed_read_iff path source names).mp hread
        cases hlower : (⟨"", Parse.decls (readings source)⟩ : Program).lower names with
        | error e =>
            have hfailed := failed_report (read path source names) (loweringDiagnostic e)
            rw [lower_read_of_error hlower hread] at herrors
            rw [failed, herrors] at hfailed
            cases hfailed
        | ok t' =>
            have hcompiles : Compiles source names t' := ⟨hfaultless, hlower⟩
            rw [lower_read_of_ok hcompiles] at htable
            cases htable
            exact hcompiles
  · intro h
    rw [lower_read_of_ok h]
    refine ⟨?_, rfl⟩
    change (read path source names).errors = []
    rw [errors_read, h.faultless]
    rfl

theorem emit_of_table
    {c : Compilation} {t : Table} (hfailed : c.failed = false) (htable : c.table = some t)
    (f : Format) :
    c.emit f =
      match f.emit t with
      | .ok out => { c with output := some out }
      | .error u => c.report [outputDiagnostic f u] := by
  unfold emit
  rw [htable, hfailed]
  rfl

theorem emit_of_ok
    {c : Compilation} {f : Format} {t : Table} {out : List UInt8}
    (hfailed : c.failed = false) (htable : c.table = some t) (hemit : f.emit t = .ok out) :
    c.emit f = { c with output := some out } := by
  rw [emit_of_table hfailed htable, hemit]

theorem emit_of_error
    {c : Compilation} {f : Format} {t : Table} {u : Json.Unwritable}
    (hfailed : c.failed = false) (htable : c.table = some t) (hemit : f.emit t = .error u) :
    c.emit f = c.report [outputDiagnostic f u] := by
  rw [emit_of_table hfailed htable, hemit]

end Compilation

namespace Cli

open Compilation

def result (c : Compilation) : Except (List Report) (Table × List UInt8) :=
  match c.errors, c.table, c.output with
  | [], some table, some output => .ok (table, output)
  | errors, _, _ => .error (errors.map .diagnostic)

theorem result_of_failed {c : Compilation} (h : c.failed = true) :
    result c = .error (c.errors.map .diagnostic) := by
  unfold result
  split
  · rename_i herrors _ _
    rw [failed, herrors] at h
    cases h
  · rfl

theorem Setting.compile_eq (s : Setting) (path : String) (source : List UInt8) :
    s.compile path source = result ((read path source s.builtins).lower.emit s.format) :=
  rfl

theorem Setting.compile_of_compiles
    {s : Setting} {path : String} {source : List UInt8} {t : Table} {out : List UInt8}
    (h : Compiles source s.builtins t) (hemit : s.format.emit t = .ok out) :
    s.compile path source = .ok (t, out) := by
  have herrors : (read path source s.builtins).errors = [] := by
    rw [errors_read, h.faultless]
    rfl
  rw [Setting.compile_eq, lower_read_of_ok h, emit_of_ok ?_ rfl hemit]
  · unfold result
    rw [herrors]
  · exact (failed_read_iff path source s.builtins).mpr h.faultless

theorem Setting.compiles_of_compile
    {s : Setting} {path : String} {source : List UInt8} {t : Table} {out : List UInt8}
    (h : s.compile path source = .ok (t, out)) :
    Compiles source s.builtins t ∧ s.format.emit t = .ok out := by
  rw [Setting.compile_eq] at h
  cases hread : (read path source s.builtins).failed with
  | true =>
      rw [lower_of_failed hread, emit_of_failed _ hread, result_of_failed hread] at h
      cases h
  | false =>
      have hfaultless := (failed_read_iff path source s.builtins).mp hread
      cases hlower : (⟨"", Parse.decls (readings source)⟩ : Program).lower s.builtins with
      | error e =>
          have hfailed := failed_report (read path source s.builtins) (loweringDiagnostic e)
          rw [lower_read_of_error hlower hread, emit_of_failed _ hfailed,
            result_of_failed hfailed] at h
          cases h
      | ok t' =>
          have hcompiles : Compiles source s.builtins t' := ⟨hfaultless, hlower⟩
          cases hemit : s.format.emit t' with
          | error u =>
              rw [lower_read_of_ok hcompiles, emit_of_error ?_ rfl hemit,
                result_of_failed (failed_report _ _)] at h
              · cases h
              · exact hread
          | ok out' =>
              have hresult := @Setting.compile_of_compiles _ path _ _ _ hcompiles hemit
              rw [Setting.compile_eq, h] at hresult
              cases hresult
              exact ⟨hcompiles, hemit⟩

theorem Setting.diagnostics_of_compile
    {s : Setting} {path : String} {source : List UInt8} {reports : List Report}
    (h : s.compile path source = .error reports) :
    forall r, r ∈ reports -> r.isDiagnostic = true := by
  rw [Setting.compile_eq] at h
  unfold result at h
  split at h
  · cases h
  · cases h
    intro r hr
    rcases List.mem_map.mp hr with ⟨d, _, rfl⟩
    rfl

end Cli
end DefTable
