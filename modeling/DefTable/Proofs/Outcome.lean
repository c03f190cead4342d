import DefTable.Proofs.Compilation
import DefTable.Proofs.Grammar.Whole
import DefTable.Proofs.Lowering.Numbers
import DefTable.Proofs.Lowering.Scoping
import DefTable.Proofs.Table.Json

/-!
# How a compilation ends

A compilation ends in one of four ways, which differ in the codes of its errors: with a table and
what was written of it, with the faults of the text, with one error about a name, or with a table
that cannot be written.  The last happens for JSON and tables with an infinite number, and for
nothing else.
-/

namespace DefTable

/-!
## Codes
-/

def Diagnostic.Code.letter? (code : Diagnostic.Code) : Option Char :=
  code.label.toList.head?

theorem Diagnostic.code_within (path : String) (d : Diagnostic) : (d.within path).code = d.code := by
  unfold within
  split <;> rfl

namespace Parse

def Fault.codes : List Diagnostic.Code :=
  [.unexpectedToken, .malformedLiteral, .illegalCharacter, .unterminated, .missingTerminator]

theorem Fault.code_mem (f : Fault) : f.code ∈ codes := by
  unfold Fault.code
  split
  · exact List.mem_of_elem_eq_true rfl
  · exact List.mem_of_elem_eq_true rfl
  · split
    · exact List.mem_of_elem_eq_true rfl
    · split
      · exact List.mem_of_elem_eq_true rfl
      · exact List.mem_of_elem_eq_true rfl
  · exact List.mem_of_elem_eq_true rfl

theorem Fault.letter_code (f : Fault) : f.code.letter? = some 'P' := by
  have hletter : forall code, code ∈ codes -> code.letter? = some 'P' := by decide +kernel
  exact hletter _ f.code_mem

end Parse

namespace Lowering

def Error.isName : Error -> Bool
  | .name _ _ => true
  | .hole => false

theorem isName_unbound (bound : List String) (i : Ident) :
    forall v, v ∈ unbound bound i -> v.isName = true := by
  unfold unbound
  split
  · exact fun v hv => absurd hv List.not_mem_nil
  · exact List.forall_mem_singleton.mpr rfl

theorem isName_repeats (taken : List String) (idents : List Ident) :
    forall v, v ∈ repeats taken idents -> v.isName = true := by
  induction idents generalizing taken with
  | nil => exact fun v hv => absurd hv List.not_mem_nil
  | cons i rest ih =>
      rw [repeats]
      split
      · exact List.forall_mem_cons.mpr ⟨rfl, ih taken⟩
      · exact ih _

mutual

theorem isName_violations (bound : List String) :
    forall e : Expr, e.Whole -> forall v, v ∈ violations bound e -> v.isName = true
  | .hole, hwhole => hwhole.elim
  | .ident i, _ => isName_unbound bound i
  | .number _ _, _ => fun _ hv => absurd hv List.not_mem_nil
  | .string _ _, _ => fun _ hv => absurd hv List.not_mem_nil
  | .bool _ _, _ => fun _ hv => absurd hv List.not_mem_nil
  | .null _, _ => fun _ hv => absurd hv List.not_mem_nil
  | .group _ e, hwhole => isName_violations bound e hwhole
  | .letIn _ name params value body, hwhole => by
      rw [violations, List.forall_mem_append, List.forall_mem_append]
      refine ⟨⟨isName_repeats _ _, ?_⟩, ?_⟩
      · exact isName_violations _ value hwhole.1
      · exact isName_violations _ body hwhole.2
  | .binary _ left .apply right, hwhole => by
      rw [violations, List.forall_mem_append]
      exact ⟨isName_violations _ left hwhole.1, isName_violations _ right hwhole.2⟩
  | .binary _ left (.named op) right, hwhole => by
      rw [violations, List.forall_mem_append, List.forall_mem_append]
      refine ⟨⟨isName_unbound _ op, ?_⟩, ?_⟩
      · exact isName_violations _ left hwhole.1
      · exact isName_violations _ right hwhole.2
  | .list _ es, hwhole => isName_violationsOfAll bound es hwhole
  | .cond _ test yes no, hwhole => by
      rw [violations, List.forall_mem_append, List.forall_mem_append]
      refine ⟨⟨?_, ?_⟩, ?_⟩
      · exact isName_violations _ test hwhole.1
      · exact isName_violations _ yes hwhole.2.1
      · exact isName_violations _ no hwhole.2.2
  | .lambda _ params body, hwhole => by
      rw [violations, List.forall_mem_append]
      exact ⟨isName_repeats _ _, isName_violations _ body hwhole⟩

theorem isName_violationsOfAll (bound : List String) :
    forall es : List Expr, Expr.AllWhole es ->
      forall v, v ∈ violationsOfAll bound es -> v.isName = true
  | [], _ => fun _ hv => absurd hv List.not_mem_nil
  | e :: es, hwhole => by
      rw [violationsOfAll, List.forall_mem_append]
      exact ⟨isName_violations bound e hwhole.1, isName_violationsOfAll bound es hwhole.2⟩

end

theorem isName_of_lower
    {p : Program} {extra : List String} {e : Error} (hwhole : p.Whole)
    (h : p.lower extra = .error e) : e.isName = true := by
  have hnames : forall v, v ∈ programViolations (Builtin.names ++ extra) p -> v.isName = true := by
    rw [programViolations, List.forall_mem_append]
    refine ⟨isName_repeats _ _, ?_⟩
    intro v hv
    rcases List.mem_flatMap.mp hv with ⟨d, hd, hviolation⟩
    rcases List.mem_append.mp hviolation with hrepeat | hbody
    · exact isName_repeats _ _ v hrepeat
    · exact isName_violations _ d.body (hwhole d hd) v hbody
  have hreports := lower_reports p extra
  cases hviolations : programViolations (Builtin.names ++ extra) p with
  | nil =>
      rcases hreports.passes hviolations with ⟨t, ht, _⟩
      rw [h] at ht
      cases ht
  | cons v rest =>
      rw [hviolations] at hreports hnames
      have hfails := hreports.fails v rfl
      rw [h] at hfails
      rw [Except.error.inj hfails]
      exact hnames v List.mem_cons_self

end Lowering

/-!
## What can be written
-/

theorem Format.emit_isOk_eq_false_iff (f : Format) (t : Table) :
    (f.emit t).isOk = false <-> f = .json ∧ t.isFinite = false := by
  constructor
  · intro h
    cases hfinite : t.isFinite with
    | true =>
        rw [f.emit_isOk_of_finite hfinite] at h
        cases h
    | false =>
        cases f with
        | json => exact ⟨rfl, rfl⟩
        | yaml => cases h
        | proto => cases h
        | text => cases h
  · rintro ⟨rfl, hfinite⟩
    rw [← Json.all_isOk_write_ofEntries, ← Json.isOk_writeMap, ← Table.toData] at hfinite
    rw [emit]
    cases hwrite : Json.write t.toData with
    | error u => rfl
    | ok s =>
        rw [hwrite] at hfinite
        cases hfinite

theorem Compiles.isFinite_eq_false_iff
    {source : List UInt8} {names : List String} {t : Table} (h : Compiles source names t) :
    t.isFinite = false <-> exists x, x ∈ t.numbers ∧ x.isInfinite = true :=
  Table.isFinite_eq_false_iff
    (@Lowering.isUndefined_of_lower "" (Text.decode source) names _ t rfl h.lowered)

/-!
## Endings
-/

/-- The ways in which a compilation can end. -/
inductive Ending where
  | compiled
  | unreadable
  | misnamed
  | unwritable
deriving DecidableEq, Repr

namespace Compilation

def Writes (format : Option Format) (t : Table) (output : Option (List UInt8)) : Prop :=
  output.map Except.ok = format.map fun f => f.emit t

/-- What a compilation shows in the end. -/
def Ends (format : Option Format) (c : Compilation) : Ending -> Prop
  | .compiled => c.errors = [] ∧ exists t, c.table = some t ∧ Writes format t c.output
  | .unreadable =>
      c.errors ≠ [] ∧ (forall d, d ∈ c.errors -> d.code.letter? = some 'P') ∧
        c.table = none ∧ c.output = none
  | .misnamed =>
      (exists d, c.errors = [d] ∧ (d.code = .duplicateName ∨ d.code = .unresolvedName)) ∧
        c.table = none ∧ c.output = none
  | .unwritable =>
      (exists d, c.errors = [d] ∧ d.code = .output) ∧ (exists t, c.table = some t) ∧
        c.output = none

def letter? (c : Compilation) : Option Char :=
  c.errors.head?.bind fun d => d.code.letter?

end Compilation

def Ending.letter? : Ending -> Option Char
  | compiled => none
  | unreadable => some 'P'
  | misnamed => some 'C'
  | unwritable => some 'D'

theorem Ending.letter_injective {e e' : Ending} (h : e.letter? = e'.letter?) : e = e' := by
  revert h
  cases e <;> cases e' <;> decide

namespace Compilation

theorem Ends.letter_eq {format : Option Format} {c : Compilation} {e : Ending}
    (h : c.Ends format e) : c.letter? = e.letter? := by
  unfold letter?
  cases e with
  | compiled =>
      rw [h.1]
      rfl
  | unreadable =>
      rcases h with ⟨hne, hcodes, _⟩
      cases herrors : c.errors with
      | nil => exact absurd herrors hne
      | cons d rest => exact hcodes d (herrors ▸ List.mem_cons_self)
  | misnamed =>
      rcases h with ⟨⟨d, herrors, hcode⟩, _⟩
      rw [herrors, List.head?_cons, Option.bind_some]
      rcases hcode with hcode | hcode
      · rw [hcode]
        decide +kernel
      · rw [hcode]
        decide +kernel
  | unwritable =>
      rcases h with ⟨⟨d, herrors, hcode⟩, _⟩
      rw [herrors, List.head?_cons, Option.bind_some, hcode]
      decide +kernel

theorem Ends.unique {format : Option Format} {c : Compilation} {e e' : Ending}
    (h : c.Ends format e) (h' : c.Ends format e') : e = e' :=
  Ending.letter_injective (h.letter_eq.symm.trans h'.letter_eq)

theorem Ends.code_ne {format : Option Format} {c : Compilation} {e : Ending}
    (h : c.Ends format e) : forall d, d ∈ c.errors -> d.code ≠ .otherLowering := by
  intro d hd hcode
  cases e with
  | compiled =>
      rw [h.1] at hd
      exact absurd hd List.not_mem_nil
  | unreadable =>
      have hletter := h.2.1 d hd
      rw [hcode] at hletter
      exact absurd hletter (by decide +kernel)
  | misnamed =>
      rcases h with ⟨⟨d', herrors, hcodes⟩, _⟩
      rw [herrors, List.mem_singleton] at hd
      rw [← hd, hcode] at hcodes
      rcases hcodes with hdup | hunresolved
      · cases hdup
      · cases hunresolved
  | unwritable =>
      rcases h with ⟨⟨d', herrors, hcode'⟩, _⟩
      rw [herrors, List.mem_singleton] at hd
      rw [← hd, hcode] at hcode'
      cases hcode'

/-!
## Which ending it is
-/

section

variable {format : Option Format} {path : String} {source : List UInt8} {names : List String}

theorem compile_of_failed (h : (read path source names).lower.failed = true) :
    compile format path (Text.decode source) names = (read path source names).lower := by
  cases format with
  | none => rfl
  | some f => exact emit_of_failed f h

theorem ends_of_faults (h : Parse.faults (readings source) ≠ []) :
    (compile format path (Text.decode source) names).Ends format .unreadable := by
  have hfailed : (read path source names).failed = true := by
    rw [← Bool.not_eq_false, failed_read_iff]
    exact h
  have hlower := lower_of_failed hfailed
  rw [compile_of_failed (hlower.symm ▸ hfailed), hlower]
  refine ⟨?_, ?_, rfl, rfl⟩
  · intro herrors
    rw [failed, herrors] at hfailed
    cases hfailed
  · intro d hd
    rw [errors_read] at hd
    rcases List.mem_map.mp hd with ⟨d', hd', rfl⟩
    rcases List.mem_map.mp hd' with ⟨fault, _, rfl⟩
    rw [Diagnostic.code_within]
    exact fault.letter_code

theorem errors_read_of_faultless (h : Parse.faults (readings source) = []) :
    (read path source names).errors = [] := by
  rw [errors_read, h]
  rfl

theorem ends_of_lower_error
    {e : Lowering.Error} (hfaultless : Parse.faults (readings source) = [])
    (hlower : (⟨"", Parse.decls (readings source)⟩ : Program).lower names = .error e) :
    (compile format path (Text.decode source) names).Ends format .misnamed := by
  have hread := (failed_read_iff path source names).mpr hfaultless
  have hreport := lower_read_of_error hlower hread
  rw [compile_of_failed (hreport.symm ▸ failed_report _ _), hreport]
  refine ⟨⟨(loweringDiagnostic e).within path, ?_, ?_⟩, rfl, rfl⟩
  · change (read path source names).errors ++ _ = _
    rw [errors_read_of_faultless hfaultless]
    rfl
  · rw [Diagnostic.code_within]
    have hname := Lowering.isName_of_lower (Grammar.program_whole "" _) hlower
    cases e with
    | hole => cases hname
    | name cause token =>
        cases cause with
        | duplicate name => exact .inl rfl
        | unresolved name => exact .inr rfl

theorem ends_of_written
    (path : String) {t : Table} (h : Compiles source names t)
    (hwrites : forall f, format = some f -> (f.emit t).isOk = true) :
    (compile format path (Text.decode source) names).Ends format .compiled ∧
      (compile format path (Text.decode source) names).table = some t := by
  have herrors : (read path source names).errors = [] := errors_read_of_faultless h.faultless
  cases format with
  | none =>
      have hcompile : compile none path (Text.decode source) names =
          (read path source names).lower := rfl
      rw [hcompile, lower_read_of_ok h]
      exact ⟨⟨herrors, t, rfl, rfl⟩, rfl⟩
  | some f =>
      cases hemit : f.emit t with
      | error u =>
          have hok := hwrites f rfl
          rw [hemit] at hok
          cases hok
      | ok out =>
          rw [compile_eq, lower_read_of_ok h, emit_of_ok ?_ rfl hemit]
          · exact ⟨⟨herrors, t, rfl, congrArg some hemit.symm⟩, rfl⟩
          · exact (failed_read_iff path source names).mpr h.faultless

theorem ends_of_unwritten
    (path : String) {f : Format} {t : Table} (h : Compiles source names t)
    (hfails : (f.emit t).isOk = false) :
    (compile (some f) path (Text.decode source) names).Ends (some f) .unwritable ∧
      (compile (some f) path (Text.decode source) names).table = some t := by
  cases hemit : f.emit t with
  | ok out =>
      rw [hemit] at hfails
      cases hfails
  | error u =>
      rw [compile_eq, lower_read_of_ok h, emit_of_error ?_ rfl hemit]
      · refine ⟨⟨⟨(outputDiagnostic f u).within path, ?_, ?_⟩, ⟨t, rfl⟩, rfl⟩, rfl⟩
        · change (read path source names).errors ++ _ = _
          rw [errors_read_of_faultless h.faultless]
          rfl
        · rw [Diagnostic.code_within]
          rfl
      · exact (failed_read_iff path source names).mpr h.faultless

/-- The four cases of a compilation: faults of the text, an error about a name, a table that was
written if a format was given, and a table that could not be written. -/
theorem compile_cases (format : Option Format) (path : String) (source : List UInt8)
    (names : List String) :
    let c := compile format path (Text.decode source) names
    (c.Ends format .unreadable ∧ c.table = none) ∨
      (c.Ends format .misnamed ∧ c.table = none) ∨
      (exists t, Compiles source names t ∧ c.table = some t ∧ c.Ends format .compiled ∧
        forall f, format = some f -> (f.emit t).isOk = true) ∨
      exists f t, format = some f ∧ Compiles source names t ∧ c.table = some t ∧
        c.Ends format .unwritable ∧ (f.emit t).isOk = false := by
  dsimp only
  by_cases hfaultless : Parse.faults (readings source) = []
  · cases hlower : (⟨"", Parse.decls (readings source)⟩ : Program).lower names with
    | error e =>
        have hends : (compile format path (Text.decode source) names).Ends format .misnamed :=
          ends_of_lower_error hfaultless hlower
        exact .inr (.inl ⟨hends, hends.2.1⟩)
    | ok t =>
        have h : Compiles source names t := ⟨hfaultless, hlower⟩
        by_cases hwrites : forall f, format = some f -> (f.emit t).isOk = true
        · have hends := ends_of_written path h hwrites
          exact .inr (.inr (.inl ⟨t, h, hends.2, hends.1, hwrites⟩))
        · push Not at hwrites
          rcases hwrites with ⟨f, rfl, hfails⟩
          have hfails := Bool.eq_false_of_not_eq_true hfails
          have hends := ends_of_unwritten path h hfails
          exact .inr (.inr (.inr ⟨f, t, rfl, h, hends.2, hends.1, hfails⟩))
  · have hends : (compile format path (Text.decode source) names).Ends format .unreadable :=
      ends_of_faults hfaultless
    exact .inl ⟨hends, hends.2.2.1⟩

theorem ends_unwritable_iff (format : Option Format) (path : String) (source : List UInt8)
    (names : List String) :
    let c := compile format path (Text.decode source) names
    c.Ends format .unwritable <-> format = some .json ∧
      exists t, c.table = some t ∧ exists x, x ∈ t.numbers ∧ x.isInfinite = true := by
  have hcases := compile_cases format path source names
  dsimp only at hcases ⊢
  generalize compile format path (Text.decode source) names = c at hcases ⊢
  constructor
  · intro h
    rcases hcases with ⟨hends, _⟩ | ⟨hends, _⟩ | ⟨_, _, _, hends, _⟩ |
        ⟨f, t, rfl, hcompiles, htable, _, hfails⟩
    · cases h.unique hends
    · cases h.unique hends
    · cases h.unique hends
    · rcases (f.emit_isOk_eq_false_iff t).mp hfails with ⟨rfl, hfinite⟩
      exact ⟨rfl, t, htable, hcompiles.isFinite_eq_false_iff.mp hfinite⟩
  · rintro ⟨rfl, t, ht, hinfinite⟩
    rcases hcases with ⟨_, htable⟩ | ⟨_, htable⟩ | ⟨t', hcompiles, htable, _, hwrites⟩ |
        ⟨_, _, _, _, _, hends, _⟩
    · cases htable.symm.trans ht
    · cases htable.symm.trans ht
    · cases htable.symm.trans ht
      have hfails := (Format.emit_isOk_eq_false_iff .json t).mpr
        ⟨rfl, hcompiles.isFinite_eq_false_iff.mpr hinfinite⟩
      rw [hwrites .json rfl] at hfails
      cases hfails
    · exact hends

theorem exists_ends (format : Option Format) (path : String) (source : List UInt8)
    (names : List String) :
    exists ending, (compile format path (Text.decode source) names).Ends format ending := by
  rcases compile_cases format path source names with
    ⟨hends, _⟩ | ⟨hends, _⟩ | ⟨_, _, _, hends, _⟩ | ⟨_, _, _, _, _, hends, _⟩
  · exact ⟨_, hends⟩
  · exact ⟨_, hends⟩
  · exact ⟨_, hends⟩
  · exact ⟨_, hends⟩

end

end Compilation

/-- Every compilation ends in one of the four ways and in no other.  The table cannot be written if
and only if it has an infinite number and has to be written as JSON.  No error of lowering is left
over besides those about names. -/
theorem compile_ends (format : Option Format) (path : String) (source : List UInt8)
    (names : List String) :
    let c := compile format path (Text.decode source) names
    (∃! ending, c.Ends format ending) ∧
      (c.Ends format .unwritable <-> format = some .json ∧
        exists t, c.table = some t ∧ exists x, x ∈ t.numbers ∧ x.isInfinite = true) ∧
      forall d, d ∈ c.errors -> d.code ≠ .otherLowering := by
  rcases Compilation.exists_ends format path source names with ⟨ending, hends⟩
  refine ⟨?_, Compilation.ends_unwritable_iff format path source names, hends.code_ne⟩
  exact ⟨ending, hends, fun _ hends' => hends'.unique hends⟩

example :
    (compile (some .json) "" (Text.ofString "x = 1e999;") []).letter? = some 'D' ∧
      (compile (some .yaml) "" (Text.ofString "x = 1e999;") []).letter? = none := by
  decide +kernel

end DefTable
