import DefTable.Proofs.Expr.Reprinted
import DefTable.Proofs.Formatting
import DefTable.Proofs.Grammar.Resolved

/-!
# Formatting a program twice

The text of a formatted program is read as the program with its added parentheses, and printing that
gives the same text: formatting once is enough.  Since a program that was read has all applications
ordered, no parentheses are added around an application.
-/

namespace DefTable
namespace Source

/-!
## Texts of programs
-/

theorem decl_erased (style : Style) (d : Decl) : decl style d.erased = decl style d := by
  unfold decl print
  rw [Decl.erased, header_erased, expr_erased]

theorem decl_written (d : Decl) : decl .minimal (writtenDecl .minimal d) = decl .minimal d := by
  unfold decl print
  rw [writtenDecl, header_erased, expr_written]

theorem program_of_written
    {p q : Program} (h : q.decls.map Decl.erased = p.decls.map (writtenDecl .minimal)) :
    program .minimal q = program .minimal p := by
  have hlines : q.decls.map (fun d => decl .minimal d ++ ";") =
      p.decls.map fun d => decl .minimal d ++ ";" := by
    calc q.decls.map (fun d => decl .minimal d ++ ";")
      _ = (q.decls.map Decl.erased).map fun d => decl .minimal d ++ ";" := by
        rw [List.map_map]
        exact List.map_congr_left fun d _ => congrArg (· ++ ";") (decl_erased .minimal d).symm
      _ = p.decls.map fun d => decl .minimal d ++ ";" := by
        rw [h, List.map_map]
        exact List.map_congr_left fun d _ => congrArg (· ++ ";") (decl_written d)
  rw [program, program, hlines]

/-!
## Reading what was printed
-/

/-- The text is read without diagnostics, and what was read is printed as `printed`. -/
def Reprints (path text printed : String) : Prop :=
  (parseSource path (Text.ofString text)).errors = [] ∧
    exists q, (parseSource path (Text.ofString text)).program = some q ∧
      program .minimal q = printed

theorem reprints_of_scans
    {path text : String} {p : Program}
    (h : Token.Scans Token.Separated text
      (GivesDeclarations Parse.maxDepth (p.decls.map (writtenDecl .minimal)))) :
    Reprints path text (program .minimal p) := by
  rcases Token.scan_ofString h with ⟨ts, q, hscan, ⟨ds, hds, hwritten⟩, hkinds⟩
  have houtcomes : Parse.outcomes (Token.scan (Text.ofString text)) = ds.map .ok := by
    rw [hscan]
    exact (Grammar.outcomes_eq_iff hkinds rfl ds).mpr hds
  rcases parseSource_of_outcomes path houtcomes with ⟨herrors, hprogram⟩
  exact ⟨herrors, ⟨path, ds⟩, hprogram, program_of_written hwritten⟩

theorem scans_beforeBreak
    {s : String} {post : List Token -> Prop} (h : Token.Scans Token.Separated s post) :
    Token.Scans Token.Separated (s ++ "\n") post := by
  have hbreak : Token.Scans Token.Anything "\n" fun ts => ts = [] :=
    Token.scans_blank rfl (by decide) rfl
  have hboth := h.append hbreak fun rest _ => Token.separated_cons (by decide)
  refine hboth.mono (fun _ _ => trivial) ?_
  rintro ts ⟨ts₁, ts₂, rfl, hts₁, rfl⟩
  rw [List.append_nil]
  exact hts₁

/-!
## Programs that were read
-/

theorem resolved_of_outcomes
    {source : Text} {p : Program}
    (houtcomes : Parse.outcomes (Token.scan source) = p.decls.map .ok) :
    forall d, d ∈ p.decls -> d.body.Resolved := by
  rcases Token.scan_proper source with ⟨body, q, hscan, hproper⟩
  rw [hscan, Grammar.outcomes_eq_iff (fun t ht => (hproper t ht).ne_endOfInput) rfl] at houtcomes
  intro d hd
  rcases declares_of_mem houtcomes hd with ⟨used, _, hdeclares⟩
  cases hdeclares with
  | intro _ _ _ hbody => exact Grammar.derives_resolved hbody

end Source

/-- A program that is read without diagnostics, whose references and operators are ASCII, with no
operator `@`, and whose numbers are finite, is formatted to a text that is read without diagnostics
and formatted to itself, with a line break at the end or without.  The text is written without regard
to levels, so it has no parentheses around applications but those of groups in the program. -/
theorem format_idempotent
    {path : String} {source : Text} {p : Program}
    (herrors : (parseSource path source).errors = [])
    (hprogram : (parseSource path source).program = some p)
    (hnames : p.Named Source.asciiNames)
    (hnumbers : forall u, u ∈ Token.scan source -> u.kind.isFinite = true) :
    Source.Reprints path (Source.program .minimal p) (Source.program .minimal p) ∧
      Source.Reprints path (Source.program .minimal p ++ "\n") (Source.program .minimal p) ∧
      Source.program .minimal p = Source.plainProgram p := by
  have houtcomes := Source.outcomes_of_parseSource herrors hprogram
  have hformats := Source.formats_of_outcomes houtcomes hnames hnumbers
  have hscans := Source.scans_program fun d hd => (hformats d hd).writable
  refine ⟨?_, ?_, ?_⟩
  · exact Source.reprints_of_scans hscans
  · exact Source.reprints_of_scans (Source.scans_beforeBreak hscans)
  · apply Source.program_eq_plain
    · exact fun d hd => (hformats d hd).writable.named
    · exact Source.resolved_of_outcomes houtcomes

theorem format_idempotent_openOperand :
    Source.Reprints "" "x = 1 + (\\y -> y);" "x = 1 + (\\y -> y);" ∧
      Source.plainProgram openOperand = "x = 1 + (\\y -> y);" := by
  have htext : Source.program .minimal openOperand = "x = 1 + (\\y -> y);" := by decide +kernel
  have hprogram : (parseSource "" "x = 1 + \\y -> y;").program = some openOperand := by
    decide +kernel
  have hnames : openOperand.Named Source.asciiNames := by
    refine List.forall_mem_singleton.mpr ⟨trivial, fun q hq => absurd hq List.not_mem_nil, ?_⟩
    exact ⟨trivial, ⟨rfl, by decide⟩, fun q hq => trivial, rfl⟩
  have hnumbers : forall u, u ∈ Token.scan "x = 1 + \\y -> y;" -> u.kind.isFinite = true := by
    decide +kernel
  rcases format_idempotent (by decide +kernel) hprogram hnames hnumbers with ⟨hreprints, _, hplain⟩
  rw [htext] at hreprints
  exact ⟨hreprints, hplain.symm.trans htext⟩

end DefTable
