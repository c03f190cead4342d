import DefTable.Proofs.Grammar.Printed
import DefTable.Proofs.Token.Values

/-!
# Printing a program and reading it again

The text of a program whose expressions can be written is read without a fault, and the declarations
are the ones that were written.
-/

namespace DefTable
namespace Source

open Token (Scans One Separated Anything)
open Grammar

def writtenDecl (style : Style) (d : Decl) : Decl :=
  ⟨d.name.erased, d.params.map Ident.erased, written style topLevel false d.body⟩

structure WritableDecl (style : Style) (d : Decl) : Prop where
  named : d.Named writableNames
  writable : Writable d.body
  depth : nesting style topLevel false d.body < Parse.maxDepth

/-!
## Declarations in a text
-/

def GivesDeclarations (n : Nat) (ds : List Decl) (ts : List Token) : Prop :=
  exists ds', Declarations n ts ds' ∧ ds'.map Decl.erased = ds

theorem givesDeclarations_append
    {n : Nat} {ds ds' : List Decl} {ts rest : List Token} (h : GivesDeclarations n ds ts)
    (hrest : GivesDeclarations n ds' rest) : GivesDeclarations n (ds ++ ds') (ts ++ rest) := by
  rcases h with ⟨es, hes, rfl⟩
  rcases hrest with ⟨es', hes', rfl⟩
  refine ⟨es ++ es', ?_, List.map_append⟩
  induction hes with
  | nil => exact hes'
  | cons hd hstop _ ih =>
      rw [List.append_assoc, List.cons_append]
      exact .cons hd hstop ih

theorem scans_decl
    {style : Style} {d : Decl} (hnamed : d.Named writableNames) (hwritable : Writable d.body)
    {n : Nat} (hn : nesting style topLevel false d.body < n) :
    Scans Anything (decl style d ++ ";") (GivesDeclarations n [writtenDecl style d]) := by
  have hbody := (printed style d.body hnamed.2.2 hwritable).whole n hn
  have hdecl := scans_declaration hnamed.1 hnamed.2.1 hbody
  have hsemicolon : Scans Anything ";" (One .semicolon) := Token.scans_mark .semicolon (by decide)
  refine (hdecl.append hsemicolon fun rest _ => Token.separated_cons (by decide)).imp ?_
  rintro ts ⟨used, _, rfl, ⟨d', hd', hwritten⟩, stop, rfl, hstop⟩
  exact ⟨[d'], .cons hd' hstop .nil, congrArg (fun d => [d]) hwritten⟩

theorem scans_line
    {style : Style} {d : Decl} (h : WritableDecl style d) {s : String} {ds : List Decl}
    (hs : Scans Separated s (GivesDeclarations Parse.maxDepth ds)) :
    Scans Separated (decl style d ++ ";" ++ s)
      (GivesDeclarations Parse.maxDepth (writtenDecl style d :: ds)) := by
  refine ((scans_decl h.named h.writable h.depth).andThen hs).imp ?_
  rintro ts ⟨_, _, rfl, hd, hds⟩
  exact givesDeclarations_append hd hds

theorem scans_lines
    {style : Style} {ds : List Decl} (h : forall d, d ∈ ds -> WritableDecl style d) :
    Scans Separated (String.join (ds.map fun d => "\n" ++ (decl style d ++ ";")))
      (GivesDeclarations Parse.maxDepth (ds.map (writtenDecl style))) := by
  induction ds with
  | nil =>
      refine ⟨List.not_mem_nil, fun beyond p rest _ => ⟨[], rfl, [], .nil, rfl⟩⟩
  | cons d ds ih =>
      rw [List.forall_mem_cons] at h
      rw [List.map_cons, List.map_cons, String.join_cons, String.append_assoc]
      exact .afterBlanks (Token.scans_blank rfl (by decide) rfl) (scans_line h.1 (ih h.2))

theorem scans_program
    {style : Style} {p : Program} (h : forall d, d ∈ p.decls -> WritableDecl style d) :
    Scans Separated (program style p)
      (GivesDeclarations Parse.maxDepth (p.decls.map (writtenDecl style))) := by
  unfold program
  cases hdecls : p.decls with
  | nil => exact scans_lines fun d hd => absurd hd List.not_mem_nil
  | cons d ds =>
      rw [hdecls, List.forall_mem_cons] at h
      rw [List.map_cons, intercalate_cons, List.map_map, List.map_cons]
      exact scans_line h.1 (scans_lines h.2)

/-!
## Reading the text
-/

theorem outcomes_program
    {style : Style} {p : Program} (h : forall d, d ∈ p.decls -> WritableDecl style d) :
    exists ds : List Decl,
      Parse.outcomes (Token.scan (Text.ofString (program style p))) = ds.map .ok ∧
      ds.map Decl.erased = p.decls.map (writtenDecl style) := by
  rcases Token.scan_ofString (scans_program h) with ⟨ts, q, hscan, ⟨ds, hds, hwritten⟩, hkinds⟩
  rw [hscan]
  exact ⟨ds, (outcomes_eq_iff hkinds rfl ds).mpr hds, hwritten⟩

theorem parseSource_of_outcomes
    {source : Text} {ds : List Decl} (path : String)
    (h : Parse.outcomes (Token.scan source) = ds.map .ok) :
    (parseSource path source).errors = [] ∧ (parseSource path source).program = some ⟨path, ds⟩ := by
  have herrors : (parseSource path source).errors =
      ((Parse.faults (Parse.outcomes (Token.scan source))).map Parse.Fault.diagnostic).map
        (Diagnostic.within path) :=
    rfl
  have hprogram : (parseSource path source).program =
      some ⟨path, Parse.decls (Parse.outcomes (Token.scan source))⟩ :=
    rfl
  rcases (eq_map_ok_iff _ _).mp h with ⟨hfaults, hdecls⟩
  rw [herrors, hprogram, hfaults, hdecls]
  exact ⟨rfl, rfl⟩

theorem outcomes_of_parseSource
    {path : String} {source : Text} {p : Program} (herrors : (parseSource path source).errors = [])
    (hprogram : (parseSource path source).program = some p) :
    Parse.outcomes (Token.scan source) = p.decls.map .ok := by
  have hreported : ((Parse.faults (Parse.outcomes (Token.scan source))).map
      Parse.Fault.diagnostic).map (Diagnostic.within path) = [] :=
    herrors
  have hread : some (⟨path, Parse.decls (Parse.outcomes (Token.scan source))⟩ : Program) = some p :=
    hprogram
  rw [List.map_eq_nil_iff, List.map_eq_nil_iff] at hreported
  cases hread
  exact (eq_map_ok_iff _ _).mpr ⟨hreported, rfl⟩

/-- Whatever the shape of an expression that can be written, its text in a declaration is read
without a fault, and the body is the expression again apart from tokens and parentheses. -/
theorem parse_print
    (style : Style) {e : Expr} (hnames : e.Named writableNames) (hwritable : Writable e)
    (hdepth : nesting style topLevel false e < Parse.maxDepth) (path : String) :
    (parseSource path (Text.ofString ("x = " ++ print style e ++ ";"))).errors = [] ∧
      exists d, (parseSource path (Text.ofString ("x = " ++ print style e ++ ";"))).program =
          some ⟨path, [d]⟩ ∧
        d.name.name = "x" ∧ d.params = [] ∧ d.body.erased.ungrouped = e.erased.ungrouped := by
  let p : Program := ⟨path, [⟨⟨.absent, "x"⟩, [], e⟩]⟩
  have hname : IsDeclarableName "x" := ⟨⟨'x', [], rfl, rfl, rfl⟩, by decide⟩
  have hp : forall d, d ∈ p.decls -> WritableDecl style d :=
    List.forall_mem_singleton.mpr
      ⟨⟨hname, fun q hq => absurd hq List.not_mem_nil, hnames⟩, hwritable, hdepth⟩
  have htext : "x = " ++ print style e ++ ";" = program style p := rfl
  rcases outcomes_program hp with ⟨ds, houtcomes, hwritten⟩
  rcases List.map_eq_singleton_iff.mp hwritten with ⟨d, rfl, hd⟩
  rcases parseSource_of_outcomes path houtcomes with ⟨herrors, hprogram⟩
  have hbody : d.body.erased = written style topLevel false e := congrArg Decl.body hd
  rw [htext]
  refine ⟨herrors, d, hprogram, congrArg (fun d => d.name.name) hd,
    List.map_eq_nil_iff.mp (congrArg Decl.params hd), ?_⟩
  rw [hbody, ungrouped_written]

def crossed : Expr :=
  let name := Ident.mk .absent
  .binary .absent
    (.binary .absent (.lambda .absent [name "y"] (.ident (name "y"))) (.named (name "if"))
      (.binary .absent (.ident (name "a")) (.named (name "-"))
        (.binary .absent (.ident (name "@b")) (.named (name "-")) (.number .absent (-.ofNat 1)))))
    .apply (.ident (name "+"))

theorem parse_print_crossed :
    nesting .minimal topLevel false crossed < Parse.maxDepth ∧
      (parseSource "" (Text.ofString ("x = " ++ print .minimal crossed ++ ";"))).errors = [] ∧
      exists d, (parseSource "" (Text.ofString ("x = " ++ print .minimal crossed ++ ";"))).program =
          some ⟨"", [d]⟩ ∧
        d.name.name = "x" ∧ d.params = [] ∧ d.body.erased.ungrouped = crossed.erased.ungrouped := by
  have hletter : forall c, c.isAlpha = true -> IsAsciiWord [c] :=
    fun c hc => ⟨c, [], rfl, by rw [hc, Bool.true_or], rfl⟩
  have hglobal : IsGlobalName "@b" := ⟨['b'], rfl, 'b', [], rfl, rfl, rfl⟩
  have hminus : IsOperatorName "-" := by unfold IsOperatorName; decide
  have hplus : IsOperatorName "+" := by unfold IsOperatorName; decide
  have hfinite : (-Number.ofNat 1).isFinite = true := by decide +kernel
  have hdepth : nesting .minimal topLevel false crossed < Parse.maxDepth := by decide
  refine ⟨hdepth, parse_print .minimal ?_ ?_ hdepth ""⟩
  · exact ⟨⟨⟨List.forall_mem_singleton.mpr ⟨(hletter 'y' rfl).isWord, by decide⟩,
      Or.inl ⟨hletter 'y' rfl, by decide⟩⟩, Or.inl (Or.inl ⟨'i', ['f'], rfl, rfl, rfl⟩),
      Or.inl ⟨hletter 'a' rfl, by decide⟩, Or.inr hminus,
      Or.inr (Or.inl hglobal), Or.inr hminus, trivial⟩, trivial,
      Or.inr (Or.inr hplus)⟩
  · exact ⟨⟨⟨List.cons_ne_nil _ _, trivial⟩, ⟨trivial, ⟨trivial, hfinite, nofun⟩, nofun⟩,
      nofun⟩, trivial, fun _ => rfl⟩

end Source
end DefTable
