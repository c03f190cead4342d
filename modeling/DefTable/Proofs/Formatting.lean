import DefTable.Proofs.Equality
import DefTable.Proofs.Grammar.Formatted
import DefTable.Proofs.Grammar.RoundTrip
import DefTable.Proofs.Lowering.Hygiene
import DefTable.Proofs.Lowering.Rewritten

/-!
# Formatting a program

Formatting reads a program and prints it.  The text compiles to the same table as before if every
name that is referred to, or that joins operands, is ASCII, and every number is finite.  Printing
puts any other name into parentheses as if it were an operator, and has no text for an infinite
number.
-/

namespace DefTable
namespace Source

/-!
## Names of a program that was read
-/

def scannedNames : NameRules where
  declared s := Token.IsWord s.toList ∧ Token.Kind.ofWord s = .name
  parameter s := Token.IsWord s.toList ∧ Token.Kind.ofWord s = .name
  reference s := Token.Kind.name.Spells s ∨ Token.Kind.operator.Spells s
  operator s := (Token.Kind.quotedName s).Spells s ∨ Token.Kind.operator.Spells s

theorem scanned_of_declarable
    {t : Token} {i : Ident} (hspelled : t.Spelled) (h : Grammar.Declarable t i) :
    Token.IsWord i.name.toList ∧ Token.Kind.ofWord i.name = .name := by
  have hglobal := Lowering.not_isGlobal_of_declarable h
  rcases h with ⟨hkind, _, rfl⟩
  unfold Token.Spelled at hspelled
  rw [hkind] at hspelled
  rcases hspelled with hword | ⟨cs, hs, _⟩
  · exact hword
  · rw [isGlobal, hs] at hglobal
    cases hglobal

theorem suits_scannedNames : Grammar.Suits Token.Spelled scannedNames where
  declared _ _ := scanned_of_declarable
  parameter _ _ := scanned_of_declarable
  reference t hspelled hkind := by
    unfold Token.Spelled at hspelled
    rcases hkind with hkind | hkind
    · rw [hkind] at hspelled
      exact Or.inl hspelled
    · rw [hkind] at hspelled
      exact Or.inr hspelled
  operator t op hspelled hop := by
    unfold Token.Spelled at hspelled
    unfold Parse.operatorOf? at hop
    split at hop
    · rename_i hkind
      cases hop
      rw [hkind] at hspelled
      exact Or.inr hspelled
    · rename_i name hkind
      cases hop
      rw [hkind] at hspelled
      exact Or.inl hspelled
    · cases hop

def IsAscii (s : String) : Prop :=
  s.toList.all (fun c => c.toNat < 128) = true

/-- References and operators are ASCII, and no operator is a bare `@`. -/
def asciiNames : NameRules where
  declared _ := True
  parameter _ := True
  reference := IsAscii
  operator s := IsAscii s ∧ s ≠ "@"

theorem isWordChar_of_ascii
    {c : Char} (h : isNameChar c = true) (hascii : c.toNat < 128) : isWordChar c = true := by
  have hforeign : isForeignLetter c = false := by
    rw [isForeignLetter, decide_eq_false (Nat.not_le.mpr hascii), Bool.false_and]
  rw [isNameChar, isNameStart, hforeign, Bool.or_false] at h
  simp only [isWordChar, Char.isAlphanum, Bool.or_eq_true] at h ⊢
  rcases h with (halpha | hunderscore) | hdigit
  · exact Or.inl (Or.inl halpha)
  · exact Or.inr hunderscore
  · exact Or.inl (Or.inr hdigit)

theorem all_isWordChar_of_ascii
    {cs : List Char} (h : cs.all isNameChar = true)
    (hascii : cs.all (fun c => c.toNat < 128) = true) : cs.all isWordChar = true := by
  rw [List.all_eq_true] at h hascii ⊢
  exact fun c hc => isWordChar_of_ascii (h c hc) (of_decide_eq_true (hascii c hc))

theorem isAsciiWord_of_ascii
    {cs : List Char} (h : Token.IsWord cs) (hascii : cs.all (fun c => c.toNat < 128) = true) :
    IsAsciiWord cs := by
  rcases h with ⟨c, rest, rfl, hstart, hrest⟩
  rw [List.all_cons, Bool.and_eq_true] at hascii
  refine ⟨c, rest, rfl, ?_, all_isWordChar_of_ascii hrest hascii.2⟩
  have hforeign : isForeignLetter c = false := by
    rw [isForeignLetter, decide_eq_false (Nat.not_le.mpr (of_decide_eq_true hascii.1)),
      Bool.false_and]
  rwa [isNameStart, hforeign, Bool.or_false] at hstart

theorem not_isKeyword_of_ofWord {s : String} (h : Token.Kind.ofWord s = .name) :
    ¬ IsKeyword s := by
  intro hkeyword
  have hkinds : forall p, p ∈ Token.Kind.keywords -> Token.Kind.ofWord p.1 ≠ .name := by decide
  rcases List.mem_map.mp hkeyword with ⟨p, hp, rfl⟩
  exact hkinds p hp h

theorem isOperatorName_of_spells {s : String} (h : Token.Kind.operator.Spells s) :
    IsOperatorName s := by
  refine ⟨h.1, h.2.1, ?_, ?_⟩
  · rintro rfl
    exact absurd h.2.2 (by decide)
  · rintro rfl
    exact absurd h.2.2 (by decide)

theorem writable_of_scanned : scannedNames.Both asciiNames writableNames where
  declared _ h _ := ⟨h.1, not_isKeyword_of_ofWord h.2⟩
  parameter _ h _ := ⟨h.1, not_isKeyword_of_ofWord h.2⟩
  reference s h hascii := by
    rcases h with (⟨hword, hkind⟩ | ⟨cs, hs, hword⟩) | hoperator
    · exact Or.inl ⟨isAsciiWord_of_ascii hword hascii, not_isKeyword_of_ofWord hkind⟩
    · have hchars : s.toList.all (fun c => c.toNat < 128) = true := hascii
      rw [hs, List.all_cons, Bool.and_eq_true] at hchars
      exact Or.inr (Or.inl ⟨cs, hs, isAsciiWord_of_ascii hword hchars.2⟩)
    · exact Or.inr (Or.inr (isOperatorName_of_spells hoperator))
  operator s h hascii := by
    rcases hascii with ⟨hascii, hat⟩
    rcases h with (hword | ⟨cs, hs, hall⟩) | hoperator
    · exact Or.inl (Or.inl (isAsciiWord_of_ascii hword hascii))
    · rw [IsAscii, hs, List.all_cons, Bool.and_eq_true] at hascii
      refine Or.inl (Or.inr ⟨cs, hs, ?_, all_isWordChar_of_ascii hall hascii.2⟩)
      rintro rfl
      exact hat (String.toList_injective hs)
    · exact Or.inr (isOperatorName_of_spells hoperator)

/-!
## Declarations that were read
-/

theorem declares_of_mem
    {n : Nat} {ts : List Token} {ds : List Decl} (h : Grammar.Declarations n ts ds) {d : Decl}
    (hd : d ∈ ds) :
    exists used, (forall t, t ∈ used -> t ∈ ts) ∧ Grammar.Declares (Grammar.Derives n) used d := by
  induction h with
  | nil => exact absurd hd List.not_mem_nil
  | @cons ts d' stop rest ds hd' _ _ ih =>
      rcases List.mem_cons.mp hd with rfl | hlater
      · exact ⟨ts, fun t ht => List.mem_append_left _ ht, hd'⟩
      · rcases ih hlater with ⟨used, hused, hdeclares⟩
        exact ⟨used, fun t ht => List.mem_append_right _ (List.mem_cons_of_mem stop (hused t ht)),
          hdeclares⟩

/-- What is written of a declaration is alike. -/
structure Formats (d : Decl) : Prop where
  writable : WritableDecl .minimal d
  alike : d.Alike (writtenDecl .minimal d)

theorem formats_of_declares
    {ts : List Token} {d : Decl} (h : Grammar.Declares (Grammar.Derives Parse.maxDepth) ts d)
    (hspelled : forall t, t ∈ ts -> t.Spelled) (husable : forall t, t ∈ ts -> Grammar.Usable t)
    (hnames : d.Named asciiNames) : Formats d := by
  have hscanned : d.Named scannedNames :=
    Grammar.declares_named suits_scannedNames
      (fun _ _ he hts => Grammar.derives_named suits_scannedNames he hts) h hspelled
  have hnamed : d.Named writableNames := hscanned.both writable_of_scanned hnames
  cases h with
  | @intro t name ps params eq bs body _ _ _ hbody =>
      have hkept := Grammar.derives_kept hbody
      have hwritable : Writable body := by
        refine Grammar.derives_writable hbody fun t ht => husable t ?_
        exact List.mem_append_right _ (List.mem_cons_of_mem _ ht)
      exact ⟨⟨hnamed, hwritable, hkept.depth⟩,
        rfl, (map_name_erased _).symm, hkept.alike⟩

theorem formats_of_outcomes
    {source : Text} {p : Program}
    (houtcomes : Parse.outcomes (Token.scan source) = p.decls.map .ok)
    (hnames : p.Named asciiNames)
    (hnumbers : forall u, u ∈ Token.scan source -> u.kind.isFinite = true) :
    forall d, d ∈ p.decls -> Formats d := by
  rcases Token.scan_proper source with ⟨body, q, hscan, hproper⟩
  have hmem : forall t, t ∈ body -> t ∈ Token.scan source := by
    rw [hscan]
    exact fun t ht => List.mem_append_left _ ht
  rw [hscan, Grammar.outcomes_eq_iff (fun t ht => (hproper t ht).ne_endOfInput) rfl] at houtcomes
  intro d hd
  rcases declares_of_mem houtcomes hd with ⟨used, hused, hdeclares⟩
  refine formats_of_declares hdeclares ?_ ?_ (hnames d hd)
  · exact fun t ht => Token.spelled_of_mem_scan (hmem t (hused t ht))
  · exact fun t ht => ⟨hproper t (hused t ht), hnumbers t (hmem t (hused t ht))⟩

theorem lower_of_formats
    {p : Program} (h : forall d, d ∈ p.decls -> Formats d) {extra : List String} {t : Table}
    (hlower : p.lower extra = .ok t) (path : String) :
    exists ds : List Decl,
      Parse.outcomes (Token.scan (Text.ofString (program .minimal p))) = ds.map .ok ∧
        (⟨path, ds⟩ : Program).lower extra = .ok t := by
  rcases outcomes_program fun d hd => (h d hd).writable with ⟨ds, houtcomes, hwritten⟩
  refine ⟨ds, houtcomes, ?_⟩
  have hprinted : (⟨path, ds.map Decl.erased⟩ : Program).lower extra = .ok t := by
    refine Program.lower_of_alike ?_ hlower
    rw [hwritten, List.forall₂_map_right_iff, List.forall₂_same]
    exact fun d hd => (h d hd).alike
  refine Program.lower_of_alike ?_ hprinted
  rw [List.forall₂_map_left_iff, List.forall₂_same]
  exact fun d _ => d.alike_erased

end Source

/-!
## Compilations without an output format
-/

namespace Compilation

theorem compile_none_eq (path : String) (source : Text) (extra : List String) :
    exists c : Compilation, compile none path source extra = c.lower ∧
      c.errors = ((Parse.faults (Parse.outcomes (Token.scan source))).map
        Parse.Fault.diagnostic).map (Diagnostic.within path) ∧
      c.program = some ⟨path, Parse.decls (Parse.outcomes (Token.scan source))⟩ ∧
      c.extra = extra ∧ c.table = none :=
  ⟨(start path source extra).run parseStages, rfl, rfl, rfl, rfl, rfl⟩

theorem compile_of_outcomes
    {path : String} {source : Text} {extra : List String} {ds : List Decl} {t : Table}
    (houtcomes : Parse.outcomes (Token.scan source) = ds.map .ok)
    (hlower : (⟨path, ds⟩ : Program).lower extra = .ok t) :
    (compile none path source extra).errors = [] ∧
      (compile none path source extra).table = some t := by
  rcases compile_none_eq path source extra with ⟨c, heq, herrors, hprogram, hextra, _⟩
  rcases (Grammar.eq_map_ok_iff _ _).mp houtcomes with ⟨hfaults, hdecls⟩
  rw [hfaults] at herrors
  rw [hdecls] at hprogram
  have hfailed : c.failed = false := by rw [failed, herrors]; rfl
  rw [heq, lower, hprogram]
  dsimp only
  rw [hfailed, if_neg Bool.false_ne_true, hextra, hlower]
  exact ⟨herrors, rfl⟩

theorem outcomes_of_compile
    {path : String} {source : Text} {extra : List String} {t : Table}
    (htable : (compile none path source extra).table = some t) :
    exists ds : List Decl, Parse.outcomes (Token.scan source) = ds.map .ok ∧
      (⟨path, ds⟩ : Program).lower extra = .ok t := by
  rcases compile_none_eq path source extra with ⟨c, heq, herrors, hprogram, hextra, hnone⟩
  rw [heq, lower, hprogram] at htable
  dsimp only at htable
  cases hfailed : c.failed with
  | true =>
      rw [hfailed, if_pos rfl, hnone] at htable
      cases htable
  | false =>
      rw [hfailed, if_neg Bool.false_ne_true, hextra] at htable
      rw [failed, Bool.not_eq_false', List.isEmpty_iff, herrors, List.map_eq_nil_iff,
        List.map_eq_nil_iff] at hfailed
      refine ⟨_, (Grammar.eq_map_ok_iff _ _).mpr ⟨hfailed, rfl⟩, ?_⟩
      cases hlower : (⟨path, Parse.decls (Parse.outcomes (Token.scan source))⟩ :
          Program).lower extra with
      | error e =>
          rw [hlower] at htable
          cases hnone.symm.trans htable
      | ok t' =>
          rw [hlower] at htable
          cases htable
          rfl

end Compilation

/-- A program whose references and operators are ASCII, with no operator `@`, and whose numbers are
finite, is formatted to a text that compiles to the same table. -/
theorem format_preserves_table
    {path : String} {source : Text} {extra : List String} {p : Program} {t : Table}
    (htable : (compile none path source extra).table = some t)
    (hprogram : (parseSource path source).program = some p)
    (hnames : p.Named Source.asciiNames)
    (hnumbers : forall u, u ∈ Token.scan source -> u.kind.isFinite = true) :
    (compile none path (Text.ofString (Source.program .minimal p)) extra).errors = [] ∧
      (compile none path (Text.ofString (Source.program .minimal p)) extra).table = some t := by
  rcases Compilation.outcomes_of_compile htable with ⟨ds, houtcomes, hlower⟩
  have hp := (Source.parseSource_of_outcomes path houtcomes).2
  rw [hprogram] at hp
  cases hp
  have hformats := Source.formats_of_outcomes houtcomes hnames hnumbers
  rcases Source.lower_of_formats hformats hlower path with ⟨ds', hread, hlower'⟩
  exact Compilation.compile_of_outcomes hread hlower'

def openOperand : Program :=
  let token (kind : Token.Kind) (lexeme : String) (column : Nat) : Token := ⟨kind, lexeme, 1, column⟩
  let one := token (.number (.ofNat 1)) "1" 5
  ⟨"", [⟨⟨token .name "x" 1, "x"⟩, [],
    .binary one (.number one (.ofNat 1)) (.named ⟨token .operator "+" 7, "+"⟩)
      (.lambda (token .backslash "\\" 9) [⟨token .name "y" 10, "y"⟩]
        (.ident ⟨token .name "y" 15, "y"⟩))⟩]⟩

theorem format_preserves_table_openOperand :
    Source.program .minimal openOperand = "x = 1 + (\\y -> y);" ∧
      (compile none "" "x = 1 + (\\y -> y);" []).table =
        (compile none "" "x = 1 + \\y -> y;" []).table := by
  have htext : Source.program .minimal openOperand = "x = 1 + (\\y -> y);" := by decide +kernel
  have hprogram : (parseSource "" "x = 1 + \\y -> y;").program = some openOperand := by
    decide +kernel
  cases htable : (compile none "" "x = 1 + \\y -> y;" []).table with
  | none => exact absurd htable (by decide +kernel)
  | some t =>
      have hnumbers : forall u, u ∈ Token.scan "x = 1 + \\y -> y;" ->
          u.kind.isFinite = true := by
        decide +kernel
      have h := format_preserves_table htable hprogram ?_ hnumbers
      · rw [htext] at h
        exact ⟨htext, h.2⟩
      · refine List.forall_mem_singleton.mpr ⟨trivial, fun q hq => absurd hq List.not_mem_nil, ?_⟩
        exact ⟨trivial, ⟨rfl, by decide⟩, fun q hq => trivial, rfl⟩

/-- A reference with another letter becomes a definition of its own. -/
theorem format_changes_accented :
    exists p, (parseSource "" "é = 1; x = é + 2;").program = some p ∧
      Source.program .minimal p = "é = 1;\nx = (é) + 2;" ∧
      (compile none "" "é = 1; x = é + 2;" []).errors = [] ∧
      (compile none "" "é = 1;\nx = (é) + 2;" []).table ≠
        (compile none "" "é = 1; x = é + 2;" []).table := by
  refine ⟨⟨"", Parse.decls (Parse.outcomes (Token.scan "é = 1; x = é + 2;"))⟩, rfl, ?_, ?_, ?_⟩
  · decide +kernel
  · decide +kernel
  · decide +kernel

end DefTable
