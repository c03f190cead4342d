import DefTable.Compile
import DefTable.Proofs.Equality
import DefTable.Proofs.Grammar.Names
import DefTable.Proofs.Grammar.Sound
import DefTable.Proofs.Lowering.Correctness
import DefTable.Proofs.Token.Spelling

/-!
# Hygiene of lowered programs

A program that was read from a text names nothing `=`, and declares nothing that starts with `@`.
So in the tables it is lowered to, every identifier is found at the site of its binding, unless a
parameter is spelled like a synthetic identifier and stands between a mention and the site.
-/

namespace DefTable
namespace Lowering

open Scope (candidate isSynthetic)

/-!
## Names that are read
-/

theorem ne_resultId_of_head
    {s : String} {c : Char} {cs : List Char} (hs : s.toList = c :: cs)
    (hc : isNameStart c = true ∨ c = '@') :
    s ≠ Table.resultId := by
  intro heq
  rw [heq] at hs
  have hequals : c = '=' := (List.cons.inj hs).1.symm
  rw [hequals] at hc
  revert hc
  decide

theorem ne_resultId_of_name
    {s : String} (h : Token.Kind.name.Spells s) : s ≠ Table.resultId := by
  rcases h with ⟨⟨c, cs, hs, hstart, _⟩, _⟩ | ⟨cs, hs, _⟩
  · exact ne_resultId_of_head hs (.inl hstart)
  · exact ne_resultId_of_head hs (.inr rfl)

theorem ne_resultId_of_operator
    {s : String} (h : Token.Kind.operator.Spells s) : s ≠ Table.resultId := by
  intro heq
  have hpunctuation := h.2.2
  rw [heq] at hpunctuation
  exact absurd hpunctuation (by decide)

theorem ne_resultId_of_quotedName
    {s spelling : String} (h : (Token.Kind.quotedName s).Spells spelling) :
    s ≠ Table.resultId := by
  rcases h with ⟨c, cs, hs, hstart, _⟩ | ⟨cs, hs, _⟩
  · exact ne_resultId_of_head hs (.inl hstart)
  · exact ne_resultId_of_head hs (.inr rfl)

theorem not_isGlobal_of_declarable
    {t : Token} {i : Ident} (h : Grammar.Declarable t i) : isGlobal i.name = false := by
  rcases h with ⟨_, hhead, rfl⟩
  unfold isGlobal
  rw [decide_eq_false_iff_not]
  change t.spelling.toList.head? ≠ some '@'
  unfold Token.spelling
  rw [Token.toList_toString]
  cases hlexeme : t.lexeme with
  | nil => exact Option.some_ne_none _ |>.symm
  | cons g rest =>
      intro heq
      have hchar : g.toChar = '@' := Option.some.inj heq
      apply hhead
      rw [hlexeme]
      cases g with
      | char c => exact congrArg (fun c => some (Glyph.char c)) hchar
      | stray b => exact absurd (show '\uFFFD' = '@' from hchar) (by decide)

theorem suits_plainNames : Grammar.Suits Token.Spelled (plainNames fun _ => True) where
  declared _ _ _ hdeclarable := not_isGlobal_of_declarable hdeclarable
  parameter t i hspelled hdeclarable := by
    refine ⟨not_isGlobal_of_declarable hdeclarable, ?_, trivial⟩
    rcases hdeclarable with ⟨hkind, _, rfl⟩
    unfold Token.Spelled at hspelled
    rw [hkind] at hspelled
    exact ne_resultId_of_name hspelled
  reference t hspelled hkind := by
    unfold Token.Spelled at hspelled
    rcases hkind with hkind | hkind
    · rw [hkind] at hspelled
      exact ne_resultId_of_name hspelled
    · rw [hkind] at hspelled
      exact ne_resultId_of_operator hspelled
  operator t op hspelled hop := by
    unfold Token.Spelled at hspelled
    unfold Parse.operatorOf? at hop
    split at hop
    · rename_i hkind
      cases hop
      rw [hkind] at hspelled
      exact ne_resultId_of_operator hspelled
    · rename_i name hkind
      cases hop
      rw [hkind] at hspelled
      exact ne_resultId_of_quotedName hspelled
    · cases hop

theorem named_of_suits
    {r : NameRules} (hsuits : Grammar.Suits Token.Spelled r)
    {path : String} {source : Text} {p : Program}
    (hparse : (parseSource path source).program = some p) : p.Named r := by
  intro d hd
  have hp : (⟨path, Parse.decls (Parse.outcomes (Token.scan source))⟩ : Program) = p :=
    Option.some.inj hparse
  rw [← hp] at hd
  rcases Grammar.declares_of_mem_decls hd with ⟨used, hused, hdeclares⟩
  refine Grammar.declares_named hsuits ?_ hdeclares ?_
  · exact fun ts e he hts => Grammar.derives_named hsuits he hts
  · exact fun t ht => Token.spelled_of_mem_scan (hused t ht)

theorem named_of_parse
    {path : String} {source : Text} {p : Program}
    (hparse : (parseSource path source).program = some p) :
    p.Named (plainNames fun _ => True) :=
  named_of_suits suits_plainNames hparse

/-!
## Parameters that are no synthetic identifiers
-/

/-- No parameter starts with an underscore and a digit. -/
def ordinaryParameters : NameRules where
  declared _ := True
  parameter q := isSynthetic q = false
  reference _ := True
  operator _ := True

theorem bound_of_boundInside
    {depth : Nat} {id : String} {levels : List Level} (h : BoundInside depth id levels) :
    exists l, l ∈ levels ∧ id ∈ l.params := by
  induction levels with
  | nil => exact h.elim
  | cons l outer ih =>
      rcases h.2 with hhere | houtside
      · exact ⟨l, List.mem_cons_self, hhere⟩
      · rcases ih houtside with ⟨m, hm, hid⟩
        exact ⟨m, List.mem_cons_of_mem l hm, hid⟩

theorem condition_reaches : Condition (fun q => isSynthetic q = false) Reaches where
  holds levels site hexact hparams := by
    rw [hexact]
    intro hcaptured
    cases site with
    | outside name => exact hcaptured
    | kept depth name => exact hcaptured
    | renamed depth name k =>
        rcases bound_of_boundInside hcaptured with ⟨l, hl, hid⟩
        have hordinary := hparams l hl _ hid
        rw [Scope.candidate_isSynthetic] at hordinary
        cases hordinary

theorem named_of_ordinaryParameters
    {path : String} {source : Text} {p : Program}
    (hparse : (parseSource path source).program = some p) (hparams : p.Named ordinaryParameters) :
    p.Named (plainNames fun q => isSynthetic q = false) := by
  refine Program.Named.both ⟨?_, ?_, ?_, ?_⟩ (named_of_parse hparse) hparams
  · exact fun _ hplain _ => hplain
  · exact fun _ hplain hordinary => ⟨hplain.1, hplain.2.1, hordinary⟩
  · exact fun _ hplain _ => hplain
  · exact fun _ hplain _ => hplain

theorem lowered_reaches
    {path : String} {source : Text} {extra : List String} {p : Program} {t : Table}
    (hparse : (parseSource path source).program = some p) (hlower : p.lower extra = .ok t)
    (hparams : p.Named ordinaryParameters) :
    Lowered Reaches (Builtin.names ++ extra) p.decls t :=
  lowered_of_lower condition_reaches (named_of_ordinaryParameters hparse hparams) hlower

/-!
## Hygiene
-/

/-- Every mention of an identifier reaches the site of its binding exactly if no parameter in
between is spelled like it; without parameters like synthetic identifiers, always. -/
theorem mentions_reach_unless_captured
    {path : String} {source : Text} {extra : List String} {p : Program} {t : Table}
    (hparse : (parseSource path source).program = some p) (hlower : p.lower extra = .ok t) :
    Lowered (fun levels site => Reaches levels site <-> ¬ Captured levels site)
        (Builtin.names ++ extra) p.decls t ∧
      (p.Named ordinaryParameters -> Lowered Reaches (Builtin.names ++ extra) p.decls t) := by
  refine ⟨?_, lowered_reaches hparse hlower⟩
  exact lowered_of_lower ⟨fun _ _ hexact _ => hexact⟩ (named_of_parse hparse) hlower

/-!
## A parameter that captures
-/

def capturingSource : Text :=
  "x = let y = 1 in \\_0y -> y;"

def capturingProgram : Program :=
  let one : Number := ⟨0x3FF0000000000000⟩
  let name (s : String) (column : Nat) : Ident := ⟨.synthetic .name s ⟨1, column⟩, s⟩
  ⟨"", [⟨name "x" 1, [],
    .letIn (.synthetic .keyLet "let" ⟨1, 5⟩) (name "y" 9) []
      (.number (.synthetic (.number one) "1" ⟨1, 13⟩) one)
      (.lambda (.synthetic .backslash "\\" ⟨1, 18⟩) [name "_0y" 19] (.ident (name "y" 26)))⟩]⟩

def capturingTable : Table :=
  [("_0y", .number ⟨0x3FF0000000000000⟩), ("x", .func ["_0y"] [("=", .call "_0y" [])])]

theorem capturing_parse : (parseSource "" capturingSource).program = some capturingProgram := by
  decide +kernel

theorem capturing_lower : capturingProgram.lower [] = .ok capturingTable := by
  decide +kernel

theorem mentions_reach_unless_captured_capturing :
    Lowered (fun levels site => Reaches levels site <-> ¬ Captured levels site)
      (Builtin.names ++ []) capturingProgram.decls capturingTable :=
  (mentions_reach_unless_captured capturing_parse capturing_lower).1

/-- No choice of entries makes every mention in that table reach its site. -/
theorem not_reaches_capturing :
    (parseSource "" capturingSource).program = some capturingProgram ∧
      capturingProgram.lower [] = .ok capturingTable ∧
      ¬ Lowered Reaches (Builtin.names ++ []) capturingProgram.decls capturingTable := by
  refine ⟨capturing_parse, capturing_lower, ?_⟩
  rintro ⟨out, hnodup, htable, hemits⟩
  rcases hemits with _ | ⟨hdeclaration, hrest⟩
  cases hrest
  rcases hdeclaration with hbody | ⟨hparams, _⟩
  · rcases hbody with _ | _ | _ | _ | _ | _ | ⟨hvalue, hlambda⟩
    rename_i k out₁ out₂
    -- The number of the binding is not given, but its identifier stands in the table.
    have hkey : candidate "y" k ∈ capturingTable.identifiers := by
      rw [htable, Table.mem_identifiers_collect]
      rcases hvalue with hvalue | ⟨hparams, _⟩
      · cases hvalue
        exact List.mem_cons_self
      · exact absurd rfl hparams
    have hid : candidate "y" k = "_0y" := by
      rcases List.mem_cons.mp hkey with hid | hx
      · exact hid
      · have hheads := congrArg String.toList (List.mem_singleton.mp hx)
        rw [Scope.candidate_toList] at hheads
        exact absurd (List.cons.inj hheads).1 (by decide)
    cases hlambda with
    | lambda hfunction =>
        cases hfunction with
        | intro _ hident =>
            rcases hident with _ | ⟨site, hdenotes, _, hreaches⟩
            have hsite : site = .renamed 0 "y" k := (Option.some.inj hdenotes).symm
            rw [hsite] at hreaches
            unfold Reaches Site.id at hreaches
            dsimp only at hreaches
            rw [hid] at hreaches
            exact absurd hreaches (by simp [reach, Level.identifiers, Site.depth?])
  · exact hparams rfl

end Lowering
end DefTable
