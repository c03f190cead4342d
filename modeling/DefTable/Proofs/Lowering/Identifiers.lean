import DefTable.Proofs.Data.Yaml.Nodes
import DefTable.Proofs.Lowering.IdentifierRules

/-!
# The identifiers of compiled tables stand on one line

A source writes names with letters, digits and a few signs, and the synthetic identifiers are made
from these names.  So no identifier of a compiled table holds a line break, whatever the names known
besides the builtins look like, and no table has an entry `<<`, which can only name an operator.
-/

namespace DefTable

open Yaml (IsKey isBreak)

/-!
## Names that are read
-/

namespace Token

theorem not_isBreak_of_isNameChar {c : Char} (h : isNameChar c = true) : isBreak c = false := by
  have hnone : ['\n', '\r', '\u0085', '\u2028', '\u2029'].all (!isNameChar ·) = true := by
    decide +kernel
  rw [Bool.eq_false_iff]
  intro hbreak
  have hmem : c ∈ ['\n', '\r', '\u0085', '\u2028', '\u2029'] := by
    simpa [isBreak, or_assoc] using hbreak
  have hnot := List.all_eq_true.mp hnone c hmem
  rw [h] at hnot
  cases hnot

theorem not_isBreak_of_operatorChar {c : Char} (h : c ∈ operatorChars) : isBreak c = false := by
  have hall : operatorChars.all (!isBreak ·) = true := by decide
  have hnot := List.all_eq_true.mp hall c h
  rwa [Bool.not_eq_true'] at hnot

theorem oneLine_of_isWord {cs : List Char} (h : IsWord cs) :
    forall c, c ∈ cs -> isBreak c = false := by
  rcases h with ⟨c, rest, rfl, hstart, hrest⟩
  refine List.forall_mem_cons.mpr ⟨not_isBreak_of_isNameChar ?_, fun d hd => ?_⟩
  · rw [isNameChar, hstart, Bool.true_or]
  · exact not_isBreak_of_isNameChar (List.all_eq_true.mp hrest d hd)

theorem oneLine_of_name {s : String} (h : Kind.name.Spells s) : Yaml.OneLine s := by
  rcases h with ⟨hword, _⟩ | ⟨cs, hs, hword⟩
  · exact oneLine_of_isWord hword
  · rw [Yaml.OneLine, hs]
    exact List.forall_mem_cons.mpr ⟨rfl, oneLine_of_isWord hword⟩

theorem isKey_of_name {s : String} (h : Kind.name.Spells s) : IsKey s where
  oneLine := oneLine_of_name h
  not_merge := by
    rintro rfl
    rcases h with ⟨⟨c, rest, hs, hstart, _⟩, _⟩ | ⟨cs, hs, _⟩
    · cases hs
      revert hstart
      decide
    · cases hs

theorem oneLine_of_operator {s : String} (h : Kind.operator.Spells s) : Yaml.OneLine s :=
  fun c hc => not_isBreak_of_operatorChar
    (List.contains_iff_mem.mp (List.all_eq_true.mp h.2.1 c hc))

theorem oneLine_of_quotedName {s spelling : String} (h : (Kind.quotedName s).Spells spelling) :
    Yaml.OneLine s := by
  rcases h with hword | ⟨cs, hs, hall⟩
  · exact oneLine_of_isWord hword
  · rw [Yaml.OneLine, hs]
    exact List.forall_mem_cons.mpr
      ⟨rfl, fun c hc => not_isBreak_of_isNameChar (List.all_eq_true.mp hall c hc)⟩

end Token

namespace Lowering

def oneLineNames : NameRules where
  declared := IsKey
  parameter := Yaml.OneLine
  reference := Yaml.OneLine
  operator := Yaml.OneLine

end Lowering

/-!
## Identifiers of tables
-/

namespace Def

mutual

def OneLine : Def -> Prop
  | .list items => forall i, i ∈ items -> Yaml.OneLine i
  | .call target args => Yaml.OneLine target ∧ forall a, a ∈ args -> Yaml.OneLine a
  | .func params body => (forall q, q ∈ params -> Yaml.OneLine q) ∧ AreOneLine body
  | .switch cases =>
      forall c, c ∈ cases -> (forall g, c.guard = some g -> Yaml.OneLine g) ∧ Yaml.OneLine c.value
  | _ => True

def AreOneLine : List (String × Def) -> Prop
  | [] => True
  | (id, d) :: rest => IsKey id ∧ OneLine d ∧ AreOneLine rest

end

theorem areOneLine_iff {t : Table} :
    AreOneLine t <-> forall entry, entry ∈ t -> IsKey entry.1 ∧ entry.2.OneLine := by
  induction t with
  | nil => simp [AreOneLine]
  | cons entry rest ih =>
      rcases entry with ⟨id, d⟩
      rw [AreOneLine, ih, List.forall_mem_cons, and_assoc]

end Def

/-!
## Identifiers of entries
-/

namespace Lowering

open Scope (candidate)

theorem isKey_candidate {hint : String} (h : Yaml.OneLine hint) (k : Nat) :
    IsKey (candidate hint k) where
  oneLine := by
    intro c hc
    rw [Scope.candidate_toList, List.mem_cons, List.mem_append] at hc
    rcases hc with rfl | hdigit | hhint
    · rfl
    · refine Token.not_isBreak_of_isNameChar ?_
      rw [isNameChar, Nat.isDigit_of_mem_toDigits (by decide) (by decide) hdigit, Bool.or_true]
    · exact h c hhint
  not_merge := by
    intro heq
    have hchars := congrArg String.toList heq
    rw [Scope.candidate_toList] at hchars
    cases hchars

theorem isKey_result : IsKey Table.resultId where
  oneLine := by decide
  not_merge := by decide

def oneLineRules : IdentifierRules where
  key := IsKey
  mention := Yaml.OneLine
  guard := Yaml.OneLine

theorem inherited_oneLineRules : oneLineRules.Inherited where
  mention _ h := h.oneLine
  result := isKey_result
  fresh := isKey_candidate (by decide)
  shown _ h := isKey_candidate h
  guard k := (isKey_candidate (by decide) k).oneLine

theorem suits_oneLineNames : Grammar.Suits Token.Spelled oneLineNames :=
  inherited_oneLineRules.suits_names (fun _ => Token.isKey_of_name)
    (fun _ => Token.oneLine_of_operator) fun _ _ => Token.oneLine_of_quotedName

end Lowering

namespace Def

mutual

theorem oneLine_of_obeys : (d : Def) -> d.Obeys Lowering.oneLineRules -> d.OneLine
  | .number _, _ => trivial
  | .string _, _ => trivial
  | .matrix _, _ => trivial
  | .bool _, _ => trivial
  | .null, _ => trivial
  | .list _, h => h
  | .call _ _, h => h
  | .func _ body, h => ⟨h.1, areOneLine_of_allObey body h.2⟩
  | .switch _, h => h

theorem areOneLine_of_allObey :
    (t : List (String × Def)) -> AllObey Lowering.oneLineRules t -> AreOneLine t
  | [], _ => trivial
  | (_, d) :: rest, h => ⟨h.1, oneLine_of_obeys d h.2.1, areOneLine_of_allObey rest h.2.2⟩

end

end Def

namespace Lowering

theorem oneLine_of_lower
    {path : String} {source : Text} {extra : List String} {p : Program} {t : Table}
    (hparse : (parseSource path source).program = some p) (hlower : p.lower extra = .ok t) :
    Def.AreOneLine t :=
  Def.areOneLine_of_allObey t
    (obeys_of_lower inherited_oneLineRules suits_oneLineNames hparse hlower)

end Lowering
end DefTable
