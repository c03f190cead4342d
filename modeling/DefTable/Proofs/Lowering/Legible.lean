import DefTable.Proofs.Lowering.IdentifierRules
import DefTable.Proofs.Text.Told

/-!
# The identifiers of compiled tables are words

No character of a name that can be scanned is a delimiter of a listing, and neither are those of the
synthetic identifiers.  A guard is a synthetic identifier with a number, so it differs from the mark
of a default case.
-/

namespace DefTable

/-!
## Names that are read
-/

namespace Token

theorem not_delimiter_of_isNameChar {c : Char} (h : isNameChar c = true) : c ∉ delimiters := by
  have hnone : delimiters.all (!isNameChar ·) = true := by decide +kernel
  intro hc
  have hnot := List.all_eq_true.mp hnone c hc
  rw [h] at hnot
  cases hnot

theorem not_delimiter_of_isWord {cs : List Char} (h : IsWord cs) :
    forall c, c ∈ cs -> c ∉ delimiters := by
  rcases h with ⟨c, rest, rfl, hstart, hrest⟩
  refine List.forall_mem_cons.mpr ⟨not_delimiter_of_isNameChar ?_, fun d hd => ?_⟩
  · rw [isNameChar, hstart, Bool.true_or]
  · exact not_delimiter_of_isNameChar (List.all_eq_true.mp hrest d hd)

theorem isLegible_of_isWord {s : String} (h : IsWord s.toList) : IsLegible s where
  ne_nil := by
    rcases h with ⟨c, rest, hs, _⟩
    rw [hs]
    exact List.cons_ne_nil c rest
  whole := not_delimiter_of_isWord h

theorem isLegible_of_at
    {s : String} {cs : List Char} (hs : s.toList = '@' :: cs)
    (h : forall c, c ∈ cs -> c ∉ delimiters) : IsLegible s where
  ne_nil := by
    rw [hs]
    exact List.cons_ne_nil '@' cs
  whole := by
    rw [hs]
    exact List.forall_mem_cons.mpr ⟨by decide, h⟩

theorem isLegible_of_name {s : String} (h : Kind.name.Spells s) : IsLegible s := by
  rcases h with ⟨hword, _⟩ | ⟨cs, hs, hword⟩
  · exact isLegible_of_isWord hword
  · exact isLegible_of_at hs (not_delimiter_of_isWord hword)

theorem isLegible_of_operator {s : String} (h : Kind.operator.Spells s) : IsLegible s where
  ne_nil hempty := h.1 (String.toList_eq_nil_iff.mp hempty)
  whole c hc := by
    have hnone := undelimited_iff.mp (by decide : operatorChars.all (!delimiters.contains ·) = true)
    exact hnone c (List.contains_iff_mem.mp (List.all_eq_true.mp h.2.1 c hc))

theorem isLegible_of_quotedName {s spelling : String} (h : (Kind.quotedName s).Spells spelling) :
    IsLegible s := by
  rcases h with hword | ⟨cs, hs, hall⟩
  · exact isLegible_of_isWord hword
  · exact isLegible_of_at hs fun c hc =>
      not_delimiter_of_isNameChar (List.all_eq_true.mp hall c hc)

end Token

/-!
## Identifiers of tables
-/

namespace Lowering

open Scope (candidate)

def legibleRules : IdentifierRules where
  key := IsLegible
  mention := IsLegible
  guard g := IsLegible g ∧ g ≠ "_"

theorem isLegible_candidate
    {hint : String} (h : forall c, c ∈ hint.toList -> c ∉ delimiters) (k : Nat) :
    IsLegible (candidate hint k) where
  ne_nil := by
    rw [Scope.candidate_toList]
    exact List.cons_ne_nil _ _
  whole := by
    intro c hc
    rw [Scope.candidate_toList, List.mem_cons, List.mem_append] at hc
    rcases hc with rfl | hdigit | hhint
    · decide
    · apply Token.not_delimiter_of_isNameChar
      rw [isNameChar, Nat.isDigit_of_mem_toDigits (by decide) (by decide) hdigit, Bool.or_true]
    · exact h c hhint

theorem candidate_ne_default (k : Nat) : candidate "" k ≠ "_" := by
  intro heq
  have hchars := congrArg String.toList heq
  rw [Scope.candidate_toList] at hchars
  have hdigits := (List.append_eq_nil_iff.mp (List.cons.inj hchars).2).1
  exact Nat.toDigits_ne_nil hdigits

theorem inherited_legibleRules : legibleRules.Inherited where
  mention _ h := h
  result := (by decide : IsLegible Table.resultId)
  fresh := isLegible_candidate (undelimited_iff.mp (by decide))
  shown _ h := isLegible_candidate h.whole
  guard k := ⟨isLegible_candidate (undelimited_iff.mp (by decide)) k, candidate_ne_default k⟩

theorem legible_of_lower
    {path : String} {source : Text} {extra : List String} {p : Program} {t : Table}
    (hparse : (parseSource path source).program = some p) (hlower : p.lower extra = .ok t) :
    Def.AllObey legibleRules t := by
  have hsuits := inherited_legibleRules.suits_names (fun _ => Token.isLegible_of_name)
    (fun _ => Token.isLegible_of_operator) fun _ _ => Token.isLegible_of_quotedName
  exact obeys_of_lower inherited_legibleRules hsuits hparse hlower

end Lowering
end DefTable
