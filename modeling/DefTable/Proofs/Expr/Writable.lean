import DefTable.Expr.Source
import DefTable.Proofs.Expr.Named
import DefTable.Proofs.Token.Spelling

/-!
# What can be written

Not every expression has a text: a name may be no word, a number may be infinite.  Here it is stated
which names and which expressions can be written so that the text can be read again.
-/

namespace DefTable
namespace Source

open Token (IsWord)

/-!
## Names that can be written
-/

def IsAsciiWord (cs : List Char) : Prop :=
  exists c rest, cs = c :: rest ∧ (c.isAlpha || c == '_') = true ∧ rest.all isWordChar = true

def IsKeyword (s : String) : Prop :=
  s ∈ Token.Kind.keywords.map Prod.fst

instance : DecidablePred IsKeyword :=
  fun s => inferInstanceAs (Decidable (s ∈ Token.Kind.keywords.map Prod.fst))

def IsDeclarableName (s : String) : Prop :=
  IsWord s.toList ∧ ¬ IsKeyword s

def IsGlobalName (s : String) : Prop :=
  exists cs, s.toList = '@' :: cs ∧ IsAsciiWord cs

def IsOperatorName (s : String) : Prop :=
  s ≠ "" ∧ s.toList.all Token.operatorChars.contains = true ∧ s ≠ "=" ∧ s ≠ "->"

/-- What can stand between backticks: a word, or letters and digits after `@`. -/
def IsQuotableName (s : String) : Prop :=
  IsAsciiWord s.toList ∨ exists cs, s.toList = '@' :: cs ∧ cs ≠ [] ∧ cs.all isWordChar = true

/-- Declared names are written as they are.  All others are written as words only if they are ASCII,
and like operators if they are not. -/
def writableNames : NameRules where
  declared := IsDeclarableName
  parameter := IsDeclarableName
  reference s := (IsAsciiWord s.toList ∧ ¬ IsKeyword s) ∨ IsGlobalName s ∨ IsOperatorName s
  operator s := IsQuotableName s ∨ IsOperatorName s

theorem isNameChar_of_isWordChar {c : Char} (h : isWordChar c = true) : isNameChar c = true := by
  simp only [isWordChar, Char.isAlphanum, Bool.or_eq_true] at h
  simp only [isNameChar, isNameStart, Bool.or_eq_true]
  rcases h with (halpha | hdigit) | hunderscore
  · exact Or.inl (Or.inl (Or.inl halpha))
  · exact Or.inr hdigit
  · exact Or.inl (Or.inl (Or.inr hunderscore))

theorem IsAsciiWord.isWord {cs : List Char} (h : IsAsciiWord cs) : IsWord cs := by
  rcases h with ⟨c, rest, rfl, hc, hrest⟩
  refine ⟨c, rest, rfl, ?_, ?_⟩
  · rw [isNameStart, hc, Bool.true_or]
  · rw [List.all_eq_true] at hrest ⊢
    exact fun d hd => isNameChar_of_isWordChar (hrest d hd)

theorem IsAsciiWord.all {cs : List Char} (h : IsAsciiWord cs) : cs.all isWordChar = true := by
  rcases h with ⟨c, rest, rfl, hc, hrest⟩
  rw [List.all_cons, hrest, Bool.and_true]
  simp only [isWordChar, Char.isAlphanum, Bool.or_eq_true] at hc ⊢
  rcases hc with halpha | hunderscore
  · exact Or.inl (Or.inl halpha)
  · exact Or.inr hunderscore

theorem IsAsciiWord.ne_nil {cs : List Char} (h : IsAsciiWord cs) : cs ≠ [] := by
  rcases h with ⟨c, rest, rfl, _⟩
  exact List.cons_ne_nil c rest

theorem isWord_of_at {s : String} {cs : List Char} (hs : s.toList = '@' :: cs) :
    isWord s = (!cs.isEmpty && cs.all isWordChar) := by
  unfold isWord
  rw [hs]
  rfl

theorem isWord_of_not_at {s : String} (hs : forall cs, s.toList ≠ '@' :: cs) :
    isWord s = (!s.toList.isEmpty && s.toList.all isWordChar) := by
  unfold isWord
  split
  · rename_i cs heq
    exact absurd heq (hs cs)
  · rfl

theorem isWord_of_isAsciiWord {s : String} (h : IsAsciiWord s.toList) : isWord s = true := by
  have hempty : s.toList.isEmpty = false := by simpa using h.ne_nil
  rw [isWord_of_not_at, hempty, h.all, Bool.not_false, Bool.and_true]
  intro cs heq
  have hall := h.all
  rw [heq] at hall
  cases hall

theorem isWord_of_isQuotableName {s : String} (h : IsQuotableName s) : isWord s = true := by
  rcases h with hword | ⟨cs, hs, hne, hall⟩
  · exact isWord_of_isAsciiWord hword
  · have hempty : cs.isEmpty = false := by simpa using hne
    rw [isWord_of_at hs, hempty, hall, Bool.not_false, Bool.and_true]

theorem IsGlobalName.isQuotableName {s : String} (h : IsGlobalName s) : IsQuotableName s := by
  rcases h with ⟨cs, hs, hcs⟩
  exact Or.inr ⟨cs, hs, hcs.ne_nil, hcs.all⟩

theorem IsQuotableName.scannable {s : String} (h : IsQuotableName s) :
    IsWord s.toList ∨ exists cs, s.toList = '@' :: cs ∧ cs.all isNameChar = true := by
  rcases h with hword | ⟨cs, hs, _, hall⟩
  · exact Or.inl hword.isWord
  · refine Or.inr ⟨cs, hs, ?_⟩
    rw [List.all_eq_true] at hall ⊢
    exact fun c hc => isNameChar_of_isWordChar (hall c hc)

theorem not_isWord_of_isOperatorName {s : String} (h : IsOperatorName s) : isWord s = false := by
  have hchars : Token.operatorChars.all (fun c => c ≠ '@' ∧ isWordChar c = false) = true := by
    decide
  cases hs : s.toList with
  | nil => exact absurd (String.toList_eq_nil_iff.mp hs) h.1
  | cons c cs =>
      have hall := h.2.1
      rw [hs, List.all_cons, Bool.and_eq_true] at hall
      have hc := of_decide_eq_true
        (List.all_eq_true.mp hchars c (List.contains_iff_mem.mp hall.1))
      rw [isWord_of_not_at, hs, List.all_cons, hc.2, Bool.false_and, Bool.and_false]
      intro cs' heq
      rw [hs] at heq
      exact hc.1 (List.cons.inj heq).1

theorem punctuation_of_isOperatorName {s : String} (h : IsOperatorName s) :
    Token.Kind.punctuation? s = none := by
  have hlabels : forall k, k ∈ Token.Kind.punctuation ->
      k.label = "=" ∨ k.label = "->" ∨
        k.label.toList.all Token.operatorChars.contains = false := by
    decide
  rw [Token.Kind.punctuation?, List.find?_eq_none]
  intro k hk heq
  have heq : k.label = s := of_decide_eq_true heq
  rcases hlabels k hk with hassign | harrow | hother
  · exact h.2.2.1 (heq.symm.trans hassign)
  · exact h.2.2.2 (heq.symm.trans harrow)
  · rw [heq, h.2.1] at hother
    cases hother

theorem ofWord_of_not_isKeyword {s : String} (h : ¬ IsKeyword s) :
    Token.Kind.ofWord s = .name := by
  unfold Token.Kind.ofWord
  cases hlookup : Token.Kind.keywords.lookup s with
  | none => rfl
  | some kind =>
      rcases List.lookup_eq_some_iff.mp hlookup with ⟨before, after, hsplit, _⟩
      apply absurd _ h
      unfold IsKeyword
      rw [hsplit]
      simp

/-!
## Expressions that can be written
-/

def isNegativeNumber : Expr -> Bool
  | .number _ v => v.isNegative
  | _ => false

mutual

/-- Nothing is missing, every function has a parameter, strings have no NUL and numbers are finite.
A number with a sign does not follow another operand side by side, where the sign would be an
operator. -/
def Writable : Expr -> Prop
  | .hole => False
  | .ident _ => True
  | .number _ v => v.isFinite = true
  | .string _ v => '\x00' ∉ v.toList
  | .bool _ _ => True
  | .null _ => True
  | .group _ e => Writable e
  | .letIn _ _ _ value body => Writable value ∧ Writable body
  | .binary _ left op right =>
      Writable left ∧ Writable right ∧ (op = .apply -> isNegativeNumber right = false)
  | .list _ es => AllWritable es
  | .cond _ test yes no => Writable test ∧ Writable yes ∧ Writable no
  | .lambda _ params body => params ≠ [] ∧ Writable body

def AllWritable : List Expr -> Prop
  | [] => True
  | e :: es => Writable e ∧ AllWritable es

end

end Source
end DefTable
