import DefTable.Token.Scan

/-!
# How scanned tokens are spelled

Every token that the scanner returns, the end mark aside, comes from one glyph and the text after
it.  From this follows what the names and operators of a scanned text look like: a name is a word or
`@` and a word, an operator is a run of operator characters that is no punctuation.
-/

namespace DefTable
namespace Token

def IsWord (cs : List Char) : Prop :=
  exists c rest, cs = c :: rest ∧ isNameStart c = true ∧ rest.all isNameChar = true

namespace Kind

def Spells : Kind -> String -> Prop
  | .name, s =>
      (IsWord s.toList ∧ ofWord s = .name) ∨ exists cs, s.toList = '@' :: cs ∧ IsWord cs
  | .operator, s =>
      s ≠ "" ∧ s.toList.all operatorChars.contains = true ∧ punctuation? s = none
  | .quotedName n, _ =>
      IsWord n.toList ∨ exists cs, n.toList = '@' :: cs ∧ cs.all isNameChar = true
  | _, _ => True

end Kind

def Spelled (t : Token) : Prop :=
  t.kind.Spells t.spelling

/-!
## Runs of glyphs
-/

theorem take_runLength (p : Glyph -> Bool) (t : Text) :
    t.take (runLength p t) = t.takeWhile p := by
  induction t with
  | nil => rfl
  | cons g rest ih =>
      unfold runLength at ih ⊢
      by_cases hg : p g = true
      · rw [List.takeWhile_cons_of_pos hg, List.length_cons, List.take_succ_cons, ih]
      · rw [List.takeWhile_cons_of_neg hg]
        rfl

theorem all_take_runLength (p : Glyph -> Bool) (t : Text) :
    forall g, g ∈ t.take (runLength p t) -> p g = true := by
  rw [take_runLength]
  exact List.all_eq_true.mp List.all_takeWhile

theorem isWordGlyph_of_start {g : Glyph} (h : isNameStart g.toChar = true) :
    isWordGlyph g = true := by
  rw [isWordGlyph, isNameChar, h, Bool.true_or]

theorem isWordGlyph_of_digit {g : Glyph} (h : g.toChar.isDigit = true) : isWordGlyph g = true := by
  rw [isWordGlyph, isNameChar, h, Bool.or_true]

theorem all_takeWhile_chars
    {p : Glyph -> Bool} {q : Char -> Bool} (hpq : forall g, p g = q g.toChar) (t : Text) :
    (Text.chars (t.takeWhile p)).all q = true := by
  rw [Text.chars, List.all_map, List.all_eq_true]
  intro g hg
  exact (hpq g).symm.trans (List.all_eq_true.mp List.all_takeWhile g hg)

theorem toList_toString (t : Text) : t.toString.toList = t.chars :=
  String.toList_ofList

theorem isWord_of_run
    {g : Glyph} {rest : Text} (hstart : isNameStart g.toChar = true) :
    IsWord (Text.toString (g :: rest.take (runLength isWordGlyph rest))).toList := by
  rw [toList_toString, take_runLength]
  exact ⟨g.toChar, Text.chars (rest.takeWhile isWordGlyph), rfl, hstart,
    all_takeWhile_chars (fun _ => rfl) rest⟩

/-!
## Kinds without a value
-/

/-- The kind is of a word or a mark: it carries neither a value nor a fault. -/
def Kind.Plain : Kind -> Prop
  | .endOfInput => False
  | .illegal _ => False
  | .number _ => False
  | .string _ => False
  | .quotedName _ => False
  | _ => True

theorem Kind.Plain.legal {kind : Kind} (h : kind.Plain) (f : Fault) : kind ≠ .illegal f := by
  rintro rfl
  exact h

theorem Kind.Plain.ne_number {kind : Kind} (h : kind.Plain) (x : Number) : kind ≠ .number x := by
  rintro rfl
  exact h

/-- The kind of a keyword or a mark, which is spelled in one way only. -/
structure Kind.Fixed (kind : Kind) : Prop where
  plain : kind.Plain
  ne_name : kind ≠ .name
  ne_operator : kind ≠ .operator

theorem Kind.Fixed.spells {kind : Kind} (h : kind.Fixed) (s : String) : kind.Spells s := by
  cases kind with
  | name => exact absurd rfl h.ne_name
  | operator => exact absurd rfl h.ne_operator
  | quotedName _ => exact h.plain.elim
  | _ => trivial

theorem fixed_keyword {p : String × Kind} (hp : p ∈ Kind.keywords) : p.2.Fixed := by
  simp only [Kind.keywords, List.mem_cons, List.not_mem_nil, or_false] at hp
  rcases hp with rfl | rfl | rfl | rfl | rfl | rfl | rfl | rfl <;> exact ⟨trivial, nofun, nofun⟩

theorem fixed_mark {kind : Kind} (h : kind ∈ Kind.punctuation) : kind.Fixed := by
  simp only [Kind.punctuation, List.mem_cons, List.not_mem_nil, or_false] at h
  rcases h with rfl | rfl | rfl | rfl | rfl | rfl | rfl | rfl | rfl <;>
    exact ⟨trivial, nofun, nofun⟩

theorem fixed_punctuation {s : String} {kind : Kind} (h : Kind.punctuation? s = some kind) :
    kind.Fixed :=
  fixed_mark (List.mem_of_find?_eq_some h)

theorem ofWord_cases (word : String) :
    Kind.ofWord word = .name ∨ (Kind.ofWord word).Fixed := by
  unfold Kind.ofWord
  cases hlookup : Kind.keywords.lookup word with
  | none => exact Or.inl rfl
  | some kind =>
      have hmem : (word, kind) ∈ Kind.keywords := by
        rcases List.lookup_eq_some_iff.mp hlookup with ⟨before, after, hsplit, _⟩
        rw [hsplit]
        exact List.mem_append_right before List.mem_cons_self
      exact Or.inr (fixed_keyword hmem)

theorem plain_ofWord (word : String) : (Kind.ofWord word).Plain := by
  rcases ofWord_cases word with hname | hfixed
  · rw [hname]
    trivial
  · exact hfixed.plain

theorem spells_ofWord
    {word : String} (hword : IsWord word.toList) : (Kind.ofWord word).Spells word := by
  rcases ofWord_cases word with hname | hfixed
  · rw [hname]
    exact Or.inl ⟨hword, hname⟩
  · exact hfixed.spells word

theorem plain_operator (s : String) : ((Kind.punctuation? s).getD .operator).Plain := by
  cases hpunctuation : Kind.punctuation? s with
  | none => trivial
  | some kind => exact (fixed_punctuation hpunctuation).plain

theorem char_of_punctuation
    {g : Glyph} {kind : Kind} (h : Kind.punctuation? (String.singleton g.toChar) = some kind) :
    exists c, g = .char c := by
  cases g with
  | char c => exact ⟨c, rfl⟩
  | stray b =>
      have hnone : Kind.punctuation? (String.singleton '\uFFFD') = none := by decide
      cases hnone.symm.trans h

/-!
## One token
-/

theorem spells_quotedName (rest : Text) (spelling : String) :
    (quotedNameExtent rest).kind.Spells spelling := by
  cases rest with
  | nil => trivial
  | cons g tail =>
      rw [quotedNameExtent]
      by_cases hfirst : (isNameStart g.toChar || g = .char '@') = true
      · rw [if_pos hfirst]
        dsimp only
        split
        · rw [List.take_succ_cons]
          rcases Bool.or_eq_true _ _ ▸ hfirst with hstart | hat
          · exact Or.inl (isWord_of_run hstart)
          · have hg : g = .char '@' := of_decide_eq_true hat
            refine Or.inr ⟨Text.chars (tail.takeWhile isWordGlyph), ?_,
              all_takeWhile_chars (fun _ => rfl) tail⟩
            rw [toList_toString, take_runLength, hg]
            rfl
        · trivial
      · rw [if_neg hfirst]
        trivial

theorem spells_string (rest : Text) (spelling : String) :
    (stringExtent rest).kind.Spells spelling := by
  unfold stringExtent
  split
  · trivial
  · split <;> trivial

theorem spells_numeral (g : Glyph) (rest : Text) (spelling : String) :
    (numeralExtent g rest).kind.Spells spelling := by
  unfold numeralExtent
  dsimp only
  split <;> trivial

theorem spells_operator
    {g : Glyph} {rest : Text} (hoperator : isOperatorGlyph g = true) :
    let spelling := Text.toString (g :: rest.take (runLength isOperatorGlyph rest))
    ((Kind.punctuation? spelling).getD .operator).Spells spelling := by
  intro spelling
  cases hpunctuation : Kind.punctuation? spelling with
  | some kind => exact (fixed_punctuation hpunctuation).spells _
  | none =>
      have hchars : spelling.toList = Text.chars (g :: rest.takeWhile isOperatorGlyph) := by
        rw [toList_toString, take_runLength]
      refine ⟨?_, ?_, hpunctuation⟩
      · intro hempty
        rw [hempty] at hchars
        cases hchars
      · rw [hchars]
        change (operatorChars.contains g.toChar && _) = true
        rw [Bool.and_eq_true]
        exact ⟨hoperator, all_takeWhile_chars (fun _ => rfl) rest⟩

theorem spells_extent (g : Glyph) (rest : Text) :
    (extent g rest).kind.Spells (Text.toString (g :: rest.take (extent g rest).more)) := by
  unfold extent
  dsimp only
  split
  · exact spells_string rest _
  · split
    · exact spells_quotedName rest _
    · split
      · rename_i hat
        split
        · rename_i hstarts
          refine Or.inr ⟨Text.chars (rest.takeWhile isWordGlyph), ?_, ?_⟩
          · rw [toList_toString, take_runLength]
            change g.toChar :: _ = _
            rw [hat]
            rfl
          · cases rest with
            | nil => cases hstarts
            | cons h tail =>
                have hstart : isNameStart h.toChar = true := hstarts
                rw [List.takeWhile_cons_of_pos (isWordGlyph_of_start hstart)]
                exact ⟨h.toChar, Text.chars (tail.takeWhile isWordGlyph), rfl, hstart,
                  all_takeWhile_chars (fun _ => rfl) tail⟩
        · trivial
      · split
        · rename_i hstart
          exact spells_ofWord (isWord_of_run hstart)
        · split
          · exact spells_numeral g rest _
          · split
            · rename_i hoperator
              exact spells_operator hoperator
            · split
              · rename_i kind hpunctuation
                exact (fixed_punctuation hpunctuation).spells _
              · trivial

/-!
## The whole text
-/

theorem mem_scanFrom
    {beyond : Text} {p : Position} {text : Text} {t : Token} (ht : t ∈ scanFrom beyond p text) :
    (exists q, t = endAt q) ∨
      exists front g rest q, text = front ++ g :: rest ∧
        t = ⟨(extent g rest).kind, lexemeOf beyond (extent g rest) g rest, q⟩ := by
  rw [scanFrom] at ht
  split at ht
  · rw [List.mem_singleton] at ht
    exact Or.inl ⟨_, ht⟩
  · rename_i g rest hdrop
    have hsplit := List.take_append_drop (blankLength false text) text
    rw [hdrop] at hsplit
    rcases List.mem_cons.mp ht with hfirst | hlater
    · exact Or.inr ⟨_, g, rest, _, hsplit.symm, hfirst⟩
    · have hshorter : rest.length - (extent g rest).more < text.length := by
        have hlength := congrArg List.length hdrop
        rw [List.length_drop, List.length_cons] at hlength
        omega
      refine (mem_scanFrom hlater).imp id ?_
      rintro ⟨front, g', rest', q, htext, ht⟩
      refine ⟨text.take (blankLength false text) ++ g :: rest.take (extent g rest).more ++ front,
        g', rest', q, ?_, ht⟩
      rw [List.append_assoc, ← htext, List.append_assoc, List.cons_append, List.take_append_drop,
        hsplit]
termination_by text.length

theorem spelled_of_mem_scan
    {text : Text} {t : Token} (ht : t ∈ scan text) : t.Spelled := by
  rcases mem_scanFrom ht with ⟨q, rfl⟩ | ⟨_, g, rest, q, _, rfl⟩
  · trivial
  · have hspells := spells_extent g rest
    unfold Spelled spelling
    dsimp only
    unfold lexemeOf
    split
    · rename_i hkind
      rw [hkind]
      trivial
    · rename_i c hkind
      rw [hkind]
      trivial
    · exact hspells

end Token
end DefTable
