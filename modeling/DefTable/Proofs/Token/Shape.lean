import DefTable.Proofs.Machine.Scanning

/-!
# The shapes of tokens

Which glyphs a token takes is decided by the one it starts with and the text behind it.  The shapes
are told apart here once: what is known of every token of a text is then a case analysis over them.
A string that is closed can always be read, because the backslashes in it are counted in the same
way by the search for its closing quote and by its reader.
-/

namespace DefTable
namespace Token

/-!
## Strings that are closed
-/

theorem ne_backslash_of_closed
    {c : Glyph} {rest : Text} {n : Nat} (h : closingQuote? rest = some n)
    (hescape : forall e more, c = .char '\\' -> rest = e :: more -> False) : c ≠ .char '\\' := by
  rintro rfl
  cases rest with
  | nil => cases h
  | cons e rest => exact hescape e rest rfl rfl

theorem take_closingQuote
    {t : Text} {n : Nat} (h : closingQuote? t = some n) :
    exists body cs, t.take n = body ++ [.char '"'] ∧ StringLiteral.unescape body = some cs := by
  fun_induction closingQuote? t generalizing n with
  | case1 => cases h
  | case2 rest =>
      cases h
      exact ⟨[], [], rfl, rfl⟩
  | case3 e rest ih =>
      rcases Option.map_eq_some_iff.mp h with ⟨m, hm, rfl⟩
      rcases ih hm with ⟨body, cs, htake, hunescape⟩
      refine ⟨.char '\\' :: e :: body, StringLiteral.escaped e.toChar :: cs, ?_, ?_⟩
      · rw [List.take_succ_cons, List.take_succ_cons, htake]
        rfl
      · rw [StringLiteral.unescape, hunescape]
        rfl
  | case4 c rest hquote hescape ih =>
      rcases Option.map_eq_some_iff.mp h with ⟨m, hm, rfl⟩
      rcases ih hm with ⟨body, cs, htake, hunescape⟩
      have hplain := ne_backslash_of_closed hm hescape
      refine ⟨c :: body, c.toChar :: cs, ?_, ?_⟩
      · rw [List.take_succ_cons, htake]
        rfl
      · rw [StringLiteral.unescape, hunescape]
        · rfl
        · exact fun heq => absurd heq hplain
        · exact fun _ _ heq => absurd heq hplain

theorem read_closed {rest : Text} {n : Nat} (h : closingQuote? rest = some n) :
    exists v, StringLiteral.read (.char '"' :: rest.take n) = .ok v := by
  rcases take_closingQuote h with ⟨body, cs, htake, hunescape⟩
  refine ⟨String.ofList cs, ?_⟩
  rw [htake, StringLiteral.read, content?_quoted]
  dsimp only
  rw [hunescape]

/-!
## Shapes
-/

/-- The token that starts with a glyph before a text, by what it looks like. -/
inductive Shape : Glyph -> Text -> Extent -> Prop where
  | string {rest : Text} {n : Nat} {v : String} :
      closingQuote? rest = some n -> StringLiteral.read (.char '"' :: rest.take n) = .ok v ->
      Shape (.char '"') rest ⟨.string v, n⟩
  | unterminatedString {rest : Text} :
      Shape (.char '"') rest ⟨.illegal .unterminatedString, rest.length⟩
  | quotedName {g : Glyph} {tail : Text} {n : Nat} :
      (isNameStart g.toChar || g = .char '@') = true -> runLength isWordGlyph tail = n ->
      tail[n]? = some (.char '`') ->
      Shape (.char '`') (g :: tail) ⟨.quotedName (Text.toString (g :: tail.take n)), n + 2⟩
  | unterminatedName {g : Glyph} {tail : Text} {n : Nat} :
      Shape (.char '`') (g :: tail) ⟨.illegal .unterminatedName, n⟩
  | missingName {rest : Text} : Shape (.char '`') rest ⟨.illegal .missingName, 0⟩
  | global {rest : Text} :
      startsName rest = true -> Shape (.char '@') rest ⟨.name, runLength isWordGlyph rest⟩
  | loneAt {rest : Text} : Shape (.char '@') rest ⟨.illegal .loneAt, 0⟩
  | word {g : Glyph} {rest : Text} {n : Nat} :
      isNameStart g.toChar = true -> runLength isWordGlyph rest = n ->
      Shape g rest ⟨Kind.ofWord (Text.toString (g :: rest.take n)), n⟩
  | numeral {g : Glyph} {rest : Text} {n : Nat} {x : Number} :
      g.toChar.isDigit = true -> numeralLength (g :: rest) = n + 1 ->
      Numeral.read (g :: rest.take n) = .ok x -> Shape g rest ⟨.number x, n⟩
  | malformedNumeral {g : Glyph} {rest : Text} {n : Nat} {e : Numeral.Error} :
      Shape g rest ⟨.illegal (.numeral e), n⟩
  | operator {g : Glyph} {rest : Text} {n : Nat} :
      isOperatorGlyph g = true -> runLength isOperatorGlyph rest = n ->
      Shape g rest
        ⟨(Kind.punctuation? (Text.toString (g :: rest.take n))).getD .operator, n⟩
  | mark {c : Char} {rest : Text} {kind : Kind} :
      kind ∈ marks -> kind.label = String.singleton c -> Shape (.char c) rest ⟨kind, 0⟩
  | unexpected {g : Glyph} {rest : Text} :
      g.toChar ≠ '"' -> Shape g rest ⟨.illegal (.unexpected g.toChar), 0⟩

theorem stringExtent_cases (rest : Text) :
    stringExtent rest = ⟨.illegal .unterminatedString, rest.length⟩ ∨
      exists v n, stringExtent rest = ⟨.string v, n⟩ ∧ closingQuote? rest = some n ∧
        StringLiteral.read (.char '"' :: rest.take n) = .ok v := by
  unfold stringExtent
  cases hclosed : closingQuote? rest with
  | none => exact .inl rfl
  | some n =>
      rcases read_closed hclosed with ⟨v, hread⟩
      dsimp only
      rw [hread]
      exact .inr ⟨v, n, rfl, rfl, hread⟩

theorem shape_stringExtent (rest : Text) : Shape (.char '"') rest (stringExtent rest) := by
  rcases stringExtent_cases rest with hopen | ⟨v, n, hstring, hclosed, hread⟩
  · rw [hopen]
    exact .unterminatedString
  · rw [hstring]
    exact .string hclosed hread

theorem shape_quotedNameExtent (rest : Text) :
    Shape (.char '`') rest (quotedNameExtent rest) := by
  cases rest with
  | nil => exact .missingName
  | cons g tail =>
      rw [quotedNameExtent]
      by_cases hfirst : (isNameStart g.toChar || g = .char '@') = true
      · rw [if_pos hfirst]
        dsimp only
        rw [List.getElem?_cons_succ, List.take_succ_cons]
        split
        · rename_i hclosed
          exact .quotedName hfirst rfl hclosed
        · exact .unterminatedName
      · rw [if_neg hfirst]
        exact .missingName

theorem numeralLength_pos {g : Glyph} (hg : g.toChar.isDigit = true) (rest : Text) :
    exists n, numeralLength (g :: rest) = n + 1 := by
  have hrun := Machine.numeralRun_pos (isWordGlyph_of_digit hg) (!isRadixMark (g :: rest)) rest
  rw [Machine.numeralLength_eq]
  exact Nat.exists_eq_add_one.mpr (Nat.add_pos_left hrun _)

theorem shape_numeralExtent {g : Glyph} (hg : g.toChar.isDigit = true) (rest : Text) :
    Shape g rest (numeralExtent g rest) := by
  rcases numeralLength_pos hg rest with ⟨n, hlength⟩
  unfold numeralExtent
  dsimp only
  rw [hlength, List.take_succ_cons, Nat.add_sub_cancel]
  split
  · rename_i x hread
    exact .numeral hg hlength hread
  · exact .malformedNumeral

theorem mark_of_punctuation
    {g : Glyph} {kind : Kind} (hoperator : isOperatorGlyph g = false)
    (h : Kind.punctuation? (String.singleton g.toChar) = some kind) :
    exists c, g = .char c ∧ kind ∈ marks ∧ kind.label = String.singleton c := by
  have hlabel : kind.label = String.singleton g.toChar := by
    have hfound := h
    unfold Kind.punctuation? at hfound
    have htrue := List.find?_some hfound
    exact of_decide_eq_true htrue
  have hmem := List.mem_of_find?_eq_some h
  have hmark : kind ∈ marks := by
    simp only [Kind.punctuation, List.mem_cons, List.not_mem_nil, or_false] at hmem
    rcases hmem with rfl | rfl | rfl | rfl | rfl | rfl | rfl | rfl | rfl
    case inl =>
      have hchar : g.toChar = '=' := by
        simpa [Kind.label] using (congrArg String.toList hlabel).symm
      rw [isOperatorGlyph, hchar] at hoperator
      cases hoperator
    case inr.inl =>
      have hlength := congrArg (fun s => s.toList.length) hlabel
      simp [Kind.label] at hlength
    all_goals simp [marks]
  rcases char_of_punctuation h with ⟨c, rfl⟩
  exact ⟨c, rfl, hmark, hlabel⟩

theorem shape_extent (g : Glyph) (rest : Text) : Shape g rest (extent g rest) := by
  have hglyph : forall {c : Char}, c ≠ '\uFFFD' -> g.toChar = c -> g = .char c :=
    fun hc => (Machine.toChar_eq_iff hc g).mp
  unfold extent
  dsimp only
  split
  · rename_i hquote
    rw [hglyph (by decide) hquote]
    exact shape_stringExtent rest
  · rename_i hquote
    split
    · rename_i htick
      rw [hglyph (by decide) htick]
      exact shape_quotedNameExtent rest
    · split
      · rename_i hat
        rw [hglyph (by decide) hat]
        split
        · rename_i hstarts
          exact .global hstarts
        · exact .loneAt
      · split
        · rename_i hstart
          exact .word hstart rfl
        · split
          · rename_i hdigit
            exact shape_numeralExtent hdigit rest
          · split
            · rename_i hoperator
              exact .operator hoperator rfl
            · rename_i hoperator
              split
              · rename_i kind hpunctuation
                rcases mark_of_punctuation (Bool.eq_false_iff.mpr hoperator) hpunctuation with
                  ⟨c, rfl, hmark, hlabel⟩
                exact .mark hmark hlabel
              · exact .unexpected hquote

/-!
## Lexemes
-/

/-- The lexeme of a token is the stretch of text that it takes.  There are two exceptions: a string
that is never closed also takes what lies beyond the end of the input, and a stray byte is shown as
it is read. -/
theorem lexemeOf_cases (beyond : Text) (g : Glyph) (rest : Text) :
    lexemeOf beyond (extent g rest) g rest = g :: rest.take (extent g rest).more ∨
      extent g rest = ⟨.illegal .unterminatedString, rest.length⟩ ∨
      extent g rest = ⟨.illegal (.unexpected g.toChar), 0⟩ := by
  have hshape := shape_extent g rest
  generalize extent g rest = e at hshape ⊢
  cases hshape with
  | unterminatedString => exact .inr (.inl rfl)
  | unexpected => exact .inr (.inr rfl)
  | word => exact .inl (lexemeOf_legal (plain_ofWord _).legal _ _ _)
  | operator => exact .inl (lexemeOf_legal (plain_operator _).legal _ _ _)
  | mark hmark => exact .inl (lexemeOf_legal (plain_mark hmark).legal _ _ _)
  | _ => exact .inl rfl

end Token
end DefTable
