import DefTable.Proofs.Token.Shape

/-!
# Where tokens stand in a text

The tokens of a text stand in it one behind the other.  What is left of the text before, between and
behind them is blanks and comments.  The line of a token counts the line ends in front of it, and
its column the characters since the last of these.
-/

namespace DefTable
namespace Token

/-!
## Blanks and comments
-/

def blanks : List Glyph :=
  [.char ' ', .char '\t', .char '\r', .char '\n']

/-- Blanks and comments, each comment with the line end that closes it. -/
inductive Gap : Text -> Prop where
  | nil : Gap []
  | blank {g : Glyph} {rest : Text} : g ∈ blanks -> Gap rest -> Gap (g :: rest)
  | comment {inside rest : Text} :
      .char '\n' ∉ inside -> Gap rest -> Gap (.char '#' :: inside ++ .char '\n' :: rest)

/-- Blanks and comments up to the end of the input, which closes the last comment if no line end
does. -/
inductive LastGap : Text -> Prop where
  | closed {t : Text} : Gap t -> LastGap t
  | cut {front inside : Text} :
      Gap front -> .char '\n' ∉ inside -> LastGap (front ++ .char '#' :: inside)

theorem isBlank_iff (g : Glyph) : isBlank g = true <-> g ∈ blanks := by
  simp [isBlank, blanks, or_assoc]

theorem Gap.lengthen
    {g : Glyph} {t : Text} (h : Gap (.char '#' :: t)) (hline : g ≠ .char '\n') :
    Gap (.char '#' :: g :: t) := by
  generalize ht : Glyph.char '#' :: t = whole at h
  cases h with
  | nil => cases ht
  | blank hblank _ =>
      cases ht
      exact absurd hblank (by decide)
  | comment hinside hrest =>
      cases ht
      exact .comment (List.not_mem_cons_of_ne_of_not_mem hline.symm hinside) hrest

theorem LastGap.lengthen
    {g : Glyph} {t : Text} (h : LastGap (.char '#' :: t)) (hline : g ≠ .char '\n') :
    LastGap (.char '#' :: g :: t) := by
  generalize ht : Glyph.char '#' :: t = whole at h
  cases h with
  | closed h =>
      subst ht
      exact .closed (h.lengthen hline)
  | @cut front inside hfront hinside =>
      cases front with
      | nil =>
          cases ht
          exact .cut .nil (List.not_mem_cons_of_ne_of_not_mem hline.symm hinside)
      | cons f front =>
          cases ht
          exact .cut (hfront.lengthen hline) hinside

theorem LastGap.behind
    {t u : Text} (h : LastGap u) (hgap : forall v, Gap v -> Gap (t ++ v)) : LastGap (t ++ u) := by
  cases h with
  | closed h => exact .closed (hgap u h)
  | @cut front inside hfront hinside =>
      rw [← List.append_assoc]
      exact .cut (hgap front hfront) hinside

def opening (inComment : Bool) : Text :=
  if inComment then [.char '#'] else []

theorem gap_blankLength (inComment : Bool) (t : Text) :
    Gap (opening inComment ++ t.take (blankLength inComment t)) ∨
      blankLength inComment t = t.length ∧ LastGap (opening inComment ++ t) := by
  fun_induction blankLength inComment t with
  | case1 inComment =>
      cases inComment with
      | false => exact .inl .nil
      | true => exact .inr ⟨rfl, .cut .nil List.not_mem_nil⟩
  | case2 g rest ih =>
      by_cases hline : g = .char '\n'
      · have hcomment : forall v, Gap v -> Gap ([.char '#', .char '\n'] ++ v) :=
          fun v => .comment List.not_mem_nil
        subst hline
        exact ih.imp (hcomment _) fun h => ⟨congrArg (· + 1) h.1, h.2.behind hcomment⟩
      · rw [decide_eq_true hline] at ih ⊢
        exact ih.imp (fun h => h.lengthen hline)
          fun h => ⟨congrArg (· + 1) h.1, h.2.lengthen hline⟩
  | case3 inComment g rest hout hblank ih =>
      have hmem := (isBlank_iff g).mp hblank
      have hgap : forall v, Gap v -> Gap ([g] ++ v) := fun v => .blank hmem
      rw [Bool.eq_false_iff.mpr hout]
      exact ih.imp (hgap _) fun h => ⟨congrArg (· + 1) h.1, h.2.behind hgap⟩
  | case4 inComment rest hout _ ih =>
      rw [Bool.eq_false_iff.mpr hout]
      exact ih.imp id fun h => ⟨congrArg (· + 1) h.1, h.2⟩
  | case5 inComment g rest hout =>
      rw [Bool.eq_false_iff.mpr hout]
      exact .inl .nil

/-!
## Places
-/

/-- The place of the character behind others: one line more than line ends stand before it, and one
column more than characters since the last of them. -/
def placeBehind (before : List Char) : Position where
  line := before.count '\n' + 1
  column := (before.reverse.takeWhile (· ≠ '\n')).length + 1

theorem step_placeBehind (before : List Char) (g : Glyph) :
    (placeBehind before).step g = placeBehind (before ++ [g.toChar]) := by
  unfold Position.step placeBehind
  rw [List.count_append, List.reverse_append]
  by_cases hline : g.toChar = '\n'
  · simp [hline]
  · simp [hline]

theorem after_start (t : Text) : Position.start.after t = placeBehind t.chars := by
  induction t using List.reverseRecOn with
  | nil => rfl
  | append_singleton t g ih =>
      rw [Machine.place_snoc, ih, step_placeBehind, Text.chars, Text.chars, List.map_append]
      rfl

/-!
## Lexemes
-/

theorem chars_decode_lexemeOf
    {g : Glyph} {rest : Text} (h : Text.Readable (g :: rest)) :
    (Text.decode (lexemeOf [] (extent g rest) g rest).bytes).chars =
      Text.chars (g :: rest.take (extent g rest).more) := by
  have hpiece : forall n, Text.Readable (g :: rest.take n) := by
    intro n
    have hsplit : g :: rest = g :: rest.take n ++ rest.drop n := by
      rw [List.cons_append, List.take_append_drop]
    rw [hsplit] at h
    exact h.left
  rcases lexemeOf_cases [] g rest with hlexeme | hstring | hstray
  · rw [hlexeme, hpiece]
  · have hlexeme : lexemeOf [] ⟨.illegal .unterminatedString, rest.length⟩ g rest =
        g :: rest.take rest.length := by
      rw [List.take_length]
      exact List.append_nil _
    rw [hstring, hlexeme, hpiece]
  · have hchar : Text.decode (Text.bytes [.char g.toChar]) = [.char g.toChar] :=
      Text.decode_char g.toChar []
    have hchars := congrArg Text.chars hchar
    rw [hstray]
    exact hchars

/-!
## The whole text
-/

/-- The tokens stand in `rest`, which goes on behind `before`, one behind the other with gaps
between them.  Each one is placed where the stretch of text starts that its lexeme is read as, and
the last one, which alone marks the end of the input, where the text ends. -/
inductive Laid : Text -> Text -> List Token -> Prop where
  | last {before gap : Text} {t : Token} :
      LastGap gap -> t.kind = .endOfInput -> t.lexeme = [] ->
      t.position = placeBehind (before ++ gap).chars -> Laid before gap [t]
  | token {before gap piece rest : Text} {t : Token} {ts : List Token} :
      Gap gap -> t.kind ≠ .endOfInput -> piece ≠ [] ->
      (Text.decode t.lexeme.bytes).chars = piece.chars ->
      t.position = placeBehind (before ++ gap).chars ->
      Laid (before ++ gap ++ piece) rest ts -> Laid before (gap ++ piece ++ rest) (t :: ts)

theorem after_append (p : Position) (t u : Text) : p.after (t ++ u) = (p.after t).after u :=
  List.foldl_append

theorem laid_scanFrom
    (before : Text) {t : Text} (hreadable : Text.Readable (before ++ t)) (hnul : .char '\x00' ∉ t) :
    Laid before t (scanFrom [] (Position.start.after before) t) := by
  induction hlength : t.length using Nat.strongRecOn generalizing before t with
  | _ n ih =>
      have hgap := gap_blankLength false t
      have hsplit := List.take_append_drop (blankLength false t) t
      rw [scanFrom_eq, ← after_append]
      generalize t.take (blankLength false t) = gap at hgap hsplit ⊢
      cases hdrop : t.drop (blankLength false t) with
      | nil =>
          rw [hdrop, List.append_nil] at hsplit
          subst hsplit
          exact .last (hgap.elim .closed (·.2)) rfl rfl (after_start _)
      | cons g rest =>
          have hclosed : Gap gap := by
            refine hgap.resolve_right fun hall => ?_
            rw [hall.1, List.drop_length] at hdrop
            cases hdrop
          have hrest : .char '\x00' ∉ rest := fun hmem =>
            hnul (List.mem_of_mem_drop (hdrop ▸ List.mem_cons_of_mem g hmem))
          have hpieces : gap ++ (g :: rest.take (extent g rest).more) ++
              rest.drop (extent g rest).more = t := by
            rw [List.append_assoc, List.cons_append, List.take_append_drop, ← hdrop, hsplit]
          have hbehind : (rest.drop (extent g rest).more).length < n := by
            have hcount := congrArg List.length hdrop
            rw [List.length_drop, List.length_cons] at hcount
            rw [List.length_drop]
            omega
          have hstart : Text.Readable (g :: rest) := by
            rw [← hsplit, hdrop] at hreadable
            exact hreadable.right.right
          have hwhole : Text.Readable (before ++ gap ++ (g :: rest.take (extent g rest).more) ++
              rest.drop (extent g rest).more) := by
            rwa [List.append_assoc before, List.append_assoc before, hpieces]
          have hlater := ih _ hbehind _ hwhole (fun hmem => hrest (List.mem_of_mem_drop hmem)) rfl
          rw [after_append] at hlater
          rw [← hpieces]
          exact .token hclosed (proper_extent hrest).ne_endOfInput (List.cons_ne_nil g _)
            (chars_decode_lexemeOf hstart) (after_start _) hlater

end Token

namespace Machine

open Token (Laid)

theorem nul_not_mem_decode {input : List UInt8} (h : 0 ∉ input) :
    .char '\x00' ∉ Text.decode input := by
  intro hmem
  rw [← Text.bytes_decode input] at h
  exact h (List.mem_flatMap.mpr ⟨_, hmem, by decide⟩)

/-- Scanning an input without NUL ends.  The tokens and gaps between them make up the decoded
input, and every token is placed exactly. -/
theorem tokenize_laid {input : List UInt8} (h : 0 ∉ input) :
    exists ts, tokenize input = pure ts ∧ Laid [] (Text.decode input) ts := by
  have hnul := nul_not_mem_decode h
  refine ⟨_, tokenize_eq input, ?_⟩
  rw [Token.scan_of_noNul hnul]
  exact Token.laid_scanFrom [] (Text.readable_decode input) hnul

theorem tokenize_laid_stray :
    let input : List UInt8 := [0x78, 0x3D, 0x22, 0x0A, 0xFF, 0x22, 0x20, 0xFE, 0x23, 0x21]
    0 ∉ input ∧ exists ts, tokenize input = pure ts ∧ Laid [] (Text.decode input) ts :=
  ⟨by decide, tokenize_laid (by decide)⟩

end Machine
end DefTable
