import DefTable.Proofs.Machine.Literals

/-!
# The scanner with a cursor scans

A token is taken by the character that it starts with, and the rest of the input is scanned from
where it ends.  So the scanner ends, and its tokens are those of the text.
-/

namespace DefTable
namespace Machine

open Text (Readable)
open Token (Kind)

section

variable {whole done todo : Text}

/-!
## Tokens by the glyph they start with
-/

section

variable {g : Glyph} {rest beyond : Text}

theorem Takes.ite
    {c : Prop} [Decidable c] {m m' : Scanner Token} {e e' : Token.Extent}
    (hpos : c -> Takes whole done beyond m g rest e)
    (hneg : ¬ c -> Takes whole done beyond m' g rest e') :
    Takes whole done beyond (if c then m else m') g rest (if c then e else e') := by
  by_cases hc : c
  · rw [if_pos hc, if_pos hc]
    exact hpos hc
  · rw [if_neg hc, if_neg hc]
    exact hneg hc

theorem readGlobal_takes
    (hwhole : Readable whole)
    (h : done ++ .char '@' :: (rest ++ beyond) = whole) (hbeyond : headChar beyond = nul) :
    Takes whole done beyond readGlobal (.char '@') rest
      (if Token.startsName rest then ⟨.name, Token.runLength Token.isWordGlyph rest⟩
        else ⟨.illegal .loneAt, 0⟩) := by
  have hstart : Token.startsName rest = isNameStart (headChar (rest ++ beyond)) :=
    any_head isNameStart (by decide) hbeyond rest
  unfold Takes readGlobal
  refine (Returns.get _).bind ((peek_returns hwhole h).bind ?_)
  rw [hstart]
  refine Takes.ite (fun _ => ?_) (fun _ => (advance_returns hwhole h).bind (.pure _ _))
  have hrun := advanceWhile_run hwhole isWordGlyph_eq (by decide) (split_snoc h) hbeyond
  rw [List.append_assoc] at hrun
  refine (advance_returns hwhole h).bind (Returns.bind hrun ?_)
  exact (lexeme_returns hwhole h _).bind (.pure _ _)

theorem readWord_takes
    (hwhole : Readable whole) (h : done ++ g :: (rest ++ beyond) = whole)
    (hbeyond : headChar beyond = nul) (hg : isNameStart g.toChar = true) :
    let n := Token.runLength Token.isWordGlyph rest
    Takes whole done beyond readWord g rest
      ⟨Kind.ofWord (Text.toString (g :: rest.take n)), n⟩ := by
  have hrun := advanceWhile_cons hwhole isWordGlyph_eq (by decide) h hbeyond
    (Token.isWordGlyph_of_start hg)
  unfold Takes readWord
  dsimp only
  rw [Token.lexemeOf_legal (Token.plain_ofWord _).legal]
  refine (Returns.get _).bind (hrun.bind ?_)
  exact (lexeme_returns hwhole h _).bind (.pure _ _)

theorem readOperator_takes
    (hwhole : Readable whole) (h : done ++ g :: (rest ++ beyond) = whole)
    (hbeyond : headChar beyond = nul) (hg : Token.isOperatorGlyph g = true) :
    let n := Token.runLength Token.isOperatorGlyph rest
    Takes whole done beyond readOperator g rest
      ⟨(Kind.punctuation? (Text.toString (g :: rest.take n))).getD .operator, n⟩ := by
  have hrun := advanceWhile_cons hwhole (fun _ => rfl) (by decide) h hbeyond hg
  unfold Takes readOperator
  dsimp only
  rw [Token.lexemeOf_legal (Token.plain_operator _).legal]
  refine (Returns.get _).bind (hrun.bind ?_)
  exact (lexeme_returns hwhole h _).bind (.pure _ _)

theorem readMark_takes
    (hwhole : Readable whole) (h : done ++ g :: (rest ++ beyond) = whole) :
    Takes whole done beyond readMark g rest
      (match Kind.punctuation? (String.singleton g.toChar) with
        | some kind => ⟨kind, 0⟩
        | none => ⟨.illegal (.unexpected g.toChar), 0⟩) := by
  have hadvance := advance_returns hwhole h
  have hcurrent : (cursor whole done (g :: (rest ++ beyond))).current = g.toChar := rfl
  unfold readMark
  refine (Returns.get _).bind (hadvance.bind ?_)
  rw [hcurrent]
  cases hmark : Kind.punctuation? (String.singleton g.toChar) with
  | none => exact .pure _ _
  | some kind =>
      rw [Token.lexemeOf_legal (Token.fixed_punctuation hmark).plain.legal, List.take_zero]
      rcases Token.char_of_punctuation hmark with ⟨c, rfl⟩
      exact .pure _ _

theorem takeToken_takes
    (hwhole : Readable whole) (h : done ++ g :: (rest ++ beyond) = whole)
    (hnul : .char nul ∉ g :: rest) (hbeyond : headChar beyond = nul) :
    Takes whole done beyond takeToken g rest (Token.extent g rest) := by
  rw [List.mem_cons, not_or] at hnul
  have hg : ¬ g.toChar = nul := StringLiteral.toChar_ne_nul (Ne.symm hnul.1)
  unfold Token.extent
  dsimp only
  unfold Takes takeToken
  refine (Returns.get _).bind (.neg hg ?_)
  refine Takes.ite (fun hquote => ?_) fun _ => .ite (fun htick => ?_) fun _ =>
    .ite (fun hat => ?_) fun _ => .ite (readWord_takes hwhole h hbeyond) fun _ =>
    .ite (readNumeral_takes hwhole h hbeyond) fun _ =>
    .ite (readOperator_takes hwhole h hbeyond) fun _ => readMark_takes hwhole h
  · have heq := (toChar_eq_iff (by decide) g).mp hquote
    subst heq
    exact readString_takes hwhole h hnul.2 hbeyond
  · have heq := (toChar_eq_iff (by decide) g).mp htick
    subst heq
    exact readQuotedName_takes hwhole h hbeyond
  · have heq := (toChar_eq_iff (by decide) g).mp hat
    subst heq
    exact readGlobal_takes hwhole h hbeyond

end

/-!
## All tokens
-/

theorem advance_end (h : done = whole) :
    exists l, Returns advance (cursor whole done []) () l := by
  have hend : ¬ (Text.bytes done).length + 1 < (Text.bytes whole).length := by
    rw [h]
    omega
  unfold advance
  exact ⟨_, (Returns.get _).bind (.neg hend (.set _ _))⟩

theorem takeToken_end
    (hwhole : Readable whole) (h : done ++ todo = whole) (hbeyond : headChar todo = nul) :
    exists l,
      Returns takeToken (cursor whole done todo) (.endAt (Position.start.after done)) l := by
  have hadvance : exists l, Returns advance (cursor whole done todo) () l := by
    cases todo with
    | nil => exact advance_end ((List.append_nil done).symm.trans h)
    | cons g todo => exact ⟨_, advance_returns hwhole h⟩
  rcases hadvance with ⟨l, hadvance⟩
  exact ⟨l, (Returns.get _).bind (.pos hbeyond (hadvance.bind (.pure _ _)))⟩

theorem remainingTokens_returns
    (hwhole : Readable whole) {t beyond : Text} (h : done ++ (t ++ beyond) = whole)
    (hnul : .char nul ∉ t) (hbeyond : headChar beyond = nul) :
    exists l, Returns remainingTokens (cursor whole done (t ++ beyond))
      (Token.scanFrom beyond (Position.start.after done) t) l := by
  induction hlength : t.length using Nat.strongRecOn generalizing done t with
  | _ n ih =>
      have hblanks := skipBlanks_returns hwhole h hnul hbeyond
      have hsplit := split_twice h (Token.blankLength false t)
      have hnul' : Glyph.char nul ∉ t.drop (Token.blankLength false t) :=
        fun hmem => hnul (List.mem_of_mem_drop hmem)
      have hshorter : (t.drop (Token.blankLength false t)).length ≤ n := by
        rw [List.length_drop]
        omega
      have hplace : (Position.start.after done).after (t.take (Token.blankLength false t)) =
          Position.start.after (done ++ t.take (Token.blankLength false t)) := by
        rw [Position.after, Position.after, Position.after, List.foldl_append]
      rw [remainingTokens, Token.scanFrom_eq, hplace]
      generalize done ++ t.take (Token.blankLength false t) = done at hblanks hsplit ⊢
      generalize t.drop (Token.blankLength false t) = rest at hblanks hsplit hnul' hshorter ⊢
      cases rest with
      | nil =>
          rcases takeToken_end hwhole hsplit hbeyond with ⟨l, hend⟩
          exact ⟨l, (hblanks.bind hend).bind (.pos rfl (.pure _ _))⟩
      | cons g rest =>
          have htakes : Returns takeToken (cursor whole done (g :: (rest ++ beyond))) _ _ :=
            takeToken_takes hwhole hsplit hnul' hbeyond
          have hproper : (Token.extent g rest).kind.Proper :=
            Token.proper_extent fun hmem => hnul' (List.mem_cons_of_mem g hmem)
          have hbehind : (rest.drop (Token.extent g rest).more).length < n := by
            rw [List.length_cons] at hshorter
            rw [List.length_drop]
            omega
          have hnext : done ++ g :: rest.take (Token.extent g rest).more ++
              (rest.drop (Token.extent g rest).more ++ beyond) = whole := by
            rw [List.append_assoc, List.cons_append, ← List.append_assoc (rest.take _),
              List.take_append_drop]
            exact hsplit
          rcases ih _ hbehind hnext
            (fun hmem => hnul' (List.mem_cons_of_mem g (List.mem_of_mem_drop hmem))) rfl
            with ⟨l, hrest⟩
          have hafter : (Position.start.after done).after
              (g :: rest.take (Token.extent g rest).more) =
                Position.start.after (done ++ g :: rest.take (Token.extent g rest).more) := by
            rw [Position.after, Position.after, Position.after, List.foldl_append]
          dsimp only
          rw [hafter]
          exact ⟨l, (hblanks.bind htakes).bind
            (.neg hproper.ne_endOfInput (hrest.bind (.pure _ _)))⟩

end

theorem start_returns {whole : Text} (hwhole : Readable whole) :
    Returns advance (.start (Text.bytes whole)) () (cursor whole [] whole) := by
  unfold advance
  refine (Returns.get _).bind ?_
  cases whole with
  | nil => exact .neg (Nat.lt_irrefl 0) (.set _ _)
  | cons g t =>
      have hpos : 0 < (Text.bytes (g :: t)).length :=
        List.length_pos_of_ne_nil (List.append_ne_nil_of_left_ne_nil (bytes_ne_nil g) _)
      have hchar : charAt (Text.bytes (g :: t)) 0 = pure (g.toChar, g.bytes.length) := by
        have hslice := slice_rest (List.nil_append (g :: t))
        change slice (Text.bytes (g :: t)) 0 (Text.bytes (g :: t)).length = _ at hslice
        rw [charAt, hslice, pure_bind, firstChar_bytes hwhole]
      exact .pos hpos ((Returns.lift hchar _).bind (.set _ _))

/-- The scanner with a cursor neither crashes nor goes on forever, and gives the tokens of the
decoded text. -/
theorem tokenize_eq (input : List UInt8) :
    tokenize input = pure (Token.scan (Text.decode input)) := by
  have hwhole : Readable (Text.decode input) := Text.readable_decode input
  have hstart := start_returns hwhole
  rw [Text.bytes_decode] at hstart
  unfold Token.scan
  dsimp only
  generalize Text.decode input = whole at hwhole hstart ⊢
  have hsplit := List.takeWhile_append_dropWhile
    (p := fun g => decide (g ≠ Glyph.char '\x00')) (l := whole)
  generalize hbody : whole.takeWhile (fun g => decide (g ≠ Glyph.char '\x00')) = body at hsplit ⊢
  have hnul : .char nul ∉ body := by
    rw [← hbody]
    exact Token.nul_not_mem_takeWhile whole
  have hbeyond : headChar (whole.dropWhile (fun g => decide (g ≠ Glyph.char '\x00'))) = nul := by
    have hhead := List.head?_dropWhile_not (fun g => decide (g ≠ Glyph.char '\x00')) whole
    generalize whole.dropWhile (fun g => decide (g ≠ Glyph.char '\x00')) = beyond at hhead
    cases beyond with
    | nil => rfl
    | cons g beyond =>
        have hg : g = .char '\x00' := by simpa using hhead
        rw [hg]
        rfl
  have hdrop : whole.drop body.length =
      whole.dropWhile (fun g => decide (g ≠ Glyph.char '\x00')) := by
    conv_lhs => rw [← hsplit, List.drop_left]
  rcases remainingTokens_returns hwhole ((List.nil_append _).trans hsplit) hnul hbeyond
    with ⟨l, htokens⟩
  rw [hsplit] at htokens
  have hrun : Returns (do advance; remainingTokens) (.start input) _ l := hstart.bind htokens
  unfold Returns at hrun
  rw [tokenize, StateT.run'_eq, hrun, hdrop]
  rfl

end Machine
end DefTable
