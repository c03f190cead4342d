import DefTable.Proofs.Machine.Cursor
import DefTable.Proofs.Token.Written

/-!
# Strings, names between backticks and numerals

The loops that read the longer tokens stop where the text says that the token ends.  The text of a
string may hold no closing quote, and then the loop runs to the end of the input.
-/

namespace DefTable
namespace Machine

open Text (Readable)
open Token (Kind)

section

variable {whole done todo : Text}

/-!
## Taking a token
-/

/-- The machine takes the token of extent `e` that starts with glyph `g`, and stops behind it. -/
def Takes (whole done beyond : Text) (m : Scanner Token) (g : Glyph) (rest : Text)
    (e : Token.Extent) : Prop :=
  Returns m (cursor whole done (g :: (rest ++ beyond)))
    ⟨e.kind, Token.lexemeOf beyond e g rest, Position.start.after done⟩
    (cursor whole (done ++ g :: rest.take e.more) (rest.drop e.more ++ beyond))

theorem lexeme_returns
    (hwhole : Readable whole) {g : Glyph} {rest beyond : Text}
    (h : done ++ g :: (rest ++ beyond) = whole) (n : Nat) :
    Returns (textSince (Text.bytes done).length)
      (cursor whole (done ++ g :: rest.take n) (rest.drop n ++ beyond)) (g :: rest.take n)
      (cursor whole (done ++ g :: rest.take n) (rest.drop n ++ beyond)) := by
  apply textSince_returns hwhole
  rw [← h, List.append_assoc, List.cons_append, ← List.append_assoc (rest.take n),
    List.take_append_drop]

theorem advance_within
    (hwhole : Readable whole) {g c : Glyph} {rest beyond : Text} {k : Nat}
    (h : done ++ g :: (rest ++ beyond) = whole) (hc : rest[k]? = some c) :
    Returns advance (cursor whole (done ++ g :: rest.take k) (rest.drop k ++ beyond)) ()
      (cursor whole (done ++ g :: rest.take (k + 1)) (rest.drop (k + 1) ++ beyond)) := by
  rcases List.getElem?_eq_some_iff.mp hc with ⟨hk, hget⟩
  have hdrop : rest.drop k = c :: rest.drop (k + 1) := by
    rw [← hget, List.getElem_cons_drop]
  have hall : rest.take k ++ c :: (rest.drop (k + 1) ++ beyond) = rest ++ beyond := by
    rw [← List.cons_append, ← hdrop, ← List.append_assoc, List.take_append_drop]
  have hsplit : done ++ g :: rest.take k ++ c :: (rest.drop (k + 1) ++ beyond) = whole := by
    rw [List.append_assoc, List.cons_append, hall, h]
  have hadvance := advance_returns hwhole hsplit
  rw [List.append_assoc, List.cons_append] at hadvance
  rw [hdrop, List.take_add_one, hc]
  exact hadvance

/-!
## Strings
-/

/-- The string whose text is `t` ends where `q` says: the cursor stops at its closing quote, or
without one at the end of the input. -/
def Closes (whole done beyond : Text) (g : Glyph) (t : Text) : Option Nat -> Prop
  | none =>
      Returns (closeString false) (cursor whole done (g :: (t ++ beyond))) false
        (cursor whole (done ++ g :: t) beyond)
  | some n =>
      exists k, n = k + 1 ∧ t[k]? = some (.char '"') ∧
        Returns (closeString false) (cursor whole done (g :: (t ++ beyond))) true
          (cursor whole (done ++ g :: t.take k) (t.drop k ++ beyond))

theorem Closes.behind
    {g c : Glyph} {t beyond : Text} {q : Option Nat} (front : Text)
    (hstep : forall b l,
      Returns (closeString false) (cursor whole (done ++ g :: front) (c :: (t ++ beyond))) b l ->
      Returns (closeString false) (cursor whole done (g :: (front ++ c :: (t ++ beyond)))) b l)
    (h : Closes whole (done ++ g :: front) beyond c t q) :
    Closes whole done beyond g (front ++ c :: t) (q.map (· + (front.length + 1))) := by
  have hall : front ++ c :: (t ++ beyond) = front ++ c :: t ++ beyond := by
    rw [List.append_assoc]
    rfl
  cases q with
  | none =>
      have hread := hstep _ _ h
      rw [List.append_assoc, hall] at hread
      exact hread
  | some n =>
      rcases h with ⟨k, rfl, hquote, h⟩
      have hread := hstep _ _ h
      rw [List.append_assoc, hall] at hread
      refine ⟨front.length + (k + 1), ?_, ?_, ?_⟩
      · change k + 1 + (front.length + 1) = front.length + (k + 1) + 1
        omega
      · rw [List.getElem?_append_right (Nat.le_add_right _ _), Nat.add_sub_cancel_left]
        exact hquote
      · rw [List.take_length_add_append, List.drop_length_add_append]
        exact hread

theorem closeString_end
    (hwhole : Readable whole) {g : Glyph} (h : done ++ g :: todo = whole)
    (hend : headChar todo = nul) (escaped : Bool) :
    Returns (closeString escaped) (cursor whole done (g :: todo)) false
      (cursor whole (done ++ [g]) todo) := by
  rw [closeString]
  exact (advance_returns hwhole h).bind ((Returns.get _).bind (.pos hend (.pure _ _)))

theorem closeString_quote
    (hwhole : Readable whole) {g : Glyph} (h : done ++ g :: .char '"' :: todo = whole) :
    Returns (closeString false) (cursor whole done (g :: .char '"' :: todo)) true
      (cursor whole (done ++ [g]) (.char '"' :: todo)) := by
  rw [closeString]
  refine (advance_returns hwhole h).bind ((Returns.get _).bind ?_)
  exact .neg (show ¬ '"' = nul by decide) (.neg Bool.false_ne_true
    (.neg (show ¬ '"' = '\\' by decide) (.pos rfl (.pure _ _))))

section

variable {g c : Glyph} {b : Bool} {l : Cursor}

theorem closeString_plain
    (hwhole : Readable whole) (h : done ++ g :: c :: todo = whole) (hnul : c.toChar ≠ nul)
    (hslash : c.toChar ≠ '\\') (hquote : c.toChar ≠ '"')
    (hrest : Returns (closeString false) (cursor whole (done ++ [g]) (c :: todo)) b l) :
    Returns (closeString false) (cursor whole done (g :: c :: todo)) b l := by
  rw [closeString]
  refine (advance_returns hwhole h).bind ((Returns.get _).bind ?_)
  exact .neg hnul (.neg Bool.false_ne_true (.neg hslash (.neg hquote hrest)))

theorem closeString_backslash
    (hwhole : Readable whole) (h : done ++ g :: .char '\\' :: todo = whole)
    (hrest : Returns (closeString true) (cursor whole (done ++ [g]) (.char '\\' :: todo)) b l) :
    Returns (closeString false) (cursor whole done (g :: .char '\\' :: todo)) b l := by
  rw [closeString]
  refine (advance_returns hwhole h).bind ((Returns.get _).bind ?_)
  exact .neg (show ¬ '\\' = nul by decide) (.neg Bool.false_ne_true (.pos rfl hrest))

theorem closeString_escaped
    (hwhole : Readable whole) (h : done ++ g :: c :: todo = whole) (hnul : c.toChar ≠ nul)
    (hrest : Returns (closeString false) (cursor whole (done ++ [g]) (c :: todo)) b l) :
    Returns (closeString true) (cursor whole done (g :: c :: todo)) b l := by
  rw [closeString]
  refine (advance_returns hwhole h).bind ((Returns.get _).bind ?_)
  exact .neg hnul (.pos rfl hrest)

end

theorem closeString_returns
    (hwhole : Readable whole) {g : Glyph} {t beyond : Text}
    (h : done ++ g :: (t ++ beyond) = whole) (hnul : .char nul ∉ t)
    (hbeyond : headChar beyond = nul) :
    Closes whole done beyond g t (Token.closingQuote? t) := by
  fun_induction Token.closingQuote? t generalizing done g with
  | case1 => exact closeString_end hwhole h hbeyond false
  | case2 rest => exact ⟨0, rfl, rfl, closeString_quote hwhole h⟩
  | case3 e rest ih =>
      simp only [List.mem_cons, not_or] at hnul
      have he : e.toChar ≠ nul := StringLiteral.toChar_ne_nul (Ne.symm hnul.2.1)
      have hsplit : done ++ [g] ++ .char '\\' :: (e :: (rest ++ beyond)) = whole := split_snoc h
      have hsplit' : done ++ [g, .char '\\'] ++ e :: (rest ++ beyond) = whole := by
        rw [← h, List.append_assoc]
        rfl
      refine Closes.behind [.char '\\'] (fun b l hrest => ?_) (ih hsplit' hnul.2.2)
      refine closeString_backslash hwhole h (closeString_escaped hwhole hsplit he ?_)
      rwa [List.append_assoc]
  | case4 c rest hquote hescape ih =>
      rw [List.mem_cons, not_or] at hnul
      have hc : c.toChar ≠ nul := StringLiteral.toChar_ne_nul (Ne.symm hnul.1)
      have hsplit : done ++ [g] ++ c :: (rest ++ beyond) = whole := split_snoc h
      by_cases hslash : c = .char '\\'
      · subst hslash
        -- A backslash with a glyph behind it is the case before, so here the input ends.
        cases rest with
        | cons e rest => exact (hescape e rest rfl rfl).elim
        | nil =>
            have hend := closeString_backslash hwhole h (closeString_end hwhole hsplit hbeyond true)
            rw [List.append_assoc] at hend
            exact hend
      · have hslash' : c.toChar ≠ '\\' := fun heq =>
          hslash ((toChar_eq_iff (by decide) c).mp heq)
        have hquote' : c.toChar ≠ '"' := fun heq =>
          hquote ((toChar_eq_iff (by decide) c).mp heq)
        exact Closes.behind [] (fun b l => closeString_plain hwhole h hc hslash' hquote')
          (ih hsplit hnul.2)

theorem readString_takes
    (hwhole : Readable whole) {rest beyond : Text}
    (h : done ++ .char '"' :: (rest ++ beyond) = whole) (hnul : .char nul ∉ rest)
    (hbeyond : headChar beyond = nul) :
    Takes whole done beyond readString (.char '"') rest (Token.stringExtent rest) := by
  have hclose := closeString_returns hwhole h hnul hbeyond
  unfold Takes Token.stringExtent
  rw [readString]
  refine (Returns.get _).bind ?_
  cases hquote : Token.closingQuote? rest with
  | none =>
      rw [hquote] at hclose
      have hreadable : Text.decode (Text.bytes (.char '"' :: (rest ++ beyond))) =
          .char '"' :: (rest ++ beyond) := decode_behind hwhole h
      refine hclose.bind (.neg Bool.false_ne_true ?_)
      refine (Returns.lift (slice_rest h) _).bind ?_
      rw [hreadable]
      dsimp only
      rw [List.take_length, List.drop_length]
      exact .pure _ _
  | some n =>
      rw [hquote] at hclose
      rcases hclose with ⟨k, rfl, hlast, hclose⟩
      refine hclose.bind (.pos rfl ((advance_within hwhole h hlast).bind ?_))
      refine (lexeme_returns hwhole h (k + 1)).bind ?_
      dsimp only
      cases StringLiteral.read (.char '"' :: rest.take (k + 1)) with
      | ok value => exact .pure _ _
      | error e => exact .pure _ _

/-!
## Names between backticks
-/

theorem isWordGlyph_eq (g : Glyph) : Token.isWordGlyph g = isNameChar g.toChar :=
  rfl

theorem readName_returns
    (hwhole : Readable whole) {g : Glyph} {tail beyond : Text}
    (h : done ++ g :: (tail ++ beyond) = whole) (hbeyond : headChar beyond = nul)
    (hg : (isNameStart g.toChar || g.toChar = '@') = true) :
    Returns readName (cursor whole done (g :: (tail ++ beyond))) ()
      (cursor whole (done ++ g :: tail.take (Token.runLength Token.isWordGlyph tail))
        (tail.drop (Token.runLength Token.isWordGlyph tail) ++ beyond)) := by
  unfold readName
  refine (Returns.get _).bind ?_
  by_cases hat : g.toChar = '@'
  · have hsplit : done ++ [g] ++ (tail ++ beyond) = whole := split_snoc h
    have hrun := advanceWhile_run hwhole isWordGlyph_eq (by decide) hsplit hbeyond
    rw [List.append_assoc] at hrun
    exact .pos hat ((advance_returns hwhole h).bind hrun)
  · rw [decide_eq_false hat, Bool.or_false] at hg
    have hrun := advanceWhile_cons hwhole isWordGlyph_eq (by decide) h hbeyond
      (Token.isWordGlyph_of_start hg)
    exact .neg hat hrun

theorem headChar_backtick {t beyond : Text} (hbeyond : headChar beyond = nul) (k : Nat) :
    headChar (t.drop k ++ beyond) = '`' <-> t[k]? = some (.char '`') := by
  rw [← List.head?_drop]
  cases t.drop k with
  | nil =>
      rw [List.nil_append, hbeyond]
      decide
  | cons c behind =>
      exact (toChar_eq_iff (by decide) c).trans (Option.some_inj.symm)

theorem readQuotedName_takes
    (hwhole : Readable whole) {rest beyond : Text}
    (h : done ++ .char '`' :: (rest ++ beyond) = whole) (hbeyond : headChar beyond = nul) :
    Takes whole done beyond readQuotedName (.char '`') rest (Token.quotedNameExtent rest) := by
  unfold Takes Token.quotedNameExtent
  rw [readQuotedName]
  refine (Returns.get _).bind ((advance_returns hwhole h).bind ((Returns.get _).bind ?_))
  cases rest with
  | nil =>
      refine .neg ?_ (.pure _ _)
      change ¬ (isNameStart (headChar beyond) || headChar beyond = '@') = true
      rw [hbeyond]
      decide
  | cons g tail =>
      have hsplit : done ++ [.char '`'] ++ g :: (tail ++ beyond) = whole := split_snoc h
      have hat : (isNameStart g.toChar || decide (g = .char '@')) =
          (isNameStart g.toChar || decide (g.toChar = '@')) := by
        rw [decide_eq_decide.mpr (toChar_eq_iff (by decide) g)]
      dsimp only
      rw [hat]
      by_cases hname : (isNameStart g.toChar || g.toChar = '@') = true
      · have hrun := readName_returns hwhole hsplit hbeyond hname
        have hlexeme := lexeme_returns hwhole hsplit (Token.runLength Token.isWordGlyph tail)
        generalize Token.runLength Token.isWordGlyph tail = k at hrun hlexeme ⊢
        rw [if_pos hname, List.getElem?_cons_succ]
        refine .pos hname (hrun.bind (hlexeme.bind ((Returns.get _).bind ?_)))
        rw [List.append_assoc]
        by_cases hclose : tail[k]? = some (.char '`')
        · have hadvance := advance_within (k := k + 1) hwhole h hclose
          rw [if_pos hclose]
          refine .pos ((headChar_backtick hbeyond k).mpr hclose) (hadvance.bind ?_)
          exact (lexeme_returns hwhole h (k + 2)).bind (.pure _ _)
        · rw [if_neg hclose]
          refine .neg (fun hcurrent => hclose ((headChar_backtick hbeyond k).mp hcurrent)) ?_
          exact (lexeme_returns hwhole h (k + 1)).bind (.pure _ _)
      · rw [if_neg hname]
        exact .neg hname (.pure _ _)

/-!
## Numerals
-/

theorem startsDigit_eq {t beyond : Text} (hbeyond : headChar beyond = nul) :
    Token.startsDigit t = (headChar (t ++ beyond)).isDigit :=
  any_head Char.isDigit (by decide) hbeyond t

def isExponentSign (g s : Glyph) (rest : Text) : Bool :=
  (g = .char 'e' || g = .char 'E') && (s = .char '+' || s = .char '-') && Token.startsDigit rest

theorem atExponentSign_returns
    (hwhole : Readable whole) {g s : Glyph} {rest beyond : Text}
    (h : done ++ s :: (rest ++ beyond) = whole) (hbeyond : headChar beyond = nul) :
    Returns (atExponentSign g.toChar) (cursor whole done (s :: (rest ++ beyond)))
      (isExponentSign g s rest) (cursor whole done (s :: (rest ++ beyond))) := by
  have hmark : forall c d : Char, c ≠ '\uFFFD' -> d ≠ '\uFFFD' -> forall g : Glyph,
      (g = .char c || g = .char d) = (g.toChar = c || g.toChar = d) := by
    intro c d hc hd g
    rw [decide_eq_decide.mpr (toChar_eq_iff hc g), decide_eq_decide.mpr (toChar_eq_iff hd g)]
  unfold atExponentSign isExponentSign
  rw [hmark 'e' 'E' (by decide) (by decide), hmark '+' '-' (by decide) (by decide)]
  refine (Returns.get _).bind ?_
  by_cases hsign : ((g.toChar = 'e' || g.toChar = 'E') && (s.toChar = '+' || s.toChar = '-')) = true
  · rw [hsign, Bool.true_and, startsDigit_eq hbeyond]
    exact .pos hsign ((peek_returns hwhole h).bind (.pure _ _))
  · rw [Bool.eq_false_iff.mpr hsign, Bool.false_and]
    exact .neg hsign (.pure _ _)

theorem atExponentSign_end (hbeyond : headChar todo = nul) (g : Glyph) :
    Returns (atExponentSign g.toChar) (cursor whole done todo) false (cursor whole done todo) := by
  unfold atExponentSign
  refine (Returns.get _).bind (.neg ?_ (.pure _ _))
  change ¬ ((g.toChar = 'e' || g.toChar = 'E') &&
    (headChar todo = '+' || headChar todo = '-')) = true
  rw [hbeyond]
  simp [nul]

theorem readDigits_stop
    {marked : Scanner Bool} (h : isNameChar (headChar todo) = false) :
    Returns (readDigits marked) (cursor whole done todo) () (cursor whole done todo) := by
  rw [readDigits]
  exact (Returns.get _).bind (.neg (Bool.eq_false_iff.mp h) (.pure _ _))

theorem readDigits_returns
    (hwhole : Readable whole) (marked : Scanner Bool) (signed : Bool) {t beyond : Text}
    (hmarked : forall done todo,
      Returns marked (cursor whole done todo) (!signed) (cursor whole done todo))
    (h : done ++ (t ++ beyond) = whole) (hbeyond : headChar beyond = nul) :
    Returns (readDigits marked) (cursor whole done (t ++ beyond)) ()
      (cursor whole (done ++ t.take (Token.numeralRun signed t))
        (t.drop (Token.numeralRun signed t) ++ beyond)) := by
  have hend : isNameChar (headChar beyond) = false := by
    rw [hbeyond]
    decide
  fun_induction Token.numeralRun signed t generalizing done with
  | case1 =>
      rw [List.take_zero, List.append_nil]
      exact readDigits_stop hend
  | case2 g hword =>
      rw [readDigits]
      refine (Returns.get _).bind (.pos hword ((advance_returns hwhole h).bind ?_))
      exact (atExponentSign_end hbeyond g).bind (.neg Bool.false_ne_true (readDigits_stop hend))
  | case3 g hword =>
      rw [List.take_zero, List.append_nil]
      exact readDigits_stop (Bool.eq_false_iff.mpr hword)
  | case4 g s rest hword hsign ih =>
      have hexponent : signed = true ∧ isExponentSign g s rest = true := by
        simpa [isExponentSign, and_assoc] using hsign
      have hsplit : done ++ [g] ++ s :: (rest ++ beyond) = whole := split_snoc h
      have hsigned := atExponentSign_returns (g := g) hwhole hsplit hbeyond
      have hadvance := advance_returns hwhole hsplit
      have hrest := ih (split_snoc hsplit)
      rw [hexponent.2] at hsigned
      rw [hexponent.1] at hmarked hrest
      rw [List.append_assoc done] at hadvance hrest
      rw [List.append_assoc] at hrest
      rw [readDigits, hexponent.1]
      refine (Returns.get _).bind (.pos hword ((advance_returns hwhole h).bind ?_))
      refine hsigned.bind (.pos rfl ((hmarked _ _).bind (.neg Bool.false_ne_true ?_)))
      exact hadvance.bind hrest
  | case5 g s rest hword hsign ih =>
      have hsplit : done ++ [g] ++ s :: (rest ++ beyond) = whole := split_snoc h
      have hsigned := atExponentSign_returns (g := g) hwhole hsplit hbeyond
      have hrest := ih hsplit
      rw [List.append_assoc] at hrest
      rw [readDigits]
      refine (Returns.get _).bind (.pos hword ((advance_returns hwhole h).bind ?_))
      refine hsigned.bind ?_
      by_cases hexponent : isExponentSign g s rest = true
      · have hunsigned : signed = false := by
          refine Bool.eq_false_iff.mpr fun hsigned => hsign ?_
          simpa [isExponentSign, and_assoc, hsigned] using hexponent
        rw [hunsigned] at hmarked hrest ⊢
        exact .pos hexponent ((hmarked _ _).bind (.pos rfl hrest))
      · exact .neg hexponent hrest
  | case6 g s rest hword =>
      rw [List.take_zero, List.append_nil]
      exact readDigits_stop (Bool.eq_false_iff.mpr hword)

theorem isRadixMark_append {t beyond : Text} (hbeyond : headChar beyond = nul) (ht : t ≠ []) :
    Token.isRadixMark (t ++ beyond) = Token.isRadixMark t := by
  rcases t with _ | ⟨g, _ | ⟨s, rest⟩⟩
  · exact absurd rfl ht
  · cases beyond with
    | nil => rfl
    | cons b beyond =>
        have hb : b = .char nul := (toChar_eq_iff (by decide) b).mp hbeyond
        rw [hb]
        unfold Token.isRadixMark
        split
        · rename_i heq
          cases heq
          rfl
        · split
          · rename_i heq
            cases heq
          · rfl
  · unfold Token.isRadixMark
    split
    · rename_i heq
      cases heq
      rfl
    · rename_i hnot
      split
      · rename_i heq
        cases heq
        exact (hnot _ _ rfl).elim
      · rfl

theorem hasRadixMark_returns
    (hwhole : Readable whole) {t beyond : Text} (h : done ++ (t ++ beyond) = whole)
    (hbeyond : headChar beyond = nul) (ht : t ≠ []) {more behind : Text} :
    Returns (hasRadixMark (Text.bytes done).length) (cursor whole more behind)
      (Token.isRadixMark t) (cursor whole more behind) := by
  have hreadable : Text.decode (Text.bytes (t ++ beyond)) = t ++ beyond := decode_behind hwhole h
  unfold hasRadixMark
  refine (Returns.get _).bind ((Returns.lift (slice_rest h) _).bind ?_)
  rw [hreadable, isRadixMark_append hbeyond ht]
  exact .pure _ _

def fractionLength : Text -> Nat
  | .char '.' :: rest => if Token.startsDigit rest then 1 + Token.numeralRun true rest else 0
  | _ => 0

theorem fractionLength_eq_zero {t : Text} (h : forall rest, t ≠ .char '.' :: rest) :
    fractionLength t = 0 := by
  unfold fractionLength
  split
  · exact absurd rfl (h _)
  · rfl

theorem numeralLength_eq (t : Text) :
    Token.numeralLength t =
      Token.numeralRun (!Token.isRadixMark t) t +
        fractionLength (t.drop (Token.numeralRun (!Token.isRadixMark t) t)) := by
  unfold Token.numeralLength
  dsimp only
  generalize t.drop (Token.numeralRun (!Token.isRadixMark t) t) = rest
  split
  · rw [fractionLength]
    split
    · exact Nat.add_assoc _ _ _
    · rfl
  · rename_i hnot
    rw [fractionLength_eq_zero hnot]
    rfl

theorem readFraction_returns
    (hwhole : Readable whole) {t beyond : Text} (h : done ++ (t ++ beyond) = whole)
    (hbeyond : headChar beyond = nul) :
    Returns readFraction (cursor whole done (t ++ beyond)) ()
      (cursor whole (done ++ t.take (fractionLength t)) (t.drop (fractionLength t) ++ beyond)) := by
  unfold readFraction
  refine (Returns.get _).bind ?_
  by_cases hpoint : headChar (t ++ beyond) = '.'
  · refine .pos hpoint ?_
    cases t with
    | nil =>
        rw [List.nil_append, hbeyond] at hpoint
        exact absurd hpoint (by decide)
    | cons g rest =>
        have hg : g = .char '.' := (toChar_eq_iff (by decide) g).mp hpoint
        subst hg
        have hsplit : done ++ [.char '.'] ++ (rest ++ beyond) = whole := split_snoc h
        have hcons : done ++ .char '.' :: (rest ++ beyond) = whole := h
        have hpeek := peek_returns hwhole hcons
        rw [List.cons_append]
        by_cases hdigit : Token.startsDigit rest = true
        · have hlength : fractionLength (.char '.' :: rest) = Token.numeralRun true rest + 1 := by
            rw [fractionLength, if_pos hdigit, Nat.add_comm]
          have hdigits := readDigits_returns hwhole (pure false) true
            (fun _ _ => .pure _ _) hsplit hbeyond
          rw [List.append_assoc] at hdigits
          rw [hlength]
          rw [startsDigit_eq hbeyond] at hdigit
          exact hpeek.bind (.pos hdigit ((advance_returns hwhole hcons).bind hdigits))
        · have hlength : fractionLength (.char '.' :: rest) = 0 := by
            rw [fractionLength, if_neg hdigit]
          rw [hlength, List.take_zero, List.append_nil]
          rw [startsDigit_eq hbeyond] at hdigit
          exact hpeek.bind (.neg hdigit (.pure _ _))
  · have hzero : fractionLength t = 0 :=
      fractionLength_eq_zero fun rest heq => hpoint (by rw [heq]; rfl)
    rw [hzero, List.take_zero, List.append_nil]
    exact .neg hpoint (.pure _ _)

theorem numeralRun_pos {g : Glyph} (hg : Token.isWordGlyph g = true) (signed : Bool) (rest : Text) :
    0 < Token.numeralRun signed (g :: rest) := by
  cases rest with
  | nil =>
      rw [Token.numeralRun, if_pos hg]
      exact Nat.one_pos
  | cons s rest =>
      rw [Token.numeralRun, if_pos hg]
      split <;> exact Nat.succ_pos _

theorem readNumeral_takes
    (hwhole : Readable whole) {g : Glyph} {rest beyond : Text}
    (h : done ++ g :: (rest ++ beyond) = whole) (hbeyond : headChar beyond = nul)
    (hg : g.toChar.isDigit = true) :
    Takes whole done beyond readNumeral g rest (Token.numeralExtent g rest) := by
  have hword := Token.isWordGlyph_of_digit hg
  have hpos := numeralRun_pos hword (!Token.isRadixMark (g :: rest)) rest
  have hdigits := readDigits_returns (t := g :: rest) hwhole
    (hasRadixMark (Text.bytes done).length) (!Token.isRadixMark (g :: rest))
    (fun _ _ => by
      rw [Bool.not_not]
      exact hasRadixMark_returns (t := g :: rest) hwhole h hbeyond (List.cons_ne_nil g rest))
    h hbeyond
  have hfraction := readFraction_returns hwhole
    (split_twice (t := g :: rest) h (Token.numeralRun (!Token.isRadixMark (g :: rest)) (g :: rest)))
    hbeyond
  rw [cursor_twice, ← numeralLength_eq] at hfraction
  unfold Takes Token.numeralExtent
  have hlength : exists k, Token.numeralLength (g :: rest) = k + 1 := by
    rw [numeralLength_eq]
    exact Nat.exists_eq_add_one.mpr (Nat.add_pos_left hpos _)
  rcases hlength with ⟨k, hlength⟩
  rw [hlength] at hfraction ⊢
  rw [readNumeral]
  refine (Returns.get _).bind (hdigits.bind (hfraction.bind ?_))
  refine (lexeme_returns hwhole h k).bind ?_
  dsimp only
  rw [List.take_succ_cons]
  cases Numeral.read (g :: rest.take k) with
  | ok value => exact .pure _ _
  | error e => exact .pure _ _

end

end Machine
end DefTable
