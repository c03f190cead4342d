import DefTable.Proofs.Machine.Scanner
import DefTable.Proofs.Text.Decode
import DefTable.Proofs.Token.Values

/-!
# Moves of the cursor

Between two of its steps the cursor stands between two glyphs of the decoded text, and each step
moves it over glyphs.  So every slice lies inside of the input, and the loops over runs of
characters, blanks and comments end where the runs of the text do.
-/

namespace DefTable
namespace Text

theorem firstChar_stray {b : UInt8} {t : Text} (h : Readable (.stray b :: t)) :
    leadingChar? b (bytes t) = none := by
  have hdecode := (decode_cons b (bytes t)).symm.trans h
  split at hdecode
  · cases (List.cons.inj hdecode).1
  · assumption

end Text

namespace Machine

open Text (Readable bytes_append)
open Token (Kind)

def headChar (t : Text) : Char :=
  (t.head?.map Glyph.toChar).getD nul

/-- The cursor in a text of which `done` was read and `todo` is still to be read. -/
def cursor (whole done todo : Text) : Cursor where
  input := Text.bytes whole
  position := (Text.bytes done).length
  following := (Text.bytes done).length + (todo.head?.map fun g => g.bytes.length).getD 1
  current := headChar todo
  place := Position.start.after done

/-!
## Slices
-/

theorem slice_between {whole before mid behind : Text} (h : before ++ mid ++ behind = whole) :
    slice (Text.bytes whole) (Text.bytes before).length (Text.bytes (before ++ mid)).length =
      pure (Text.bytes mid) := by
  rw [← h, slice, bytes_append (before ++ mid), if_pos]
  · rw [List.take_left, bytes_append before, List.drop_left]
  · simp only [bytes_append, List.length_append]
    omega

theorem slice_rest {whole before behind : Text} (h : before ++ behind = whole) :
    slice (Text.bytes whole) (Text.bytes before).length (Text.bytes whole).length =
      pure (Text.bytes behind) := by
  have hall : before ++ behind ++ [] = whole := by
    rw [List.append_nil, h]
  have hslice := slice_between hall
  rwa [h] at hslice

theorem bytes_ne_nil (g : Glyph) : g.bytes ≠ [] := by
  cases g with
  | char c =>
      rcases Text.leadingChar?_encode c [] with ⟨a, more, hbytes, _⟩
      change String.utf8EncodeChar c ≠ []
      rw [hbytes]
      exact List.cons_ne_nil a more
  | stray b => exact List.cons_ne_nil b []

theorem firstChar_bytes {g : Glyph} {t : Text} (h : Readable (g :: t)) :
    firstChar (Text.bytes (g :: t)) = (g.toChar, g.bytes.length) := by
  cases g with
  | char c =>
      rcases Text.leadingChar?_encode c (Text.bytes t) with ⟨a, more, hbytes, hlead⟩
      change firstChar (String.utf8EncodeChar c ++ Text.bytes t) =
        (c, (String.utf8EncodeChar c).length)
      rw [hbytes, List.cons_append, firstChar, hlead]
      rfl
  | stray b =>
      change firstChar (b :: Text.bytes t) = ('\uFFFD', 1)
      rw [firstChar, Text.firstChar_stray h]

/-!
## Single steps
-/

theorem place_snoc (done : Text) (g : Glyph) :
    Position.start.after (done ++ [g]) = (Position.start.after done).step g := by
  rw [Position.after, List.foldl_append]
  rfl

theorem length_snoc (done : Text) (g : Glyph) :
    (Text.bytes (done ++ [g])).length = (Text.bytes done).length + g.bytes.length := by
  simp [Text.bytes]

section

variable {whole done todo : Text}

theorem split_snoc {g : Glyph} (h : done ++ g :: todo = whole) : done ++ [g] ++ todo = whole := by
  rw [← h, List.append_assoc]
  rfl

theorem decode_behind (hwhole : Readable whole) (h : done ++ todo = whole) :
    Text.decode (Text.bytes todo) = todo := by
  rw [← h] at hwhole
  exact hwhole.right

theorem following_last {g : Glyph} (h : done ++ [g] = whole) :
    ¬ (Text.bytes done).length + g.bytes.length < (Text.bytes whole).length := by
  rw [← h, length_snoc]
  exact Nat.lt_irrefl _

theorem following_cons
    (hwhole : Readable whole) {g next : Glyph} (h : done ++ g :: next :: todo = whole) :
    (Text.bytes done).length + g.bytes.length < (Text.bytes whole).length ∧
      charAt (Text.bytes whole) ((Text.bytes done).length + g.bytes.length) =
        pure (next.toChar, next.bytes.length) := by
  have hsplit := split_snoc h
  have hreadable : Readable (next :: todo) := decode_behind hwhole hsplit
  have hpos : 0 < (Text.bytes (next :: todo)).length :=
    List.length_pos_of_ne_nil (List.append_ne_nil_of_left_ne_nil (bytes_ne_nil next) _)
  rw [← length_snoc, charAt, slice_rest hsplit, pure_bind, firstChar_bytes hreadable]
  refine ⟨?_, rfl⟩
  rw [← hsplit, bytes_append _ (next :: todo), List.length_append]
  exact Nat.lt_add_of_pos_right hpos

theorem advance_returns
    (hwhole : Readable whole) {g : Glyph} (h : done ++ g :: todo = whole) :
    Returns advance (cursor whole done (g :: todo)) () (cursor whole (done ++ [g]) todo) := by
  have hmoved : forall (width : Nat) (c : Char),
      (todo.head?.map fun g => g.bytes.length).getD 1 = width ->
      headChar todo = c ->
      cursor whole (done ++ [g]) todo =
        ⟨Text.bytes whole, (Text.bytes done).length + g.bytes.length,
          (Text.bytes done).length + g.bytes.length + width, c,
          (Position.start.after done).step g⟩ := by
    intro width c hwidth hc
    rw [cursor, hwidth, hc, length_snoc, place_snoc]
  unfold advance
  refine (Returns.get _).bind ?_
  cases todo with
  | nil =>
      rw [hmoved 1 nul rfl rfl]
      exact .neg (following_last h) (.set _ _)
  | cons next todo =>
      rcases following_cons hwhole h with ⟨hlt, hchar⟩
      rw [hmoved next.bytes.length next.toChar rfl rfl]
      exact .pos hlt ((Returns.lift hchar _).bind (.set _ _))

theorem peek_returns
    (hwhole : Readable whole) {g : Glyph} (h : done ++ g :: todo = whole) :
    Returns peek (cursor whole done (g :: todo)) (headChar todo)
      (cursor whole done (g :: todo)) := by
  unfold peek
  refine (Returns.get _).bind ?_
  cases todo with
  | nil => exact .neg (following_last h) (.pure _ _)
  | cons next todo =>
      rcases following_cons hwhole h with ⟨hlt, hchar⟩
      exact .pos hlt ((Returns.lift hchar _).bind (.pure _ _))

theorem textSince_returns
    (hwhole : Readable whole) {before mid behind : Text} (h : before ++ mid ++ behind = whole) :
    Returns (textSince (Text.bytes before).length) (cursor whole (before ++ mid) behind) mid
      (cursor whole (before ++ mid) behind) := by
  have hmid : Text.decode (Text.bytes mid) = mid := by
    rw [← h] at hwhole
    exact hwhole.left.right
  unfold textSince
  refine (Returns.get _).bind ((Returns.lift (slice_between h) _).bind ?_)
  rw [hmid]
  exact .pure _ _

/-!
## Runs of characters
-/

theorem advanceWhile_returns
    (hwhole : Readable whole) {p : Char -> Bool} {front back : Text}
    (h : done ++ (front ++ back) = whole) (hfront : forall g, g ∈ front -> p g.toChar = true)
    (hback : p (headChar back) = false) :
    Returns (advanceWhile p) (cursor whole done (front ++ back)) ()
      (cursor whole (done ++ front) back) := by
  induction front generalizing done with
  | nil =>
      rw [List.append_nil, advanceWhile]
      exact (Returns.get _).bind (.neg (Bool.eq_false_iff.mp hback) (.pure _ _))
  | cons g front ih =>
      rw [List.forall_mem_cons] at hfront
      have hrest := ih (split_snoc h) hfront.2
      rw [List.append_assoc] at hrest
      rw [advanceWhile]
      exact (Returns.get _).bind (.pos hfront.1 ((advance_returns hwhole h).bind hrest))

theorem headChar_drop_run
    {p : Char -> Bool} {q : Glyph -> Bool} (hpq : forall g, q g = p g.toChar)
    (hnul : p nul = false) {beyond : Text} (hbeyond : headChar beyond = nul) (t : Text) :
    p (headChar (t.drop (Token.runLength q t) ++ beyond)) = false := by
  induction t with
  | nil =>
      change p (headChar beyond) = false
      rwa [hbeyond]
  | cons g t ih =>
      unfold Token.runLength at ih ⊢
      by_cases hg : q g = true
      · rw [List.takeWhile_cons_of_pos hg]
        exact ih
      · rw [List.takeWhile_cons_of_neg hg]
        exact (hpq g).symm.trans (Bool.eq_false_iff.mpr hg)

theorem advanceWhile_run
    (hwhole : Readable whole) {p : Char -> Bool} {q : Glyph -> Bool}
    (hpq : forall g, q g = p g.toChar) (hnul : p nul = false) {t beyond : Text}
    (h : done ++ (t ++ beyond) = whole) (hbeyond : headChar beyond = nul) :
    Returns (advanceWhile p) (cursor whole done (t ++ beyond)) ()
      (cursor whole (done ++ t.take (Token.runLength q t))
        (t.drop (Token.runLength q t) ++ beyond)) := by
  have hsplit : t.take (Token.runLength q t) ++ (t.drop (Token.runLength q t) ++ beyond) =
      t ++ beyond := by
    rw [← List.append_assoc, List.take_append_drop]
  rw [← hsplit] at h
  have hreturns := advanceWhile_returns hwhole h ?_ (headChar_drop_run hpq hnul hbeyond t)
  · rwa [hsplit] at hreturns
  · intro g hg
    rw [Token.take_runLength] at hg
    exact (hpq g).symm.trans (List.all_eq_true.mp List.all_takeWhile g hg)

theorem advanceWhile_cons
    (hwhole : Readable whole) {p : Char -> Bool} {q : Glyph -> Bool}
    (hpq : forall g, q g = p g.toChar) (hnul : p nul = false) {g : Glyph} {t beyond : Text}
    (h : done ++ g :: (t ++ beyond) = whole) (hbeyond : headChar beyond = nul) (hg : q g = true) :
    Returns (advanceWhile p) (cursor whole done (g :: (t ++ beyond))) ()
      (cursor whole (done ++ g :: t.take (Token.runLength q t))
        (t.drop (Token.runLength q t) ++ beyond)) := by
  have hlength : Token.runLength q (g :: t) = Token.runLength q t + 1 := by
    rw [Token.runLength, List.takeWhile_cons_of_pos hg]
    rfl
  have hrun := advanceWhile_run (t := g :: t) hwhole hpq hnul h hbeyond
  rwa [hlength] at hrun

theorem any_head
    (p : Char -> Bool) (hnul : p nul = false) {beyond : Text} (hbeyond : headChar beyond = nul)
    (t : Text) : (t.head?.any fun g => p g.toChar) = p (headChar (t ++ beyond)) := by
  cases t with
  | nil =>
      rw [List.nil_append, hbeyond, hnul]
      rfl
  | cons g t => rfl

/-!
## Blanks and comments
-/

theorem toChar_eq_iff {c : Char} (hc : c ≠ '\uFFFD') (g : Glyph) :
    g.toChar = c <-> g = .char c := by
  cases g with
  | char d => simp [Glyph.toChar]
  | stray b => simp [Glyph.toChar, Ne.symm hc]

theorem isBlank_eq (g : Glyph) : Token.isBlank g = isBlankChar g.toChar := by
  unfold Token.isBlank isBlankChar
  simp only [toChar_eq_iff (show ' ' ≠ '\uFFFD' by decide),
    toChar_eq_iff (show '\t' ≠ '\uFFFD' by decide), toChar_eq_iff (show '\r' ≠ '\uFFFD' by decide),
    toChar_eq_iff (show '\n' ≠ '\uFFFD' by decide)]

def isCommentGlyph (g : Glyph) : Bool :=
  isCommentChar g.toChar

theorem blankLength_blanks (t : Text) :
    Token.blankLength false t =
      Token.runLength Token.isBlank t +
        Token.blankLength false (t.drop (Token.runLength Token.isBlank t)) := by
  induction t with
  | nil => rfl
  | cons g t ih =>
      unfold Token.runLength at ih ⊢
      by_cases hg : Token.isBlank g = true
      · rw [Token.blankLength, if_neg Bool.false_ne_true, if_pos hg, ih,
          List.takeWhile_cons_of_pos hg, List.length_cons, List.drop_succ_cons]
        omega
      · rw [List.takeWhile_cons_of_neg hg]
        simp

theorem blankLength_comment {t : Text} (hnul : .char nul ∉ t) :
    Token.blankLength true t =
      Token.runLength isCommentGlyph t +
        Token.blankLength false (t.drop (Token.runLength isCommentGlyph t)) := by
  induction t with
  | nil => rfl
  | cons g t ih =>
      rw [List.mem_cons, not_or] at hnul
      unfold Token.runLength at ih ⊢
      have hg : isCommentGlyph g = decide (g ≠ .char '\n') := by
        have hne : g.toChar ≠ nul := StringLiteral.toChar_ne_nul (Ne.symm hnul.1)
        simp [isCommentGlyph, isCommentChar, hne, toChar_eq_iff (show '\n' ≠ '\uFFFD' by decide)]
      rw [Token.blankLength, if_pos rfl]
      by_cases hline : g = .char '\n'
      · rw [List.takeWhile_cons_of_neg (by rw [hg]; simp [hline]), hline]
        simp [Token.blankLength, Token.isBlank]
      · rw [List.takeWhile_cons_of_pos (by rw [hg]; simp [hline]), List.length_cons,
          List.drop_succ_cons, decide_eq_true hline, ih hnul.2]
        omega

theorem blankLength_hash {t : Text} (hnul : .char nul ∉ t) :
    Token.blankLength false (.char '#' :: t) =
      Token.runLength isCommentGlyph (.char '#' :: t) +
        Token.blankLength false
          ((Glyph.char '#' :: t).drop (Token.runLength isCommentGlyph (.char '#' :: t))) := by
  have hrun : Token.runLength isCommentGlyph (.char '#' :: t) =
      Token.runLength isCommentGlyph t + 1 := rfl
  rw [hrun, List.drop_succ_cons, Nat.add_right_comm, ← blankLength_comment hnul]
  rfl

theorem blankLength_eq_zero
    {t beyond : Text} (hblank : isBlankChar (headChar (t ++ beyond)) = false)
    (hhash : headChar (t ++ beyond) ≠ '#') : Token.blankLength false t = 0 := by
  cases t with
  | nil => rfl
  | cons g t =>
      have hg : Token.isBlank g = false := (isBlank_eq g).trans hblank
      rw [Token.blankLength, if_neg Bool.false_ne_true, hg, if_neg Bool.false_ne_true,
        if_neg (fun heq => hhash (by rw [heq]; rfl))]

theorem cursor_twice (whole done t beyond : Text) (a b : Nat) :
    cursor whole (done ++ t.take a ++ (t.drop a).take b) ((t.drop a).drop b ++ beyond) =
      cursor whole (done ++ t.take (a + b)) (t.drop (a + b) ++ beyond) := by
  rw [List.take_add, List.drop_drop, List.append_assoc]

theorem split_twice {whole done t beyond : Text} (h : done ++ (t ++ beyond) = whole) (a : Nat) :
    done ++ t.take a ++ (t.drop a ++ beyond) = whole := by
  rw [← h, List.append_assoc, ← List.append_assoc (t.take a), List.take_append_drop]

theorem skipBlanks_returns
    (hwhole : Readable whole) {t beyond : Text} (h : done ++ (t ++ beyond) = whole)
    (hnul : .char nul ∉ t) (hbeyond : headChar beyond = nul) :
    Returns skipBlanks (cursor whole done (t ++ beyond)) ()
      (cursor whole (done ++ t.take (Token.blankLength false t))
        (t.drop (Token.blankLength false t) ++ beyond)) := by
  induction hlength : t.length using Nat.strongRecOn generalizing done t with
  | _ n ih =>
      have hblanks := advanceWhile_run hwhole isBlank_eq (by decide) h hbeyond
      have hnone := headChar_drop_run isBlank_eq (by decide) hbeyond t
      have hsplit := split_twice h (Token.runLength Token.isBlank t)
      have hnul' : Glyph.char nul ∉ t.drop (Token.runLength Token.isBlank t) :=
        fun hmem => hnul (List.mem_of_mem_drop hmem)
      rw [skipBlanks, blankLength_blanks, ← cursor_twice]
      refine hblanks.bind ((Returns.get _).bind ?_)
      have hshorter : (t.drop (Token.runLength Token.isBlank t)).length ≤ n := by
        rw [List.length_drop]
        omega
      generalize t.drop (Token.runLength Token.isBlank t) = rest at hnone hsplit hnul' hshorter ⊢
      generalize done ++ t.take (Token.runLength Token.isBlank t) = done at hsplit ⊢
      by_cases hhash : headChar (rest ++ beyond) = '#'
      · cases rest with
        | nil =>
            rw [List.nil_append, hbeyond] at hhash
            exact absurd hhash (by decide)
        | cons g rest =>
            have hg : g = .char '#' := (toChar_eq_iff (by decide) g).mp hhash
            subst hg
            have hcomment := advanceWhile_run hwhole (q := isCommentGlyph) (fun _ => rfl)
              (by decide) hsplit hbeyond
            have hpos : 0 < Token.runLength isCommentGlyph (.char '#' :: rest) :=
              Nat.succ_pos _
            rw [blankLength_hash fun hmem => hnul' (List.mem_cons_of_mem _ hmem), ← cursor_twice]
            refine .pos hhash (hcomment.bind (ih _ ?_ (split_twice hsplit _) ?_ rfl))
            · rw [List.length_drop]
              rw [List.length_cons] at hshorter ⊢
              omega
            · exact fun hmem => hnul' (List.mem_of_mem_drop hmem)
      · rw [blankLength_eq_zero hnone hhash, List.take_zero, List.append_nil]
        exact .neg hhash (.pure _ _)

end

end Machine
end DefTable
