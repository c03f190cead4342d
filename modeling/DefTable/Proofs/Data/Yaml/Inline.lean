import DefTable.Data.Yaml.Inline
import DefTable.Data.Yaml.Write
import DefTable.Proofs.Text.Hex

/-!
# Plain and quoted scalars are read as they are written

A text that is written plain or in quotes is scanned up to its end and no further, and what was
scanned is the text.  A plain text ends at the colon of a key or at the end of its line; a quoted one
ends at its quote, whatever follows.
-/

namespace DefTable
namespace Yaml

/-!
## Places between tokens
-/

def Starts (cs : List Char) : Prop :=
  forall c, cs.head? = some c -> isBlank c = false ∧ isBreak c = false ∧ c ≠ '#'

theorem starts_nil : Starts [] :=
  fun _ h => nomatch h

theorem starts_cons
    {c : Char} (hblank : isBlank c = false) (hbreak : isBreak c = false) (hcomment : c ≠ '#')
    (cs : List Char) : Starts (c :: cs) := by
  intro d hd
  cases hd
  exact ⟨hblank, hbreak, hcomment⟩

def newline (m : Nat) (rest : List Char) : List Char :=
  '\n' :: (List.replicate m ' ' ++ rest)

theorem isBlank_eq_false_of_isBreak {c : Char} (h : isBreak c = true) : isBlank c = false := by
  simp only [isBreak, Bool.or_eq_true, decide_eq_true_eq] at h
  rcases h with (((rfl | rfl) | rfl) | rfl) | rfl <;> decide

theorem isPrefixOf_append_of_head
    {m : Char} {cs after : List Char} (hafter : forall a, after.head? = some a -> m ≠ a) (n : Nat)
    (h : (List.replicate n m).isPrefixOf cs = false) :
    (List.replicate n m).isPrefixOf (cs ++ after) = false := by
  induction n generalizing cs with
  | zero => exact nomatch h
  | succ n ih =>
      rw [List.replicate_succ] at h ⊢
      cases cs with
      | nil =>
          cases after with
          | nil => rfl
          | cons a after => simp [List.isPrefixOf, hafter a rfl]
      | cons c cs =>
          rw [List.cons_append, List.isPrefixOf, Bool.and_eq_false_iff] at *
          exact h.imp_right ih

theorem startsLikeDocument_append
    {cs after : List Char} (h : startsLikeDocument cs = false)
    (hafter : forall a, after.head? = some a -> '-' ≠ a ∧ '.' ≠ a) :
    startsLikeDocument (cs ++ after) = false := by
  unfold startsLikeDocument at h ⊢
  rw [Bool.or_eq_false_iff] at h ⊢
  exact ⟨isPrefixOf_append_of_head (fun a ha => (hafter a ha).1) 3 h.1,
    isPrefixOf_append_of_head (fun a ha => (hafter a ha).2) 3 h.2⟩

theorem not_startsLikeDocument
    {c : Char} (hdash : c ≠ '-') (hdot : c ≠ '.') (cs : List Char) :
    startsLikeDocument (c :: cs) = false := by
  simp [startsLikeDocument, List.isPrefixOf, Ne.symm hdash, Ne.symm hdot]

theorem atMarker_of_column {c : Cursor} (h : 0 < c.column) : c.atMarker = false := by
  rw [Cursor.atMarker, decide_eq_false (Nat.ne_of_gt h), Bool.false_and, Bool.false_and]

/-!
## Plain scalars
-/

/-- A text of one line without anything in it that would end a plain scalar. -/
structure PlainText (cs : List Char) : Prop where
  ne_nil : cs ≠ []
  noBreak : forall c, c ∈ cs -> isBreak c = false
  noTab : forall c, c ∈ cs -> c ≠ '\t'
  last : cs.getLast? ≠ some ' '
  indicator : hasIndicator none cs = false
  head : cs.head? ≠ some ' '
  marker : startsLikeDocument cs = false

instance (cs : List Char) : Decidable (PlainText cs) :=
  have : Decidable (forall c, c ∈ cs -> isBreak c = false) := List.decidableBAll _ cs
  have : Decidable (forall c, c ∈ cs -> c ≠ '\t') := List.decidableBAll _ cs
  decidable_of_iff
    (cs ≠ [] ∧ (forall c, c ∈ cs -> isBreak c = false) ∧ (forall c, c ∈ cs -> c ≠ '\t') ∧
      cs.getLast? ≠ some ' ' ∧ hasIndicator none cs = false ∧ cs.head? ≠ some ' ' ∧
      startsLikeDocument cs = false)
    ⟨fun ⟨hne, hbreak, htab, hlast, hindicator, hhead, hmarker⟩ =>
      ⟨hne, hbreak, htab, hlast, hindicator, hhead, hmarker⟩,
      fun ⟨hne, hbreak, htab, hlast, hindicator, hhead, hmarker⟩ =>
      ⟨hne, hbreak, htab, hlast, hindicator, hhead, hmarker⟩⟩

theorem endsPlain_eq (c : Char) (rest : List Char) :
    endsPlain false c rest = (decide (c = ':') && Cursor.endsWord rest) := by
  rw [endsPlain, Bool.false_and, Bool.or_false]

theorem endsWord_append
    {cs after : List Char} (hbreak : forall c, c ∈ cs -> isBreak c = false)
    (h : (cs.isEmpty || cs.head?.any isBlank) = false) : Cursor.endsWord (cs ++ after) = false := by
  cases cs with
  | nil => cases h
  | cons c cs =>
      have hblank : isBlank c = false := h
      rw [List.cons_append, Cursor.endsWord, hblank, hbreak c List.mem_cons_self]
      rfl

theorem plainFrom_rest
    {floor line column : Nat} {cs after blanks done : List Char} (previous : Char)
    (hcolumn : 0 < column) (hbreak : forall c, c ∈ cs -> isBreak c = false)
    (hindicator : hasIndicator (some previous) cs = false)
    (hblanks : blanks.isEmpty = !isBlank previous)
    (hlast : forall c, (previous :: cs).getLast? = some c -> isBlank c = false) :
    plainFrom false floor done ⟨blanks, []⟩ line column (cs ++ after) =
      plainFrom false floor (cs.reverse ++ (blanks.reverse ++ done)) .none line
        (column + cs.length) after := by
  induction cs generalizing blanks done previous column with
  | nil =>
      rw [hlast previous rfl, Bool.not_false, List.isEmpty_iff] at hblanks
      rw [hblanks]
      rfl
  | cons c cs ih =>
      rw [List.forall_mem_cons] at hbreak
      rw [hasIndicator, Bool.or_eq_false_iff] at hindicator
      rcases hindicator with ⟨hbad, hindicator⟩
      rw [Bool.or_eq_false_iff] at hbad
      have hlast' : forall d, (c :: cs).getLast? = some d -> isBlank d = false := by
        intro d hd
        exact hlast d (by rw [List.getLast?_cons_cons]; exact hd)
      rw [List.cons_append, plainFrom, if_neg (by simp [hbreak.1])]
      cases hblank : isBlank c with
      | true =>
          have hpush : Pending.push ⟨blanks, []⟩ c = ⟨blanks ++ [c], []⟩ := by
            simp [Pending.push, Pending.crossed, hbreak.1]
          rw [if_pos rfl, if_neg (by simp [Pending.crossed]), hpush,
            ih c (by omega) hbreak.2 hindicator (by simp [hblank]) hlast']
          simp [Nat.add_assoc, Nat.add_comm 1]
      | false =>
          have hcolon : endsPlain false c (cs ++ after) = false := by
            rw [endsPlain_eq]
            cases hc : decide (c = ':') with
            | false => rfl
            | true =>
                rw [hc, Bool.true_and] at hbad
                rw [endsWord_append hbreak.2 hbad.1, Bool.true_and]
          have hhash : (!(Pending.isNone ⟨blanks, []⟩) && decide (c = '#')) = false := by
            cases hc : decide (c = '#') with
            | false => rw [Bool.and_false]
            | true =>
                rw [hc, Bool.true_and, Bool.or_eq_false_iff] at hbad
                simp [Pending.isNone, hblanks, hbad.2.1]
          have hgo : ((Pending.crossed ⟨blanks, []⟩ && !false && decide (column < floor)) ||
              (!(Pending.isNone ⟨blanks, []⟩) && decide (c = '#')) ||
              Cursor.atMarker ⟨c :: (cs ++ after), line, column⟩ ||
              endsPlain false c (cs ++ after)) = false := by
            rw [hhash, hcolon, atMarker_of_column hcolumn]
            rfl
          rw [if_neg Bool.false_ne_true, hgo, if_neg Bool.false_ne_true]
          have hrest := @ih (column + 1) [] (c :: (blanks.reverse ++ done)) c (by omega) hbreak.2
            hindicator (by simp [hblank]) hlast'
          change plainFrom false floor (c :: (blanks.reverse ++ done)) ⟨[], []⟩ line (column + 1)
            (cs ++ after) = _
          rw [hrest]
          simp [Nat.add_assoc, Nat.add_comm 1]

theorem isBlank_of_ne {c : Char} (htab : c ≠ '\t') (hspace : c ≠ ' ') : isBlank c = false := by
  simp [isBlank, htab, hspace]

namespace PlainText

variable {cs : List Char}

theorem isBlank_head (h : PlainText cs) {c : Char} (hc : cs.head? = some c) : isBlank c = false := by
  refine isBlank_of_ne (h.noTab c (List.mem_of_head? hc)) ?_
  rintro rfl
  exact h.head hc

theorem isBlank_last (h : PlainText cs) {c : Char} (hc : cs.getLast? = some c) :
    isBlank c = false := by
  refine isBlank_of_ne (h.noTab c (List.mem_of_getLast? hc)) ?_
  rintro rfl
  exact h.last hc

theorem first {c : Char} (h : PlainText (c :: cs)) :
    leadsBadly c = false ∧
      (c = '?' ∨ c = ':' ∨ c = '-' -> forall after, Cursor.endsWord (cs ++ after) = false) ∧
      hasIndicator (some c) cs = false := by
  have hindicator := h.indicator
  rw [hasIndicator, Bool.or_eq_false_iff, Bool.or_eq_false_iff] at hindicator
  rcases hindicator with ⟨⟨hleads, hfollowed⟩, hrest⟩
  refine ⟨hleads, ?_, hrest⟩
  intro hc after
  refine endsWord_append (fun d hd => h.noBreak d (List.mem_cons_of_mem c hd)) ?_
  have hsigns : (decide (c = '?') || decide (c = ':') || decide (c = '-')) = true := by
    rcases hc with rfl | rfl | rfl <;> rfl
  rwa [hsigns, Bool.true_and] at hfollowed

theorem plainFrom_append (h : PlainText cs) {floor line column : Nat} {after : List Char}
    (hafter : forall a, after.head? = some a -> '-' ≠ a ∧ '.' ≠ a) :
    plainFrom false floor [] .none line column (cs ++ after) =
      plainFrom false floor cs.reverse .none line (column + cs.length) after := by
  cases hcs : cs with
  | nil => exact absurd hcs h.ne_nil
  | cons c rest =>
      have hmarker := startsLikeDocument_append h.marker hafter
      rw [hcs] at h hmarker
      have hblank : isBlank c = false := h.isBlank_head rfl
      have hbreak : isBreak c = false := h.noBreak c List.mem_cons_self
      rcases h.first with ⟨hleads, hword, hindicator⟩
      have hcolon : endsPlain false c (rest ++ after) = false := by
        rw [endsPlain_eq]
        cases hc : decide (c = ':') with
        | false => rfl
        | true => rw [hword (.inr (.inl (of_decide_eq_true hc))), Bool.true_and]
      have hat : Cursor.atMarker ⟨c :: (rest ++ after), line, column⟩ = false := by
        rw [List.cons_append] at hmarker
        rw [Cursor.atMarker, hmarker, Bool.and_false, Bool.false_and]
      rw [List.cons_append, plainFrom, if_neg (by simp [hbreak]), if_neg (by simp [hblank]),
        if_neg (by simp [Pending.none, Pending.crossed, Pending.isNone, hat, hcolon])]
      change plainFrom false floor [c] ⟨[], []⟩ line (column + 1) (rest ++ after) = _
      rw [plainFrom_rest c (Nat.succ_pos column)
        (fun d hd => h.noBreak d (List.mem_cons_of_mem c hd)) hindicator (by simp [hblank])
        (fun d hd => h.isBlank_last hd)]
      simp [Nat.add_assoc, Nat.add_comm 1]

theorem plain_key (h : PlainText cs) {floor line column : Nat} {rest : List Char}
    (hrest : Cursor.endsWord rest = true) :
    plain false floor ⟨cs ++ ':' :: rest, line, column⟩ =
      some ⟨String.ofList cs, ⟨':' :: rest, line, column + cs.length⟩, false⟩ := by
  have hends : endsPlain false ':' rest = true := by rw [endsPlain_eq, hrest]; rfl
  rw [plain, h.plainFrom_append fun a ha => by cases ha; decide, plainFrom,
    if_neg (by decide), if_neg (by decide), if_pos (by simp [hends]), List.reverse_reverse]
  rfl

end PlainText

theorem plainFrom_spaces
    {floor line column : Nat} {done breaks : List Char} (hcrossed : breaks ≠ []) (m : Nat)
    (rest : List Char) :
    plainFrom false floor done ⟨[], breaks⟩ line column (List.replicate m ' ' ++ rest) =
      plainFrom false floor done ⟨[], breaks⟩ line (column + m) rest := by
  induction m generalizing column with
  | zero => rfl
  | succ m ih =>
      have hpush : Pending.push ⟨[], breaks⟩ ' ' = ⟨[], breaks⟩ := by
        cases breaks with
        | nil => exact absurd rfl hcrossed
        | cons b breaks => rfl
      rw [List.replicate_succ, List.cons_append, plainFrom, if_neg (by decide), if_pos (by decide),
        if_neg (by simp), hpush, ih, Nat.add_assoc, Nat.add_comm 1]

theorem PlainText.plain_line
    {cs : List Char} (h : PlainText cs) {floor line column m : Nat} {rest : List Char}
    (hm : m < floor) (hrest : Starts rest) :
    plain false floor ⟨cs ++ newline m rest, line, column⟩ =
      some ⟨String.ofList cs, ⟨rest, line + 1, m⟩, true⟩ := by
  have hbreak : plainFrom false floor cs.reverse .none line (column + cs.length) (newline m rest) =
      plainFrom false floor cs.reverse ⟨[], ['\n']⟩ (line + 1) (0 + m) rest := by
    rw [newline, plainFrom, if_pos (by decide)]
    exact plainFrom_spaces (by decide) m rest
  rw [plain, h.plainFrom_append fun a ha => by cases ha; decide, hbreak, Nat.zero_add]
  cases rest with
  | nil => rw [plainFrom, List.reverse_reverse]; rfl
  | cons c rest =>
      rcases hrest c rfl with ⟨hblank, hbreak', _⟩
      rw [plainFrom, if_neg (by simp [hbreak']), if_neg (by simp [hblank]),
        if_pos (by simp [Pending.crossed, hm]), List.reverse_reverse]
      rfl

end Yaml
end DefTable
