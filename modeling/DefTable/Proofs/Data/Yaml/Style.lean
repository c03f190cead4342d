import DefTable.Proofs.Data.Yaml.BlockScalar
import DefTable.Proofs.Data.Yaml.Quoted

/-!
# The style of a text suits it

Whatever style is chosen for a text, the text has what that style needs in order to be read back.  A
text without quotes means itself, and a literal block has no line break that would be read as another
one.
-/

namespace DefTable
namespace Yaml

def OneLine (s : String) : Prop :=
  forall c, c ∈ s.toList -> isBreak c = false

instance (s : String) : Decidable (OneLine s) :=
  List.decidableBAll (fun c => isBreak c = false) s.toList

theorem isWritable_of_not_isSpecial {c : Char} (h : isSpecial c = false) (htab : c ≠ '\t') :
    isWritable c = true := by
  simpa [isSpecial, htab] using h

theorem break_of_isWritable {c : Char} (h : isWritable c = true) (hbreak : isBreak c = true) :
    c = '\n' ∨ c = '\u2028' ∨ c = '\u2029' := by
  simp only [isBreak, Bool.or_eq_true, decide_eq_true_eq] at hbreak
  rcases hbreak with (((rfl | rfl) | rfl) | rfl) | rfl
  · exact .inl rfl
  · exact absurd h (by decide)
  · exact absurd h (by decide)
  · exact .inr (.inl rfl)
  · exact .inr (.inr rfl)

theorem break_of_not_isSpecial {c : Char} (h : isSpecial c = false) (hbreak : isBreak c = true) :
    c = '\n' ∨ c = '\u2028' ∨ c = '\u2029' := by
  refine break_of_isWritable (isWritable_of_not_isSpecial h ?_) hbreak
  rintro rfl
  cases hbreak

theorem style_cases (s : String) :
    (style s = .plain ∧ reads s = true ∧ allowsPlain s.toList = true ∧
        allowsSingle s.toList = true) ∨
      (style s = .single ∧ allowsSingle s.toList = true ∧ '\n' ∉ s.toList) ∨
      style s = .double ∨
      (style s = .literal ∧ allowsLiteral s.toList = true ∧ '\n' ∈ s.toList) := by
  unfold style wanted
  dsimp only
  cases hlines : s.toList.contains '\n' with
  | true =>
      have hmem : '\n' ∈ s.toList := by simpa using hlines
      cases hliteral : allowsLiteral s.toList with
      | true => exact .inr (.inr (.inr ⟨rfl, rfl, hmem⟩))
      | false => exact .inr (.inr (.inl rfl))
  | false =>
      have hmem : '\n' ∉ s.toList := by simpa using hlines
      cases hreads : reads s with
      | false => exact .inr (.inr (.inl rfl))
      | true =>
          cases hsingle : allowsSingle s.toList with
          | false => exact .inr (.inr (.inl (by simp)))
          | true =>
              cases hplain : allowsPlain s.toList with
              | true => exact .inl ⟨by simp, rfl, rfl, rfl⟩
              | false => exact .inr (.inl ⟨by simp, rfl, hmem⟩)

/-!
## What a plain text means
-/

theorem numeric?_ne_string (timed : Bool) (s text : String) :
    numeric? timed s ≠ some (.string text) := by
  have hor : forall x y : Option Data, x ≠ some (.string text) -> y ≠ some (.string text) ->
      (x <|> y) ≠ some (.string text) := by
    intro x y hx hy
    cases x with
    | none => exact hy
    | some d => exact hx
  unfold numeric?
  refine hor _ _ ?_ (hor _ _ ?_ ?_)
  · cases timed <;> simp
  · simp
  · simp

theorem not_string_of_mem_words : forall e, e ∈ words -> e.2.string? = none := by
  decide

theorem eq_of_meaning {timed : Bool} {s text : String} (h : meaning timed s = .string text) :
    text = s := by
  unfold meaning at h
  split at h
  · rename_i d hd
    rcases List.lookup_eq_some_iff.mp hd with ⟨before, after, hwords, _⟩
    have hnone := not_string_of_mem_words (s, d) (by rw [hwords]; simp)
    rw [h] at hnone
    cases hnone
  · dsimp only at h
    have hnone : forall x : Option Data, x ≠ some (.string text) ->
        x.getD (.string s) = .string text -> text = s := by
      intro x hx hget
      cases x with
      | none => exact (Data.string.inj hget).symm
      | some d => exact absurd (congrArg some hget) hx
    refine hnone _ ?_ h
    split
    · split
      · simp
      · exact nofun
    · split
      · exact numeric?_ne_string timed s text
      · exact nofun
    · exact nofun

theorem resolve_of_meansItself {s : String} (h : meansItself s = true) : resolve s = .string s := by
  unfold meansItself at h
  split at h
  · rename_i text heq
    rw [heq, eq_of_meaning heq]
  · cases h

theorem meansItself_of_plain {s : String} (h : style s = .plain) : meansItself s = true := by
  rcases style_cases s with ⟨_, hreads, _⟩ | ⟨hstyle, _⟩ | hstyle | ⟨hstyle, _⟩
  · rw [reads, Bool.and_eq_true, Bool.and_eq_true] at hreads
    exact hreads.1.1
  · exact nomatch h.symm.trans hstyle
  · exact nomatch h.symm.trans hstyle
  · exact nomatch h.symm.trans hstyle

/-!
## Texts that suit their style
-/

theorem not_isSpecial_of_allowsSingle {cs : List Char} (h : allowsSingle cs = true) :
    forall c, c ∈ cs -> isSpecial c = false := by
  have hspecial : cs.any isSpecial = false := by
    simp only [allowsSingle, Bool.not_eq_true', Bool.or_eq_false_iff] at h
    exact h.2
  simpa using hspecial

theorem not_isSpecial_of_allowsLiteral {cs : List Char} (h : allowsLiteral cs = true) :
    forall c, c ∈ cs -> isSpecial c = false := by
  have hspecial : cs.any isSpecial = false := by
    simp only [allowsLiteral, Bool.not_eq_true', Bool.or_eq_false_iff] at h
    exact h.2
  simpa using hspecial

theorem singleText_of_allowsSingle
    {cs : List Char} (h : allowsSingle cs = true) (hline : '\n' ∉ cs) : SingleText cs := by
  have hspecial := not_isSpecial_of_allowsSingle h
  simp only [allowsSingle, Bool.not_eq_true', Bool.or_eq_false_iff] at h
  refine ⟨h.1.1.1, h.1.1.2, ?_, ?_⟩
  · rintro c hc rfl
    simp [hc] at h
  · intro c hc hbreak
    refine (break_of_not_isSpecial (hspecial c hc) hbreak).resolve_left ?_
    rintro rfl
    exact hline hc

theorem plainText_of_allowsPlain
    {cs : List Char} (hne : cs ≠ []) (h : allowsPlain cs = true)
    (hsingle : allowsSingle cs = true) :
    PlainText cs := by
  simp only [allowsPlain, Bool.not_eq_true', Bool.or_eq_false_iff] at h
  simp only [allowsSingle, Bool.not_eq_true', Bool.or_eq_false_iff] at hsingle
  rcases h with ⟨⟨⟨⟨hmarker, hindicator⟩, hhead⟩, hlast⟩, hbreak⟩
  refine ⟨hne, by simpa using hbreak, ?_, ?_, hindicator, ?_, hmarker⟩
  · rintro c hc rfl
    simp [hc] at hsingle
  · intro hspace
    rw [hspace] at hlast
    cases hlast
  · intro hspace
    rw [hspace] at hhead
    cases hhead

theorem keeps_of_allowsLiteral {cs : List Char} (h : allowsLiteral cs = true) :
    forall c, c ∈ cs -> isBreak c = true -> Keeps c := by
  intro c hc hbreak
  rcases break_of_not_isSpecial (not_isSpecial_of_allowsLiteral h c hc) hbreak with rfl | rfl | rfl
  · exact ⟨rfl, rfl⟩
  · exact ⟨rfl, rfl⟩
  · exact ⟨rfl, rfl⟩

theorem literal_of_style {s : String} (h : style s = .literal) :
    s.toList ≠ [] ∧ forall c, c ∈ s.toList -> isBreak c = true -> Keeps c := by
  rcases style_cases s with ⟨hstyle, _⟩ | ⟨hstyle, _⟩ | hstyle | ⟨_, hliteral, hmem⟩
  · exact nomatch h.symm.trans hstyle
  · exact nomatch h.symm.trans hstyle
  · exact nomatch h.symm.trans hstyle
  · exact ⟨List.ne_nil_of_mem hmem, keeps_of_allowsLiteral hliteral⟩

theorem not_oneLine_of_literal {s : String} (h : style s = .literal) : ¬ OneLine s := by
  rcases style_cases s with ⟨hstyle, _⟩ | ⟨hstyle, _⟩ | hstyle | ⟨_, _, hmem⟩
  · exact nomatch h.symm.trans hstyle
  · exact nomatch h.symm.trans hstyle
  · exact nomatch h.symm.trans hstyle
  · exact fun hs => nomatch hs '\n' hmem

/-!
## Texts outside of literal blocks
-/

/-- What is written without a header: either plain or from one quote to the next.  A text of one line
is written on one line. -/
inductive Inline : List Char -> Bool -> String -> Prop where
  | plain {cs} : PlainText cs -> Inline cs true (String.ofList cs)
  | quoted {quote cs text} :
      quote = '\'' ∨ quote = '"' -> cs.getLast? = some quote ->
      (forall after line column, after.head? ≠ some '\'' -> exists line' column',
        quoted ⟨quote :: cs ++ after, line, column⟩ =
          some ⟨text, ⟨after, line', column'⟩, false⟩ ∧ line ≤ line' ∧
        (OneLine text -> line' = line ∧ column' = column + (quote :: cs).length)) ->
      Inline (quote :: cs) false text

theorem withMargin_of_oneLine
    (margin : Nat) (char : Char -> List Char) {cs : List Char}
    (h : forall c, c ∈ cs -> isBreak c = false) :
    Writer.withMargin margin char false cs = cs.flatMap char := by
  induction cs with
  | nil => rfl
  | cons c cs ih =>
      rw [List.forall_mem_cons] at h
      rw [Writer.withMargin, if_neg (by simp [h.1]), ih h.2]
      rfl

theorem inline_single
    {margin : Nat} {s : String} (htext : SingleText s.toList) (hmargin : 0 < margin ∨ OneLine s) :
    Inline (Writer.single margin s.toList).toList false s := by
  have hwritten : exists cs, (Writer.single margin s.toList).toList = '\'' :: cs ∧
      cs.getLast? = some '\'' ∧
      (OneLine s -> cs.length = (s.toList.flatMap doubled).length + 1) := by
    refine ⟨Writer.withMargin margin doubled false s.toList ++ ['\''], ?_,
      List.getLast?_concat, fun hs => ?_⟩
    · rw [Writer.single, String.toList_ofList]
      rfl
    · rw [withMargin_of_oneLine margin doubled hs, List.length_append]
      rfl
  rcases hwritten with ⟨cs, hcs, hlast, hlength⟩
  rw [hcs]
  refine .quoted (.inl rfl) hlast fun after line column hafter => ?_
  rcases quoted_single htext hmargin hafter with ⟨line', column', hscan, hline, hplace⟩
  rw [hcs, String.ofList_toList] at hscan
  refine ⟨line', column', hscan, hline, fun hs => ?_⟩
  rw [List.length_cons, hlength hs]
  exact hplace hs

theorem inline_double (s : String) : Inline (Writer.double s.toList).toList false s := by
  have hwritten : exists cs, (Writer.double s.toList).toList = '"' :: cs ∧
      cs.getLast? = some '"' ∧
      cs.length = (s.toList.flatMap (doubleCharOf s.toList)).length + 1 := by
    refine ⟨s.toList.flatMap (doubleCharOf s.toList) ++ ['"'], ?_, List.getLast?_concat, ?_⟩
    · rw [Writer.double, String.toList_ofList]
      rfl
    · rw [List.length_append]
      rfl
  rcases hwritten with ⟨cs, hcs, hlast, hlength⟩
  rw [hcs]
  refine .quoted (.inr rfl) hlast fun after line column _ => ?_
  have hscan := quoted_double s.toList after line column
  rw [hcs, String.ofList_toList] at hscan
  refine ⟨line, _, hscan, Nat.le_refl line, fun _ => ⟨rfl, ?_⟩⟩
  rw [List.length_cons, hlength]
  rfl

theorem inline_text
    {margin : Nat} {s : String} (hstyle : style s ≠ .literal) (hmargin : 0 < margin ∨ OneLine s) :
    Inline (Writer.text margin s).toList (style s = .plain) s := by
  rcases style_cases s with ⟨h, hreads, hplain, hsingle⟩ | ⟨h, hsingle, hline⟩ | h | ⟨h, _⟩
  · have hne : s.toList ≠ [] := by
      intro hnil
      rw [String.toList_eq_nil_iff.mp hnil] at hreads
      exact nomatch hreads
    have hinline := Inline.plain (plainText_of_allowsPlain hne hplain hsingle)
    rw [String.ofList_toList] at hinline
    rw [Writer.text, h]
    exact hinline
  · rw [Writer.text, h]
    exact inline_single (singleText_of_allowsSingle hsingle hline) hmargin
  · rw [Writer.text, h]
    exact inline_double s
  · exact absurd h hstyle

/-!
## The length of a key
-/

theorem length_escaped_le (c : Char) : (Writer.escaped c).length ≤ 4 * c.utf8Size := by
  have hone := Char.utf8Size_pos c
  have hsize : (0xFF < c.toNat -> c.utf8Size ≠ 1) ∧
      (0xFFFF < c.toNat -> c.utf8Size ≠ 1 ∧ c.utf8Size ≠ 2) := by
    have hnat : forall n : UInt32, c.val ≤ n <-> c.toNat ≤ n.toNat := fun n => UInt32.le_iff_toNat_le
    rw [ne_eq, Char.utf8Size_eq_one_iff, ne_eq, Char.utf8Size_eq_two_iff, hnat, hnat]
    simp only [show (127 : UInt32).toNat = 127 from rfl, show (2047 : UInt32).toNat = 2047 from rfl]
    omega
  unfold Writer.escaped
  split
  · simp only [List.length_cons, List.length_nil]
    omega
  · split
    · simp only [List.length_cons, length_upperHex]
      omega
    · split
      · simp only [List.length_cons, length_upperHex]
        omega
      · simp only [List.length_cons, length_upperHex]
        omega

theorem length_flatMap_le
    {char : Char -> List Char} (h : forall c, (char c).length ≤ 4 * c.utf8Size) (s : String) :
    (s.toList.flatMap char).length ≤ 4 * s.utf8ByteSize := by
  have hchars : forall cs, (cs.flatMap char).length ≤ 4 * (String.ofList cs).utf8ByteSize := by
    intro cs
    induction cs with
    | nil => exact Nat.zero_le _
    | cons c cs ih =>
        have hc := h c
        rw [List.flatMap_cons, List.length_append, String.ofList_cons, String.utf8ByteSize_append,
          String.utf8ByteSize_singleton]
        omega
  have hall := hchars s.toList
  rwa [String.ofList_toList] at hall

theorem length_text_le (margin : Nat) {s : String} (hs : OneLine s) :
    (Writer.text margin s).toList.length ≤ 4 * s.utf8ByteSize + 2 := by
  have hone : forall c : Char, 1 ≤ c.utf8Size := fun c => Char.utf8Size_pos c
  have hitself : (s.toList.flatMap fun c => [c]).length ≤ 4 * s.utf8ByteSize :=
    length_flatMap_le (fun c => by have := hone c; simp only [List.length_singleton]; omega) _
  have hdoubled : (s.toList.flatMap doubled).length ≤ 4 * s.utf8ByteSize := by
    refine length_flatMap_le (fun c => ?_) _
    have := hone c
    unfold doubled
    split <;> simp only [List.length_cons, List.length_nil] <;> omega
  have hescaped : (s.toList.flatMap (doubleCharOf s.toList)).length ≤ 4 * s.utf8ByteSize := by
    refine length_flatMap_le (fun c => ?_) _
    have := hone c
    unfold doubleCharOf
    split
    · exact length_escaped_le c
    · unfold Writer.doubleChar
      split
      · simp only [List.length_singleton]
        omega
      · exact length_escaped_le c
  rcases style_cases s with ⟨h, _⟩ | ⟨h, _⟩ | h | ⟨h, _⟩
  · rw [Writer.text, h]
    rw [List.flatMap_singleton'] at hitself
    exact Nat.le_trans hitself (Nat.le_add_right _ 2)
  · rw [Writer.text, h]
    dsimp only
    rw [Writer.single, String.toList_ofList]
    change ('\'' :: Writer.withMargin margin doubled false s.toList ++ ['\'']).length ≤ _
    rw [withMargin_of_oneLine margin doubled hs]
    simp only [List.length_append, List.length_cons, List.length_nil]
    omega
  · rw [Writer.text, h]
    dsimp only
    rw [Writer.double, String.toList_ofList]
    change ('"' :: s.toList.flatMap (doubleCharOf s.toList) ++ ['"']).length ≤ _
    simp only [List.length_append, List.length_cons, List.length_nil]
    omega
  · exact absurd hs (not_oneLine_of_literal h)

end Yaml
end DefTable
