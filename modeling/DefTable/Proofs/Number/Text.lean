import DefTable.Proofs.Lowering.Numbers
import DefTable.Proofs.Text.Told
import DefTable.Proofs.Token.Numeral

/-!
# Numbers can be told from their texts

The text of a finite number is read back as the number, and the infinities have a text each that no
finite number has.  So a number that is defined can be told from its text, which is a single word.
-/

namespace DefTable

open Numeral (Parts)

/-!
## Numerals
-/

theorem Numeral.Parts.Valid.ofDecimal_congr
    {p p' : Parts} (h : p.Valid) (h' : p'.Valid) (hchars : p.chars = p'.chars) :
    Number.ofDecimal false p.decimal.digits p.decimal.exponent =
      Number.ofDecimal false p'.decimal.digits p'.decimal.exponent := by
  have hread := Numeral.read_written h
  rw [hchars, Numeral.read_written h'] at hread
  exact (Except.ok.inj hread).symm

namespace Number

theorem eq_of_magnitude
    {x y : Number} (hsign : x.isNegative = y.isNegative) (h : x.magnitude = y.magnitude) :
    x = y := by
  rw [← ofMagnitude_magnitude x, ← ofMagnitude_magnitude y, hsign, h]

/-!
## Finite numbers
-/

theorem text_of_finite {x : Number} (h : x.isFinite = true) :
    exists p : Parts, p.Valid ∧
      x.text.toList = (if x.isNegative then '-' :: p.chars else p.chars) ∧
      ofDecimal false p.decimal.digits p.decimal.exponent = ofMagnitude false x.magnitude := by
  rcases write_parts sourceLayout h with ⟨p, hvalid, _, htext, hvalue⟩
  exact ⟨p, hvalid, htext, hvalue⟩

theorem eq_of_signed
    {n n' : Bool} {c c' : Char} {cs cs' : List Char} (hc : c.isDigit = true)
    (hc' : c'.isDigit = true)
    (h : (if n then '-' :: c :: cs else c :: cs) = if n' then '-' :: c' :: cs' else c' :: cs') :
    n = n' ∧ c :: cs = c' :: cs' := by
  have hminus : forall {d : Char}, d.isDigit = true -> d ≠ '-' :=
    fun hd => Numeral.ne_of_isDigit hd rfl
  cases n with
  | true =>
      cases n' with
      | true => exact ⟨rfl, (List.cons.inj h).2⟩
      | false => exact absurd (List.cons.inj h).1.symm (hminus hc')
  | false =>
      cases n' with
      | true => exact absurd (List.cons.inj h).1 (hminus hc)
      | false => exact ⟨rfl, h⟩

theorem eq_of_text_finite
    {x y : Number} (hx : x.isFinite = true) (hy : y.isFinite = true) (h : x.text = y.text) :
    x = y := by
  rcases text_of_finite hx with ⟨p, hvalid, htext, hvalue⟩
  rcases text_of_finite hy with ⟨p', hvalid', htext', hvalue'⟩
  rcases Numeral.chars_cons hvalid with ⟨c, cs, hchars, hdigit, _⟩
  rcases Numeral.chars_cons hvalid' with ⟨c', cs', hchars', hdigit', _⟩
  have hsigned := congrArg String.toList h
  rw [htext, htext', hchars, hchars'] at hsigned
  rcases eq_of_signed hdigit hdigit' hsigned with ⟨hsign, hnumeral⟩
  rw [← hchars, ← hchars'] at hnumeral
  have hmagnitudes := congrArg magnitude
    (hvalue.symm.trans ((hvalid.ofDecimal_congr hvalid' hnumeral).trans hvalue'))
  rw [magnitude_ofMagnitude, magnitude_ofMagnitude, magnitude, magnitude, Nat.mod_mod,
    Nat.mod_mod] at hmagnitudes
  exact eq_of_magnitude hsign hmagnitudes

/-!
## Infinite numbers
-/

theorem text_of_infinite {x : Number} (h : x.isInfinite = true) :
    x.text.toList = (if x.isNegative then '-' else '+') :: ['I', 'n', 'f'] := by
  have hmagnitude : x.magnitude = infiniteMagnitude := of_decide_eq_true h
  have hdefined : x.isUndefined = false := by
    rw [isUndefined, hmagnitude, decide_eq_false (Nat.lt_irrefl _)]
  rw [text, Layout.write, hdefined, h, if_neg Bool.false_ne_true, if_pos rfl]
  cases x.isNegative <;> rfl

theorem eq_of_text_infinite
    {x y : Number} (hx : x.isInfinite = true) (hy : y.isInfinite = true) (h : x.text = y.text) :
    x = y := by
  have hchars := congrArg String.toList h
  rw [text_of_infinite hx, text_of_infinite hy] at hchars
  have hsigns : forall n n' : Bool, (if n then '-' else '+') = (if n' then '-' else '+') ->
      n = n' := by
    decide
  have hsign := hsigns _ _ (List.cons.inj hchars).1
  exact eq_of_magnitude hsign ((of_decide_eq_true hx).trans (of_decide_eq_true hy).symm)

theorem text_ne_infinite
    {x y : Number} (hx : x.isFinite = true) (hy : y.isInfinite = true) : x.text ≠ y.text := by
  intro heq
  rcases text_of_finite hx with ⟨p, hvalid, htext, _⟩
  rcases Numeral.chars_cons hvalid with ⟨c, cs, hchars, hdigit, _⟩
  have hsigns : forall n : Bool, (if n then '-' else '+').isDigit = false := by decide
  have hsigned := congrArg String.toList heq
  rw [htext, hchars, text_of_infinite hy] at hsigned
  cases hnegative : x.isNegative with
  | true =>
      rw [hnegative, if_pos rfl] at hsigned
      have hletter : c = 'I' := (List.cons.inj (List.cons.inj hsigned).2).1
      exact Numeral.ne_of_isDigit hdigit rfl hletter
  | false =>
      rw [hnegative, if_neg Bool.false_ne_true] at hsigned
      exact Numeral.ne_of_isDigit hdigit (hsigns y.isNegative) (List.cons.inj hsigned).1

/-!
## Numbers that are defined
-/

section

variable {x y : Number} (hx : x.isUndefined = false)
include hx

theorem finite_or_infinite : x.isFinite = true ∨ x.isInfinite = true := by
  rw [isInfinite_of_defined hx]
  cases x.isFinite with
  | true => exact Or.inl rfl
  | false => exact Or.inr rfl

theorem text_injective (hy : y.isUndefined = false) (h : x.text = y.text) : x = y := by
  rcases finite_or_infinite hx with hx | hx
  · rcases finite_or_infinite hy with hy | hy
    · exact eq_of_text_finite hx hy h
    · exact absurd h (text_ne_infinite hx hy)
  · rcases finite_or_infinite hy with hy | hy
    · exact absurd h.symm (text_ne_infinite hy hx)
    · exact eq_of_text_infinite hx hy h

theorem text_cons : exists c cs, x.text.toList = c :: cs ∧ (c.isDigit = true ∨ c ∈ ['+', '-']) := by
  rcases finite_or_infinite hx with hfinite | hinfinite
  · rcases text_of_finite hfinite with ⟨p, hvalid, htext, _⟩
    rcases Numeral.chars_cons hvalid with ⟨c, cs, hchars, hdigit, _⟩
    rw [htext]
    cases x.isNegative with
    | true => exact ⟨'-', p.chars, rfl, Or.inr (by decide)⟩
    | false => exact ⟨c, cs, hchars, Or.inl hdigit⟩
  · rw [text_of_infinite hinfinite]
    cases x.isNegative with
    | true => exact ⟨'-', _, rfl, Or.inr (by decide)⟩
    | false => exact ⟨'+', _, rfl, Or.inr (by decide)⟩

theorem mem_text {c : Char} (hc : c ∈ x.text.toList) :
    c.isDigit = true ∨ c ∈ ['.', 'e', '+', '-', 'I', 'n', 'f'] := by
  rcases finite_or_infinite hx with hfinite | hinfinite
  · rcases text_of_finite hfinite with ⟨p, hvalid, htext, _⟩
    have hnumeral : forall d, d ∈ p.chars ->
        d.isDigit = true ∨ d ∈ ['.', 'e', '+', '-', 'I', 'n', 'f'] := by
      intro d hd
      rcases hvalid.mem_chars hd with hdigit | hmark
      · exact Or.inl hdigit
      · exact Or.inr (List.mem_append_left ['I', 'n', 'f'] hmark)
    rw [htext] at hc
    split at hc
    · rcases List.mem_cons.mp hc with rfl | hc
      · exact Or.inr (by decide)
      · exact hnumeral c hc
    · exact hnumeral c hc
  · have hmarks : forall n : Bool, [if n then '-' else '+', 'I', 'n', 'f'].all
        (['.', 'e', '+', '-', 'I', 'n', 'f'].contains ·) = true := by decide
    rw [text_of_infinite hinfinite] at hc
    exact Or.inr (List.contains_iff_mem.mp (List.all_eq_true.mp (hmarks x.isNegative) c hc))

theorem isLegible_text : IsLegible x.text := by
  have hmarks : forall c, c ∈ ['.', 'e', '+', '-', 'I', 'n', 'f'] -> c ∉ delimiters :=
    undelimited_iff.mp (by decide)
  have hdelimiters : delimiters.all (!Char.isDigit ·) = true := by decide
  constructor
  · rcases text_cons hx with ⟨c, cs, htext, _⟩
    rw [htext]
    exact List.cons_ne_nil c cs
  · intro c hc hdelimiter
    rcases mem_text hx hc with hdigit | hmark
    · have hnot := List.all_eq_true.mp hdelimiters c hdelimiter
      rw [hdigit] at hnot
      cases hnot
    · exact hmarks c hmark hdelimiter

end

end Number
end DefTable
