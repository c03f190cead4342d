import DefTable.Proofs.Data.Yaml.Inline
import DefTable.Proofs.Token.Numeral

/-!
# Numbers mean themselves, but for a zero with a sign

A number is written as a plain scalar.  Written without point and exponent it is read as an integer,
which stands for the same number; but there is only one zero among the integers, so negative zero
comes back as zero.
-/

namespace DefTable

open Numeral (Parts Digits)

namespace Number

/-- The number with zero in the place of negative zero. -/
def unsignZero (x : Number) : Number :=
  if x.magnitude = 0 then .zero else x

/-!
## Rounding up to the sign
-/

theorem ofRatio_sign (a b : Nat) :
    exists k, forall negative, ofRatio negative a b = ofMagnitude negative k := by
  unfold ofRatio
  split
  · exact ⟨0, fun _ => rfl⟩
  · exact ⟨_, fun _ => rfl⟩

theorem ofDecimal_sign (m : Nat) (e : Int) :
    exists k, forall negative, ofDecimal negative m e = ofMagnitude negative k := by
  unfold ofDecimal
  dsimp only
  split
  · exact ⟨0, fun _ => rfl⟩
  · split
    · exact ⟨infiniteMagnitude, fun _ => rfl⟩
    · split
      · exact ⟨0, fun _ => rfl⟩
      · split
        · exact ofRatio_sign _ _
        · exact ofRatio_sign _ _

theorem ofDecimal_isNegative
    {x : Number} {m : Nat} {e : Int} (h : ofDecimal false m e = ofMagnitude false x.magnitude) :
    ofDecimal x.isNegative m e = x := by
  rcases ofDecimal_sign m e with ⟨k, hk⟩
  have hmagnitude : k % signSize = x.magnitude % signSize := by
    rw [hk false] at h
    rw [← magnitude_ofMagnitude false k, h, magnitude_ofMagnitude]
  have hsame : ofMagnitude x.isNegative k = ofMagnitude x.isNegative x.magnitude := by
    rw [ofMagnitude, ofMagnitude, hmagnitude]
  rw [hk, hsame, ofMagnitude_magnitude]

theorem ofRatio_of_decimal {n : Nat} (hn : n ≠ 0) (hlt : n < 2 ^ 64) (negative : Bool) :
    ofRatio negative n 1 = ofDecimal negative n 0 := by
  have hlength : decimalLength n ≤ 20 := by
    refine Decidable.byContradiction fun hlong => ?_
    have hpow := ten_pow_decimalLength_le (Nat.pos_of_ne_zero hn)
    have hmono : 10 ^ 20 ≤ 10 ^ (decimalLength n - 1) :=
      Nat.pow_le_pow_right (by decide) (by omega)
    omega
  unfold ofDecimal
  dsimp only
  rw [if_neg hn, if_neg (by omega), if_neg (by omega), if_pos (Int.le_refl 0)]
  exact congrArg (fun k => ofRatio negative k 1) (Nat.mul_one n).symm

end Number

namespace Yaml

/-!
## Numerals in parts
-/

theorem span_isDigit
    {cs rest : List Char} (hcs : Digits cs)
    (hrest : forall c, rest.head? = some c -> c.isDigit = false) :
    digits (cs ++ rest) = (cs, rest) := by
  rw [digits, List.span_eq_takeWhile_dropWhile, List.takeWhile_append_of_pos hcs,
    List.dropWhile_append_of_pos hcs]
  cases rest with
  | nil => rw [List.takeWhile_nil, List.append_nil, List.dropWhile_nil]
  | cons c rest =>
      have hc : ¬ c.isDigit = true := Bool.eq_false_iff.mp (hrest c rfl)
      rw [List.takeWhile_cons_of_neg hc, List.append_nil, List.dropWhile_cons_of_neg hc]

theorem head_after_whole {d : Parts} {c : Char}
    (hc : (d.fractionChars ++ d.exponentChars).head? = some c) : c = '.' ∨ c = 'e' := by
  unfold Parts.fractionChars Parts.exponentChars at hc
  split at hc
  · split at hc
    · cases hc
    · exact .inr (Option.some.inj hc).symm
  · exact .inl (Option.some.inj hc).symm

theorem not_isDigit_after_whole {d : Parts} (c : Char)
    (hc : (d.fractionChars ++ d.exponentChars).head? = some c) : c.isDigit = false := by
  rcases head_after_whole hc with rfl | rfl <;> rfl

theorem exponent?_written {d : Parts} (h : d.Valid) :
    exponent? d.exponentChars = some d.powerValue := by
  unfold Parts.exponentChars Parts.powerValue
  cases hpower : d.power with
  | none => rfl
  | some power =>
      rcases power with ⟨negative, ds⟩
      rcases h.power negative ds hpower with ⟨hdigits, hne⟩
      have hspan : digits ds = (ds, []) := by
        have hspan := span_isDigit hdigits (show forall c, ([] : List Char).head? = some c ->
          c.isDigit = false from nofun)
        rwa [List.append_nil] at hspan
      cases ds with
      | nil => exact absurd rfl hne
      | cons c ds =>
          cases negative <;>
            simp only [exponent?, hspan, Numeral.natValue_eq, if_true, if_false, true_or,
              Bool.false_eq_true]

theorem not_isDigit_exponent {d : Parts} (c : Char) (hc : d.exponentChars.head? = some c) :
    c.isDigit = false := by
  unfold Parts.exponentChars at hc
  split at hc
  · cases hc
  · cases hc
    rfl

theorem magnitude?_written {d : Parts} (h : d.Valid) (negative : Bool) :
    magnitude? negative d.chars =
      some (.ofDecimal negative d.decimal.digits d.decimal.exponent) := by
  have hwhole : digits d.chars = (d.whole, d.fractionChars ++ d.exponentChars) :=
    span_isDigit h.whole not_isDigit_after_whole
  have hnonempty : d.whole.isEmpty = false := List.isEmpty_eq_false_iff.mpr h.whole_ne_nil
  have hvalue : (exponent? d.exponentChars).bind (fun power =>
      some (Number.ofDecimal negative (Numeral.natValue ((d.whole ++ d.part).map .char))
        (power - d.part.length))) =
      some (.ofDecimal negative d.decimal.digits d.decimal.exponent) := by
    rw [exponent?_written h, Numeral.natValue_eq]
    rfl
  rw [← hvalue]
  unfold magnitude?
  rw [hwhole]
  dsimp only
  rw [hnonempty, Bool.false_and, if_neg Bool.false_ne_true]
  unfold Parts.fractionChars
  cases hpart : d.part with
  | nil =>
      unfold Parts.exponentChars
      cases d.power with
      | none => rfl
      | some power => rfl
  | cons c cs =>
      have hdigits : digits (c :: cs ++ d.exponentChars) = (c :: cs, d.exponentChars) :=
        span_isDigit (hpart ▸ h.part) not_isDigit_exponent
      change ((exponent? (digits (c :: cs ++ d.exponentChars)).2).bind fun power =>
        some (Number.ofDecimal negative
          (Numeral.natValue ((d.whole ++ (digits (c :: cs ++ d.exponentChars)).1).map .char))
          (power - (digits (c :: cs ++ d.exponentChars)).1.length))) = _
      rw [hdigits]

/-!
## The characters of a number
-/

def IsNumeric (c : Char) : Prop :=
  c.isDigit = true ∨ c ∈ ['.', 'e', '+', '-']

theorem isNumeric_chars {d : Parts} (h : d.Valid) {c : Char} (hc : c ∈ d.chars) : IsNumeric c :=
  h.mem_chars hc

theorem IsNumeric.ne {c m : Char} (h : IsNumeric c) (hm : m.isDigit = false)
    (hm' : m ∉ ['.', 'e', '+', '-']) : c ≠ m := by
  rintro rfl
  exact h.elim (fun hdigit => nomatch hm.symm.trans hdigit) hm'

def signed (negative : Bool) (d : Parts) : List Char :=
  if negative then '-' :: d.chars else d.chars

theorem isNumeric_signed {d : Parts} (h : d.Valid) (negative : Bool) :
    forall c, c ∈ signed negative d -> IsNumeric c := by
  intro c hc
  unfold signed at hc
  split at hc
  · rcases List.mem_cons.mp hc with rfl | hc
    · exact .inr (by decide)
    · exact isNumeric_chars h hc
  · exact isNumeric_chars h hc

def firstDigit : List Char -> Bool
  | '-' :: c :: _ => c.isDigit
  | c :: _ => c.isDigit
  | [] => false

theorem firstDigit_signed {d : Parts} (h : d.Valid) (negative : Bool) :
    firstDigit (signed negative d) = true := by
  rcases Numeral.chars_cons h with ⟨c, cs, hchars, hdigit, _⟩
  have hsign : c ≠ '-' := Numeral.ne_of_isDigit hdigit rfl
  rw [signed, hchars]
  cases negative with
  | true => exact hdigit
  | false =>
      rw [if_neg Bool.false_ne_true, firstDigit]
      · exact hdigit
      · exact fun _ _ heq => absurd heq hsign

/-!
## Integers
-/

theorem digitValue?_of_isDigit {c : Char} (h : c.isDigit = true) :
    Numeral.digitValue? c = some (c.toNat - '0'.toNat) ∧ c.toNat - '0'.toNat < 10 := by
  refine ⟨if_pos h, ?_⟩
  have hrange : 48 ≤ c.toNat ∧ c.toNat ≤ 57 := by
    simpa [Char.isDigit, UInt32.le_iff_toNat_le] using h
  have hzero : '0'.toNat = 48 := rfl
  omega

def addRadixDigit (radix n : Nat) (c : Char) : Option Nat := do
  let d ← Numeral.digitValue? c
  if d < radix then some (n * radix + d) else none

theorem foldlM_digits {cs : List Char} (h : Digits cs) (n : Nat) :
    cs.foldlM (addRadixDigit 10) n = some (Nat.ofDigitChars 10 cs n) := by
  induction cs generalizing n with
  | nil => rfl
  | cons c cs ih =>
      rcases digitValue?_of_isDigit (h c List.mem_cons_self) with ⟨hvalue, hlt⟩
      have hadd : addRadixDigit 10 n c = some (n * 10 + (c.toNat - '0'.toNat)) := by
        rw [addRadixDigit, hvalue]
        exact if_pos hlt
      rw [List.foldlM_cons, hadd, Nat.ofDigitChars_cons, Nat.mul_comm]
      exact ih (fun d hd => h d (List.mem_cons_of_mem c hd)) _

theorem radixValue?_digits {cs : List Char} (h : Digits cs) (hne : cs ≠ []) :
    radixValue? 10 cs = some (Nat.ofDigitChars 10 cs 0) := by
  rw [radixValue?, if_neg (by simpa using hne)]
  exact foldlM_digits h 0

theorem radixValue?_stop
    {radix : Nat} (hradix : radix ≤ 10) {c : Char} (hc : c = '.' ∨ c = 'e') (cs rest : List Char) :
    radixValue? radix (cs ++ c :: rest) = none := by
  have hstop : forall n, addRadixDigit radix n c = none := by
    intro n
    rcases hc with rfl | rfl
    · rfl
    · exact if_neg (Nat.not_lt.mpr (Nat.le_trans hradix (by decide : 10 ≤ 14)))
  have hfold : forall n, (cs ++ c :: rest).foldlM (addRadixDigit radix) n = none := by
    intro n
    rw [List.foldlM_append]
    cases cs.foldlM (addRadixDigit radix) n with
    | none => rfl
    | some k =>
        change (c :: rest).foldlM (addRadixDigit radix) k = none
        rw [List.foldlM_cons, hstop]
        rfl
  rw [radixValue?, if_neg (by simp)]
  exact hfold 0

theorem unsigned?_written {d : Parts} (h : d.Valid) (htidy : d.Tidy) :
    unsigned? d.chars = none ∨
      d.decimal.exponent = 0 ∧ unsigned? d.chars = some d.decimal.digits := by
  cases hwhole : d.whole with
  | nil => exact absurd hwhole h.whole_ne_nil
  | cons lead more =>
      have hdigits : Digits (lead :: more) := hwhole ▸ h.whole
      cases hrest : d.fractionChars ++ d.exponentChars with
      | nil =>
          rcases List.append_eq_nil_iff.mp hrest with ⟨hfraction, hexponent⟩
          have hpart : d.part = [] := by
            unfold Parts.fractionChars at hfraction
            split at hfraction
            · rename_i hempty
              exact List.isEmpty_iff.mp hempty
            · cases hfraction
          have hpower : d.power = none := by
            unfold Parts.exponentChars at hexponent
            split at hexponent
            · assumption
            · cases hexponent
          refine .inr ⟨?_, ?_⟩
          · rw [Parts.decimal, Parts.powerValue, hpower, hpart]
            rfl
          · rw [Parts.chars, hrest, List.append_nil, Parts.decimal, hpart, List.append_nil]
            by_cases hzero : lead = '0'
            · have hsingle := htidy (by rw [hwhole, hzero]; rfl)
              rw [hsingle]
              rfl
            · rw [hwhole, unsigned?]
              · exact radixValue?_digits hdigits (List.cons_ne_nil _ _)
              all_goals simp [hzero]
      | cons c rest =>
          have hc := head_after_whole (congrArg List.head? hrest)
          refine .inl ?_
          rw [Parts.chars, hrest, hwhole]
          by_cases hzero : lead = '0'
          · have hsingle := htidy (by rw [hwhole, hzero]; rfl)
            rw [hwhole] at hsingle
            rw [hsingle]
            have hstop := radixValue?_stop (by decide : 8 ≤ 10) hc [] rest
            rcases hc with rfl | rfl <;> exact hstop
          · rw [List.cons_append, unsigned?]
            · exact radixValue?_stop (Nat.le_refl 10) hc (lead :: more) rest
            all_goals simp [hzero]

theorem integer?_written {d : Parts} (h : d.Valid) (htidy : d.Tidy) (negative : Bool) :
    integer? (signed negative d) = none ∨
      d.decimal.exponent = 0 ∧ d.decimal.digits < 2 ^ 64 ∧
        integer? (signed negative d) =
          some (if negative then -(d.decimal.digits : Int) else d.decimal.digits) := by
  have hread : integer? (signed negative d) = (unsigned? d.chars).bind fun n =>
      if negative then signed? true n
      else if n < 0x10000000000000000 then some (n : Int) else none := by
    rw [signed]
    cases negative with
    | true => rfl
    | false =>
        rcases Numeral.chars_cons h with ⟨c, cs, hchars, hdigit, hmarks⟩
        have hminus : c ≠ '-' := Numeral.ne_of_isDigit hdigit rfl
        have hplus : c ≠ '+' := Numeral.ne_of_isDigit hdigit rfl
        rw [if_neg Bool.false_ne_true, hchars, integer?]
        · rfl
        · exact fun _ heq => hminus (List.cons.inj heq).1
        · exact fun _ heq => hplus (List.cons.inj heq).1
        all_goals
          intro more heq
          have hmark := hmarks _ (congrArg List.head? (List.cons.inj heq).2)
          simp at hmark
  rw [hread]
  rcases unsigned?_written h htidy with hnone | ⟨hexponent, hsome⟩
  · exact .inl (by rw [hnone]; rfl)
  · rw [hsome, Option.bind_some]
    cases negative with
    | true =>
        rw [if_pos rfl, if_pos rfl, signed?, if_pos rfl]
        split
        · exact .inr ⟨hexponent, by omega, rfl⟩
        · exact .inl rfl
    | false =>
        rw [if_neg Bool.false_ne_true, if_neg Bool.false_ne_true]
        split
        · exact .inr ⟨hexponent, by omega, rfl⟩
        · exact .inl rfl

/-!
## What a written number means
-/

theorem time?_written {d : Parts} (h : d.Valid) (negative : Bool) :
    time? (signed negative d) = none := by
  have hdate : date? (signed negative d) = none := by
    cases negative with
    | true => rfl
    | false =>
        have hwhole : digits d.chars = (d.whole, d.fractionChars ++ d.exponentChars) :=
          span_isDigit h.whole not_isDigit_after_whole
        have hmark : mark? '-' (d.fractionChars ++ d.exponentChars) = none := by
          cases hrest : d.fractionChars ++ d.exponentChars with
          | nil => rfl
          | cons c rest => rcases head_after_whole (congrArg List.head? hrest) with rfl | rfl <;> rfl
        rw [signed, if_neg Bool.false_ne_true, date?, hwhole]
        dsimp only
        split
        · rfl
        · rw [hmark]
          rfl
  rw [time?, hdate]
  rfl

theorem float?_written
    {d : Parts} (h : d.Valid) {x : Number} (hfinite : x.isFinite = true)
    (hvalue : Number.ofDecimal x.isNegative d.decimal.digits d.decimal.exponent = x) :
    float? (signed x.isNegative d) = some x := by
  have hmagnitude := magnitude?_written h x.isNegative
  rw [hvalue] at hmagnitude
  have hread : float? (signed x.isNegative d) =
      (magnitude? x.isNegative d.chars).filter Number.isFinite := by
    unfold float? signed
    cases x.isNegative with
    | true => rfl
    | false =>
        rcases Numeral.chars_cons h with ⟨c, cs, hchars, hdigit, _⟩
        have hminus : c ≠ '-' := Numeral.ne_of_isDigit hdigit rfl
        have hplus : c ≠ '+' := Numeral.ne_of_isDigit hdigit rfl
        rw [if_neg Bool.false_ne_true, hchars]
        dsimp only
        split
        · rename_i heq
          exact absurd (List.cons.inj heq).1 hminus
        · rename_i heq
          exact absurd (List.cons.inj heq).1 hplus
        · rfl
  rw [hread, hmagnitude, Option.filter_some, if_pos hfinite]

theorem lookup_words {s : String} (h : firstDigit s.toList = true) : words.lookup s = none := by
  have hwords : forall e, e ∈ words -> firstDigit e.1.toList = false := by decide
  refine List.lookup_eq_none_iff.mpr fun e he => ?_
  refine bne_iff_ne.mpr ?_
  rintro rfl
  exact nomatch (hwords e he).symm.trans h

theorem resolve_numeric {s : String} (h : firstDigit s.toList = true) {d : Data}
    (hnumeric : numeric? true s = some d) : resolve s = d := by
  unfold resolve meaning
  rw [lookup_words h]
  dsimp only
  cases hs : s.toList with
  | nil =>
      rw [hs] at h
      cases h
  | cons c cs =>
      have hc : c.isDigit = true ∨ c = '-' := by
        rw [hs] at h
        by_cases hminus : c = '-'
        · exact .inr hminus
        · rw [firstDigit] at h
          · exact .inl h
          · exact fun _ _ heq => absurd heq hminus
      have hpoint : c ≠ '.' := by
        rintro rfl
        rcases hc with hc | hc <;> cases hc
      have htest : (c.isDigit || decide (c = '+') || decide (c = '-')) = true := by
        rcases hc with hc | hc <;> simp [hc]
      split
      · rename_i heq
        exact absurd (List.cons.inj heq).1 hpoint
      · rename_i heq
        rw [← (List.cons.inj heq).1, htest, if_pos rfl, hnumeric]
        rfl
      · rename_i heq
        cases heq

theorem number?_resolve_finite
    {s : String} {d : Parts} (h : d.Valid) (htidy : d.Tidy) {x : Number}
    (hfinite : x.isFinite = true) (hzero : x.magnitude ≠ 0)
    (hs : s.toList = signed x.isNegative d)
    (hvalue : Number.ofDecimal x.isNegative d.decimal.digits d.decimal.exponent = x) :
    (resolve s).number? = some x := by
  have hfirst : firstDigit s.toList = true := hs ▸ firstDigit_signed h x.isNegative
  have hbare : s.toList.filter (· ≠ '_') = signed x.isNegative d := by
    rw [hs, List.filter_eq_self]
    intro c hc
    exact decide_eq_true ((isNumeric_signed h _ c hc).ne rfl (by decide))
  have hnumeric : numeric? true s = ((integer? (signed x.isNegative d)).map Data.integer <|>
      (float? (signed x.isNegative d)).map Data.number) := by
    unfold numeric?
    dsimp only
    rw [if_pos rfl, hbare, hs, time?_written h]
    rfl
  rcases integer?_written h htidy x.isNegative with hnone | ⟨hexponent, hlt, hsome⟩
  · rw [hnone, float?_written h hfinite hvalue] at hnumeric
    rw [resolve_numeric hfirst hnumeric]
    rfl
  · rw [hsome] at hnumeric
    rw [resolve_numeric hfirst hnumeric]
    have hn : d.decimal.digits ≠ 0 := by
      intro hdigits
      rw [hdigits, Number.ofDecimal, if_pos rfl] at hvalue
      rw [← hvalue, Number.magnitude_ofMagnitude] at hzero
      exact hzero rfl
    have hround := Number.ofRatio_of_decimal hn hlt x.isNegative
    rw [hexponent] at hvalue
    refine congrArg some ?_
    rw [Number.ofInt]
    cases hsign : x.isNegative with
    | true =>
        rw [hsign] at hround hvalue
        rw [if_pos rfl, Int.natAbs_neg, Int.natAbs_natCast, decide_eq_true (by omega), hround,
          hvalue]
    | false =>
        rw [hsign] at hround hvalue
        rw [if_neg Bool.false_ne_true, Int.natAbs_natCast, decide_eq_false (by omega), hround,
          hvalue]

theorem number?_resolve_write {x : Number} (h : x.isUndefined = false) :
    (resolve (Writer.layout.write x)).number? = some x.unsignZero := by
  by_cases hzero : x.magnitude = 0
  · have hx := Number.ofMagnitude_magnitude x
    rw [hzero] at hx
    rw [Number.unsignZero, if_pos hzero, ← hx]
    cases x.isNegative <;> decide +kernel
  · rw [Number.unsignZero, if_neg hzero]
    cases hfinite : x.isFinite with
    | true =>
        rcases Number.write_parts Writer.layout hfinite with ⟨d, hvalid, htidy, htext, hvalue⟩
        exact number?_resolve_finite hvalid htidy hfinite hzero htext
          (Number.ofDecimal_isNegative hvalue)
    | false =>
        have hmagnitude : x.magnitude = Number.infiniteMagnitude := by
          have hle := of_decide_eq_false h
          have hge := of_decide_eq_false hfinite
          omega
        have hx := Number.ofMagnitude_magnitude x
        rw [hmagnitude] at hx
        rw [← hx]
        cases x.isNegative <;> decide +kernel

/-!
## A number as a plain scalar
-/

theorem hasIndicator_some
    {cs : List Char} (h : forall c, c ∈ cs -> c ≠ ':' ∧ c ≠ '#') (previous : Char) :
    hasIndicator (some previous) cs = false := by
  induction cs generalizing previous with
  | nil => rfl
  | cons c cs ih =>
      rw [List.forall_mem_cons] at h
      rw [hasIndicator, decide_eq_false h.1.1, decide_eq_false h.1.2, ih h.2]
      rfl

theorem leadsBadly_of_isNumeric {c : Char} (h : IsNumeric c) : leadsBadly c = false := by
  have hbad : "#,[]\x7b\x7d&*!|>'\"%@`".toList.all (fun m =>
      m.isDigit = false ∧ m ∉ ['.', 'e', '+', '-']) = true := by
    decide
  rw [leadsBadly, Bool.eq_false_iff]
  intro hc
  have hmem : c ∈ "#,[]\x7b\x7d&*!|>'\"%@`".toList := by simpa using hc
  rcases of_decide_eq_true (List.all_eq_true.mp hbad c hmem) with ⟨hdigit, hsign⟩
  exact h.ne hdigit hsign rfl

theorem plainText_signed {d : Parts} (h : d.Valid) (negative : Bool) :
    PlainText (signed negative d) := by
  have hnumeric := isNumeric_signed h negative
  rcases Numeral.chars_cons h with ⟨c, cs, hchars, hdigit, _⟩
  have hminus : c ≠ '-' := Numeral.ne_of_isDigit hdigit rfl
  have hrest : forall c, c ∈ cs -> c ≠ ':' ∧ c ≠ '#' := by
    intro e he
    have hmem : e ∈ d.chars := by rw [hchars]; exact List.mem_cons_of_mem c he
    have he := isNumeric_chars h hmem
    exact ⟨he.ne rfl (by decide), he.ne rfl (by decide)⟩
  have hc : c ≠ ':' ∧ c ≠ '#' :=
    ⟨Numeral.ne_of_isDigit hdigit rfl, Numeral.ne_of_isDigit hdigit rfl⟩
  refine ⟨?_, ?_, ?_, ?_, ?_, ?_, ?_⟩
  · intro hnil
    have hfirst := firstDigit_signed h negative
    rw [hnil] at hfirst
    cases hfirst
  · intro e he
    have hne := fun m => (hnumeric e he).ne (m := m)
    simp [isBreak, hne '\n' rfl (by decide), hne '\r' rfl (by decide),
      hne '\u0085' rfl (by decide), hne '\u2028' rfl (by decide), hne '\u2029' rfl (by decide)]
  · exact fun e he => (hnumeric e he).ne rfl (by decide)
  · exact fun hlast => (hnumeric ' ' (List.mem_of_getLast? hlast)).ne rfl (by decide) rfl
  · cases negative with
    | true =>
        have hblank : isBlank c = false :=
          isBlank_of_ne (Numeral.ne_of_isDigit hdigit rfl) (Numeral.ne_of_isDigit hdigit rfl)
        rw [signed, if_pos rfl, hchars, hasIndicator,
          hasIndicator_some (List.forall_mem_cons.mpr ⟨hc, hrest⟩)]
        simp [hblank, leadsBadly_of_isNumeric (.inr (by decide : '-' ∈ ['.', 'e', '+', '-']))]
    | false =>
        rw [signed, if_neg Bool.false_ne_true, hchars, hasIndicator, hasIndicator_some hrest]
        simp [leadsBadly_of_isNumeric (.inl hdigit), hminus, hc.1,
          (Numeral.ne_of_isDigit hdigit rfl : c ≠ '?')]
  · exact fun hhead => (hnumeric ' ' (List.mem_of_head? hhead)).ne rfl (by decide) rfl
  · cases negative with
    | true =>
        rw [signed, if_pos rfl, hchars]
        simp [startsLikeDocument, List.isPrefixOf, Ne.symm hminus]
    | false =>
        rw [signed, if_neg Bool.false_ne_true, hchars]
        exact not_startsLikeDocument hminus (Numeral.ne_of_isDigit hdigit rfl) cs

theorem write_of_not_isFinite {x : Number} (h : x.isFinite = false) :
    Writer.layout.write x ∈ [".nan", "-.inf", ".inf"] := by
  have hge := of_decide_eq_false h
  unfold Number.Layout.write
  split
  · exact List.mem_cons_self
  · rename_i hdefined
    have hinfinite : x.isInfinite = true := by
      have hle := of_decide_eq_false (Bool.eq_false_iff.mpr hdefined)
      exact decide_eq_true (by omega)
    rw [if_pos hinfinite]
    cases x.isNegative <;> decide

theorem plainText_word :
    forall w, w ∈ [".nan", "-.inf", ".inf"] -> PlainText w.toList := by
  decide

theorem plainText_write (x : Number) : PlainText (Writer.layout.write x).toList := by
  cases hfinite : x.isFinite with
  | true =>
      rcases Number.write_parts Writer.layout hfinite with ⟨d, hvalid, _, htext, _⟩
      rw [htext]
      exact plainText_signed hvalid x.isNegative
  | false => exact plainText_word _ (write_of_not_isFinite hfinite)

end Yaml
end DefTable
