import DefTable.Proofs.Number.Shortest
import DefTable.Proofs.Token.NumeralGrammar

/-!
# Numerals that were written

A number is written as a decimal numeral: digits, perhaps a fraction, perhaps an exponent.  Such a
numeral is scanned as one token and read as the decimal that its parts denote.  The parts of a
written number denote its shortest decimal, which rounds to the number.
-/

namespace DefTable
namespace Numeral

/-!
## Decimal numerals in parts
-/

/-- A decimal numeral: the digits before the point and after it, and the exponent with its sign. -/
structure Parts where
  whole : List Char
  part : List Char
  power : Option (Bool × List Char)

namespace Parts

def fractionChars (d : Parts) : List Char :=
  if d.part.isEmpty then [] else '.' :: d.part

def exponentChars (d : Parts) : List Char :=
  match d.power with
  | none => []
  | some (negative, digits) => 'e' :: (if negative then '-' else '+') :: digits

def chars (d : Parts) : List Char :=
  d.whole ++ (d.fractionChars ++ d.exponentChars)

def powerValue (d : Parts) : Int :=
  match d.power with
  | none => 0
  | some (negative, digits) =>
      if negative then -(Nat.ofDigitChars 10 digits 0 : Int) else Nat.ofDigitChars 10 digits 0

def decimal (d : Parts) : Decimal :=
  ⟨Nat.ofDigitChars 10 (d.whole ++ d.part) 0, d.powerValue - d.part.length⟩

end Parts

structure Parts.Valid (d : Parts) : Prop where
  whole : Digits d.whole
  whole_ne_nil : d.whole ≠ []
  part : Digits d.part
  power : forall negative digits, d.power = some (negative, digits) ->
    Digits digits ∧ digits ≠ []

def Parts.Tidy (d : Parts) : Prop :=
  d.whole.head? = some '0' -> d.whole = ['0']

theorem Digits.append {cs ds : List Char} (hcs : Digits cs) (hds : Digits ds) :
    Digits (cs ++ ds) := by
  intro c hc
  exact (List.mem_append.mp hc).elim (hcs c) (hds c)

theorem digits_toDigits (n : Nat) : Digits (Nat.toDigits 10 n) :=
  fun _ hc => Nat.isDigit_of_mem_toDigits (by decide) (Nat.le_refl _) hc

theorem digits_replicate (n : Nat) : Digits (List.replicate n '0') := by
  intro c hc
  rw [(List.mem_replicate.mp hc).2]
  rfl

/-!
## Parts by the grammar
-/

section

variable {d : Parts}

theorem Parts.Valid.run_whole (h : d.Valid) : Run "0123456789" d.whole :=
  (run_decimal_iff d.whole).mpr ⟨h.whole_ne_nil, h.whole⟩

theorem Parts.Valid.fraction (h : d.Valid) : Fraction d.fractionChars := by
  unfold Parts.fractionChars
  split
  · exact .absent
  · rename_i hpart
    refine .point ((run_decimal_iff d.part).mpr ⟨?_, h.part⟩)
    rwa [List.isEmpty_iff] at hpart

theorem Parts.Valid.exponent (h : d.Valid) : Exponent d.exponentChars := by
  unfold Parts.exponentChars
  split
  · exact .absent
  · rename_i negative digits hpower
    have hdigits := (run_decimal_iff digits).mpr (h.power negative digits hpower).symm
    cases negative with
    | true => exact .mark (.inl rfl) .minus hdigits
    | false => exact .mark (.inl rfl) .plus hdigits

theorem Parts.Valid.magnitude (h : d.Valid) : Magnitude d.chars :=
  .decimal h.run_whole h.fraction h.exponent

end

/-!
## Reading
-/

theorem natValue_eq (cs : List Char) :
    natValue (cs.map Glyph.char) = Nat.ofDigitChars 10 cs 0 := by
  rw [natValue, Nat.ofDigitChars_eq_foldl, List.foldl_map]
  congr 1
  funext n c
  rw [Nat.mul_comm]
  rfl

theorem breaks_exponentChars (d : Parts) {rest : Text} (hrest : Token.Breaks isDigit rest) :
    Token.Breaks isDigit (d.exponentChars.map Glyph.char ++ rest) := by
  unfold Parts.exponentChars
  split
  · exact hrest
  · intro g hg
    cases hg
    rfl

theorem breaks_fractionChars (d : Parts) {rest : Text} (hrest : Token.Breaks isDigit rest) :
    Token.Breaks isDigit (d.fractionChars.map Glyph.char ++ rest) := by
  unfold Parts.fractionChars
  split
  · exact hrest
  · intro g hg
    cases hg
    rfl

theorem breaks_exponentEnd (d : Parts) : Token.Breaks isDigit (d.exponentChars.map Glyph.char) := by
  have hbreaks := breaks_exponentChars d Token.breaks_nil
  rwa [List.append_nil] at hbreaks

theorem fraction_written {d : Parts} (h : d.Valid) :
    fraction ((d.fractionChars ++ d.exponentChars).map Glyph.char) =
      .ok (d.part.map Glyph.char, d.exponentChars.map Glyph.char) := by
  unfold Parts.fractionChars
  cases hpart : d.part with
  | nil =>
      rw [List.isEmpty_nil, if_pos rfl, List.nil_append]
      unfold Parts.exponentChars
      cases d.power with
      | none => rfl
      | some power => rfl
  | cons c cs =>
      have hdigits : Digits (c :: cs) := hpart ▸ h.part
      rw [List.isEmpty_cons, if_neg Bool.false_ne_true]
      change fraction (.char '.' :: ((c :: cs ++ d.exponentChars).map Glyph.char)) = _
      rw [fraction, List.map_append, span_digits hdigits (breaks_exponentEnd d)]
      rfl

theorem exponent_written {d : Parts} (h : d.Valid) :
    exponent (d.exponentChars.map Glyph.char) = .ok (d.powerValue, []) := by
  unfold Parts.exponentChars Parts.powerValue
  cases hpower : d.power with
  | none => rfl
  | some power =>
      rcases power with ⟨negative, digits⟩
      rcases h.power negative digits hpower with ⟨hdigits, hne⟩
      have hspan : (digits.map Glyph.char).span isDigit = (digits.map Glyph.char, []) := by
        have hspan := span_digits hdigits Token.breaks_nil
        rwa [List.append_nil] at hspan
      have hsign : sign (.char (if negative then '-' else '+') :: digits.map Glyph.char) =
          (negative, digits.map Glyph.char) := by
        cases negative <;> rfl
      cases digits with
      | nil => exact absurd rfl hne
      | cons c cs =>
          change exponent (.char 'e' :: .char (if negative then '-' else '+') ::
            (c :: cs).map Glyph.char) = _
          rw [exponent, if_pos (Or.inl rfl), hsign]
          dsimp only
          rw [hspan, ← natValue_eq]
          rfl

theorem decimalBody_written {d : Parts} (h : d.Valid) :
    decimalBody (d.chars.map Glyph.char) =
      .ok (.ofDecimal false d.decimal.digits d.decimal.exponent) := by
  have hbreaks := breaks_fractionChars d (breaks_exponentEnd d)
  rw [← List.map_append] at hbreaks
  rw [decimalBody, Parts.chars, List.map_append, span_digits h.whole hbreaks]
  cases hwhole : d.whole with
  | nil => exact absurd hwhole h.whole_ne_nil
  | cons c cs =>
      rw [List.map_cons]
      dsimp only
      rw [fraction_written h]
      dsimp only [bind, Except.bind]
      rw [exponent_written h]
      dsimp only
      rw [← List.map_cons, ← List.map_append, natValue_eq, ← hwhole, List.length_map]
      rfl

theorem chars_cons {d : Parts} (h : d.Valid) :
    exists c cs, d.chars = c :: cs ∧ c.isDigit = true ∧
      forall m, cs.head? = some m -> m ≠ 'b' ∧ m ≠ 'o' ∧ m ≠ 'x' := by
  have hmarks : forall m, (d.fractionChars ++ d.exponentChars).head? = some m ->
      m ≠ 'b' ∧ m ≠ 'o' ∧ m ≠ 'x' := by
    intro m hm
    have hpoint : m = '.' ∨ m = 'e' := by
      unfold Parts.fractionChars Parts.exponentChars at hm
      split at hm
      · split at hm
        · cases hm
        · exact Or.inr (Option.some.inj hm).symm
      · exact Or.inl (Option.some.inj hm).symm
    rcases hpoint with rfl | rfl <;> decide
  cases hwhole : d.whole with
  | nil => exact absurd hwhole h.whole_ne_nil
  | cons c cs =>
      have hdigits : Digits (c :: cs) := hwhole ▸ h.whole
      refine ⟨c, cs ++ (d.fractionChars ++ d.exponentChars), ?_, hdigits c List.mem_cons_self, ?_⟩
      · rw [Parts.chars, hwhole, List.cons_append]
      · cases cs with
        | nil => exact hmarks
        | cons m cs =>
            intro m' hm'
            cases hm'
            have hm := hdigits m (List.mem_cons_of_mem c List.mem_cons_self)
            exact ⟨ne_of_isDigit hm rfl, ne_of_isDigit hm rfl, ne_of_isDigit hm rfl⟩

theorem Parts.Valid.mem_chars
    {p : Parts} (h : p.Valid) {c : Char} (hc : c ∈ p.chars) :
    c.isDigit = true ∨ c ∈ ['.', 'e', '+', '-'] := by
  rw [Parts.chars, List.mem_append, List.mem_append] at hc
  rcases hc with hwhole | hfraction | hexponent
  · exact Or.inl (h.whole c hwhole)
  · unfold Parts.fractionChars at hfraction
    split at hfraction
    · cases hfraction
    · rcases List.mem_cons.mp hfraction with rfl | hpart
      · exact Or.inr (by decide)
      · exact Or.inl (h.part c hpart)
  · unfold Parts.exponentChars at hexponent
    split at hexponent
    · cases hexponent
    · rename_i negative digits hpower
      rcases List.mem_cons.mp hexponent with rfl | hrest
      · exact Or.inr (by decide)
      · rcases List.mem_cons.mp hrest with rfl | hdigit
        · right
          cases negative <;> decide
        · exact Or.inl ((h.power negative digits hpower).1 c hdigit)

theorem body_written {d : Parts} (h : d.Valid) :
    body (d.chars.map Glyph.char) =
      .ok (.ofDecimal false d.decimal.digits d.decimal.exponent) := by
  have hmark := isRadixMark_decimal h.run_whole h.fraction h.exponent Token.breaks_nil
  rw [List.append_nil] at hmark
  rw [← decimalBody_written h]
  exact body_of_unmarked hmark

theorem read_written {d : Parts} (h : d.Valid) :
    read (d.chars.map Glyph.char) =
      .ok (.ofDecimal false d.decimal.digits d.decimal.exponent) := by
  rcases chars_cons h with ⟨c, cs, hchars, hdigit, _⟩
  have hsign : sign (d.chars.map Glyph.char) = (false, d.chars.map Glyph.char) := by
    rw [hchars, List.map_cons, sign]
    · intro _ heq
      exact absurd (Glyph.char.inj (List.cons.inj heq).1) (ne_of_isDigit hdigit rfl)
    · intro _ heq
      exact absurd (Glyph.char.inj (List.cons.inj heq).1) (ne_of_isDigit hdigit rfl)
  have hnonempty : (d.chars.map Glyph.char).isEmpty = false := by
    rw [hchars]
    rfl
  simp only [read, hsign, hnonempty, body_written h, Bool.false_eq_true, if_false]

/-!
## The parts of a written number
-/

theorem digits_digitChars (d : Decimal) : Digits d.digitChars :=
  digits_toDigits d.digits

theorem digitChars_ne_nil (d : Decimal) : d.digitChars ≠ [] :=
  Nat.toDigits_ne_nil

theorem ofDigitChars_digitChars (d : Decimal) : Nat.ofDigitChars 10 d.digitChars 0 = d.digits :=
  Nat.ofDigitChars_ten_toDigits

theorem head_toDigits {n : Nat} (h : (Nat.toDigits 10 n).head? = some '0') : n = 0 := by
  induction n using Nat.strongRecOn with
  | _ n ih =>
      by_cases hn : n < 10
      · rw [Nat.toDigits_of_lt_base hn] at h
        have hdigits : forall k, k < 10 -> Nat.digitChar k = '0' -> k = 0 := by decide
        exact hdigits n hn (Option.some.inj h)
      · rw [Nat.toDigits_of_base_le (by decide) (Nat.not_lt.mp hn),
          List.head?_append_of_ne_nil _ Nat.toDigits_ne_nil] at h
        have hzero := ih (n / 10) (by omega) h
        omega

theorem head_digitChars {d : Decimal} (h : d.digitChars.head? = some '0') : d.digits = 0 :=
  head_toDigits h

theorem fraction_parts
    {whole part : List Char} (hwhole : Digits whole) (hwhole_ne : whole ≠ []) (hpart : Digits part)
    (hpart_ne : part ≠ []) :
    (Parts.mk whole part none).Valid ∧ (Parts.mk whole part none).chars = whole ++ '.' :: part := by
  refine ⟨⟨hwhole, hwhole_ne, hpart, fun _ _ hpower => nomatch hpower⟩, ?_⟩
  cases part with
  | nil => exact absurd rfl hpart_ne
  | cons c cs => exact congrArg (whole ++ ·) (List.append_nil _)

theorem whole_parts {d : Decimal} (h : 0 ≤ d.exponent) (hzero : d.digits = 0 -> d.exponent = 0) :
    exists p : Parts, p.Valid ∧ p.Tidy ∧
      p.chars = d.digitChars ++ List.replicate d.exponent.toNat '0' ∧
      p.decimal.value = d.value := by
  refine ⟨⟨d.digitChars ++ List.replicate d.exponent.toNat '0', [], none⟩, ?_, ?_,
    List.append_nil _, ?_⟩
  · refine ⟨(digits_digitChars d).append (digits_replicate _), ?_, digits_nil, ?_⟩
    · exact List.append_ne_nil_of_left_ne_nil (digitChars_ne_nil d) _
    · exact fun _ _ hpower => nomatch hpower
  · intro hhead
    rw [List.head?_append_of_ne_nil _ (digitChars_ne_nil d)] at hhead
    have hdigits := head_digitChars hhead
    rw [Decimal.digitChars, hdigits, hzero hdigits]
    rfl
  · have hdigits : Nat.ofDigitChars 10
        (d.digitChars ++ List.replicate d.exponent.toNat '0' ++ []) 0 =
          10 ^ d.exponent.toNat * d.digits := by
      rw [List.append_nil, Nat.ofDigitChars_append, Nat.ofDigitChars_replicate_zero,
        ofDigitChars_digitChars]
    unfold Decimal.value Parts.decimal
    rw [hdigits]
    simp only [Parts.powerValue, List.length_nil, Nat.cast_zero, sub_self, zpow_zero, mul_one,
      Nat.cast_mul, Nat.cast_pow, Nat.cast_ofNat]
    rw [← zpow_natCast, Int.toNat_of_nonneg h, mul_comm]

theorem plain_parts {d : Decimal} (hzero : d.digits = 0 -> d.exponent = 0) :
    exists p : Parts, p.Valid ∧ p.Tidy ∧ p.chars = Number.Layout.plain d ∧
      p.decimal.value = d.value := by
  unfold Number.Layout.plain
  dsimp only
  split
  · rename_i hexponent
    exact whole_parts hexponent hzero
  · rename_i hexponent
    have hplaces : ((-d.exponent).toNat : Int) = -d.exponent := Int.toNat_of_nonneg (by omega)
    have hpos : 0 < d.digitChars.length := List.length_pos_of_ne_nil (digitChars_ne_nil d)
    split
    · rename_i hfew
      generalize hcut : d.digitChars.length - (-d.exponent).toNat = cut
      have hwhole : d.digitChars.take cut ≠ [] :=
        List.ne_nil_of_length_pos (by rw [List.length_take]; omega)
      have hpart : d.digitChars.drop cut ≠ [] :=
        List.ne_nil_of_length_pos (by rw [List.length_drop]; omega)
      have hparts := fraction_parts (fun c hc => digits_digitChars d c (List.mem_of_mem_take hc))
        hwhole (fun c hc => digits_digitChars d c (List.mem_of_mem_drop hc)) hpart
      refine ⟨_, hparts.1, ?_, hparts.2, congrArg Decimal.value ?_⟩
      · intro hhead
        rw [List.head?_take, if_neg (by omega)] at hhead
        exact absurd (hzero (head_digitChars hhead)) (by omega)
      · unfold Parts.decimal
        rw [List.take_append_drop, ofDigitChars_digitChars, List.length_drop, Parts.powerValue]
        have hexponent : (0 : Int) - (d.digitChars.length - cut : Nat) = d.exponent := by omega
        rw [hexponent]
    · rename_i hmany
      have hparts := fraction_parts (show Digits ['0'] from digits_replicate 1)
        (List.cons_ne_nil _ _)
        ((digits_replicate ((-d.exponent).toNat - d.digitChars.length)).append
          (digits_digitChars d))
        (List.append_ne_nil_of_right_ne_nil _ (digitChars_ne_nil d))
      refine ⟨_, hparts.1, fun _ => rfl, hparts.2, congrArg Decimal.value ?_⟩
      have hdigits : Nat.ofDigitChars 10 (['0'] ++
          (List.replicate ((-d.exponent).toNat - d.digitChars.length) '0' ++ d.digitChars)) 0 =
            d.digits := by
        rw [Nat.ofDigitChars_append, Nat.ofDigitChars_append]
        change Nat.ofDigitChars 10 d.digitChars (Nat.ofDigitChars 10 _ 0) = _
        rw [Nat.ofDigitChars_replicate_zero, Nat.mul_zero, ofDigitChars_digitChars]
      unfold Parts.decimal
      rw [hdigits, List.length_append, List.length_replicate, Parts.powerValue]
      have hexponent : (0 : Int) -
          ((-d.exponent).toNat - d.digitChars.length + d.digitChars.length : Nat) =
            d.exponent := by
        omega
      rw [hexponent]

theorem scientific_parts (l : Number.Layout) (d : Decimal) :
    exists p : Parts, p.Valid ∧ p.Tidy ∧ p.chars = l.scientific d ∧ p.decimal.value = d.value := by
  cases hchars : d.digitChars with
  | nil => exact absurd hchars (digitChars_ne_nil d)
  | cons lead rest =>
      have hdigits : Digits (lead :: rest) := hchars ▸ digits_digitChars d
      let power := List.replicate (l.exponentWidth - (Nat.toDigits 10 d.decade.natAbs).length) '0' ++
        Nat.toDigits 10 d.decade.natAbs
      refine ⟨⟨[lead], rest, some (decide (d.decade < 0), power)⟩, ?_, ?_, ?_,
        congrArg Decimal.value ?_⟩
      · refine ⟨?_, List.cons_ne_nil _ _, ?_, ?_⟩
        · intro c hc
          exact hdigits c (List.mem_singleton.mp hc ▸ List.mem_cons_self)
        · exact fun c hc => hdigits c (List.mem_cons_of_mem lead hc)
        · rintro _ _ hpower
          cases hpower
          refine ⟨(digits_replicate _).append (digits_toDigits _), ?_⟩
          exact List.append_ne_nil_of_right_ne_nil _ Nat.toDigits_ne_nil
      · exact fun hhead => congrArg (fun c => [c]) (Option.some.inj hhead)
      · unfold Number.Layout.scientific Parts.chars Parts.fractionChars Parts.exponentChars
        rw [hchars]
        cases rest with
        | nil => simp [power]
        | cons c cs => simp [power]
      · have hpower : Nat.ofDigitChars 10 power 0 = d.decade.natAbs := by
          rw [Nat.ofDigitChars_append, Nat.ofDigitChars_replicate_zero, Nat.mul_zero,
            Nat.ofDigitChars_ten_toDigits]
        have hdecade : d.decade = d.exponent + rest.length := by
          rw [Decimal.decade, hchars, List.length_cons]
          omega
        unfold Parts.decimal Parts.powerValue
        dsimp only
        rw [hpower, List.singleton_append, ← hchars, ofDigitChars_digitChars]
        have hexponent : (if decide (d.decade < 0) = true then -(d.decade.natAbs : Int)
            else d.decade.natAbs) - rest.length = d.exponent := by
          split
          · rename_i hnegative
            have hnegative := of_decide_eq_true hnegative
            omega
          · rename_i hnegative
            have hnegative := of_decide_eq_false (Bool.eq_false_iff.mpr hnegative)
            omega
        rw [hexponent]

end Numeral

/-!
## Numbers
-/

namespace Number

theorem signSize_eq : signSize = 9223372036854775808 := by
  rfl

theorem ofMagnitude_magnitude (x : Number) : ofMagnitude x.isNegative x.magnitude = x := by
  have hbits : x.bits.toNat < 18446744073709551616 := x.bits.toNat_lt
  have hsum : x.magnitude % signSize + (if x.isNegative then signSize else 0) = x.bits.toNat := by
    unfold magnitude isNegative
    rw [signSize_eq]
    split
    · rename_i hsign
      have hsign := of_decide_eq_true hsign
      omega
    · rename_i hsign
      have hsign := of_decide_eq_false (Bool.eq_false_iff.mpr hsign)
      omega
  rw [ofMagnitude, hsum, UInt64.ofNat_toNat]

theorem bits_ofMagnitude (negative : Bool) (m : Nat) :
    (ofMagnitude negative m).bits.toNat = m % signSize + if negative then signSize else 0 := by
  have hlt : m % signSize < signSize := Nat.mod_lt _ (by rw [signSize_eq]; decide)
  apply UInt64.toNat_ofNat_of_lt'
  rw [signSize_eq] at hlt ⊢
  split
  · exact Nat.add_lt_add_right hlt _
  · exact Nat.lt_trans hlt (by decide)

theorem isNegative_ofMagnitude (m : Nat) : (ofMagnitude false m).isNegative = false := by
  rw [isNegative, bits_ofMagnitude, if_neg Bool.false_ne_true, Nat.add_zero]
  exact decide_eq_false (Nat.not_le.mpr (Nat.mod_lt _ (by rw [signSize_eq]; decide)))

theorem magnitude_ofMagnitude (negative : Bool) (m : Nat) :
    (ofMagnitude negative m).magnitude = m % signSize := by
  rw [magnitude, bits_ofMagnitude]
  cases negative with
  | true => rw [if_pos rfl, Nat.add_mod_right, Nat.mod_mod]
  | false => rw [if_neg Bool.false_ne_true, Nat.add_zero, Nat.mod_mod]

theorem magnitude_neg (x : Number) : (-x).magnitude = x.magnitude := by
  change (ofMagnitude (!x.isNegative) x.magnitude).magnitude = _
  rw [magnitude_ofMagnitude, magnitude, Nat.mod_mod]

theorem neg_ofMagnitude {x : Number} (h : x.isNegative = true) :
    -(ofMagnitude false x.magnitude) = x := by
  have hmagnitude : (ofMagnitude false x.magnitude).magnitude = x.magnitude := by
    rw [magnitude_ofMagnitude, magnitude, Nat.mod_mod]
  change neg _ = x
  rw [neg, hmagnitude, isNegative_ofMagnitude, Bool.not_false, ← h]
  exact ofMagnitude_magnitude x

theorem magnitude_eq_zero {x : Number} (h : x.significand = 0) : x.magnitude = 0 := by
  by_cases hbinade : 0 < x.binade
  · have hle := le_significand hbinade
    rw [h, fractionSize_eq] at hle
    omega
  · rw [magnitude_eq, h, Nat.eq_zero_of_not_pos hbinade, Nat.zero_mul]

theorem ofDecimal_of_value
    {x : Number} (hfinite : x.isFinite = true) {d : Decimal} (h : d.value = x.shortest.value) :
    ofDecimal false d.digits d.exponent = ofMagnitude false x.magnitude := by
  by_cases hx : x.significand = 0
  · have hzero : d.digits = 0 := by
      have hvalue : d.value = 0 := by
        rw [h, shortest, if_pos hx]
        simp [Decimal.value]
      rcases mul_eq_zero.mp hvalue with hdigits | hpower
      · exact_mod_cast hdigits
      · exact absurd hpower (zpow_ne_zero _ (by norm_num))
    rw [ofDecimal, if_pos hzero, magnitude_eq_zero hx]
  · apply ofDecimal_of_covers hfinite hx
    change x.Covers d.value
    rw [h]
    exact covers_shortest hx

theorem shortest_exponent {x : Number} (hfinite : x.isFinite = true)
    (h : x.shortest.digits = 0) : x.shortest.exponent = 0 := by
  have hvalue := ofDecimal_of_value hfinite (d := x.shortest) rfl
  rw [ofDecimal, if_pos h] at hvalue
  have hmagnitude : 0 = x.magnitude := by
    have hzero := congrArg magnitude hvalue
    rw [magnitude_ofMagnitude, magnitude_ofMagnitude, magnitude, Nat.mod_mod] at hzero
    exact hzero
  have hsignificand : x.significand = 0 := by
    rw [significand, ← hmagnitude, Nat.zero_sub]
  rw [shortest, if_pos hsignificand]

theorem write_parts (l : Layout) {x : Number} (hfinite : x.isFinite = true) :
    exists p : Numeral.Parts, p.Valid ∧ p.Tidy ∧
      (l.write x).toList = (if x.isNegative then '-' :: p.chars else p.chars) ∧
      ofDecimal false p.decimal.digits p.decimal.exponent = ofMagnitude false x.magnitude := by
  have hdefined : x.isUndefined = false := by
    have hlt : x.magnitude < infiniteMagnitude := of_decide_eq_true hfinite
    exact decide_eq_false (Nat.not_lt.mpr (Nat.le_of_lt hlt))
  have hbounded : x.isInfinite = false := by
    have hlt : x.magnitude < infiniteMagnitude := of_decide_eq_true hfinite
    exact decide_eq_false (Nat.ne_of_lt hlt)
  have hparts : exists p : Numeral.Parts, p.Valid ∧ p.Tidy ∧ p.chars =
      (if l.plainFrom ≤ x.shortest.decade ∧ x.shortest.decade < l.plainBelow
        then Layout.plain x.shortest else l.scientific x.shortest) ∧
      p.decimal.value = x.shortest.value := by
    split
    · exact Numeral.plain_parts (shortest_exponent hfinite)
    · exact Numeral.scientific_parts l x.shortest
  rcases hparts with ⟨p, hvalid, htidy, hchars, hvalue⟩
  refine ⟨p, hvalid, htidy, ?_, ofDecimal_of_value hfinite hvalue⟩
  unfold Layout.write
  rw [hdefined, hbounded, if_neg Bool.false_ne_true, if_neg Bool.false_ne_true]
  dsimp only
  rw [String.toList_ofList, hchars]

end Number

namespace Token

open Numeral (Parts)

theorem scanFrom_numeral
    {d : Parts} (h : d.Valid) {rest : Text} (hrest : Separated rest) (beyond : Text) (p : Position) :
    scanFrom beyond p (d.chars.map Glyph.char ++ rest) =
      ⟨.number (.ofDecimal false d.decimal.digits d.decimal.exponent), d.chars.map Glyph.char, p⟩ ::
        scanFrom beyond (p.after (d.chars.map Glyph.char)) rest := by
  have hread := Numeral.read_written h
  rcases Numeral.chars_cons h with ⟨c, cs, hchars, hdigit, _⟩
  rcases not_blank_of_isDigit hdigit with ⟨hblank, hcomment⟩
  rw [hchars] at hread ⊢
  have hextent := extent_numeral hdigit hread hrest.apart
  rw [← List.length_map Glyph.char] at hextent
  exact scanFrom_token hblank hcomment hextent (fun f hf => Kind.noConfusion hf) beyond p

theorem scanFrom_sign
    {d : Parts} (h : d.Valid) (rest beyond : Text) (p : Position) :
    scanFrom beyond p (.char '-' :: (d.chars.map Glyph.char ++ rest)) =
      ⟨.operator, [.char '-'], p⟩ ::
        scanFrom beyond (p.after [.char '-']) (d.chars.map Glyph.char ++ rest) := by
  rcases Numeral.chars_cons h with ⟨c, cs, hchars, hdigit, _⟩
  have hbreaks : Breaks isOperatorGlyph (d.chars.map Glyph.char ++ rest) := by
    intro g hg
    rw [hchars] at hg
    cases hg
    rw [Bool.eq_false_iff]
    intro hcontains
    have hnotDigit : c.isDigit = false := (plain_of_operatorChar hcontains).2.2.2.2.2.2
    rw [hdigit] at hnotDigit
    cases hnotDigit
  have hrun : runLength isOperatorGlyph ([] ++ (d.chars.map Glyph.char ++ rest)) = 0 :=
    runLength_append (fun _ hg => absurd hg List.not_mem_nil) hbreaks
  have hextent : extent (.char '-') ([] ++ (d.chars.map Glyph.char ++ rest)) = ⟨.operator, 0⟩ := by
    change (⟨(Kind.punctuation? (Text.toString (.char '-' :: List.take (runLength isOperatorGlyph
      ([] ++ (d.chars.map Glyph.char ++ rest))) _))).getD .operator, _⟩ : Extent) = _
    rw [hrun]
    rfl
  exact scanFrom_token rfl (by decide) hextent (fun f hf => nomatch hf) beyond p

/-- The tokens of a written number: a numeral, which touches the sign of a negative number. -/
inductive NumberTokens (x : Number) : List Token -> Prop where
  | plain {t} : t.kind = .number x -> NumberTokens x [t]
  | negative {sign t v} :
      x.isNegative = true -> sign.kind = .operator -> sign.lexeme = [.char '-'] ->
      t.kind = .number v -> -v = x ->
      t.position = ⟨sign.position.line, sign.position.column + 1⟩ -> NumberTokens x [sign, t]

theorem scans_number {x : Number} (hfinite : x.isFinite = true) :
    Scans Separated x.text (NumberTokens x) := by
  have hparts := Number.write_parts Number.sourceLayout hfinite
  rcases hparts with ⟨d, hvalid, _, htext, hvalue⟩
  change x.text.toList = _ at htext
  have hnul := hvalid.magnitude.nul_not_mem
  cases hsign : x.isNegative with
  | false =>
      rw [hsign, if_neg Bool.false_ne_true] at htext
      refine ⟨htext ▸ hnul, fun beyond p rest hrest => ?_⟩
      rw [Text.ofString, htext, scanFrom_numeral hvalid hrest, hvalue, ← hsign,
        Number.ofMagnitude_magnitude]
      exact ⟨[_], rfl, .plain rfl⟩
  | true =>
      rw [hsign, if_pos rfl] at htext
      refine ⟨?_, fun beyond p rest hrest => ?_⟩
      · rw [htext]
        exact List.not_mem_cons_of_ne_of_not_mem (by decide) hnul
      · rw [Text.ofString, htext, List.map_cons, List.cons_append, scanFrom_sign hvalid,
          scanFrom_numeral hvalid hrest, hvalue]
        exact ⟨[_, _], rfl, .negative hsign rfl rfl rfl (Number.neg_ofMagnitude hsign) rfl⟩

end Token
end DefTable
