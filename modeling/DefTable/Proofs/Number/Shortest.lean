import DefTable.Proofs.Number.Rounding

/-!
# The shortest decimal reads back

Whatever the search for the fewest digits returns lies in the interval of the number, so it rounds
to it.  With seventeen digits the grid is finer than the interval, and the search ends.
-/

namespace DefTable

def Decimal.value (d : Decimal) : ℚ :=
  d.digits * 10 ^ d.exponent

theorem Decimal.value_trim (fuel : Nat) (d : Decimal) : (d.trim fuel).value = d.value := by
  induction fuel generalizing d with
  | zero => rfl
  | succ fuel ih =>
      rw [trim]
      split
      · rename_i h
        rw [ih]
        unfold value
        have hdigits : (d.digits : ℚ) = 10 * (d.digits / 10 : Nat) := by
          exact_mod_cast (Nat.mul_div_cancel' (Nat.dvd_of_mod_eq_zero h.2)).symm
        rw [hdigits, zpow_add_one₀ (by norm_num)]
        ring
      · rfl

namespace Number

theorem cast_tenTo (n : Nat) : ((tenTo n : Nat) : ℚ) = (10 : ℚ) ^ n := by
  show ((10 ^ n : Nat) : ℚ) = _
  push_cast
  rfl

/-!
## Decimal lengths
-/

theorem lt_ten_pow_decimalLength (n : Nat) : n < 10 ^ decimalLength n :=
  (Nat.length_toDigits_le_iff (by decide) Nat.length_toDigits_pos).mp (Nat.le_refl _)

theorem ten_pow_decimalLength_le {n : Nat} (h : 0 < n) : 10 ^ (decimalLength n - 1) ≤ n := by
  by_contra hlt
  rcases Nat.eq_zero_or_pos (decimalLength n - 1) with hzero | hpos
  · rw [hzero] at hlt
    omega
  · have hle := (Nat.length_toDigits_le_iff (b := 10) (by decide) hpos).mpr (Nat.not_le.mp hlt)
    unfold decimalLength at hle hpos
    omega

theorem decimal_bounds {m : Nat} (hm : m ≠ 0) (e : Int) :
    (10 : ℚ) ^ (e + decimalLength m - 1) ≤ m * 10 ^ e ∧
      (m : ℚ) * 10 ^ e < 10 ^ (e + decimalLength m) := by
  have hpower : (0 : ℚ) < 10 ^ e := zpow_pos (by norm_num) _
  have hpos : 0 < decimalLength m := Nat.length_toDigits_pos
  constructor
  · have hle : (10 : ℚ) ^ (decimalLength m - 1) ≤ m := by
      exact_mod_cast ten_pow_decimalLength_le (Nat.pos_of_ne_zero hm)
    have hsplit : (10 : ℚ) ^ (e + decimalLength m - 1) = 10 ^ (decimalLength m - 1) * 10 ^ e := by
      rw [← zpow_natCast, ← zpow_add₀ (by norm_num)]
      congr 1
      omega
    rw [hsplit]
    exact mul_le_mul_of_nonneg_right hle hpower.le
  · have hlt : (m : ℚ) < 10 ^ decimalLength m := by
      exact_mod_cast lt_ten_pow_decimalLength m
    rw [add_comm, zpow_add₀ (by norm_num), zpow_natCast]
    exact mul_lt_mul_of_pos_right hlt hpower

/-!
## Reading a decimal
-/

theorem Covers.lt_limit
    {x : Number} {w : ℚ} (h : x.Covers w) (hfinite : x.isFinite = true) : w < 10 ^ (309 : Int) := by
  have hunit : (0 : ℚ) < 2 ^ x.exponent := zpow_pos two_pos _
  have hsignificand : (x.significand : ℚ) + 1 ≤ 2 * fractionSize := by
    exact_mod_cast x.significand_lt
  have hexponent : x.exponent ≤ 971 := by
    have hbinade := binade_le hfinite
    unfold exponent
    omega
  have hupper := h.upper
  rw [div_le_iff₀ hunit] at hupper
  calc w ≤ (x.significand + 1 / 2) * 2 ^ x.exponent := hupper
    _ ≤ (2 * fractionSize) * 2 ^ (971 : Int) := by
        apply mul_le_mul _ _ hunit.le (by positivity)
        · linarith
        · exact zpow_le_zpow_right₀ one_le_two hexponent
    _ < 10 ^ (309 : Int) := by
        have hpowers : 2 * fractionSize * 2 ^ 971 < 10 ^ 309 := by decide +kernel
        exact_mod_cast hpowers

theorem Covers.limit_lt
    {x : Number} {w : ℚ} (h : x.Covers w) (hx : x.significand ≠ 0) : 10 ^ (-324 : Int) < w := by
  have hunit : (0 : ℚ) < 2 ^ x.exponent := zpow_pos two_pos _
  have hone : (1 : ℚ) ≤ x.significand := by exact_mod_cast Nat.one_le_iff_ne_zero.mpr hx
  have hexponent : -1074 ≤ x.exponent := by
    unfold exponent
    omega
  have hreach := x.reachBelow_le
  have hlower := h.lower
  rw [le_div_iff₀ hunit] at hlower
  calc (10 : ℚ) ^ (-324 : Int) < 2 ^ (-1075 : Int) := by
        have hpowers : 2 ^ 1075 < 10 ^ 324 := by decide +kernel
        rw [zpow_neg, zpow_neg]
        apply inv_strictAnti₀ (zpow_pos two_pos _)
        exact_mod_cast hpowers
    _ = 1 / 2 * 2 ^ (-1074 : Int) := by
        rw [show (-1075 : Int) = -1 + -1074 from rfl, zpow_add₀ two_ne_zero]
        norm_num
    _ ≤ (x.significand - x.reachBelow) * 2 ^ x.exponent := by
        apply mul_le_mul _ _ (zpow_pos two_pos _).le (by linarith)
        · linarith
        · exact zpow_le_zpow_right₀ one_le_two hexponent
    _ ≤ w := hlower

theorem ofDecimal_of_covers
    {x : Number} (hfinite : x.isFinite = true) (hx : x.significand ≠ 0) {m : Nat} {e : Int}
    (h : x.Covers (m * 10 ^ e)) : ofDecimal false m e = ofMagnitude false x.magnitude := by
  have hm : m ≠ 0 := by
    rintro rfl
    have hpos := h.pos hx
    simp at hpos
  rcases decimal_bounds hm e with ⟨hlow, hhigh⟩
  have htop : ¬ 309 < e + decimalLength m := by
    intro hgt
    have hpower : (10 : ℚ) ^ (309 : Int) ≤ 10 ^ (e + decimalLength m - 1) :=
      zpow_le_zpow_right₀ (by norm_num) (by omega)
    have hlimit := h.lt_limit hfinite
    linarith
  have hbottom : ¬ e + decimalLength m < -323 := by
    intro hlt
    have hpower : (10 : ℚ) ^ (e + decimalLength m) ≤ 10 ^ (-324 : Int) :=
      zpow_le_zpow_right₀ (by norm_num) (by omega)
    have hlimit := h.limit_lt hx
    linarith
  unfold ofDecimal
  dsimp only
  rw [if_neg hm, if_neg htop, if_neg hbottom]
  split
  · rename_i hnonneg
    apply ofRatio_of_covers hfinite hx Nat.one_pos
    rw [Nat.cast_mul, cast_tenTo, ← zpow_natCast, Int.toNat_of_nonneg hnonneg, Nat.cast_one,
      div_one]
    exact h
  · rename_i hnegative
    apply ofRatio_of_covers hfinite hx (Nat.pow_pos (n := (-e).toNat) (by decide : 0 < 10))
    have hpower : (m : ℚ) / (tenTo (-e).toNat : Nat) = m * 10 ^ e := by
      rw [cast_tenTo, ← zpow_natCast, Int.toNat_of_nonneg (by omega), zpow_neg, div_inv_eq_mul]
    rw [show (m : ℚ) / (10 ^ (-e).toNat : Nat) = m * 10 ^ e from hpower]
    exact h

/-!
## Points of a grid
-/

theorem exists_scale (q k : Int) (n quarters : Nat) :
    exists scale : ℚ, 0 < scale ∧
      ((scaled q k n quarters).1 : ℚ) = n * 10 ^ k / 2 ^ q * scale ∧
      ((scaled q k n quarters).2 : ℚ) = quarters / 4 * scale := by
  have hsplit : forall (base : ℚ) (i : Int), base ≠ 0 ->
      base ^ i.toNat = base ^ i * base ^ (-i).toNat := by
    intro base i hbase
    rw [← zpow_natCast, ← zpow_natCast, ← zpow_add₀ hbase]
    congr 1
    omega
  have hpos : (0 : ℚ) < 10 ^ (-k).toNat * 2 ^ (2 - q).toNat * 2 ^ q :=
    mul_pos (by positivity) (zpow_pos two_pos q)
  refine ⟨10 ^ (-k).toNat * 2 ^ (2 - q).toNat * 2 ^ q, hpos, ?_, ?_⟩
  · unfold scaled
    push_cast
    rw [cast_tenTo, cast_twoTo, hsplit 10 k (by norm_num)]
    field_simp
  · unfold scaled
    push_cast
    rw [cast_tenTo, cast_twoTo, hsplit 2 (q - 2) two_ne_zero, zpow_sub₀ two_ne_zero,
      show -(q - 2) = 2 - q by ring]
    field_simp
    norm_num

theorem scaled_le_iff (q k : Int) (n quarters : Nat) :
    ((scaled q k n quarters).1 ≤ (scaled q k n quarters).2 <->
        (n : ℚ) * 10 ^ k / 2 ^ q ≤ quarters / 4) ∧
      ((scaled q k n quarters).2 ≤ (scaled q k n quarters).1 <->
        (quarters : ℚ) / 4 ≤ n * 10 ^ k / 2 ^ q) := by
  rcases exists_scale q k n quarters with ⟨scale, hscale, hfirst, hsecond⟩
  constructor
  · rw [← @Nat.cast_le ℚ, hfirst, hsecond, mul_le_mul_iff_left₀ hscale]
  · rw [← @Nat.cast_le ℚ, hfirst, hsecond, mul_le_mul_iff_left₀ hscale]

theorem low_eq {x : Number} (hx : x.significand ≠ 0) :
    (x.neighbourhood.low : ℚ) / 4 = x.significand - x.reachBelow := by
  unfold neighbourhood reachBelow
  dsimp only
  split
  · rw [Nat.cast_sub (by omega)]
    push_cast
    ring
  · rw [Nat.cast_sub (by omega)]
    push_cast
    ring

theorem high_eq (x : Number) : (x.neighbourhood.high : ℚ) / 4 = x.significand + 1 / 2 := by
  unfold neighbourhood
  push_cast
  ring

theorem admits_iff {x : Number} (hx : x.significand ≠ 0) (k : Int) (n : Nat) :
    admits x k n = true <-> x.Covers (n * 10 ^ k) := by
  have hlow := (scaled_le_iff x.exponent k n x.neighbourhood.low)
  have hhigh := (scaled_le_iff x.exponent k n x.neighbourhood.high)
  rw [low_eq hx] at hlow
  rw [high_eq] at hhigh
  have hclosed : x.neighbourhood.closed = true <-> x.significand % 2 = 0 := decide_eq_true_iff
  unfold admits
  dsimp only
  split
  · rename_i h
    rw [Bool.and_eq_true, decide_eq_true_eq, decide_eq_true_eq, hlow.2, hhigh.1]
    constructor
    · intro hbounds
      exact ⟨hbounds.1, hbounds.2, fun _ => hclosed.mp h⟩
    · intro hcovers
      exact ⟨hcovers.lower, hcovers.upper⟩
  · rename_i h
    rw [Bool.and_eq_true, decide_eq_true_eq, decide_eq_true_eq, ← Nat.not_le, ← Nat.not_le,
      hlow.1, hhigh.2, not_le, not_le]
    constructor
    · intro hbounds
      refine ⟨hbounds.1.le, hbounds.2.le, ?_⟩
      intro hends
      rcases hends with hend | hend
      · exact absurd hend hbounds.1.ne'
      · exact absurd hend hbounds.2.ne
    · intro hcovers
      have hodd : ¬ x.significand % 2 = 0 := fun heven => h (hclosed.mpr heven)
      constructor
      · exact lt_of_le_of_ne hcovers.lower fun hend => hodd (hcovers.tie (Or.inl hend.symm))
      · exact lt_of_le_of_ne hcovers.upper fun hend => hodd (hcovers.tie (Or.inr hend))

theorem choose_admitted
    {admitted : Nat -> Bool} {below n : Nat} {lower : Bool}
    (h : choose admitted below lower = some n) : admitted n = true := by
  unfold choose at h
  split at h
  · rename_i hbelow habove
    cases h
    split
    · exact hbelow
    · exact habove
  · rename_i hbelow _
    cases h
    exact hbelow
  · rename_i _ habove
    cases h
    exact habove
  · cases h

theorem choose_isSome
    {admitted : Nat -> Bool} {below : Nat} {lower : Bool}
    (h : admitted below = true ∨ admitted (below + 1) = true) :
    (choose admitted below lower).isSome = true := by
  unfold choose
  split
  · rfl
  · rfl
  · rfl
  · rename_i hbelow habove
    rw [hbelow, habove] at h
    rcases h with h | h <;> cases h

theorem covers_of_onGrid
    {x : Number} (hx : x.significand ≠ 0) {k : Int} {d : Decimal} (h : onGrid? x k = some d) :
    x.Covers d.value := by
  rcases Option.map_eq_some_iff.mp h with ⟨n, hchoose, rfl⟩
  exact (admits_iff hx k n).mp (choose_admitted hchoose)

theorem below_bounds (x : Number) (k : Int) :
    let one := scaled x.exponent k 1 x.neighbourhood.value
    let step : ℚ := 10 ^ k / 2 ^ x.exponent
    ((one.2 / one.1 : Nat) : ℚ) * step ≤ x.significand ∧
      (x.significand : ℚ) < ((one.2 / one.1 : Nat) + 1) * step := by
  rcases exists_scale x.exponent k 1 x.neighbourhood.value with ⟨scale, hscale, hfirst, hsecond⟩
  have hvalue : (x.neighbourhood.value : ℚ) / 4 = x.significand := by
    unfold neighbourhood
    push_cast
    ring
  rw [hvalue] at hsecond
  rw [Nat.cast_one, one_mul] at hfirst
  dsimp only
  generalize scaled x.exponent k 1 x.neighbourhood.value = one at hfirst hsecond ⊢
  have hstep : (0 : ℚ) < 10 ^ k / 2 ^ x.exponent :=
    div_pos (zpow_pos (by norm_num) k) (zpow_pos two_pos _)
  have hone : 0 < one.1 := by
    have hcast : (0 : ℚ) < one.1 := by
      rw [hfirst]
      exact mul_pos hstep hscale
    exact_mod_cast hcast
  have hbelow : ((one.2 / one.1 : Nat) : ℚ) * one.1 ≤ one.2 := by
    exact_mod_cast Nat.div_mul_le_self one.2 one.1
  have habove : (one.2 : ℚ) < ((one.2 / one.1 : Nat) + 1) * one.1 := by
    have hlt := Nat.lt_mul_div_succ one.2 hone
    rw [Nat.mul_comm] at hlt
    exact_mod_cast hlt
  rw [hfirst, hsecond, ← mul_assoc] at hbelow habove
  exact ⟨le_of_mul_le_mul_right hbelow hscale, lt_of_mul_lt_mul_right habove hscale.le⟩

theorem onGrid_isSome
    {x : Number} (hx : x.significand ≠ 0) {k : Int}
    (hstep : (10 : ℚ) ^ k / 2 ^ x.exponent < 2 * x.reachBelow) : (onGrid? x k).isSome = true := by
  rcases below_bounds x k with ⟨hbelow, habove⟩
  have hreach := x.reachBelow_le
  have hcover : forall n : Nat,
      x.significand - x.reachBelow < n * (10 ^ k / 2 ^ x.exponent) ->
      n * (10 ^ k / 2 ^ x.exponent) < x.significand + x.reachBelow -> admits x k n = true := by
    intro n hlower hupper
    rw [← mul_div_assoc] at hlower hupper
    rw [admits_iff hx]
    refine ⟨hlower.le, by linarith, ?_⟩
    intro hends
    rcases hends with hend | hend
    · exact absurd hend hlower.ne'
    · exact absurd hend (by linarith : _ < (x.significand : ℚ) + 1 / 2).ne
  unfold onGrid?
  rw [Option.isSome_map]
  apply choose_isSome
  generalize (scaled x.exponent k 1 x.neighbourhood.value).2 /
    (scaled x.exponent k 1 x.neighbourhood.value).1 = below at hbelow habove ⊢
  generalize (10 : ℚ) ^ k / 2 ^ x.exponent = step at hbelow habove hstep hcover
  rcases le_or_gt (x.significand - below * step : ℚ) (step / 2) with hnear | hfar
  · exact Or.inl (hcover below (by linarith) (by linarith))
  · refine Or.inr (hcover (below + 1) ?_ ?_)
    · push_cast
      linarith
    · push_cast
      linarith

/-!
## The search
-/

theorem decadeOf_le {a b : Nat} (ha : 0 < a) (hb : 0 < b) :
    (10 : ℚ) ^ decadeOf a b ≤ (a : ℚ) / b := by
  have hbq : (0 : ℚ) < b := by exact_mod_cast hb
  rw [le_div_iff₀ hbq]
  unfold decadeOf
  split
  · rename_i hle
    have hquotient : 0 < a / b := Nat.div_pos hle hb
    have hlength : 0 < decimalLength (a / b) := Nat.length_toDigits_pos
    have hpower : (10 : ℚ) ^ ((decimalLength (a / b) : Int) - 1) =
        10 ^ (decimalLength (a / b) - 1) := by
      rw [← zpow_natCast]
      congr 1
      omega
    have hbound : 10 ^ (decimalLength (a / b) - 1) * b ≤ a :=
      Nat.le_trans (Nat.mul_le_mul_right b (ten_pow_decimalLength_le hquotient))
        (Nat.div_mul_le_self a b)
    rw [hpower]
    exact_mod_cast hbound
  · have hlt := lt_ten_pow_decimalLength ((b - 1) / a)
    rw [Nat.div_lt_iff_lt_mul ha] at hlt
    have hbound : b ≤ a * 10 ^ decimalLength ((b - 1) / a) := by
      rw [Nat.mul_comm]
      omega
    have hpower : (0 : ℚ) < 10 ^ decimalLength ((b - 1) / a) := by positivity
    rw [zpow_neg, zpow_natCast, inv_mul_le_iff₀ hpower, mul_comm]
    exact_mod_cast hbound

theorem ratio_spec (x : Number) :
    0 < x.ratio.2 ∧ (x.ratio.1 : ℚ) / x.ratio.2 = x.significand * 2 ^ x.exponent := by
  unfold ratio
  split
  · rename_i hnonneg
    refine ⟨Nat.one_pos, ?_⟩
    dsimp only
    rw [Nat.cast_mul, cast_twoTo, ← zpow_natCast, Int.toNat_of_nonneg hnonneg, Nat.cast_one,
      div_one]
  · rename_i hnegative
    refine ⟨Nat.pow_pos (by decide), ?_⟩
    dsimp only
    rw [cast_twoTo, ← zpow_natCast, Int.toNat_of_nonneg (by omega), zpow_neg, div_inv_eq_mul]

theorem step_seventeen
    {x : Number} {decade : Int}
    (h : (10 : ℚ) ^ decade ≤ x.significand * 2 ^ x.exponent) :
    (10 : ℚ) ^ (decade - 16) / 2 ^ x.exponent < 2 * x.reachBelow := by
  have hunit : (0 : ℚ) < 2 ^ x.exponent := zpow_pos two_pos _
  have hstep : (10 : ℚ) ^ (decade - 16) / 2 ^ x.exponent ≤ x.significand / 10 ^ 16 := by
    rw [div_le_iff₀ hunit, zpow_sub₀ (by norm_num), div_mul_eq_mul_div]
    exact div_le_div_of_nonneg_right h (by norm_num)
  apply lt_of_le_of_lt hstep
  unfold reachBelow
  split
  · rename_i hfirst
    rw [hfirst.1, fractionSize_eq]
    norm_num
  · have hlt : (x.significand : ℚ) < 2 * fractionSize := by exact_mod_cast x.significand_lt
    rw [fractionSize_eq] at hlt
    rw [div_lt_iff₀ (by norm_num)]
    norm_num at hlt ⊢
    linarith

/-- A search whose last grid has a decimal returns one that was found on a grid. -/
theorem firstOnGrids_spec
    {Q : ℚ -> Prop} {onGrid? : Int -> Option Decimal} (otherwise : Decimal) {decade : Int}
    (hfound : forall k d, onGrid? k = some d -> Q d.value) (steps count : Nat)
    (hlast : (onGrid? (decade + 1 - (count + steps : Nat))).isSome = true) :
    Q (firstOnGrids onGrid? otherwise decade (steps + 1) count).value := by
  induction steps generalizing count with
  | zero =>
      rw [Nat.add_zero] at hlast
      rw [firstOnGrids]
      cases hgrid : onGrid? (decade + 1 - count) with
      | none =>
          rw [hgrid] at hlast
          cases hlast
      | some d =>
          dsimp only
          rw [Decimal.value_trim]
          exact hfound _ d hgrid
  | succ steps ih =>
      rw [firstOnGrids]
      split
      · rename_i d hgrid
        rw [Decimal.value_trim]
        exact hfound _ d hgrid
      · apply ih (count + 1)
        rw [Nat.add_assoc, Nat.add_comm 1 steps]
        exact hlast

theorem covers_shortest {x : Number} (hx : x.significand ≠ 0) : x.Covers x.shortest.value := by
  unfold shortest
  rw [if_neg hx]
  dsimp only
  apply firstOnGrids_spec (Q := x.Covers) _ (fun k d => covers_of_onGrid hx) 16 1
  rcases x.ratio_spec with ⟨hpos, hvalue⟩
  have hnumerator : 0 < x.ratio.1 := by
    apply Nat.pos_of_ne_zero
    intro hzero
    rw [hzero, Nat.cast_zero, zero_div] at hvalue
    have hsignificand : (x.significand : ℚ) ≠ 0 := by exact_mod_cast hx
    exact absurd hvalue.symm (mul_ne_zero hsignificand (zpow_pos two_pos _).ne')
  have hdecade := decadeOf_le hnumerator hpos
  rw [hvalue] at hdecade
  have hgrid : decadeOf x.ratio.1 x.ratio.2 + 1 - ((1 + 16 : Nat) : Int) =
      decadeOf x.ratio.1 x.ratio.2 - 16 := by omega
  rw [hgrid]
  exact onGrid_isSome hx (step_seventeen hdecade)

end Number
end DefTable
