import DefTable.Number.Shortest
import Mathlib.Data.Int.Log
import Mathlib.Data.Rat.Floor
import Mathlib.Tactic.FieldSimp
import Mathlib.Tactic.Linarith
import Mathlib.Tactic.NormNum
import Mathlib.Tactic.Positivity
import Mathlib.Tactic.Ring

/-!
# Rounding

The values that round to a number form an interval around it, which contains its ends exactly if the
significand is even.  Below the first number of a binade the interval is half as long, because the
numbers there are closer to each other; a value in that part is rounded in the lower binade and
comes out as its upper end.
-/

namespace DefTable
namespace Number

theorem cast_twoTo (n : Nat) : ((twoTo n : Nat) : ℚ) = (2 : ℚ) ^ n := by
  show ((2 ^ n : Nat) : ℚ) = _
  push_cast
  rfl

theorem fractionSize_eq : fractionSize = 4503599627370496 := by
  rfl

/-!
## Nearest integers
-/

/-- No integer is nearer to the value, and `n` is even if another one is as near. -/
structure RoundsTo (w : ℚ) (n : Nat) : Prop where
  lower : (n : ℚ) ≤ w + 1 / 2
  upper : w ≤ n + 1 / 2
  tie : (n : ℚ) = w + 1 / 2 ∨ w = n + 1 / 2 -> n % 2 = 0

theorem nearest_of_roundsTo
    {a b n : Nat} (hb : 0 < b) (h : RoundsTo ((a : ℚ) / b) n) : nearest a b = n := by
  have hbq : (0 : ℚ) < b := by exact_mod_cast hb
  have hlower : 2 * n * b ≤ 2 * a + b := by
    have hscaled := mul_le_mul_of_nonneg_right h.lower hbq.le
    have hcancel : ((a : ℚ) / b + 1 / 2) * b = a + b / 2 := by
      field_simp
    rw [hcancel] at hscaled
    have hcast : (2 * n * b : ℚ) ≤ 2 * a + b := by linarith
    exact_mod_cast hcast
  have hupper : 2 * a ≤ 2 * n * b + b := by
    have hscaled := mul_le_mul_of_nonneg_right h.upper hbq.le
    rw [div_mul_cancel₀ _ hbq.ne'] at hscaled
    have hcast : (2 * a : ℚ) ≤ 2 * n * b + b := by linarith
    exact_mod_cast hcast
  have htie : 2 * n * b = 2 * a + b ∨ 2 * a = 2 * n * b + b -> n % 2 = 0 := by
    intro hties
    apply h.tie
    rcases hties with hlow | hhigh
    · have hcast : (2 * n * b : ℚ) = 2 * a + b := by exact_mod_cast hlow
      exact Or.inl (by field_simp; linarith)
    · have hcast : (2 * a : ℚ) = 2 * n * b + b := by exact_mod_cast hhigh
      exact Or.inr (by field_simp; linarith)
  have hdivision : b * (a / b) + a % b = a := Nat.div_add_mod a b
  have hremainder : a % b < b := Nat.mod_lt a hb
  unfold nearest
  dsimp only
  generalize a / b = q at hdivision ⊢
  generalize a % b = r at hdivision hremainder ⊢
  have hq : q ≤ n := by
    by_contra hlt
    have hmul : b * (n + 1) ≤ b * q := Nat.mul_le_mul_left b (by omega)
    nlinarith
  have hn : n ≤ q + 1 := by
    by_contra hlt
    have hmul : b * (q + 2) ≤ b * n := Nat.mul_le_mul_left b (by omega)
    nlinarith
  rcases Nat.lt_or_ge q n with hnext | hsame
  · have hsucc : n = q + 1 := by omega
    subst hsucc
    have hhalf : b ≤ 2 * r := by nlinarith
    rw [if_neg (by omega)]
    split
    · rfl
    · rename_i hnot
      have heven := htie (Or.inl (by nlinarith))
      rw [if_neg (by omega)]
  · have heq : n = q := by omega
    subst heq
    have hhalf : 2 * r ≤ b := by nlinarith
    split
    · rfl
    · have heven := htie (Or.inr (by nlinarith))
      rw [if_neg (by omega), if_pos heven]

/-!
## Binary logarithms
-/

theorem log2Ratio_eq_log
    {a b : Nat} (ha : 0 < a) (hb : 0 < b) : log2Ratio a b = Int.log 2 ((a : ℚ) / b) := by
  have haq : (0 : ℚ) < a := by exact_mod_cast ha
  have hbq : (0 : ℚ) < b := by exact_mod_cast hb
  have hw : (0 : ℚ) < (a : ℚ) / b := div_pos haq hbq
  have halow : (2 : ℚ) ^ a.log2 ≤ a := by exact_mod_cast Nat.log2_self_le ha.ne'
  have hahigh : (a : ℚ) < 2 ^ (a.log2 + 1) := by exact_mod_cast Nat.lt_log2_self
  have hblow : (2 : ℚ) ^ b.log2 ≤ b := by exact_mod_cast Nat.log2_self_le hb.ne'
  have hbhigh : (b : ℚ) < 2 ^ (b.log2 + 1) := by exact_mod_cast Nat.lt_log2_self
  have habove : (a : ℚ) / b < 2 ^ ((a.log2 : Int) - b.log2 + 1) := by
    rw [div_lt_iff₀ hbq]
    calc (a : ℚ) < 2 ^ (a.log2 + 1) := hahigh
      _ = 2 ^ ((a.log2 : Int) - b.log2 + 1) * 2 ^ b.log2 := by
          rw [← zpow_natCast, ← zpow_natCast, ← zpow_add₀ two_ne_zero]
          congr 1
          push_cast
          ring
      _ ≤ 2 ^ ((a.log2 : Int) - b.log2 + 1) * b :=
          mul_le_mul_of_nonneg_left hblow (zpow_pos two_pos _).le
  have hbelow : (2 : ℚ) ^ ((a.log2 : Int) - b.log2 - 1) ≤ (a : ℚ) / b := by
    rw [le_div_iff₀ hbq]
    calc (2 : ℚ) ^ ((a.log2 : Int) - b.log2 - 1) * b
        ≤ 2 ^ ((a.log2 : Int) - b.log2 - 1) * 2 ^ (b.log2 + 1) :=
          mul_le_mul_of_nonneg_left hbhigh.le (zpow_pos two_pos _).le
      _ = 2 ^ a.log2 := by
          rw [← zpow_natCast, ← zpow_natCast, ← zpow_add₀ two_ne_zero]
          congr 1
          push_cast
          ring
      _ ≤ a := halow
  unfold log2Ratio
  dsimp only
  generalize (a.log2 : Int) - b.log2 = k at habove hbelow ⊢
  have hreached : (if 0 ≤ k then b * twoTo k.toNat ≤ a else b ≤ a * twoTo (-k).toNat) <->
      (2 : ℚ) ^ k ≤ (a : ℚ) / b := by
    rw [le_div_iff₀ hbq]
    split
    · rename_i hk
      have hpower : (2 : ℚ) ^ k = 2 ^ k.toNat := by
        rw [← zpow_natCast, Int.toNat_of_nonneg hk]
      rw [hpower, mul_comm, ← cast_twoTo]
      norm_cast
    · rename_i hk
      have hpower : (2 : ℚ) ^ k * 2 ^ (-k).toNat = 1 := by
        rw [← zpow_natCast, Int.toNat_of_nonneg (by omega), ← zpow_add₀ two_ne_zero]
        simp
      have hscale : (0 : ℚ) < 2 ^ (-k).toNat := by positivity
      rw [← mul_le_mul_iff_left₀ hscale]
      have hleft : (2 : ℚ) ^ k * b * 2 ^ (-k).toNat = b := by
        rw [mul_right_comm, hpower, one_mul]
      rw [hleft, ← cast_twoTo]
      norm_cast
  by_cases h : (2 : ℚ) ^ k ≤ (a : ℚ) / b
  · rw [if_pos (hreached.mpr h)]
    have hle := (Int.zpow_le_iff_le_log one_lt_two hw).mp (by exact_mod_cast h)
    have hlt := (Int.lt_zpow_iff_log_lt one_lt_two hw).mp (by exact_mod_cast habove)
    omega
  · rw [if_neg (fun hr => h (hreached.mp hr))]
    have hlt := (Int.lt_zpow_iff_log_lt one_lt_two hw).mp (by exact_mod_cast not_le.mp h)
    have hle := (Int.zpow_le_iff_le_log one_lt_two hw).mp (by exact_mod_cast hbelow)
    omega

theorem ofRatio_eq
    {negative : Bool} {a b m : Nat} {q : Int} (ha : 0 < a) (hb : 0 < b)
    (hq : max (Int.log 2 ((a : ℚ) / b) - 52) (-1074) = q)
    (hm : RoundsTo ((a : ℚ) / b / 2 ^ q) m) :
    ofRatio negative a b =
      ofMagnitude negative (min ((q + 1074).toNat * fractionSize + m) infiniteMagnitude) := by
  unfold ofRatio
  dsimp only
  rw [if_neg ha.ne', log2Ratio_eq_log ha hb, hq]
  congr 3
  split
  · rename_i hnonneg
    apply nearest_of_roundsTo
    · exact Nat.mul_pos hb (Nat.pow_pos (n := q.toNat) (Nat.zero_lt_two))
    · rw [Nat.cast_mul, cast_twoTo, ← div_div, ← zpow_natCast, Int.toNat_of_nonneg hnonneg]
      exact hm
  · rename_i hnegative
    apply nearest_of_roundsTo hb
    have hpower : (2 : ℚ) ^ q = (2 ^ (-q).toNat)⁻¹ := by
      rw [← zpow_natCast, Int.toNat_of_nonneg (by omega), ← zpow_neg, neg_neg]
    rw [hpower, div_inv_eq_mul] at hm
    rw [Nat.cast_mul, cast_twoTo, mul_div_right_comm]
    exact hm

/-!
## The parts of a number
-/

theorem magnitude_eq (x : Number) :
    x.magnitude = x.binade * fractionSize + x.significand := by
  unfold significand
  have hle : x.binade * fractionSize ≤ x.magnitude := by
    unfold binade
    rw [fractionSize_eq]
    omega
  omega

theorem significand_lt (x : Number) : x.significand < 2 * fractionSize := by
  unfold significand binade
  rw [fractionSize_eq]
  omega

theorem le_significand {x : Number} (h : 0 < x.binade) : fractionSize ≤ x.significand := by
  unfold significand binade at *
  rw [fractionSize_eq] at *
  omega

theorem binade_le {x : Number} (h : x.isFinite = true) : x.binade ≤ 2045 := by
  have hlt : x.magnitude < infiniteMagnitude := of_decide_eq_true h
  unfold infiniteMagnitude at hlt
  unfold binade
  rw [fractionSize_eq] at *
  omega

/-!
## What rounds to a number
-/

/-- How far below the number its interval starts, in units of the last place. -/
def reachBelow (x : Number) : ℚ :=
  if x.significand = fractionSize ∧ 0 < x.binade then 1 / 4 else 1 / 2

/-- The value lies in the interval that rounds to the number. -/
structure Covers (x : Number) (w : ℚ) : Prop where
  lower : x.significand - x.reachBelow ≤ w / 2 ^ x.exponent
  upper : w / 2 ^ x.exponent ≤ x.significand + 1 / 2
  tie : w / 2 ^ x.exponent = x.significand - x.reachBelow ∨
    w / 2 ^ x.exponent = x.significand + 1 / 2 -> x.significand % 2 = 0

theorem reachBelow_le (x : Number) : x.reachBelow ≤ 1 / 2 := by
  unfold reachBelow
  split <;> norm_num

theorem Covers.pos {x : Number} {w : ℚ} (h : x.Covers w) (hx : x.significand ≠ 0) : 0 < w := by
  have hone : (1 : ℚ) ≤ x.significand := by exact_mod_cast Nat.one_le_iff_ne_zero.mpr hx
  have hlower := h.lower
  have hreach := x.reachBelow_le
  have hscaled : 0 < w / 2 ^ x.exponent := by linarith
  exact (div_pos_iff_of_pos_right (zpow_pos two_pos _)).mp hscaled

theorem ofRatio_of_same_binade
    {x : Number} (hfinite : x.isFinite = true) {a b : Nat} (ha : 0 < a) (hb : 0 < b)
    (h : x.Covers ((a : ℚ) / b))
    (hbinade : (fractionSize : ℚ) ≤ (a : ℚ) / b / 2 ^ x.exponent ∨ x.binade = 0) :
    ofRatio false a b = ofMagnitude false x.magnitude := by
  have hw : (0 : ℚ) < (a : ℚ) / b := div_pos (by exact_mod_cast ha) (by exact_mod_cast hb)
  have hunit : (0 : ℚ) < 2 ^ x.exponent := zpow_pos two_pos _
  have hsize : (fractionSize : ℚ) = 2 ^ (52 : Int) := by
    rw [fractionSize_eq]
    norm_num
  have hsignificand : (x.significand : ℚ) + 1 ≤ 2 * fractionSize := by
    exact_mod_cast x.significand_lt
  have hbelow : (a : ℚ) / b < 2 ^ (x.exponent + 53) := by
    rw [zpow_add₀ two_ne_zero, ← div_lt_iff₀' hunit]
    have hupper := h.upper
    rw [hsize] at hsignificand
    norm_num at hsignificand ⊢
    linarith
  have hlog := (Int.lt_zpow_iff_log_lt one_lt_two hw).mp (by exact_mod_cast hbelow)
  have hq : max (Int.log 2 ((a : ℚ) / b) - 52) (-1074) = x.exponent := by
    unfold exponent at hlog ⊢
    rcases hbinade with hlarge | hzero
    · have hreached : (2 : ℚ) ^ (x.exponent + 52) ≤ (a : ℚ) / b := by
        rw [zpow_add₀ two_ne_zero, ← le_div_iff₀' hunit, ← hsize]
        exact hlarge
      have hle := (Int.zpow_le_iff_le_log one_lt_two hw).mp (by exact_mod_cast hreached)
      unfold exponent at hle
      omega
    · omega
  have hrounds : RoundsTo ((a : ℚ) / b / 2 ^ x.exponent) x.significand := by
    have hlower := h.lower
    have hreach := x.reachBelow_le
    constructor
    · linarith
    · exact h.upper
    · intro hties
      apply h.tie
      rcases hties with hlow | hhigh
      · exact Or.inl (by linarith)
      · exact Or.inr hhigh
  have hexponent : (x.exponent + 1074).toNat = x.binade := by
    unfold exponent
    omega
  have hlt : x.magnitude < infiniteMagnitude := of_decide_eq_true hfinite
  rw [ofRatio_eq ha hb hq hrounds, hexponent, ← magnitude_eq, min_eq_left hlt.le]

theorem ofRatio_of_lower_binade
    {x : Number} (hfinite : x.isFinite = true) {a b : Nat} (ha : 0 < a) (hb : 0 < b)
    (h : x.Covers ((a : ℚ) / b))
    (hsmall : (a : ℚ) / b / 2 ^ x.exponent < fractionSize) (hbinade : 0 < x.binade) :
    ofRatio false a b = ofMagnitude false x.magnitude := by
  have hw : (0 : ℚ) < (a : ℚ) / b := div_pos (by exact_mod_cast ha) (by exact_mod_cast hb)
  have hunit : (0 : ℚ) < 2 ^ x.exponent := zpow_pos two_pos _
  have hsize : (fractionSize : ℚ) = 4503599627370496 := by
    rw [fractionSize_eq]
    norm_num
  have hfirst : x.significand = fractionSize := by
    apply Nat.le_antisymm _ (le_significand hbinade)
    by_contra hgt
    have hcast : (fractionSize : ℚ) + 1 ≤ x.significand := by
      exact_mod_cast Nat.succ_le_of_lt (Nat.not_le.mp hgt)
    have hlower := h.lower
    have hreach := x.reachBelow_le
    linarith
  have hreach : x.reachBelow = 1 / 4 := if_pos ⟨hfirst, hbinade⟩
  have hlower := h.lower
  rw [hreach, hfirst] at hlower
  have hq : max (Int.log 2 ((a : ℚ) / b) - 52) (-1074) = x.exponent - 1 := by
    have hbelow : (a : ℚ) / b < 2 ^ (x.exponent + 52) := by
      rw [zpow_add₀ two_ne_zero, ← div_lt_iff₀' hunit]
      rw [hsize] at hsmall
      norm_num
      linarith
    have habove : (2 : ℚ) ^ (x.exponent + 51) ≤ (a : ℚ) / b := by
      rw [zpow_add₀ two_ne_zero, ← le_div_iff₀' hunit]
      rw [hsize] at hlower
      norm_num at hlower ⊢
      linarith
    have hlt := (Int.lt_zpow_iff_log_lt one_lt_two hw).mp (by exact_mod_cast hbelow)
    have hle := (Int.zpow_le_iff_le_log one_lt_two hw).mp (by exact_mod_cast habove)
    unfold exponent at hlt hle ⊢
    omega
  have hdouble : (a : ℚ) / b / 2 ^ (x.exponent - 1) = 2 * ((a : ℚ) / b / 2 ^ x.exponent) := by
    rw [zpow_sub_one₀ two_ne_zero]
    field_simp
  have hrounds : RoundsTo ((a : ℚ) / b / 2 ^ (x.exponent - 1)) (2 * fractionSize) := by
    rw [hdouble]
    constructor
    · push_cast
      linarith
    · push_cast
      linarith
    · intro _
      omega
  have hmagnitude : (x.exponent - 1 + 1074).toNat * fractionSize + 2 * fractionSize =
      x.magnitude := by
    have hexponent : (x.exponent - 1 + 1074).toNat + 1 = x.binade := by
      unfold exponent
      omega
    rw [x.magnitude_eq, hfirst, ← hexponent]
    ring
  have hlt : x.magnitude < infiniteMagnitude := of_decide_eq_true hfinite
  rw [ofRatio_eq ha hb hq hrounds, hmagnitude, min_eq_left hlt.le]

theorem ofRatio_of_covers
    {x : Number} (hfinite : x.isFinite = true) (hx : x.significand ≠ 0) {a b : Nat} (hb : 0 < b)
    (h : x.Covers ((a : ℚ) / b)) :
    ofRatio false a b = ofMagnitude false x.magnitude := by
  have ha : 0 < a := by
    apply Nat.pos_of_ne_zero
    rintro rfl
    have hpos := h.pos hx
    simp at hpos
  rcases Nat.eq_zero_or_pos x.binade with hzero | hpos
  · exact ofRatio_of_same_binade hfinite ha hb h (Or.inr hzero)
  · rcases lt_or_ge ((a : ℚ) / b / 2 ^ x.exponent) fractionSize with hsmall | hlarge
    · exact ofRatio_of_lower_binade hfinite ha hb h hsmall hpos
    · exact ofRatio_of_same_binade hfinite ha hb h (Or.inl hlarge)

end Number
end DefTable
