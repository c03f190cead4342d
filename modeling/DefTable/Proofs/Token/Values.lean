import DefTable.Proofs.Token.Numeral

/-!
# What scanned tokens stand for

The text before a NUL is scanned to tokens and one end mark after them.  The numbers among the
tokens have no sign, which is a token of its own, and are finite or infinite; the strings have no
NUL, because no escape stands for one.
-/

namespace DefTable

/-!
## Numerals without a sign
-/

namespace Number

theorem isNegative_ofRatio (a b : Nat) : (ofRatio false a b).isNegative = false := by
  unfold ofRatio
  split
  · exact isNegative_ofMagnitude _
  · exact isNegative_ofMagnitude _

theorem isUndefined_ofMagnitude {m : Nat} (negative : Bool) (h : m ≤ infiniteMagnitude) :
    (ofMagnitude negative m).isUndefined = false := by
  have hsmall : infiniteMagnitude < signSize := by decide +kernel
  rw [isUndefined, magnitude_ofMagnitude, Nat.mod_eq_of_lt (Nat.lt_of_le_of_lt h hsmall)]
  exact decide_eq_false (Nat.not_lt.mpr h)

theorem isUndefined_ofRatio (negative : Bool) (a b : Nat) :
    (ofRatio negative a b).isUndefined = false := by
  unfold ofRatio
  split
  · exact isUndefined_ofMagnitude negative (Nat.zero_le _)
  · exact isUndefined_ofMagnitude negative (Nat.min_le_right _ _)

theorem isUndefined_neg (x : Number) : (-x).isUndefined = x.isUndefined := by
  rw [isUndefined, magnitude_neg, isUndefined]

theorem ofDecimal_cases (negative : Bool) (m : Nat) (e : Int) :
    ofDecimal negative m e = ofMagnitude negative 0 ∨
      ofDecimal negative m e = infinity negative ∨
      exists a b, ofDecimal negative m e = ofRatio negative a b := by
  unfold ofDecimal
  split
  · exact .inl rfl
  · dsimp only
    split
    · exact .inr (.inl rfl)
    · split
      · exact .inl rfl
      · split
        · exact .inr (.inr ⟨_, _, rfl⟩)
        · exact .inr (.inr ⟨_, _, rfl⟩)

end Number

namespace Numeral

structure Unsigned (P : Number -> Prop) : Prop where
  zero : P .zero
  infinity : P (.infinity false)
  ofRatio : forall a b, P (.ofRatio false a b)

theorem isNegative_unsigned : Unsigned fun x => x.isNegative = false where
  zero := Number.isNegative_ofMagnitude _
  infinity := Number.isNegative_ofMagnitude _
  ofRatio := Number.isNegative_ofRatio

theorem isUndefined_unsigned : Unsigned fun x => x.isUndefined = false where
  zero := Number.isUndefined_ofMagnitude false (Nat.zero_le _)
  infinity := Number.isUndefined_ofMagnitude false (Nat.le_refl _)
  ofRatio := Number.isUndefined_ofRatio false

namespace Unsigned

variable {P : Number -> Prop} (hP : Unsigned P)
include hP

theorem ofDecimal (m : Nat) (e : Int) : P (.ofDecimal false m e) := by
  rcases Number.ofDecimal_cases false m e with hzero | hinfinity | ⟨a, b, hratio⟩
  · rw [hzero]
    exact hP.zero
  · rw [hinfinity]
    exact hP.infinity
  · rw [hratio]
    exact hP.ofRatio a b

theorem appendDigit {x : Number} (h : P x) (radix digit : Nat) : P (x.appendDigit radix digit) := by
  unfold Number.appendDigit
  split
  · exact hP.ofRatio _ _
  · exact h

theorem radixDigits
    {radix : Nat} {x y : Number} {digits : Text} (hx : P x)
    (h : radixDigits radix x digits = .ok y) : P y := by
  induction digits generalizing x with
  | nil =>
      cases h
      exact hx
  | cons g digits ih =>
      rw [Numeral.radixDigits] at h
      split at h
      · exact ih (hP.appendDigit hx _ _) h
      · cases h

theorem radixBody {radix : Nat} {x : Number} {digits : Text} (h : radixBody radix digits = .ok x) :
    P x := by
  unfold Numeral.radixBody at h
  split at h
  · cases h
  · exact hP.radixDigits hP.zero h

theorem decimalBody {t : Text} {x : Number} (h : decimalBody t = .ok x) : P x := by
  unfold Numeral.decimalBody at h
  split at h
  · cases h
  · rename_i whole rest hwhole hspan
    cases hfraction : fraction rest with
    | error e =>
        rw [hfraction] at h
        cases h
    | ok parted =>
        rw [hfraction] at h
        cases hexponent : exponent parted.2 with
        | error e =>
            simp [bind, Except.bind, hexponent] at h
        | ok powered =>
            simp only [bind, Except.bind, hexponent] at h
            split at h
            · cases h
              exact hP.ofDecimal _ _
            · cases h

theorem body {t : Text} {x : Number} (h : body t = .ok x) : P x := by
  unfold Numeral.body at h
  split at h
  · exact hP.radixBody h
  · exact hP.radixBody h
  · exact hP.radixBody h
  · exact hP.decimalBody h

end Unsigned

theorem isNegative_read
    {t : Text} {x : Number} (hsign : (sign t).1 = false) (h : read t = .ok x) :
    x.isNegative = false := by
  unfold read at h
  dsimp only at h
  rw [hsign] at h
  split at h
  · cases h
  · split at h
    · rename_i y hbody
      cases h
      exact isNegative_unsigned.body hbody
    · cases h

theorem isUndefined_read {t : Text} {x : Number} (h : read t = .ok x) : x.isUndefined = false := by
  unfold read at h
  dsimp only at h
  split at h
  · cases h
  · split at h
    · rename_i y hbody
      have hdefined := isUndefined_unsigned.body hbody
      cases h
      split
      · rw [Number.isUndefined_neg]
        exact hdefined
      · exact hdefined
    · cases h

end Numeral

/-!
## Strings without NUL
-/

namespace StringLiteral

theorem escaped_ne_nul {c : Char} (h : c ≠ '\x00') : escaped c ≠ '\x00' := by
  unfold escaped
  split
  · decide
  · decide
  · decide
  · exact h

theorem toChar_ne_nul {g : Glyph} (h : g ≠ .char '\x00') : g.toChar ≠ '\x00' := by
  cases g with
  | char c => exact fun heq => h (congrArg Glyph.char heq)
  | stray b =>
      change '\uFFFD' ≠ '\x00'
      decide

theorem nul_not_mem_unescape
    {t : Text} {cs : List Char} (ht : .char '\x00' ∉ t) (h : unescape t = some cs) :
    '\x00' ∉ cs := by
  fun_induction unescape t generalizing cs with
  | case1 =>
      cases h
      exact List.not_mem_nil
  | case2 => cases h
  | case3 g rest ih =>
      rcases Option.map_eq_some_iff.mp h with ⟨ds, hds, rfl⟩
      simp only [List.mem_cons, not_or] at ht
      rw [List.mem_cons, not_or]
      exact ⟨(escaped_ne_nul (toChar_ne_nul (Ne.symm ht.2.1))).symm, ih ht.2.2 hds⟩
  | case4 g rest _ _ ih =>
      rcases Option.map_eq_some_iff.mp h with ⟨ds, hds, rfl⟩
      rw [List.mem_cons, not_or] at ht
      rw [List.mem_cons, not_or]
      exact ⟨(toChar_ne_nul (Ne.symm ht.1)).symm, ih ht.2 hds⟩

theorem nul_not_mem_read
    {t : Text} {s : String} (ht : .char '\x00' ∉ t) (h : read t = .ok s) : '\x00' ∉ s.toList := by
  unfold read at h
  split at h
  · cases h
  · rename_i body hcontent
    split at h
    · cases h
    · rename_i cs hcs
      cases h
      rw [String.toList_ofList]
      refine nul_not_mem_unescape (fun hmem => ht ?_) hcs
      unfold content? at hcontent
      split at hcontent
      · split at hcontent
        · cases hcontent
          exact List.mem_cons_of_mem _ (List.mem_of_mem_dropLast hmem)
        · cases hcontent
      · cases hcontent

end StringLiteral

/-!
## Tokens
-/

namespace Token

def Kind.Proper : Kind -> Prop
  | .endOfInput => False
  | .number v => v.isNegative = false ∧ v.isUndefined = false
  | .string v => '\x00' ∉ v.toList
  | _ => True

theorem Kind.Plain.proper {kind : Kind} (h : kind.Plain) : kind.Proper := by
  cases kind with
  | endOfInput => exact h
  | number => exact h.elim
  | string => exact h.elim
  | _ => trivial

theorem proper_quotedName (rest : Text) : (quotedNameExtent rest).kind.Proper := by
  unfold quotedNameExtent
  split
  · trivial
  · split
    · dsimp only
      split <;> trivial
    · trivial

theorem proper_string {rest : Text} (h : .char '\x00' ∉ rest) :
    (stringExtent rest).kind.Proper := by
  unfold stringExtent
  split
  · trivial
  · rename_i n _
    split
    · rename_i value hread
      refine StringLiteral.nul_not_mem_read ?_ hread
      rw [List.mem_cons, not_or]
      exact ⟨by decide, fun hmem => h (List.mem_of_mem_take hmem)⟩
    · trivial

theorem proper_numeral {g : Glyph} (rest : Text) (hg : g.toChar.isDigit = true) :
    (numeralExtent g rest).kind.Proper := by
  unfold numeralExtent
  dsimp only
  split
  · rename_i value hread
    refine ⟨Numeral.isNegative_read ?_ hread, Numeral.isUndefined_read hread⟩
    cases numeralLength (g :: rest) with
    | zero => rfl
    | succ n =>
        rw [List.take_succ_cons]
        unfold Numeral.sign
        split
        · rfl
        · rename_i heq
          cases heq
          cases hg
        · rfl
  · trivial

theorem proper_extent {g : Glyph} {rest : Text} (h : .char '\x00' ∉ rest) :
    (extent g rest).kind.Proper := by
  unfold extent
  dsimp only
  split
  · exact proper_string h
  · split
    · exact proper_quotedName rest
    · split
      · split <;> trivial
      · split
        · exact (plain_ofWord _).proper
        · split
          · rename_i hdigit
            exact proper_numeral rest hdigit
          · split
            · exact (plain_operator _).proper
            · split
              · rename_i hpunctuation
                exact (fixed_punctuation hpunctuation).plain.proper
              · trivial

theorem scanFrom_proper
    (beyond : Text) (p : Position) {t : Text} (h : .char '\x00' ∉ t) :
    exists body q, scanFrom beyond p t = body ++ [endAt q] ∧
      forall u, u ∈ body -> u.kind.Proper := by
  induction hlength : t.length using Nat.strongRecOn generalizing p t with
  | _ n ih =>
      rw [scanFrom_eq]
      cases hdrop : t.drop (blankLength false t) with
      | nil => exact ⟨[], _, rfl, fun u hu => absurd hu List.not_mem_nil⟩
      | cons g rest =>
          have hrest : .char '\x00' ∉ rest := fun hmem =>
            h (List.mem_of_mem_drop (hdrop ▸ List.mem_cons_of_mem g hmem))
          have hshorter : (rest.drop (extent g rest).more).length < n := by
            have hcount := congrArg List.length hdrop
            rw [List.length_drop, List.length_cons] at hcount
            rw [List.length_drop]
            omega
          rcases ih _ hshorter
            ((p.after (t.take (blankLength false t))).after (g :: rest.take (extent g rest).more))
            (fun hmem => hrest (List.mem_of_mem_drop hmem)) rfl with ⟨body, q, hscan, hbody⟩
          refine ⟨_ :: body, q, congrArg (List.cons _) hscan, ?_⟩
          exact List.forall_mem_cons.mpr ⟨proper_extent hrest, hbody⟩

theorem scan_proper (t : Text) :
    exists body q, scan t = body ++ [endAt q] ∧ forall u, u ∈ body -> u.kind.Proper :=
  scanFrom_proper _ _ (nul_not_mem_takeWhile t)

theorem Kind.Proper.ne_endOfInput {kind : Kind} (h : kind.Proper) : kind ≠ .endOfInput := by
  rintro rfl
  exact h

theorem scan_ofString {s : String} {post : List Token -> Prop} (h : Scans Separated s post) :
    exists ts q, scan (Text.ofString s) = ts ++ [endAt q] ∧ post ts ∧
      forall t, t ∈ ts -> t.kind ≠ .endOfInput := by
  have hnul : .char '\x00' ∉ Text.ofString s := by
    intro hmem
    rcases List.mem_map.mp hmem with ⟨c, hc, heq⟩
    rw [Glyph.char.inj heq] at hc
    exact h.noNul hc
  rcases h.scan [] .start [] separated_nil with ⟨ts, hscan, hts⟩
  rcases scan_proper (Text.ofString s) with ⟨body, q, hproper, hkinds⟩
  have hends : scan (Text.ofString s) =
      ts ++ [endAt (Position.start.after (Text.ofString s))] := by
    rw [List.append_nil, scanFrom_nil] at hscan
    rw [scan_of_noNul hnul, hscan]
  rw [hends] at hproper
  rcases List.append_inj' hproper rfl with ⟨rfl, _⟩
  exact ⟨ts, _, hends, hts, fun t ht => (hkinds t ht).ne_endOfInput⟩

end Token
end DefTable
