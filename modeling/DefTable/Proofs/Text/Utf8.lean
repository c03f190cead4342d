import DefTable.Text.Basic

/-!
# Text as bytes and back

The bytes of a string are read back as the same string.  A character of each length is treated
apart: its first byte decides how many follow, and all of them lie in the ranges that are asked for.
-/

namespace DefTable
namespace Text

/-!
## One character
-/

theorem toNat_byte {n : Nat} (h : n < 256) : (UInt8.ofNat n).toNat = n := by
  rw [UInt8.toNat_ofNat']
  omega

theorem continuation?_byte
    {lo hi : UInt8} {n : Nat} (h : n < 256) (hlo : lo.toNat ≤ n) (hhi : n ≤ hi.toNat) :
    continuation? lo hi (UInt8.ofNat n) = some (n % 64) := by
  unfold continuation?
  have hrange : (lo ≤ UInt8.ofNat n && UInt8.ofNat n ≤ hi) = true := by
    rw [Bool.and_eq_true, decide_eq_true_eq, decide_eq_true_eq, UInt8.le_iff_toNat_le,
      UInt8.le_iff_toNat_le, toNat_byte h]
    exact ⟨hlo, hhi⟩
  rw [if_pos hrange, toNat_byte h]

theorem byte_eq_iff {n m : Nat} (hn : n < 256) (hm : m < 256) :
    UInt8.ofNat n = UInt8.ofNat m <-> n = m := by
  rw [← UInt8.toNat_inj, toNat_byte hn, toNat_byte hm]

theorem continuation?_second
    {n m : Nat} (hn : n < 256) (hlo : 128 ≤ m) (hhi : m ≤ 191)
    (hE0 : n = 0xE0 -> 160 ≤ m) (hED : n = 0xED -> m ≤ 159)
    (hF0 : n = 0xF0 -> 144 ≤ m) (hF4 : n = 0xF4 -> m ≤ 143) :
    continuation? (secondRange (UInt8.ofNat n)).1 (secondRange (UInt8.ofNat n)).2
      (UInt8.ofNat m) = some (m % 64) := by
  have hm : m < 256 := by omega
  unfold secondRange
  split
  · rename_i h
    have hn : n = 0xE0 := (byte_eq_iff hn (by omega)).mp h
    exact continuation?_byte hm (hE0 hn) hhi
  · split
    · rename_i h
      have hn : n = 0xED := (byte_eq_iff hn (by omega)).mp h
      exact continuation?_byte hm hlo (hED hn)
    · split
      · rename_i h
        have hn : n = 0xF0 := (byte_eq_iff hn (by omega)).mp h
        exact continuation?_byte hm (hF0 hn) hhi
      · split
        · rename_i h
          have hn : n = 0xF4 := (byte_eq_iff hn (by omega)).mp h
          exact continuation?_byte hm hlo (hF4 hn)
        · exact continuation?_byte hm hlo hhi

theorem byte_le_iff {n m : Nat} (hn : n < 256) (hm : m < 256) :
    UInt8.ofNat n ≤ UInt8.ofNat m <-> n ≤ m := by
  rw [UInt8.le_iff_toNat_le, toNat_byte hn, toNat_byte hm]

theorem byte_lt_iff {n m : Nat} (hn : n < 256) (hm : m < 256) :
    UInt8.ofNat n < UInt8.ofNat m <-> n < m := by
  rw [UInt8.lt_iff_toNat_lt, toNat_byte hn, toNat_byte hm]

theorem leadingChar?_first
    {n : Nat} (hn : n < 256) (rest : List UInt8) :
    leadingChar? (UInt8.ofNat n) rest =
      let second? := continuation? (secondRange (UInt8.ofNat n)).1 (secondRange (UInt8.ofNat n)).2
      let tail? := continuation? 0x80 0xBF
      if n < 128 then some (Char.ofNat n, 0)
      else if 0xC2 ≤ n ∧ n ≤ 0xDF then do
        let b <- rest[0]?.bind second?
        return (Char.ofNat (n % 32 * 64 + b), 1)
      else if 0xE0 ≤ n ∧ n ≤ 0xEF then do
        let b <- rest[0]?.bind second?
        let c <- rest[1]?.bind tail?
        return (Char.ofNat (n % 16 * 4096 + b * 64 + c), 2)
      else if 0xF0 ≤ n ∧ n ≤ 0xF4 then do
        let b <- rest[0]?.bind second?
        let c <- rest[1]?.bind tail?
        let d <- rest[2]?.bind tail?
        return (Char.ofNat (n % 8 * 262144 + b * 4096 + c * 64 + d), 3)
      else none := by
  have h₁ : UInt8.ofNat n < 0x80 <-> n < 128 := byte_lt_iff hn (by decide)
  have h₂ : 0xC2 ≤ UInt8.ofNat n <-> 0xC2 ≤ n := byte_le_iff (by decide) hn
  have h₃ : UInt8.ofNat n ≤ 0xDF <-> n ≤ 0xDF := byte_le_iff hn (by decide)
  have h₄ : 0xE0 ≤ UInt8.ofNat n <-> 0xE0 ≤ n := byte_le_iff (by decide) hn
  have h₅ : UInt8.ofNat n ≤ 0xEF <-> n ≤ 0xEF := byte_le_iff hn (by decide)
  have h₆ : 0xF0 ≤ UInt8.ofNat n <-> 0xF0 ≤ n := byte_le_iff (by decide) hn
  have h₇ : UInt8.ofNat n ≤ 0xF4 <-> n ≤ 0xF4 := byte_le_iff hn (by decide)
  unfold leadingChar?
  simp only [Bool.and_eq_true, decide_eq_true_eq, h₁, h₂, h₃, h₄, h₅, h₆, h₇, toNat_byte hn]
  rfl

theorem continuation?_low (v : Nat) :
    continuation? 0x80 0xBF (UInt8.ofNat (v % 64 + 128)) = some (v % 64) := by
  have hlo : (0x80 : UInt8).toNat ≤ v % 64 + 128 := Nat.le_add_left _ _
  have hhi : v % 64 + 128 ≤ (0xBF : UInt8).toNat := show v % 64 + 128 ≤ 191 by omega
  have hmod : (v % 64 + 128) % 64 = v % 64 := by omega
  rw [continuation?_byte (by omega) hlo hhi, hmod]

theorem leadingChar?_one {v : Nat} (hhi : v ≤ 0x7F) (rest : List UInt8) :
    leadingChar? (UInt8.ofNat v) rest = some (Char.ofNat v, 0) := by
  rw [leadingChar?_first (by omega)]
  dsimp only
  rw [if_pos (by omega)]

theorem leadingChar?_two
    {v : Nat} (hlo : 0x7F < v) (hhi : v ≤ 0x7FF) (rest : List UInt8) :
    leadingChar? (UInt8.ofNat (v / 64 % 32 + 0xC0)) (UInt8.ofNat (v % 64 + 128) :: rest) =
      some (Char.ofNat v, 1) := by
  have hsecond := continuation?_second (n := v / 64 % 32 + 0xC0) (m := v % 64 + 128)
    (by omega) (by omega) (by omega) (by omega) (by omega) (by omega) (by omega)
  have hvalue : (v / 64 % 32 + 0xC0) % 32 * 64 + (v % 64 + 128) % 64 = v := by omega
  rw [leadingChar?_first (by omega)]
  dsimp only
  rw [if_neg (by omega), if_pos (by omega)]
  simp only [List.getElem?_cons_zero, Option.bind_some, hsecond, Option.bind_eq_bind, hvalue]
  rfl

theorem leadingChar?_three
    {v : Nat} (hlo : 0x7FF < v) (hhi : v ≤ 0xFFFF) (hvalid : v < 0xD800 ∨ 0xDFFF < v)
    (rest : List UInt8) :
    leadingChar? (UInt8.ofNat (v / 4096 % 16 + 0xE0))
        (UInt8.ofNat (v / 64 % 64 + 128) :: UInt8.ofNat (v % 64 + 128) :: rest) =
      some (Char.ofNat v, 2) := by
  have hsecond := continuation?_second (n := v / 4096 % 16 + 0xE0) (m := v / 64 % 64 + 128)
    (by omega) (by omega) (by omega) (by omega) (by omega) (by omega) (by omega)
  have hvalue : (v / 4096 % 16 + 0xE0) % 16 * 4096 + (v / 64 % 64 + 128) % 64 * 64 + v % 64 =
      v := by omega
  rw [leadingChar?_first (by omega)]
  dsimp only
  rw [if_neg (by omega), if_neg (by omega), if_pos (by omega)]
  simp only [List.getElem?_cons_zero, List.getElem?_cons_succ, Option.bind_some, hsecond,
    continuation?_low, Option.bind_eq_bind, hvalue]
  rfl

theorem leadingChar?_four
    {v : Nat} (hlo : 0xFFFF < v) (hhi : v < 0x110000) (rest : List UInt8) :
    leadingChar? (UInt8.ofNat (v / 262144 % 8 + 0xF0))
        (UInt8.ofNat (v / 4096 % 64 + 128) :: UInt8.ofNat (v / 64 % 64 + 128) ::
          UInt8.ofNat (v % 64 + 128) :: rest) =
      some (Char.ofNat v, 3) := by
  have hsecond := continuation?_second (n := v / 262144 % 8 + 0xF0) (m := v / 4096 % 64 + 128)
    (by omega) (by omega) (by omega) (by omega) (by omega) (by omega) (by omega)
  have hvalue : (v / 262144 % 8 + 0xF0) % 8 * 262144 + (v / 4096 % 64 + 128) % 64 * 4096 +
      v / 64 % 64 * 64 + v % 64 = v := by omega
  rw [leadingChar?_first (by omega)]
  dsimp only
  rw [if_neg (by omega), if_neg (by omega), if_neg (by omega), if_pos (by omega)]
  simp only [List.getElem?_cons_zero, List.getElem?_cons_succ, Option.bind_some, hsecond,
    continuation?_low, Option.bind_eq_bind, hvalue]
  rfl

theorem leadingChar?_encode (c : Char) (rest : List UInt8) :
    exists a more, String.utf8EncodeChar c = a :: more ∧
      leadingChar? a (more ++ rest) = some (c, more.length) := by
  have hvalid : c.val.toNat < 0xD800 ∨ 0xDFFF < c.val.toNat ∧ c.val.toNat < 0x110000 := c.valid
  have hc : Char.ofNat c.val.toNat = c := Char.ofNat_toNat c
  unfold String.utf8EncodeChar
  dsimp only
  generalize c.val.toNat = v at hvalid hc
  subst hc
  by_cases h₁ : v ≤ 0x7F
  · rw [if_pos h₁]
    exact ⟨_, _, rfl, leadingChar?_one h₁ rest⟩
  rw [if_neg h₁]
  by_cases h₂ : v ≤ 0x7FF
  · rw [if_pos h₂]
    exact ⟨_, _, rfl, leadingChar?_two (by omega) h₂ rest⟩
  rw [if_neg h₂]
  by_cases h₃ : v ≤ 0xFFFF
  · rw [if_pos h₃]
    exact ⟨_, _, rfl, leadingChar?_three (by omega) h₃ (by omega) rest⟩
  rw [if_neg h₃]
  exact ⟨_, _, rfl, leadingChar?_four (by omega) (by omega) rest⟩

/-!
## Whole strings
-/

theorem decodeFrom_skip (more rest : List UInt8) :
    decodeFrom more.length (more ++ rest) = decodeFrom 0 rest := by
  induction more with
  | nil => rfl
  | cons b more ih =>
      rw [List.length_cons, List.cons_append, decodeFrom]
      exact ih

theorem decode_char (c : Char) (rest : List UInt8) :
    decode (String.utf8EncodeChar c ++ rest) = .char c :: decode rest := by
  rcases leadingChar?_encode c rest with ⟨a, more, hbytes, hlead⟩
  rw [hbytes, List.cons_append, decode, decodeFrom, hlead]
  exact congrArg _ (decodeFrom_skip more rest)

theorem decode_bytes_ofString (s : String) : decode (bytes (ofString s)) = ofString s := by
  have hchars : forall cs : List Char,
      decode (bytes (cs.map Glyph.char)) = cs.map Glyph.char := by
    intro cs
    induction cs with
    | nil => rfl
    | cons c cs ih =>
        rw [List.map_cons, bytes, List.flatMap_cons]
        exact (decode_char c _).trans (congrArg _ ih)
  exact hchars s.toList

theorem toString?_ofString (s : String) : (ofString s).toString? = some s := by
  have hvalid : (ofString s).isValid = true := by
    rw [isValid, ofString, List.all_map, List.all_eq_true]
    intro c _
    rfl
  have hstring : (ofString s).toString = s := by
    unfold toString chars ofString
    rw [List.map_map]
    have hid : Glyph.toChar ∘ Glyph.char = id := rfl
    rw [hid, List.map_id, String.ofList_toList]
  rw [toString?, hvalid, if_pos rfl, hstring]

theorem string?_bytes_ofString (s : String) : string? (bytes (ofString s)) = some s := by
  rw [string?, decode_bytes_ofString, toString?_ofString]

end Text
end DefTable
