import DefTable.Proofs.Text.Utf8

/-!
# Bytes as text and back

Decoding loses nothing: the glyphs of any bytes are written as the same bytes again.  So a place
between two glyphs of a decoded text is a place between two of its bytes, and what stands before and
after it is decoded on its own as it is decoded in the whole.
-/

namespace DefTable
namespace Text

/-!
## One character
-/

theorem continuation?_eq_some {lo hi b : UInt8} {m : Nat} (h : continuation? lo hi b = some m) :
    lo.toNat ≤ b.toNat ∧ b.toNat ≤ hi.toNat ∧ m = b.toNat % 64 := by
  unfold continuation? at h
  split at h
  · rename_i hrange
    rw [Bool.and_eq_true, decide_eq_true_eq, decide_eq_true_eq] at hrange
    exact ⟨UInt8.le_iff_toNat_le.mp hrange.1, UInt8.le_iff_toNat_le.mp hrange.2,
      (Option.some.inj h).symm⟩
  · cases h

/-- What the first byte `n` of a longer character asks of the second one. -/
structure Second (n : Nat) (b : UInt8) : Prop where
  ge : 128 ≤ b.toNat
  le : b.toNat ≤ 191
  notShorter : n = 0xE0 -> 160 ≤ b.toNat
  notSurrogate : n = 0xED -> b.toNat ≤ 159
  notShorter₄ : n = 0xF0 -> 144 ≤ b.toNat
  notBeyond : n = 0xF4 -> b.toNat ≤ 143

theorem second_eq_some
    {n m : Nat} {b : UInt8} (hn : n < 256)
    (h : continuation? (secondRange (UInt8.ofNat n)).1 (secondRange (UInt8.ofNat n)).2 b = some m) :
    Second n b ∧ m = b.toNat % 64 := by
  have hE0 : UInt8.ofNat n = 0xE0 <-> n = 0xE0 := byte_eq_iff (m := 0xE0) hn (by decide)
  have hED : UInt8.ofNat n = 0xED <-> n = 0xED := byte_eq_iff (m := 0xED) hn (by decide)
  have hF0 : UInt8.ofNat n = 0xF0 <-> n = 0xF0 := byte_eq_iff (m := 0xF0) hn (by decide)
  have hF4 : UInt8.ofNat n = 0xF4 <-> n = 0xF4 := byte_eq_iff (m := 0xF4) hn (by decide)
  rcases continuation?_eq_some h with ⟨hlo, hhi, hm⟩
  refine ⟨?_, hm⟩
  simp only [secondRange, hE0, hED, hF0, hF4] at hlo hhi
  by_cases h₁ : n = 0xE0
  · simp only [if_pos h₁] at hlo hhi
    change 160 ≤ b.toNat at hlo
    change b.toNat ≤ 191 at hhi
    constructor <;> omega
  · by_cases h₂ : n = 0xED
    · simp only [if_neg h₁, if_pos h₂] at hlo hhi
      change 128 ≤ b.toNat at hlo
      change b.toNat ≤ 159 at hhi
      constructor <;> omega
    · by_cases h₃ : n = 0xF0
      · simp only [if_neg h₁, if_neg h₂, if_pos h₃] at hlo hhi
        change 144 ≤ b.toNat at hlo
        change b.toNat ≤ 191 at hhi
        constructor <;> omega
      · by_cases h₄ : n = 0xF4
        · simp only [if_neg h₁, if_neg h₂, if_neg h₃, if_pos h₄] at hlo hhi
          change 128 ≤ b.toNat at hlo
          change b.toNat ≤ 143 at hhi
          constructor <;> omega
        · simp only [if_neg h₁, if_neg h₂, if_neg h₃, if_neg h₄] at hlo hhi
          change 128 ≤ b.toNat at hlo
          change b.toNat ≤ 191 at hhi
          constructor <;> omega

theorem tail_eq_some {m : Nat} {b : UInt8} (h : continuation? 0x80 0xBF b = some m) :
    128 ≤ b.toNat ∧ b.toNat ≤ 191 ∧ m = b.toNat % 64 :=
  continuation?_eq_some h

theorem toNat_val_ofNat {n : Nat} (h : n.isValidChar) : (Char.ofNat n).val.toNat = n := by
  rw [Char.ofNat, dif_pos h]
  rfl

theorem encode_ofNat {v : Nat} (h : v.isValidChar) :
    String.utf8EncodeChar (Char.ofNat v) =
      if v ≤ 0x7F then [UInt8.ofNat v]
      else if v ≤ 0x7FF then [UInt8.ofNat (v / 64 % 32 + 192), UInt8.ofNat (v % 64 + 128)]
      else if v ≤ 0xFFFF then
        [UInt8.ofNat (v / 4096 % 16 + 224), UInt8.ofNat (v / 64 % 64 + 128),
          UInt8.ofNat (v % 64 + 128)]
      else
        [UInt8.ofNat (v / 262144 % 8 + 240), UInt8.ofNat (v / 4096 % 64 + 128),
          UInt8.ofNat (v / 64 % 64 + 128), UInt8.ofNat (v % 64 + 128)] := by
  unfold String.utf8EncodeChar
  dsimp only
  rw [toNat_val_ofNat h]

theorem ofNat_eq {n : Nat} {b : UInt8} (h : n = b.toNat) : UInt8.ofNat n = b := by
  rw [h, UInt8.ofNat_toNat]

section

variable {n : Nat} {x y z : UInt8}

theorem encode_two (hn : 0xC2 ≤ n ∧ n ≤ 0xDF) (hx : Second n x) :
    String.utf8EncodeChar (Char.ofNat (n % 32 * 64 + x.toNat % 64)) = [UInt8.ofNat n, x] := by
  have hge := hx.ge
  have hle := hx.le
  generalize hv : n % 32 * 64 + x.toNat % 64 = v
  have hlead : v / 64 % 32 + 192 = n := by omega
  have hxv : UInt8.ofNat (v % 64 + 128) = x := ofNat_eq (by omega)
  rw [encode_ofNat (.inl (by omega)), if_neg (by omega), if_pos (by omega), hlead, hxv]

theorem encode_three
    (hn : 0xE0 ≤ n ∧ n ≤ 0xEF) (hx : Second n x) (hy : 128 ≤ y.toNat ∧ y.toNat ≤ 191) :
    String.utf8EncodeChar (Char.ofNat (n % 16 * 4096 + x.toNat % 64 * 64 + y.toNat % 64)) =
      [UInt8.ofNat n, x, y] := by
  rcases hx with ⟨hge, hle, hnotShorter, hnotSurrogate, _, _⟩
  generalize hv : n % 16 * 4096 + x.toNat % 64 * 64 + y.toNat % 64 = v
  have hlead : v / 4096 % 16 + 224 = n := by omega
  have hxv : UInt8.ofNat (v / 64 % 64 + 128) = x := ofNat_eq (by omega)
  have hyv : UInt8.ofNat (v % 64 + 128) = y := ofNat_eq (by omega)
  have hvalid : v.isValidChar := by
    unfold Nat.isValidChar
    omega
  rw [encode_ofNat hvalid, if_neg (by omega), if_neg (by omega), if_pos (by omega), hlead, hxv, hyv]

theorem encode_four
    (hn : 0xF0 ≤ n ∧ n ≤ 0xF4) (hx : Second n x) (hy : 128 ≤ y.toNat ∧ y.toNat ≤ 191)
    (hz : 128 ≤ z.toNat ∧ z.toNat ≤ 191) :
    String.utf8EncodeChar (Char.ofNat
        (n % 8 * 262144 + x.toNat % 64 * 4096 + y.toNat % 64 * 64 + z.toNat % 64)) =
      [UInt8.ofNat n, x, y, z] := by
  rcases hx with ⟨hge, hle, _, _, hnotShorter, hnotBeyond⟩
  generalize hv : n % 8 * 262144 + x.toNat % 64 * 4096 + y.toNat % 64 * 64 + z.toNat % 64 = v
  have hlead : v / 262144 % 8 + 240 = n := by omega
  have hxv : UInt8.ofNat (v / 4096 % 64 + 128) = x := ofNat_eq (by omega)
  have hyv : UInt8.ofNat (v / 64 % 64 + 128) = y := ofNat_eq (by omega)
  have hzv : UInt8.ofNat (v % 64 + 128) = z := ofNat_eq (by omega)
  have hvalid : v.isValidChar := by
    unfold Nat.isValidChar
    omega
  rw [encode_ofNat hvalid, if_neg (by omega), if_neg (by omega), if_neg (by omega), hlead, hxv, hyv,
    hzv]

end

theorem take_of_getElem? {bs : List UInt8} {k : Nat} {b : UInt8} (h : bs[k]? = some b) :
    bs.take (k + 1) = bs.take k ++ [b] ∧ k + 1 ≤ bs.length := by
  rw [List.take_add_one, h]
  exact ⟨rfl, (List.getElem?_eq_some_iff.mp h).1⟩

theorem encode_of_leadingChar
    {a : UInt8} {rest : List UInt8} {c : Char} {extra : Nat}
    (h : leadingChar? a rest = some (c, extra)) :
    String.utf8EncodeChar c = a :: rest.take extra ∧ extra ≤ rest.length := by
  obtain ⟨n, hn, rfl⟩ : exists n, n < 256 ∧ a = UInt8.ofNat n :=
    ⟨a.toNat, a.toNat_lt, UInt8.ofNat_toNat.symm⟩
  rw [leadingChar?_first hn] at h
  dsimp only at h
  split at h
  · cases h
    rw [encode_ofNat (.inl (by omega)), if_pos (by omega), List.take_zero]
    exact ⟨rfl, Nat.zero_le _⟩
  · split at h
    · rename_i hrange
      rcases Option.bind_eq_some_iff.mp h with ⟨m, hsecond, hpair⟩
      cases hpair
      rcases Option.bind_eq_some_iff.mp hsecond with ⟨x, hx, hm⟩
      rcases second_eq_some hn hm with ⟨hxs, rfl⟩
      rcases take_of_getElem? hx with ⟨htake, hlength⟩
      rw [htake]
      exact ⟨encode_two hrange hxs, hlength⟩
    · split at h
      · rename_i hrange
        rcases Option.bind_eq_some_iff.mp h with ⟨m, hsecond, hrest⟩
        rcases Option.bind_eq_some_iff.mp hrest with ⟨m', hthird, hpair⟩
        cases hpair
        rcases Option.bind_eq_some_iff.mp hsecond with ⟨x, hx, hm⟩
        rcases Option.bind_eq_some_iff.mp hthird with ⟨y, hy, hm'⟩
        rcases second_eq_some hn hm with ⟨hxs, rfl⟩
        rcases tail_eq_some hm' with ⟨hge, hle, rfl⟩
        rcases take_of_getElem? hy with ⟨htake, hlength⟩
        rw [htake, (take_of_getElem? hx).1]
        exact ⟨encode_three hrange hxs ⟨hge, hle⟩, hlength⟩
      · split at h
        · rename_i hrange
          rcases Option.bind_eq_some_iff.mp h with ⟨m, hsecond, hrest⟩
          rcases Option.bind_eq_some_iff.mp hrest with ⟨m', hthird, hrest⟩
          rcases Option.bind_eq_some_iff.mp hrest with ⟨m'', hfourth, hpair⟩
          cases hpair
          rcases Option.bind_eq_some_iff.mp hsecond with ⟨x, hx, hm⟩
          rcases Option.bind_eq_some_iff.mp hthird with ⟨y, hy, hm'⟩
          rcases Option.bind_eq_some_iff.mp hfourth with ⟨z, hz, hm''⟩
          rcases second_eq_some hn hm with ⟨hxs, rfl⟩
          rcases tail_eq_some hm' with ⟨hgey, hley, rfl⟩
          rcases tail_eq_some hm'' with ⟨hgez, hlez, rfl⟩
          rcases take_of_getElem? hz with ⟨htake, hlength⟩
          rw [htake, (take_of_getElem? hy).1, (take_of_getElem? hx).1]
          exact ⟨encode_four hrange hxs ⟨hgey, hley⟩ ⟨hgez, hlez⟩, hlength⟩
        · cases h

theorem leadingChar?_append
    {a : UInt8} {rest : List UInt8} {c : Char} {extra : Nat}
    (h : leadingChar? a rest = some (c, extra)) (more : List UInt8) :
    leadingChar? a (rest ++ more) = some (c, extra) := by
  rcases encode_of_leadingChar h with ⟨hbytes, hextra⟩
  rcases leadingChar?_encode c (rest.drop extra ++ more) with ⟨a', taken, hencode, hlead⟩
  rw [hbytes] at hencode
  rcases List.cons.inj hencode with ⟨rfl, rfl⟩
  rw [← List.append_assoc, List.take_append_drop, List.length_take,
    Nat.min_eq_left hextra] at hlead
  exact hlead

/-!
## Whole texts
-/

theorem decodeFrom_drop (skip : Nat) (bs : List UInt8) :
    decodeFrom skip bs = decode (bs.drop skip) := by
  induction bs generalizing skip with
  | nil =>
      cases skip <;> rfl
  | cons b bs ih =>
      cases skip with
      | zero => rfl
      | succ skip => exact ih skip

theorem decode_cons (a : UInt8) (rest : List UInt8) :
    decode (a :: rest) =
      match leadingChar? a rest with
      | some (c, extra) => .char c :: decode (rest.drop extra)
      | none => .stray a :: decode rest := by
  rw [decode, decodeFrom]
  cases leadingChar? a rest with
  | none => rfl
  | some found => exact congrArg _ (decodeFrom_drop found.2 rest)

theorem bytes_decode (bs : List UInt8) : bytes (decode bs) = bs := by
  induction hlength : bs.length using Nat.strongRecOn generalizing bs with
  | _ n ih =>
      cases bs with
      | nil => rfl
      | cons a rest =>
          rw [List.length_cons] at hlength
          rw [decode_cons]
          split
          · rename_i c extra hlead
            have hrest := ih _ (by rw [List.length_drop]; omega) (rest.drop extra) rfl
            rw [bytes, List.flatMap_cons]
            change String.utf8EncodeChar c ++ bytes (decode (rest.drop extra)) = a :: rest
            rw [hrest, (encode_of_leadingChar hlead).1, List.cons_append, List.take_append_drop]
          · exact congrArg (a :: ·) (ih _ (by omega) rest rfl)

theorem bytes_append (t u : Text) : bytes (t ++ u) = bytes t ++ bytes u :=
  List.flatMap_append

def Readable (t : Text) : Prop :=
  decode (bytes t) = t

theorem readable_decode (bs : List UInt8) : Readable (decode bs) := by
  rw [Readable, bytes_decode]

theorem Readable.tail {g : Glyph} {t : Text} (h : Readable (g :: t)) : Readable t := by
  cases g with
  | char c =>
      have hdecode := (decode_char c (bytes t)).symm.trans h
      exact (List.cons.inj hdecode).2
  | stray b =>
      have hdecode := (decode_cons b (bytes t)).symm.trans h
      split at hdecode
      · cases (List.cons.inj hdecode).1
      · exact (List.cons.inj hdecode).2

theorem Readable.right {t u : Text} (h : Readable (t ++ u)) : Readable u := by
  induction t with
  | nil => exact h
  | cons g t ih => exact ih h.tail

theorem Readable.left {t u : Text} (h : Readable (t ++ u)) : Readable t := by
  induction t with
  | nil => rfl
  | cons g t ih =>
      have hrest := ih h.tail
      cases g with
      | char c => exact (decode_char c (bytes t)).trans (congrArg _ hrest)
      | stray b =>
          have hnone : leadingChar? b (bytes t) = none := by
            cases hlead : leadingChar? b (bytes t) with
            | none => rfl
            | some result =>
                have hdecode : decode (b :: bytes (t ++ u)) = .stray b :: (t ++ u) := h
                rw [decode_cons, bytes_append, leadingChar?_append hlead] at hdecode
                cases (List.cons.inj hdecode).1
          have hdecode := decode_cons b (bytes t)
          rw [hnone] at hdecode
          exact hdecode.trans (congrArg _ hrest)

/-!
## Texts one behind the other
-/

/-- The text starts with a whole character, if with anything. -/
def StartsWhole (t : Text) : Prop :=
  forall b, t.head? ≠ some (.stray b)

theorem startsWhole_nil : StartsWhole [] := by
  intro b hb
  cases hb

theorem startsWhole_char (c : Char) (t : Text) : StartsWhole (.char c :: t) := by
  intro b hb
  cases hb

theorem StartsWhole.append {t u : Text} (ht : StartsWhole t) (hu : StartsWhole u) :
    StartsWhole (t ++ u) := by
  cases t with
  | nil => exact hu
  | cons g t => exact ht

theorem leadingChar?_append_none
    {a : UInt8} {rest more : List UInt8} (h : leadingChar? a rest = none)
    (hmore : StartsWhole (decode more)) : leadingChar? a (rest ++ more) = none := by
  cases hlead : leadingChar? a (rest ++ more) with
  | none => rfl
  | some found =>
      rcases found with ⟨c, extra⟩
      rcases encode_of_leadingChar hlead with ⟨hbytes, hextra⟩
      by_cases hinside : extra ≤ rest.length
      · -- All bytes of the character stand in front of the others.
        rcases leadingChar?_encode c (rest.drop extra) with ⟨a', taken, hencode, hread⟩
        rw [hbytes, List.take_append_of_le_length hinside] at hencode
        rcases List.cons.inj hencode with ⟨rfl, rfl⟩
        rw [List.take_append_drop, h] at hread
        cases hread
      · -- The first one of the others would both start a character and go on another.
        cases more with
        | nil =>
            rw [List.append_nil] at hextra
            exact absurd hextra hinside
        | cons b more =>
            rw [decode_cons] at hmore
            split at hmore
            · rename_i d k hd
              have hfirst : b.IsUTF8FirstByte := by
                have hzero := @UInt8.isUTF8FirstByte_getElem_zero_utf8EncodeChar d
                simpa [(encode_of_leadingChar hd).1] using hzero
              have hlength : rest.length + 1 < (String.utf8EncodeChar c).length := by
                rw [hbytes, List.length_cons, List.length_take]
                omega
              have htake : (rest ++ b :: more).take extra =
                  rest ++ (b :: more).take (extra - rest.length) := by
                rw [List.take_append, List.take_of_length_le (Nat.le_of_not_le hinside)]
              have hlater : (String.utf8EncodeChar c)[rest.length + 1] = b := by
                simp only [hbytes, List.getElem_cons_succ, htake]
                simp
              rw [← hlater, UInt8.isUTF8FirstByte_getElem_utf8EncodeChar] at hfirst
              cases hfirst
            · exact absurd rfl (hmore b)

theorem decode_append
    (bs : List UInt8) {more : List UInt8} (hmore : StartsWhole (decode more)) :
    decode (bs ++ more) = decode bs ++ decode more := by
  induction hlength : bs.length using Nat.strongRecOn generalizing bs with
  | _ n ih =>
      cases bs with
      | nil => rfl
      | cons a rest =>
          rw [List.length_cons] at hlength
          rw [List.cons_append, decode_cons a (rest ++ more), decode_cons a rest]
          cases hlead : leadingChar? a rest with
          | none =>
              rw [leadingChar?_append_none hlead hmore]
              exact congrArg _ (ih _ (by omega) rest rfl)
          | some found =>
              rcases found with ⟨c, extra⟩
              have hextra := (encode_of_leadingChar hlead).2
              have hrest := ih _ (by rw [List.length_drop]; omega) (rest.drop extra) rfl
              rw [leadingChar?_append hlead]
              dsimp only
              rw [List.drop_append_of_le_length hextra, hrest, List.cons_append]

end Text
end DefTable
