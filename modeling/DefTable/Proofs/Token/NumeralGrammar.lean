import Mathlib.Data.List.TakeDrop
import DefTable.Proofs.Token.Written

/-!
# The grammar of numerals

The numerals that can be read are those of a grammar: a sign or none, then digits after a mark of
their radix or a decimal with an optional fraction and an optional exponent.  A text that starts
with a digit is such a numeral exactly if the scanner takes all of it as one number, although the
scanner looks for the end of a numeral by other rules than its reader.
-/

namespace DefTable
namespace Numeral

/-!
## The grammar
-/

def Run (allowed : String) (cs : List Char) : Prop :=
  cs ≠ [] ∧ forall c, c ∈ cs -> c ∈ allowed.toList

inductive Sign : List Char -> Prop where
  | absent : Sign []
  | plus : Sign ['+']
  | minus : Sign ['-']

inductive Fraction : List Char -> Prop where
  | absent : Fraction []
  | point {ds : List Char} : Run "0123456789" ds -> Fraction ('.' :: ds)

inductive Exponent : List Char -> Prop where
  | absent : Exponent []
  | mark {m : Char} {s ds : List Char} :
      m = 'e' ∨ m = 'E' -> Sign s -> Run "0123456789" ds -> Exponent (m :: (s ++ ds))

/-- A numeral without its sign. -/
inductive Magnitude : List Char -> Prop where
  | binary {ds : List Char} : Run "01" ds -> Magnitude ('0' :: 'b' :: ds)
  | octal {ds : List Char} : Run "01234567" ds -> Magnitude ('0' :: 'o' :: ds)
  | hexadecimal {ds : List Char} :
      Run "0123456789abcdefABCDEF" ds -> Magnitude ('0' :: 'x' :: ds)
  | decimal {whole part power : List Char} :
      Run "0123456789" whole -> Fraction part -> Exponent power ->
      Magnitude (whole ++ (part ++ power))

inductive Grammatical : List Char -> Prop where
  | signed {s m : List Char} : Sign s -> Magnitude m -> Grammatical (s ++ m)

/-!
## Digits
-/

def Digits (cs : List Char) : Prop :=
  forall c, c ∈ cs -> c.isDigit = true

theorem digits_nil : Digits [] :=
  fun _ hc => absurd hc List.not_mem_nil

theorem ne_of_isDigit {c d : Char} (hc : c.isDigit = true) (hd : d.isDigit = false) : c ≠ d := by
  rintro rfl
  rw [hc] at hd
  cases hd

theorem iff_of_ascii
    {P Q : Char -> Prop} (hP : forall c, P c -> c.toNat < 128) (hQ : forall c, Q c -> c.toNat < 128)
    (hall : forall n, n < 128 -> (P (Char.ofNat n) <-> Q (Char.ofNat n))) (c : Char) :
    P c <-> Q c := by
  by_cases hc : c.toNat < 128
  · have hn := hall c.toNat hc
    rwa [Char.ofNat_toNat] at hn
  · exact iff_of_false (fun h => hc (hP c h)) fun h => hc (hQ c h)

theorem toNat_of_isDigit {c : Char} (h : c.isDigit = true) : c.toNat < 128 := by
  have hrange : 48 ≤ c.toNat ∧ c.toNat ≤ 57 := by
    simpa [Char.isDigit, UInt32.le_iff_toNat_le] using h
  omega

theorem toNat_of_digitValue {c : Char} (h : (digitValue? c).isSome = true) : c.toNat < 128 := by
  unfold digitValue? at h
  split at h
  · rename_i hdigit
    exact toNat_of_isDigit hdigit
  · split at h
    · rename_i hrange
      exact Nat.lt_of_le_of_lt (UInt32.le_iff_toNat_le.mp hrange.2) (by decide)
    · split at h
      · rename_i hrange
        exact Nat.lt_of_le_of_lt (UInt32.le_iff_toNat_le.mp hrange.2) (by decide)
      · cases h

theorem toNat_of_mem
    {allowed : String} (h : allowed.toList.all (fun c => c.toNat < 128) = true) {c : Char}
    (hc : c ∈ allowed.toList) : c.toNat < 128 :=
  of_decide_eq_true (List.all_eq_true.mp h c hc)

theorem isDigit_iff (c : Char) : c.isDigit = true <-> c ∈ "0123456789".toList :=
  iff_of_ascii (fun _ => toNat_of_isDigit) (fun _ => toNat_of_mem (by decide))
    (by decide +kernel) c

theorem run_decimal_iff (cs : List Char) : Run "0123456789" cs <-> cs ≠ [] ∧ Digits cs := by
  refine and_congr_right fun _ => forall₂_congr fun c _ => ?_
  exact (isDigit_iff c).symm

def IsDigitOf (radix : Nat) (c : Char) : Prop :=
  ((digitValue? c).filter (· < radix)).isSome = true

instance (radix : Nat) (c : Char) : Decidable (IsDigitOf radix c) :=
  inferInstanceAs (Decidable (_ = true))

theorem toNat_of_isDigitOf {radix : Nat} {c : Char} (h : IsDigitOf radix c) : c.toNat < 128 := by
  apply toNat_of_digitValue
  unfold IsDigitOf at h
  cases hvalue : digitValue? c with
  | none =>
      rw [hvalue] at h
      cases h
  | some d => rfl

theorem isDigitOf_two (c : Char) : IsDigitOf 2 c <-> c ∈ "01".toList :=
  iff_of_ascii (fun _ => toNat_of_isDigitOf) (fun _ => toNat_of_mem (by decide))
    (by decide +kernel) c

theorem isDigitOf_eight (c : Char) : IsDigitOf 8 c <-> c ∈ "01234567".toList :=
  iff_of_ascii (fun _ => toNat_of_isDigitOf) (fun _ => toNat_of_mem (by decide))
    (by decide +kernel) c

theorem isDigitOf_sixteen (c : Char) : IsDigitOf 16 c <-> c ∈ "0123456789abcdefABCDEF".toList :=
  iff_of_ascii (fun _ => toNat_of_isDigitOf) (fun _ => toNat_of_mem (by decide))
    (by decide +kernel) c

/-!
## Digits of a radix
-/

theorem radixDigits_iff (radix : Nat) (x : Number) (t : Text) :
    (exists y, radixDigits radix x t = .ok y) <->
      exists ds : List Char, t = ds.map Glyph.char ∧ forall c, c ∈ ds -> IsDigitOf radix c := by
  induction t generalizing x with
  | nil => exact iff_of_true ⟨x, rfl⟩ ⟨[], rfl, fun _ hc => absurd hc List.not_mem_nil⟩
  | cons g rest ih =>
      rw [radixDigits]
      cases hdigit : (digitValue? g.toChar).filter (· < radix) with
      | none =>
          refine iff_of_false (fun ⟨_, hread⟩ => nomatch hread) ?_
          rintro ⟨ds, hds, hall⟩
          cases ds with
          | nil => cases hds
          | cons c ds =>
              cases hds
              have hc := hall c List.mem_cons_self
              rw [IsDigitOf, show digitValue? c = digitValue? (Glyph.char c).toChar from rfl,
                hdigit] at hc
              cases hc
      | some d =>
          have hg : IsDigitOf radix g.toChar := by
            rw [IsDigitOf, hdigit]
            rfl
          have hchar : g = .char g.toChar := by
            cases g with
            | char c => rfl
            | stray b =>
                have hreplacement : ¬ '\uFFFD'.toNat < 128 := by decide
                exact absurd (toNat_of_isDigitOf hg) hreplacement
          refine (ih _).trans ⟨?_, ?_⟩
          · rintro ⟨ds, rfl, hall⟩
            exact ⟨g.toChar :: ds, congrArg (· :: _) hchar, List.forall_mem_cons.mpr ⟨hg, hall⟩⟩
          · rintro ⟨ds, hds, hall⟩
            cases ds with
            | nil => cases hds
            | cons c ds =>
                exact ⟨ds, (List.cons.inj hds).2, (List.forall_mem_cons.mp hall).2⟩

theorem radixBody_iff
    {radix : Nat} {allowed : String}
    (hallowed : forall c, IsDigitOf radix c <-> c ∈ allowed.toList) (t : Text) :
    (exists x, radixBody radix t = .ok x) <->
      exists ds : List Char, t = ds.map Glyph.char ∧ Run allowed ds := by
  unfold radixBody
  cases t with
  | nil =>
      refine iff_of_false (fun ⟨_, hread⟩ => nomatch hread) ?_
      rintro ⟨ds, hds, hne, _⟩
      exact hne (List.map_eq_nil_iff.mp hds.symm)
  | cons g rest =>
      refine (radixDigits_iff radix .zero (g :: rest)).trans (exists_congr fun ds => ?_)
      refine and_congr_right fun hds => ?_
      have hne : ds ≠ [] := by
        rintro rfl
        cases hds
      rw [Run, and_iff_right hne]
      exact forall₂_congr fun c _ => hallowed c

/-!
## What the reader accepts
-/

theorem span_digits
    {cs : List Char} {rest : Text} (hcs : Digits cs) (hrest : Token.Breaks isDigit rest) :
    (cs.map Glyph.char ++ rest).span isDigit = (cs.map Glyph.char, rest) := by
  have hall : forall g, g ∈ cs.map Glyph.char -> isDigit g = true := by
    intro g hg
    rcases List.mem_map.mp hg with ⟨c, hc, rfl⟩
    exact hcs c hc
  rw [List.span_eq_takeWhile_dropWhile, List.takeWhile_append_of_pos hall,
    List.dropWhile_append_of_pos hall]
  cases rest with
  | nil => rw [List.takeWhile_nil, List.append_nil, List.dropWhile_nil]
  | cons g rest =>
      have hg : ¬ isDigit g = true := Bool.eq_false_iff.mp (hrest g rfl)
      rw [List.takeWhile_cons_of_neg hg, List.append_nil, List.dropWhile_cons_of_neg hg]

theorem map_char_of_isDigit {t : Text} (h : forall g, g ∈ t -> isDigit g = true) :
    exists cs, Digits cs ∧ t = cs.map Glyph.char := by
  induction t with
  | nil => exact ⟨[], digits_nil, rfl⟩
  | cons g t ih =>
      rw [List.forall_mem_cons] at h
      rcases ih h.2 with ⟨cs, hcs, rfl⟩
      cases g with
      | char c => exact ⟨c :: cs, List.forall_mem_cons.mpr ⟨h.1, hcs⟩, rfl⟩
      | stray b => exact absurd h.1 (by decide : ¬ '\uFFFD'.isDigit = true)

theorem span_isDigit (t : Text) :
    exists cs rest, Digits cs ∧ t.span isDigit = (cs.map Glyph.char, rest) ∧
      t = cs.map Glyph.char ++ rest := by
  have hall : forall g, g ∈ t.takeWhile isDigit -> isDigit g = true :=
    List.all_eq_true.mp List.all_takeWhile
  rcases map_char_of_isDigit hall with ⟨cs, hcs, htake⟩
  refine ⟨cs, t.dropWhile isDigit, hcs, ?_, ?_⟩
  · rw [List.span_eq_takeWhile_dropWhile, htake]
  · rw [← htake, List.takeWhile_append_dropWhile]

theorem fraction_sound {t part rest : Text} (h : fraction t = .ok (part, rest)) :
    exists cs, Fraction cs ∧ t = cs.map Glyph.char ++ rest := by
  unfold fraction at h
  split at h
  · rename_i behind
    rcases span_isDigit behind with ⟨cs, more, hcs, hspan, rfl⟩
    rw [hspan] at h
    cases cs with
    | nil => cases h
    | cons c cs =>
        cases h
        exact ⟨'.' :: c :: cs, .point ((run_decimal_iff _).mpr ⟨List.cons_ne_nil c cs, hcs⟩), rfl⟩
  · cases h
    exact ⟨[], .absent, rfl⟩

theorem sign_sound (t : Text) : exists s, Sign s ∧ t = s.map Glyph.char ++ (sign t).2 := by
  unfold sign
  split
  · exact ⟨['+'], .plus, rfl⟩
  · exact ⟨['-'], .minus, rfl⟩
  · exact ⟨[], .absent, rfl⟩

theorem exponent_sound {t rest : Text} {e : Int} (h : exponent t = .ok (e, rest)) :
    exists cs, Exponent cs ∧ t = cs.map Glyph.char ++ rest := by
  unfold exponent at h
  split at h
  · rename_i m behind
    split at h
    · rename_i hmark
      rcases sign_sound behind with ⟨s, hs, hbehind⟩
      rcases span_isDigit (sign behind).2 with ⟨cs, more, hcs, hspan, hsplit⟩
      dsimp only at h
      rw [hspan] at h
      cases cs with
      | nil => cases h
      | cons c cs =>
          cases h
          have hdigits := (run_decimal_iff _).mpr ⟨List.cons_ne_nil c cs, hcs⟩
          refine ⟨m :: (s ++ c :: cs), .mark hmark hs hdigits, ?_⟩
          rw [hbehind, hsplit]
          simp
    · cases h
      exact ⟨[], .absent, rfl⟩
  · cases h
    exact ⟨[], .absent, rfl⟩

theorem decimalBody_sound {t : Text} {x : Number} (h : decimalBody t = .ok x) :
    exists cs, Magnitude cs ∧ t = cs.map Glyph.char := by
  rcases span_isDigit t with ⟨whole, behind, hwhole, hspan, rfl⟩
  unfold decimalBody at h
  rw [hspan] at h
  cases whole with
  | nil => cases h
  | cons c cs =>
      rw [List.map_cons] at h
      dsimp only at h
      cases hfraction : fraction behind with
      | error e =>
          rw [hfraction] at h
          cases h
      | ok parted =>
          rw [hfraction] at h
          cases hexponent : exponent parted.2 with
          | error e => simp [bind, Except.bind, hexponent] at h
          | ok powered =>
              simp only [bind, Except.bind, hexponent] at h
              split at h
              · rename_i hend
                rcases fraction_sound hfraction with ⟨part, hpart, rfl⟩
                rcases exponent_sound hexponent with ⟨power, hpower, hsplit⟩
                rw [List.isEmpty_iff.mp hend, List.append_nil] at hsplit
                have hdigits := (run_decimal_iff _).mpr ⟨List.cons_ne_nil c cs, hwhole⟩
                refine ⟨_, .decimal hdigits hpart hpower, ?_⟩
                rw [hsplit, List.map_append, List.map_append]
              · cases h

theorem body_sound {t : Text} {x : Number} (h : body t = .ok x) :
    exists cs, Magnitude cs ∧ t = cs.map Glyph.char := by
  unfold body at h
  split at h
  · rcases (radixBody_iff isDigitOf_two _).mp ⟨x, h⟩ with ⟨ds, rfl, hds⟩
    exact ⟨_, .binary hds, rfl⟩
  · rcases (radixBody_iff isDigitOf_eight _).mp ⟨x, h⟩ with ⟨ds, rfl, hds⟩
    exact ⟨_, .octal hds, rfl⟩
  · rcases (radixBody_iff isDigitOf_sixteen _).mp ⟨x, h⟩ with ⟨ds, rfl, hds⟩
    exact ⟨_, .hexadecimal hds, rfl⟩
  · exact decimalBody_sound h

theorem read_sound {t : Text} {x : Number} (h : read t = .ok x) :
    exists cs, Grammatical cs ∧ t = cs.map Glyph.char := by
  rcases sign_sound t with ⟨s, hs, hsplit⟩
  unfold read at h
  dsimp only at h
  split at h
  · cases h
  · split at h
    · rename_i y hbody
      rcases body_sound hbody with ⟨cs, hcs, hrest⟩
      refine ⟨_, .signed hs hcs, ?_⟩
      rw [hsplit, hrest, List.map_append]
    · cases h

/-!
## What the grammar derives
-/

theorem breaks_exponent {cs : List Char} (h : Exponent cs) :
    Token.Breaks isDigit (cs.map Glyph.char) := by
  intro g hg
  cases h with
  | absent => cases hg
  | @mark m s ds hmark _ _ =>
      cases hg
      rcases hmark with rfl | rfl <;> rfl

theorem breaks_fraction {part power : List Char} (hpart : Fraction part) (hpower : Exponent power) :
    Token.Breaks isDigit ((part ++ power).map Glyph.char) := by
  cases hpart with
  | absent => exact breaks_exponent hpower
  | point _ =>
      intro g hg
      cases hg
      rfl

theorem fraction_complete
    {part power : List Char} (hpart : Fraction part) (hpower : Exponent power) :
    exists digits, fraction ((part ++ power).map Glyph.char) =
      .ok (digits, power.map Glyph.char) := by
  cases hpart with
  | absent =>
      refine ⟨[], ?_⟩
      rw [List.nil_append]
      unfold fraction
      split
      · rename_i behind heq
        cases hpower with
        | absent => cases heq
        | mark hmark _ _ =>
            cases heq
            exact absurd hmark (by decide)
      · rfl
  | @point ds hds =>
      rcases (run_decimal_iff ds).mp hds with ⟨hne, hdigits⟩
      refine ⟨ds.map Glyph.char, ?_⟩
      rw [List.cons_append, List.map_cons, fraction, List.map_append,
        span_digits hdigits (breaks_exponent hpower)]
      cases ds with
      | nil => exact absurd rfl hne
      | cons c cs => rfl

theorem sign_complete {s : List Char} (hs : Sign s) {rest : Text}
    (hrest : forall g, rest.head? = some g -> isDigit g = true) :
    (sign (s.map Glyph.char ++ rest)).2 = rest := by
  cases hs with
  | plus => rfl
  | minus => rfl
  | absent =>
      rw [List.map_nil, List.nil_append]
      unfold sign
      split
      · cases hrest _ rfl
      · cases hrest _ rfl
      · rfl

theorem exponent_complete {cs : List Char} (h : Exponent cs) :
    exists e, exponent (cs.map Glyph.char) = .ok (e, []) := by
  cases h with
  | absent => exact ⟨0, rfl⟩
  | @mark m s ds hmark hs hds =>
      rcases (run_decimal_iff ds).mp hds with ⟨hne, hdigits⟩
      have hspan := span_digits hdigits Token.breaks_nil
      rw [List.append_nil] at hspan
      cases ds with
      | nil => exact absurd rfl hne
      | cons c ds =>
          have hsign : (sign (s.map Glyph.char ++ (c :: ds).map Glyph.char)).2 =
              (c :: ds).map Glyph.char := by
            refine sign_complete hs fun g hg => ?_
            cases hg
            exact hdigits c List.mem_cons_self
          rw [List.map_cons, exponent, if_pos hmark, List.map_append]
          dsimp only
          rw [hsign, hspan]
          exact ⟨_, rfl⟩

theorem decimalBody_complete
    {whole part power : List Char} (hwhole : Run "0123456789" whole) (hpart : Fraction part)
    (hpower : Exponent power) :
    exists x, decimalBody ((whole ++ (part ++ power)).map Glyph.char) = .ok x := by
  rcases (run_decimal_iff whole).mp hwhole with ⟨hne, hdigits⟩
  rcases fraction_complete hpart hpower with ⟨digits, hfraction⟩
  rcases exponent_complete hpower with ⟨e, hexponent⟩
  rw [decimalBody, List.map_append, span_digits hdigits (breaks_fraction hpart hpower)]
  cases whole with
  | nil => exact absurd rfl hne
  | cons c cs =>
      rw [List.map_cons]
      dsimp only
      rw [hfraction]
      dsimp only [bind, Except.bind]
      rw [hexponent]
      exact ⟨_, rfl⟩

theorem isRadixMark_decimal
    {whole part power : List Char} (hwhole : Run "0123456789" whole) (hpart : Fraction part)
    (hpower : Exponent power) {rest : Text} (hrest : Token.Breaks Token.isWordGlyph rest) :
    Token.isRadixMark ((whole ++ (part ++ power)).map Glyph.char ++ rest) = false := by
  unfold Token.isRadixMark
  split
  · rename_i m behind heq
    rw [Bool.or_assoc, ← Bool.not_eq_true, Bool.or_eq_true, Bool.or_eq_true, decide_eq_true_eq,
      decide_eq_true_eq, decide_eq_true_eq]
    rcases whole with _ | ⟨c, _ | ⟨d, whole⟩⟩
    · exact absurd rfl hwhole.1
    · cases hpart with
      | point _ =>
          cases heq
          decide
      | absent =>
          cases hpower with
          | mark hmark _ _ =>
              cases heq
              rcases hmark with rfl | rfl <;> decide
          | absent =>
              cases heq
              have hm : isNameChar m = false := hrest _ rfl
              rintro (rfl | rfl | rfl) <;> cases hm
    · cases heq
      have hm := ((run_decimal_iff _).mp hwhole).2 m (List.mem_cons_of_mem _ List.mem_cons_self)
      rintro (rfl | rfl | rfl) <;> cases hm
  · rfl

theorem body_of_unmarked {t : Text} (h : Token.isRadixMark t = false) : body t = decimalBody t := by
  rw [body]
  · rintro digits rfl
    cases h
  · rintro digits rfl
    cases h
  · rintro digits rfl
    cases h

theorem body_complete {cs : List Char} (h : Magnitude cs) :
    exists x, body (cs.map Glyph.char) = .ok x := by
  cases h with
  | binary hds => exact (radixBody_iff isDigitOf_two _).mpr ⟨_, rfl, hds⟩
  | octal hds => exact (radixBody_iff isDigitOf_eight _).mpr ⟨_, rfl, hds⟩
  | hexadecimal hds => exact (radixBody_iff isDigitOf_sixteen _).mpr ⟨_, rfl, hds⟩
  | decimal hwhole hpart hpower =>
      have hmark := isRadixMark_decimal hwhole hpart hpower Token.breaks_nil
      rw [List.append_nil] at hmark
      rw [body_of_unmarked hmark]
      exact decimalBody_complete hwhole hpart hpower

theorem Magnitude.head {cs : List Char} (h : Magnitude cs) :
    exists c rest, cs = c :: rest ∧ c.isDigit = true := by
  cases h with
  | binary _ => exact ⟨_, _, rfl, rfl⟩
  | octal _ => exact ⟨_, _, rfl, rfl⟩
  | hexadecimal _ => exact ⟨_, _, rfl, rfl⟩
  | @decimal whole part power hwhole _ _ =>
      rcases (run_decimal_iff whole).mp hwhole with ⟨hne, hdigits⟩
      cases whole with
      | nil => exact absurd rfl hne
      | cons c whole => exact ⟨c, _, rfl, hdigits c List.mem_cons_self⟩

theorem read_complete {cs : List Char} (h : Grammatical cs) :
    exists x, read (cs.map Glyph.char) = .ok x := by
  cases h with
  | @signed s m hs hm =>
      rcases hm.head with ⟨c, rest, hcons, hdigit⟩
      rcases body_complete hm with ⟨x, hbody⟩
      have hsign : (sign (s.map Glyph.char ++ m.map Glyph.char)).2 = m.map Glyph.char := by
        refine sign_complete hs fun g hg => ?_
        rw [hcons] at hg
        cases hg
        exact hdigit
      have hnonempty : (m.map Glyph.char).isEmpty = false := by
        rw [hcons]
        rfl
      unfold read
      rw [List.map_append]
      dsimp only
      rw [hsign, hnonempty, hbody]
      exact ⟨_, rfl⟩

/-!
## How far the scanner takes a numeral
-/

theorem isWordGlyph_of_isDigit {c : Char} (h : c.isDigit = true) :
    Token.isWordGlyph (.char c) = true :=
  Token.isWordGlyph_of_digit h

theorem numeralRun_digits {cs : List Char} (h : Digits cs) (rest : Text) :
    Token.numeralRun true (cs.map Glyph.char ++ rest) = cs.length + Token.numeralRun true rest := by
  induction cs with
  | nil => exact (Nat.zero_add _).symm
  | cons c cs ih =>
      have hc := h c List.mem_cons_self
      have hnoMark : (decide (Glyph.char c = .char 'e') || decide (Glyph.char c = .char 'E')) =
          false := by
        have hlower : c ≠ 'e' := ne_of_isDigit hc rfl
        have hupper : c ≠ 'E' := ne_of_isDigit hc rfl
        simp [hlower, hupper]
      have htail := ih fun d hd => h d (List.mem_cons_of_mem c hd)
      rw [List.map_cons, List.cons_append, List.length_cons]
      cases hnext : cs.map Glyph.char ++ rest with
      | nil =>
          rw [hnext] at htail
          rw [Token.numeralRun, if_pos (isWordGlyph_of_isDigit hc)]
          change 0 = _ at htail
          omega
      | cons g more =>
          rw [hnext] at htail
          rw [Token.numeralRun, if_pos (isWordGlyph_of_isDigit hc), hnoMark, htail]
          simp
          omega

theorem numeralRun_breaks {rest : Text} (h : Token.Breaks Token.isWordGlyph rest) :
    Token.numeralRun true rest = 0 := by
  cases rest with
  | nil => rfl
  | cons g rest =>
      have hg := h g rfl
      cases rest with
      | nil => rw [Token.numeralRun, hg, if_neg Bool.false_ne_true]
      | cons s rest => rw [Token.numeralRun, hg, if_neg Bool.false_ne_true]

theorem numeralRun_unsigned (t : Text) :
    Token.numeralRun false t = Token.runLength Token.isWordGlyph t := by
  unfold Token.runLength
  induction t with
  | nil => rfl
  | cons g t ih =>
      by_cases hg : Token.isWordGlyph g = true
      · rw [List.takeWhile_cons_of_pos hg, List.length_cons, ← ih]
        cases t with
        | nil => exact if_pos hg
        | cons s t => exact if_pos hg
      · rw [List.takeWhile_cons_of_neg hg]
        cases t with
        | nil => exact if_neg hg
        | cons s t => exact if_neg hg

theorem numeralLength_of_run
    {run rest : Text} {marked : Bool} (hradix : Token.isRadixMark (run ++ rest) = marked)
    (hrun : Token.numeralRun (!marked) (run ++ rest) = run.length)
    (hrest : forall more, rest ≠ .char '.' :: more) :
    Token.numeralLength (run ++ rest) = run.length := by
  unfold Token.numeralLength
  simp only [hradix, hrun, List.drop_left]

theorem numeralLength_of_point
    {run rest : Text} (hradix : Token.isRadixMark (run ++ .char '.' :: rest) = false)
    (hrun : Token.numeralRun true (run ++ .char '.' :: rest) = run.length)
    (hrest : Token.startsDigit rest = true) :
    Token.numeralLength (run ++ .char '.' :: rest) =
      run.length + 1 + Token.numeralRun true rest := by
  unfold Token.numeralLength
  simp only [hradix, Bool.not_false, hrun, List.drop_left, hrest, if_true]

section

variable {rest : Text}

theorem isWordGlyph_of_mark {m : Char} (hm : m = 'e' ∨ m = 'E') :
    Token.isWordGlyph (.char m) = true := by
  rcases hm with rfl | rfl <;> rfl

theorem numeralRun_sign
    {m s : Char} (hm : m = 'e' ∨ m = 'E') (hs : s = '+' ∨ s = '-')
    (hstarts : Token.startsDigit rest = true) :
    Token.numeralRun true (.char m :: .char s :: rest) = Token.numeralRun true rest + 2 := by
  have hsigned : (true && (Glyph.char m = .char 'e' || Glyph.char m = .char 'E') &&
      (Glyph.char s = .char '+' || Glyph.char s = .char '-') && Token.startsDigit rest) = true := by
    simpa [hstarts] using ⟨hm, hs⟩
  rw [Token.numeralRun, if_pos (isWordGlyph_of_mark hm), if_pos hsigned]

theorem numeralRun_power {cs : List Char} (h : Exponent cs)
    (hrest : Token.Breaks Token.isWordGlyph rest) :
    Token.numeralRun true (cs.map Glyph.char ++ rest) = cs.length := by
  cases h with
  | absent => exact numeralRun_breaks hrest
  | @mark m s ds hmark hs hds =>
      rcases (run_decimal_iff ds).mp hds with ⟨hne, hdigits⟩
      have hrun := numeralRun_digits hdigits rest
      rw [numeralRun_breaks hrest, Nat.add_zero] at hrun
      cases ds with
      | nil => exact absurd rfl hne
      | cons c ds =>
          have hc := hdigits c List.mem_cons_self
          have hstarts : Token.startsDigit ((c :: ds).map Glyph.char ++ rest) = true := hc
          cases hs with
          | plus => exact (numeralRun_sign hmark (.inl rfl) hstarts).trans (congrArg (· + 2) hrun)
          | minus => exact (numeralRun_sign hmark (.inr rfl) hstarts).trans (congrArg (· + 2) hrun)
          | absent =>
              have hunsigned : (decide (Glyph.char c = .char '+') ||
                  decide (Glyph.char c = .char '-')) = false := by
                simp [ne_of_isDigit hc (show '+'.isDigit = false from rfl),
                  ne_of_isDigit hc (show '-'.isDigit = false from rfl)]
              change Token.numeralRun true (.char m :: .char c :: (ds.map Glyph.char ++ rest)) = _
              rw [Token.numeralRun, if_pos (isWordGlyph_of_mark hmark), hunsigned, Bool.and_false,
                Bool.false_and, if_neg Bool.false_ne_true]
              exact congrArg (· + 1) hrun

theorem numeralLength_radix
    {m : Char} {allowed : String} {ds : List Char} (hm : m = 'b' ∨ m = 'o' ∨ m = 'x')
    (hallowed : allowed.toList.all isNameChar = true) (hds : Run allowed ds)
    (hrest : Token.Apart rest) :
    Token.numeralLength (('0' :: m :: ds).map Glyph.char ++ rest) =
      ('0' :: m :: ds).length := by
  have hmark : Token.isRadixMark (('0' :: m :: ds).map Glyph.char ++ rest) = true := by
    rcases hm with rfl | rfl | rfl <;> rfl
  have hzero : isNameChar '0' = true := by decide
  have hletter : isNameChar m = true := by
    rcases hm with rfl | rfl | rfl <;> decide
  have hword : forall c, c ∈ '0' :: m :: ds -> isNameChar c = true := by
    rw [List.forall_mem_cons, List.forall_mem_cons]
    exact ⟨hzero, hletter, fun c hc => List.all_eq_true.mp hallowed c (hds.2 c hc)⟩
  have hrun : Token.numeralRun (!true) (('0' :: m :: ds).map Glyph.char ++ rest) =
      (('0' :: m :: ds).map Glyph.char).length := by
    rw [Bool.not_true, numeralRun_unsigned, Token.runLength_word (List.all_eq_true.mpr hword)
      hrest.words, List.length_map]
  rw [numeralLength_of_run hmark hrun hrest.ne_point, List.length_map]

theorem numeralLength_magnitude {cs : List Char} (h : Magnitude cs) (hrest : Token.Apart rest) :
    Token.numeralLength (cs.map Glyph.char ++ rest) = cs.length := by
  cases h with
  | binary hds => exact numeralLength_radix (.inl rfl) (by decide) hds hrest
  | octal hds => exact numeralLength_radix (.inr (.inl rfl)) (by decide) hds hrest
  | hexadecimal hds => exact numeralLength_radix (.inr (.inr rfl)) (by decide) hds hrest
  | @decimal whole part power hwhole hpart hpower =>
      have hradix := isRadixMark_decimal hwhole hpart hpower hrest.words
      have hpowerRun := numeralRun_power hpower hrest.words
      rcases (run_decimal_iff whole).mp hwhole with ⟨_, hdigits⟩
      cases hpart with
      | absent =>
          have hrun : Token.numeralRun true ((whole ++ ([] ++ power)).map Glyph.char ++ rest) =
              ((whole ++ ([] ++ power)).map Glyph.char).length := by
            rw [List.nil_append, List.map_append, List.append_assoc, numeralRun_digits hdigits,
              hpowerRun]
            simp
          rw [numeralLength_of_run hradix hrun hrest.ne_point, List.length_map]
      | @point ds hds =>
          rcases (run_decimal_iff ds).mp hds with ⟨hne, hfraction⟩
          have htext : (whole ++ ('.' :: ds ++ power)).map Glyph.char ++ rest =
              whole.map Glyph.char ++ .char '.' ::
                (ds.map Glyph.char ++ (power.map Glyph.char ++ rest)) := by
            simp
          have hrun : Token.numeralRun true (whole.map Glyph.char ++ .char '.' ::
              (ds.map Glyph.char ++ (power.map Glyph.char ++ rest))) =
                (whole.map Glyph.char).length := by
            rw [numeralRun_digits hdigits, List.length_map,
              numeralRun_breaks fun g hg => by cases hg; rfl]
            rfl
          have hstarts : Token.startsDigit
              (ds.map Glyph.char ++ (power.map Glyph.char ++ rest)) = true := by
            cases ds with
            | nil => exact absurd rfl hne
            | cons c ds => exact hfraction c List.mem_cons_self
          rw [htext] at hradix ⊢
          rw [numeralLength_of_point hradix hrun hstarts, numeralRun_digits hfraction, hpowerRun]
          simp
          omega

end

/-!
## Characters of a numeral
-/

theorem Run.nul_not_mem
    {allowed : String} {cs : List Char} (h : Run allowed cs) (hallowed : '\x00' ∉ allowed.toList) :
    '\x00' ∉ cs :=
  fun hmem => hallowed (h.2 _ hmem)

theorem Sign.nul_not_mem {cs : List Char} (h : Sign cs) : '\x00' ∉ cs := by
  cases h <;> decide

theorem Fraction.nul_not_mem {cs : List Char} (h : Fraction cs) : '\x00' ∉ cs := by
  cases h with
  | absent => exact List.not_mem_nil
  | point hds => simp [hds.nul_not_mem (by decide)]

theorem Exponent.nul_not_mem {cs : List Char} (h : Exponent cs) : '\x00' ∉ cs := by
  cases h with
  | absent => exact List.not_mem_nil
  | @mark m s ds hmark hs hds =>
      have hm : '\x00' ≠ m := by
        rintro rfl
        revert hmark
        decide
      simp [hm, hs.nul_not_mem, hds.nul_not_mem (by decide)]

theorem Magnitude.nul_not_mem {cs : List Char} (h : Magnitude cs) : '\x00' ∉ cs := by
  cases h with
  | binary hds => simp [hds.nul_not_mem (by decide)]
  | octal hds => simp [hds.nul_not_mem (by decide)]
  | hexadecimal hds => simp [hds.nul_not_mem (by decide)]
  | decimal hwhole hpart hpower =>
      simp [hwhole.nul_not_mem (by decide), hpart.nul_not_mem, hpower.nul_not_mem]

theorem Grammatical.nul_not_mem {cs : List Char} (h : Grammatical cs) : '\x00' ∉ cs := by
  cases h with
  | signed hs hm => simp [hs.nul_not_mem, hm.nul_not_mem]

theorem Grammatical.magnitude
    {c : Char} {cs : List Char} (h : Grammatical (c :: cs)) (hc : c.isDigit = true) :
    Magnitude (c :: cs) := by
  generalize htext : c :: cs = text at h
  cases h with
  | signed hs hm =>
      cases hs with
      | absent =>
          subst htext
          exact hm
      | plus =>
          cases htext
          cases hc
      | minus =>
          cases htext
          cases hc

end Numeral

/-!
## Numerals as tokens
-/

namespace Token

theorem not_isNameStart_of_isDigit {c : Char} (h : c.isDigit = true) : isNameStart c = false := by
  have hrange : 48 ≤ c.toNat ∧ c.toNat ≤ 57 := by
    simpa [Char.isDigit, UInt32.le_iff_toNat_le] using h
  have hnotAlpha : c.isAlpha = false := by
    change (decide (65 ≤ c.val ∧ c.val ≤ 90) ||
      (decide (97 ≤ c.val) && decide (c.val ≤ 122))) = false
    simp only [UInt32.le_iff_toNat_le, Bool.or_eq_false_iff, Bool.and_eq_false_iff,
      decide_eq_false_iff_not]
    change ¬ (65 ≤ c.toNat ∧ c.toNat ≤ 90) ∧ (¬ 97 ≤ c.toNat ∨ ¬ c.toNat ≤ 122)
    omega
  have hnotForeign : isForeignLetter c = false := by
    unfold isForeignLetter
    rw [decide_eq_false (by omega), Bool.false_and]
  unfold isNameStart
  rw [hnotAlpha, hnotForeign, Bool.or_false, Bool.false_or, beq_false_of_ne]
  exact Numeral.ne_of_isDigit h rfl

theorem extent_digit {c : Char} (h : c.isDigit = true) (rest : Text) :
    extent (.char c) rest = numeralExtent (.char c) rest := by
  have hne : forall m : Char, m.isDigit = false -> c ≠ m :=
    fun m hm => Numeral.ne_of_isDigit h hm
  simp only [extent, Glyph.toChar, hne '"' rfl, hne '`' rfl, hne '@' rfl,
    not_isNameStart_of_isDigit h, h, if_false, if_true, Bool.false_eq_true]

theorem not_blank_of_isDigit {c : Char} (h : c.isDigit = true) :
    isBlank (.char c) = false ∧ Glyph.char c ≠ .char '#' := by
  have hne : forall m : Char, m.isDigit = false -> c ≠ m :=
    fun m hm => Numeral.ne_of_isDigit h hm
  refine ⟨?_, by simpa using hne '#' rfl⟩
  simp [isBlank, hne ' ' rfl, hne '\t' rfl, hne '\r' rfl, hne '\n' rfl]

theorem extent_numeral
    {c : Char} {cs : List Char} {x : Number} {rest : Text} (hc : c.isDigit = true)
    (hread : Numeral.read ((c :: cs).map Glyph.char) = .ok x) (hrest : Apart rest) :
    extent (.char c) (cs.map Glyph.char ++ rest) = ⟨.number x, cs.length⟩ := by
  rcases Numeral.read_sound hread with ⟨ds, hds, heq⟩
  have hchars : c :: cs = ds := (List.map_inj_right fun _ _ => Glyph.char.inj).mp heq
  subst hchars
  have hlength : numeralLength (.char c :: (cs.map Glyph.char ++ rest)) = cs.length + 1 :=
    Numeral.numeralLength_magnitude (hds.magnitude hc) hrest
  have htake : (Glyph.char c :: (cs.map Glyph.char ++ rest)).take (cs.length + 1) =
      (c :: cs).map Glyph.char := by
    rw [List.take_succ_cons, List.take_left' (List.length_map _)]
    rfl
  rw [extent_digit hc, numeralExtent, hlength, htake, hread]
  rfl

end Token
end DefTable
