import DefTable.Data.Json
import DefTable.Proofs.Text.Hex
import DefTable.Proofs.Token.Numeral

/-!
# Texts, numbers and words in JSON

A character of a text is written as it is, by an escape of one letter or by its code in four
hexadecimal digits; a number is written as a numeral after its sign.  Each is read back wherever it
stands, if a number is followed by something that does not go on with it.
-/

namespace DefTable
namespace Json

def run {α : Type} (read : Reader α) (t : Text) : Option (α × Text) :=
  (read t).map fun p => (p.value, p.rest)

section

variable {α β : Type}

theorem run_or (read read' : Reader α) (t : Text) :
    run (fun t => read t <|> read' t) t = (run read t).or (run read' t) := by
  unfold run
  dsimp only
  cases read t <;> rfl

theorem run_map (read : Reader α) (f : α -> β) (t : Text) :
    run (fun t => (read t).map (Parsed.map f)) t = (run read t).map fun p => (f p.1, p.2) := by
  unfold run
  dsimp only
  cases read t <;> rfl

end

/-!
## Hexadecimal digits
-/

theorem hexValue_append_digit (t : Text) {d : Nat} (h : d < 16) :
    hexValue (t ++ [.char (Quoted.hexDigit d)]) = hexValue t * 16 + d := by
  rw [hexValue, List.foldl_append, List.foldl_cons, List.foldl_nil]
  change _ * 16 + (Numeral.digitValue? (Quoted.hexDigit d)).getD 0 = _
  rw [Quoted.digitValue_hexDigit d h]
  rfl

theorem hexValue_hex (width n : Nat) :
    hexValue ((Quoted.hex width n).map Glyph.char) = n % 16 ^ width := by
  induction width generalizing n with
  | zero =>
      rw [Nat.pow_zero, Nat.mod_one]
      rfl
  | succ width ih =>
      rw [Quoted.hex, List.map_append]
      change hexValue (_ ++ [Glyph.char (Quoted.hexDigit (n % 16))]) = _
      rw [hexValue_append_digit _ (Nat.mod_lt _ (by decide)), ih, Nat.pow_succ,
        Nat.mul_comm (16 ^ width) 16, Nat.mod_mul]
      omega

theorem isUnit_hex (n : Nat) : isUnit ((Quoted.hex 4 n).map Glyph.char) = true := by
  have hhex : forall g, g ∈ (Quoted.hex 4 n).map Glyph.char -> isHex g = true := by
    intro g hg
    rcases List.mem_map.mp hg with ⟨c, hc, rfl⟩
    rcases Quoted.mem_hex hc with ⟨d, hd, rfl⟩
    change (Numeral.digitValue? (Quoted.hexDigit d)).isSome = true
    rw [Quoted.digitValue_hexDigit d hd]
    rfl
  rw [isUnit, List.length_map, Quoted.length_hex, Bool.and_eq_true]
  exact ⟨rfl, List.all_eq_true.mpr hhex⟩

/-!
## Characters
-/

inductive Written (c : Char) : List Char -> Prop where
  | plain : 0x20 ≤ c.toNat -> c ≠ '"' -> c ≠ '\\' -> Written c [c]
  | escape {e} : isSimpleEscape e = true -> simpleEscape e = c -> Written c ['\\', e]
  | unit : c.toNat < 0xD800 -> Written c ('\\' :: 'u' :: Quoted.hex 4 c.toNat)

theorem eq_of_toNat {c d : Char} (h : c.toNat = d.toNat) : d = c := by
  rw [← Char.ofNat_toNat c, h, Char.ofNat_toNat]

theorem escape_of_control {c e : Char} (h : control? c = some e) :
    isSimpleEscape e = true ∧ simpleEscape e = c := by
  unfold control? at h
  split at h
  · rename_i hc
    cases h
    exact ⟨by decide, eq_of_toNat hc⟩
  · rename_i hc
    cases h
    exact ⟨by decide, eq_of_toNat hc⟩
  · rename_i hc
    cases h
    exact ⟨by decide, eq_of_toNat hc⟩
  · rename_i hc
    cases h
    exact ⟨by decide, eq_of_toNat hc⟩
  · rename_i hc
    cases h
    exact ⟨by decide, eq_of_toNat hc⟩
  · cases h

theorem toNat_of_isMarkup {c : Char} (h : isMarkup c = true) : c.toNat < 0xD800 := by
  simp only [isMarkup, Bool.or_eq_true, decide_eq_true_eq] at h
  rcases h with (((rfl | rfl) | rfl) | rfl) | rfl <;> decide

theorem written_writeChar (c : Char) : Written c (writeChar c) := by
  unfold writeChar
  split
  · rename_i hmark
    rw [Bool.or_eq_true, decide_eq_true_eq, decide_eq_true_eq] at hmark
    rcases hmark with rfl | rfl
    · exact .escape (by decide) rfl
    · exact .escape (by decide) rfl
  · rename_i hmark
    rw [Bool.or_eq_true, decide_eq_true_eq, decide_eq_true_eq, not_or] at hmark
    split
    · rename_i e hcontrol
      rcases escape_of_control hcontrol with ⟨hsimple, hvalue⟩
      exact .escape hsimple hvalue
    · split
      · rename_i hcode
        rw [Bool.or_eq_true, decide_eq_true_eq] at hcode
        rcases hcode with hsmall | hmarkup
        · exact .unit (Nat.lt_trans hsmall (by decide))
        · exact .unit (toNat_of_isMarkup hmarkup)
      · rename_i hcode
        rw [Bool.or_eq_true, decide_eq_true_eq, not_or] at hcode
        exact .plain (Nat.not_lt.mp hcode.1) hmark.1 hmark.2

/-!
## The end of a text
-/

theorem closingQuote_plain
    {c : Char} (hsmall : 0x20 ≤ c.toNat) (hquote : c ≠ '"') (hback : c ≠ '\\') (rest : Text) :
    closingQuote? (.char c :: rest) = (closingQuote? rest).map (· + 1) := by
  have hkept : (decide (c.toNat < 0x20) || decide (Glyph.char c = .char '\\')) = false := by
    rw [decide_eq_false (Nat.not_lt.mpr hsmall),
      decide_eq_false fun heq => hback (Glyph.char.inj heq)]
    rfl
  rw [closingQuote?]
  · change (if (decide (c.toNat < 0x20) || decide (Glyph.char c = .char '\\')) = true then none
      else _) = _
    rw [hkept, if_neg Bool.false_ne_true]
  · exact fun heq => hquote (Glyph.char.inj heq)
  · exact fun _ _ heq => absurd (Glyph.char.inj heq) hback

theorem closingQuote_escape {e : Char} (h : isSimpleEscape e = true) (rest : Text) :
    closingQuote? (.char '\\' :: .char e :: rest) = (closingQuote? rest).map (· + 2) := by
  have hgood : (isSimpleEscape (Glyph.char e).toChar ||
      (decide (Glyph.char e = .char 'u') && isUnit (rest.take 4))) = true := by
    rw [show isSimpleEscape (Glyph.char e).toChar = true from h, Bool.true_or]
  rw [closingQuote?, if_pos hgood]

theorem closingQuote_hex (width n : Nat) (rest : Text) :
    closingQuote? ((Quoted.hex width n).map Glyph.char ++ rest) =
      (closingQuote? rest).map (· + width) := by
  have hdigits : forall d, d < 16 -> 0x20 ≤ (Quoted.hexDigit d).toNat ∧
      Quoted.hexDigit d ≠ '"' ∧ Quoted.hexDigit d ≠ '\\' := by
    decide
  induction width generalizing n rest with
  | zero => exact Option.map_id.symm ▸ rfl
  | succ width ih =>
      have hlast := hdigits (n % 16) (Nat.mod_lt _ (by decide))
      rw [Quoted.hex, List.map_append, List.append_assoc, ih]
      change (closingQuote? (.char (Quoted.hexDigit (n % 16)) :: rest)).map _ = _
      rw [closingQuote_plain hlast.1 hlast.2.1 hlast.2.2, Option.map_map]
      congr 1
      funext k
      exact Nat.add_right_comm k 1 width

theorem closingQuote_written {c : Char} {cs : List Char} (h : Written c cs) (rest : Text) :
    closingQuote? (cs.map Glyph.char ++ rest) = (closingQuote? rest).map (· + cs.length) := by
  cases h with
  | plain hsmall hquote hback => exact closingQuote_plain hsmall hquote hback rest
  | escape hsimple _ => exact closingQuote_escape hsimple rest
  | unit _ =>
      have hunit : isUnit (((Quoted.hex 4 c.toNat).map Glyph.char ++ rest).take 4) = true := by
        rw [List.take_left' (by rw [List.length_map, Quoted.length_hex])]
        exact isUnit_hex c.toNat
      change closingQuote? (.char '\\' :: .char 'u' ::
        ((Quoted.hex 4 c.toNat).map Glyph.char ++ rest)) = _
      rw [closingQuote?, if_pos, closingQuote_hex, Option.map_map, List.length_cons,
        List.length_cons, Quoted.length_hex]
      · rfl
      · rw [hunit]
        rfl

/-!
## The characters of a text
-/

theorem unescape_skip (skipped rest : Text) :
    unescape skipped.length (skipped ++ rest) = unescape 0 rest := by
  induction skipped with
  | nil => rfl
  | cons g skipped ih => exact ih

theorem unescape_of_one
    (skipped : Text) {g : Glyph} {rest : Text} {c : Char}
    (h : unescapeOne g (skipped ++ rest) = (c, skipped.length)) :
    unescape 0 (g :: (skipped ++ rest)) = c :: unescape 0 rest := by
  rw [unescape, h]
  exact congrArg (c :: ·) (unescape_skip skipped rest)

theorem unescapeOne_unit {c : Char} (h : c.toNat < 0xD800) (rest : Text) :
    unescapeOne (.char '\\') (.char 'u' :: ((Quoted.hex 4 c.toNat).map Glyph.char ++ rest)) =
      (c, 5) := by
  have hvalue : hexValue (((Quoted.hex 4 c.toNat).map Glyph.char ++ rest).take 4) = c.toNat := by
    rw [List.take_left' (by rw [List.length_map, Quoted.length_hex]), hexValue_hex]
    exact Nat.mod_eq_of_lt (Nat.lt_trans h (by decide))
  have hhigh : isHighHalf c.toNat = false := by
    rw [isHighHalf, decide_eq_false (Nat.not_le.mpr h), Bool.false_and]
  have hlow : isLowHalf c.toNat = false := by
    rw [isLowHalf, decide_eq_false (Nat.not_le.mpr (Nat.lt_trans h (by decide))), Bool.false_and]
  rw [unescapeOne, hvalue, hhigh, hlow, if_neg Bool.false_ne_true,
    if_neg Bool.false_ne_true, Char.ofNat_toNat]

theorem unescape_written {c : Char} {cs : List Char} (h : Written c cs) (rest : Text) :
    unescape 0 (cs.map Glyph.char ++ rest) = c :: unescape 0 rest := by
  cases h with
  | plain _ _ hback =>
      refine unescape_of_one [] ?_
      unfold unescapeOne
      split
      · rename_i heq _
        exact absurd (Glyph.char.inj heq) hback
      · rename_i heq _
        exact absurd (Glyph.char.inj heq) hback
      · rfl
  | @escape e hsimple hvalue =>
      have hunit : e ≠ 'u' := by
        rintro rfl
        exact absurd hsimple (by decide)
      refine unescape_of_one [.char e] (g := .char '\\') ?_
      change unescapeOne (.char '\\') (.char e :: rest) = _
      rw [unescapeOne, ← hvalue]
      · rfl
      · exact fun heq => hunit (Glyph.char.inj heq)
  | unit hsmall =>
      have hlength : (Glyph.char 'u' :: (Quoted.hex 4 c.toNat).map Glyph.char).length = 5 := by
        rw [List.length_cons, List.length_map, Quoted.length_hex]
      refine unescape_of_one (.char 'u' :: (Quoted.hex 4 c.toNat).map Glyph.char) ?_
      rw [hlength]
      exact unescapeOne_unit hsmall rest

theorem closingQuote_body (cs : List Char) (rest : Text) :
    closingQuote? ((cs.flatMap writeChar).map Glyph.char ++ .char '"' :: rest) =
      some ((cs.flatMap writeChar).length + 1) := by
  induction cs with
  | nil => rfl
  | cons c cs ih =>
      rw [List.flatMap_cons, List.map_append, List.append_assoc,
        closingQuote_written (written_writeChar c), ih, Option.map_some, List.length_append]
      exact congrArg some (by omega)

theorem unescape_body (cs : List Char) :
    unescape 0 ((cs.flatMap writeChar).map Glyph.char) = cs := by
  induction cs with
  | nil => rfl
  | cons c cs ih =>
      rw [List.flatMap_cons, List.map_append, unescape_written (written_writeChar c), ih]

theorem ofString_writeString (s : String) :
    Text.ofString (writeString s) =
      .char '"' :: ((s.toList.flatMap writeChar).map Glyph.char ++ [.char '"']) := by
  rw [Text.ofString, writeString, String.toList_ofList, List.map_append, List.map_cons]
  rfl

theorem run_string (s : String) (rest : Text) :
    run string (Text.ofString (writeString s) ++ rest) = some (s, rest) := by
  generalize hbody : (s.toList.flatMap writeChar).map Glyph.char = body
  have htext : Text.ofString (writeString s) ++ rest = .char '"' :: (body ++ .char '"' :: rest) := by
    rw [ofString_writeString, hbody, List.cons_append, List.append_assoc]
    rfl
  have hclosing : closingQuote? (body ++ .char '"' :: rest) = some (body.length + 1) := by
    rw [← hbody, closingQuote_body, List.length_map]
  have hvalue : unescape 0 body = s.toList := by rw [← hbody, unescape_body]
  rw [htext, run, string, hclosing]
  simp only [Option.map_some, Parsed.taking, Nat.add_sub_cancel, List.take_left, hvalue,
    String.ofList_toList, Option.some.injEq, Prod.mk.injEq, true_and]
  rw [← List.drop_drop, List.drop_left]
  rfl

/-!
## Numbers
-/

def closers : List Glyph := [.char ',', .char ']', .char '\x7d']

def Closed (rest : Text) : Prop :=
  forall g, rest.head? = some g -> g ∈ closers

theorem closed_nil : Closed [] :=
  fun _ hg => nomatch hg

theorem closed_cons {g : Glyph} (h : g ∈ closers) (rest : Text) : Closed (g :: rest) := by
  intro g' hg'
  cases hg'
  exact h

open Numeral (Digits Parts)

theorem Closed.breaks {rest : Text} (h : Closed rest) : Token.Breaks Numeral.isDigit rest := by
  have hclosers : forall g, g ∈ closers -> Numeral.isDigit g = false := by decide
  exact fun g hg => hclosers g (h g hg)

theorem digitRun_digits
    {cs : List Char} {rest : Text} (hcs : Digits cs)
    (hrest : Token.Breaks Numeral.isDigit rest) :
    digitRun (cs.map Glyph.char ++ rest) = cs.length := by
  have hrun : forall g, g ∈ cs.map Glyph.char -> Numeral.isDigit g = true := by
    intro g hg
    rcases List.mem_map.mp hg with ⟨c, hc, rfl⟩
    exact hcs c hc
  exact (Token.runLength_append hrun hrest).trans (List.length_map _)

theorem wholeRun_whole
    {p : Parts} {rest : Text} (hvalid : p.Valid) (htidy : p.Tidy)
    (hrest : Token.Breaks Numeral.isDigit rest) :
    wholeRun (p.whole.map Glyph.char ++ rest) = p.whole.length := by
  unfold wholeRun
  split
  · rename_i hzero
    cases hwhole : p.whole with
    | nil => exact absurd hwhole hvalid.whole_ne_nil
    | cons c cs =>
        rw [hwhole] at hzero
        have hhead : p.whole.head? = some '0' := by
          rw [hwhole]
          exact congrArg some (Glyph.char.inj (Option.some.inj hzero))
        rw [← hwhole, htidy hhead]
        rfl
  · exact digitRun_digits hvalid.whole hrest

theorem fractionRun_written {p : Parts} {rest : Text} (hvalid : p.Valid) (hrest : Closed rest) :
    fractionRun? (p.fractionChars.map Glyph.char ++ (p.exponentChars.map Glyph.char ++ rest)) =
      some p.fractionChars.length := by
  unfold Parts.fractionChars
  cases hpart : p.part with
  | nil =>
      have hpoint : forall more, p.exponentChars.map Glyph.char ++ rest ≠ .char '.' :: more := by
        intro more heq
        unfold Parts.exponentChars at heq
        split at heq
        · have hclosers : .char '.' ∉ closers := by decide
          exact hclosers (hrest _ (congrArg List.head? heq))
        · exact absurd (Glyph.char.inj (List.cons.inj heq).1) (by decide)
      change fractionRun? (p.exponentChars.map Glyph.char ++ rest) = some 0
      unfold fractionRun?
      split
      · rename_i more heq
        exact absurd heq (hpoint more)
      · rfl
  | cons c cs =>
      have hdigits : Digits (c :: cs) := hpart ▸ hvalid.part
      have hrun := digitRun_digits hdigits (Numeral.breaks_exponentChars p hrest.breaks)
      change fractionRun? (.char '.' :: ((c :: cs).map Glyph.char ++ _)) = _
      rw [fractionRun?, hrun]
      rfl

theorem exponentRun_written {p : Parts} {rest : Text} (hvalid : p.Valid) (hrest : Closed rest) :
    exponentRun? (p.exponentChars.map Glyph.char ++ rest) = some p.exponentChars.length := by
  unfold Parts.exponentChars
  cases hpower : p.power with
  | none =>
      change exponentRun? rest = some 0
      unfold exponentRun?
      split
      · rename_i c more
        have hclosers : forall c, .char c ∈ closers ->
            (decide (c = 'e') || decide (c = 'E')) = false := by
          intro c hc
          simp only [closers, List.mem_cons, Glyph.char.injEq, List.not_mem_nil, or_false] at hc
          rcases hc with rfl | rfl | rfl <;> rfl
        rw [hclosers c (hrest _ rfl), if_neg Bool.false_ne_true]
      · rfl
  | some power =>
      rcases power with ⟨negative, digits⟩
      rcases hvalid.power negative digits hpower with ⟨hdigits, hne⟩
      have hrun := digitRun_digits hdigits hrest.breaks
      have hpos : digits.length ≠ 0 := fun hzero => hne (List.length_eq_zero_iff.mp hzero)
      change exponentRun? (.char 'e' :: .char (if negative then '-' else '+') ::
        (digits.map Glyph.char ++ rest)) = some (digits.length + 1 + 1)
      unfold exponentRun?
      cases negative with
      | false =>
          change (if digitRun (digits.map Glyph.char ++ rest) = 0 then none else
            some (digitRun (digits.map Glyph.char ++ rest) + 1 + 1)) = _
          rw [hrun, if_neg hpos]
      | true =>
          change (if digitRun (digits.map Glyph.char ++ rest) = 0 then none else
            some (digitRun (digits.map Glyph.char ++ rest) + 1 + 1)) = _
          rw [hrun, if_neg hpos]

def signChars (negative : Bool) : List Char :=
  if negative then ['-'] else []

def signed (negative : Bool) (p : Parts) : List Char :=
  signChars negative ++ p.chars

theorem sign_taken (negative : Bool) {t : Text} (h : t.head? ≠ some (.char '-')) :
    (if ((signChars negative).map Glyph.char ++ t).head? = some (.char '-') then 1 else 0) =
      (signChars negative).length := by
  cases negative with
  | true => rfl
  | false => exact if_neg h

theorem head_whole_ne_sign {p : Parts} (hvalid : p.Valid) (rest : Text) :
    (p.whole.map Glyph.char ++ rest).head? ≠ some (.char '-') := by
  cases hwhole : p.whole with
  | nil => exact absurd hwhole hvalid.whole_ne_nil
  | cons c cs =>
      intro heq
      have hc : c = '-' := Glyph.char.inj (Option.some.inj heq)
      have hdigit := hvalid.whole c (hwhole ▸ List.mem_cons_self)
      rw [hc] at hdigit
      cases hdigit

theorem numberLength_written
    {p : Parts} {rest : Text} (hvalid : p.Valid) (htidy : p.Tidy) (hrest : Closed rest)
    (negative : Bool) :
    numberLength? ((signed negative p).map Glyph.char ++ rest) =
      some (signed negative p).length := by
  have hpos : p.whole.length ≠ 0 := fun hzero =>
    hvalid.whole_ne_nil (List.length_eq_zero_iff.mp hzero)
  have hwhole := wholeRun_whole hvalid htidy
    (Numeral.breaks_fractionChars p (Numeral.breaks_exponentChars p hrest.breaks))
  have hfraction := fractionRun_written hvalid hrest
  have hexponent := exponentRun_written hvalid hrest
  have hlength : (signed negative p).length = (signChars negative).length + p.whole.length +
      p.fractionChars.length + p.exponentChars.length := by
    simp only [signed, Parts.chars, List.length_append]
    omega
  have htext : (signed negative p).map Glyph.char ++ rest =
      (signChars negative).map Glyph.char ++ (p.whole.map Glyph.char ++
        (p.fractionChars.map Glyph.char ++ (p.exponentChars.map Glyph.char ++ rest))) := by
    simp only [signed, Parts.chars, List.map_append, List.append_assoc]
  rw [htext, hlength, numberLength?, sign_taken negative (head_whole_ne_sign hvalid _),
    List.drop_left' (List.length_map _), hwhole, if_neg hpos, ← List.drop_drop,
    List.drop_left' (List.length_map _), List.drop_left' (List.length_map _), hfraction]
  simp only [Option.bind_eq_bind, Option.bind_some]
  rw [← List.drop_drop, ← List.drop_drop, List.drop_left' (List.length_map _),
    List.drop_left' (List.length_map _), List.drop_left' (List.length_map _), hexponent]
  rfl

theorem read_signed {p : Parts} (hvalid : p.Valid) (negative : Bool) :
    Numeral.read ((signed negative p).map Glyph.char) =
      .ok (if negative then -(.ofDecimal false p.decimal.digits p.decimal.exponent)
        else .ofDecimal false p.decimal.digits p.decimal.exponent) := by
  cases negative with
  | false =>
      rw [if_neg Bool.false_ne_true]
      exact Numeral.read_written hvalid
  | true =>
      have hbody := Numeral.body_written hvalid
      have hnonempty : (p.chars.map Glyph.char).isEmpty = false := by
        rcases Numeral.chars_cons hvalid with ⟨c, cs, hchars, _, _⟩
        rw [hchars]
        rfl
      change Numeral.read (.char '-' :: p.chars.map Glyph.char) = _
      simp only [Numeral.read, Numeral.sign, hnonempty, hbody, Bool.false_eq_true, if_false, if_true]

theorem exists_signed {x : Number} (hfinite : x.isFinite = true) :
    exists p : Parts, p.Valid ∧ p.Tidy ∧
      Text.ofString (layout.write x) = (signed x.isNegative p).map Glyph.char ∧
      Numeral.read ((signed x.isNegative p).map Glyph.char) = .ok x := by
  rcases Number.write_parts layout hfinite with ⟨p, hvalid, htidy, htext, hvalue⟩
  have hsigned : (layout.write x).toList = signed x.isNegative p := by
    rw [htext]
    cases x.isNegative <;> rfl
  refine ⟨p, hvalid, htidy, congrArg (List.map Glyph.char) hsigned, ?_⟩
  rw [read_signed hvalid, hvalue]
  cases hsign : x.isNegative with
  | false =>
      have hnumber := Number.ofMagnitude_magnitude x
      rw [hsign] at hnumber
      exact congrArg Except.ok hnumber
  | true => exact congrArg Except.ok (Number.neg_ofMagnitude hsign)

theorem run_number {x : Number} (hfinite : x.isFinite = true) {rest : Text} (hrest : Closed rest) :
    run number (Text.ofString (layout.write x) ++ rest) = some (.number x, rest) := by
  rcases exists_signed hfinite with ⟨p, hvalid, htidy, htext, hread⟩
  have hlength := numberLength_written hvalid htidy hrest x.isNegative
  rw [htext]
  cases hsigned : signed x.isNegative p with
  | nil =>
      rw [hsigned] at hread
      cases hread
  | cons c cs =>
      have htake : (.char c :: (cs.map Glyph.char ++ rest)).take (cs.length + 1) =
          .char c :: cs.map Glyph.char := by
        rw [List.take_succ_cons, List.take_left' (List.length_map _)]
      rw [hsigned, List.map_cons, List.cons_append, List.length_cons] at hlength
      rw [hsigned, List.map_cons] at hread
      rw [List.map_cons, List.cons_append, run, number, hlength]
      simp only [Option.bind_eq_bind, Option.bind_some]
      rw [htake, hread]
      simp only [Except.toOption, Option.bind_some, hfinite, if_true, Option.map_some,
        Parsed.taking, Nat.add_sub_cancel, List.drop_left' (List.length_map _)]

/-!
## Values without others inside
-/

theorem run_scalar (t : Text) :
    run scalar t =
      ((run string t).map fun p => (Data.string p.1, p.2)).or ((run word t).or (run number t)) := by
  rw [← run_map, ← run_or, ← run_or]
  rfl

theorem run_string_of_ne {g : Glyph} (h : g ≠ .char '"') (rest : Text) :
    run string (g :: rest) = none := by
  rw [run, string]
  · rfl
  · exact fun _ heq => h (List.cons.inj heq).1

theorem run_word_of_ne {c : Char} (h : c ∉ ['n', 't', 'f']) (rest : Text) :
    run word (.char c :: rest) = none := by
  simp only [List.mem_cons, List.not_mem_nil, or_false, not_or] at h
  have hnone : (words.find? fun w => (Text.ofString w.1).isPrefixOf (.char c :: rest)) = none := by
    rw [List.find?_eq_none]
    intro w hw
    simp only [words, List.mem_cons, List.not_mem_nil, or_false] at hw
    rcases hw with rfl | rfl | rfl
    · simp [Text.ofString, List.isPrefixOf, Ne.symm h.1]
    · simp [Text.ofString, List.isPrefixOf, Ne.symm h.2.1]
    · simp [Text.ofString, List.isPrefixOf, Ne.symm h.2.2]
  rw [run, word, hnone]
  rfl

theorem run_scalar_word {w : String × Data} (hw : w ∈ words) (rest : Text) :
    run scalar (Text.ofString w.1 ++ rest) = some (w.2, rest) := by
  rw [run_scalar]
  simp only [words, List.mem_cons, List.not_mem_nil, or_false] at hw
  rcases hw with rfl | rfl | rfl <;> rfl

theorem run_scalar_string (s : String) (rest : Text) :
    run scalar (Text.ofString (writeString s) ++ rest) = some (.string s, rest) := by
  rw [run_scalar, run_string]
  rfl

theorem run_scalar_number {x : Number} (hfinite : x.isFinite = true) {rest : Text}
    (hrest : Closed rest) :
    run scalar (Text.ofString (layout.write x) ++ rest) = some (.number x, rest) := by
  have hnumber := run_number hfinite hrest
  rcases exists_signed hfinite with ⟨p, hvalid, _, htext, _⟩
  have hhead : exists c cs, signed x.isNegative p = c :: cs ∧ c ≠ '"' ∧ c ∉ ['n', 't', 'f'] := by
    rcases Numeral.chars_cons hvalid with ⟨c, cs, hchars, hdigit, _⟩
    cases x.isNegative with
    | true => exact ⟨'-', p.chars, rfl, by decide, by decide⟩
    | false =>
        refine ⟨c, cs, hchars, Numeral.ne_of_isDigit hdigit rfl, ?_⟩
        simp [Numeral.ne_of_isDigit hdigit (d := 'n') rfl,
          Numeral.ne_of_isDigit hdigit (d := 't') rfl, Numeral.ne_of_isDigit hdigit (d := 'f') rfl]
  rcases hhead with ⟨c, cs, hsigned, hquote, hword⟩
  rw [htext, hsigned, List.map_cons, List.cons_append] at hnumber ⊢
  rw [run_scalar, run_string_of_ne fun heq => hquote (Glyph.char.inj heq), run_word_of_ne hword,
    hnumber]
  rfl

end Json
end DefTable
