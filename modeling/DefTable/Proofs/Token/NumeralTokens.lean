import DefTable.Proofs.Token.Shape

/-!
# Numerals among tokens

The numbers of a text are what their lexemes are read as.  A text that starts with a digit is read as
a number exactly if the scanner takes all of it as one.
-/

namespace DefTable
namespace Token

theorem read_of_mem_scan {text : Text} {t : Token} {x : Number} (ht : t ∈ scan text)
    (hkind : t.kind = .number x) : Numeral.read t.lexeme = .ok x := by
  rcases mem_scanFrom ht with ⟨q, rfl⟩ | ⟨_, g, rest, q, _, rfl⟩
  · cases hkind
  · change (extent g rest).kind = .number x at hkind
    have hshape := shape_extent g rest
    dsimp only
    generalize extent g rest = e at hshape hkind ⊢
    cases hshape with
    | numeral _ _ hread =>
        cases hkind
        exact hread
    | word => exact absurd hkind ((plain_ofWord _).ne_number x)
    | operator => exact absurd hkind ((plain_operator _).ne_number x)
    | mark hmark => exact absurd hkind ((plain_mark hmark).ne_number x)
    | _ => cases hkind

theorem scan_numeral
    {t : Text} {x : Number} (ht : startsDigit t = true) (h : Numeral.read t = .ok x) :
    scan t = [⟨.number x, t, .start⟩, endAt (Position.start.after t)] := by
  rcases Numeral.read_sound h with ⟨cs, hcs, rfl⟩
  have hnul : .char '\x00' ∉ cs.map Glyph.char := by
    intro hmem
    rcases List.mem_map.mp hmem with ⟨c, hc, heq⟩
    exact hcs.nul_not_mem (Glyph.char.inj heq ▸ hc)
  cases cs with
  | nil => cases ht
  | cons c cs =>
      have hc : c.isDigit = true := ht
      have hextent : extent (.char c) (cs.map Glyph.char ++ []) =
          ⟨.number x, (cs.map Glyph.char).length⟩ := by
        rw [List.length_map]
        exact extent_numeral hc h apart_nil
      rcases not_blank_of_isDigit hc with ⟨hblank, hcomment⟩
      have hlegal : forall f, Kind.number x ≠ .illegal f := fun _ => Kind.noConfusion
      have hscan := scanFrom_token hblank hcomment hextent hlegal [] .start
      rw [List.append_nil, scanFrom_nil] at hscan
      rw [scan_of_noNul hnul]
      exact hscan

end Token

namespace Numeral

/-- The texts that are read as numerals are those of the grammar.  A text that starts with a digit
is read as a number exactly if the scanner makes of all of it that number, and of nothing else. -/
theorem read_iff :
    (forall t, (exists x, read t = .ok x) <->
      exists cs, Grammatical cs ∧ t = cs.map Glyph.char) ∧
    forall t, Token.startsDigit t = true -> forall x, read t = .ok x <->
      exists p q, Token.scan t = [⟨.number x, t, p⟩, Token.endAt q] := by
  refine ⟨fun t => ⟨fun ⟨x, h⟩ => read_sound h, ?_⟩, fun t ht x => ⟨fun h => ?_, ?_⟩⟩
  · rintro ⟨cs, hcs, rfl⟩
    exact read_complete hcs
  · exact ⟨_, _, Token.scan_numeral ht h⟩
  · rintro ⟨p, q, hscan⟩
    have hmem : (⟨.number x, t, p⟩ : Token) ∈ Token.scan t := by
      rw [hscan]
      exact List.mem_cons_self
    exact Token.read_of_mem_scan hmem rfl

theorem read_iff_hexadecimal :
    Token.startsDigit (Text.ofString "0x1E") = true ∧ exists x p q,
      Token.scan (Text.ofString "0x1E") =
        [⟨.number x, Text.ofString "0x1E", p⟩, Token.endAt q] := by
  have hall : ['1', 'E'].all "0123456789abcdefABCDEF".toList.contains = true := by decide
  have hdigits : Run "0123456789abcdefABCDEF" ['1', 'E'] :=
    ⟨by decide, fun c hc => List.contains_iff_mem.mp (List.all_eq_true.mp hall c hc)⟩
  have hwhole : Grammatical ['0', 'x', '1', 'E'] := .signed .absent (.hexadecimal hdigits)
  rcases (read_iff.1 (Text.ofString "0x1E")).mpr ⟨_, hwhole, rfl⟩ with ⟨x, hread⟩
  exact ⟨rfl, x, (read_iff.2 (Text.ofString "0x1E") rfl x).mp hread⟩

end Numeral
end DefTable
