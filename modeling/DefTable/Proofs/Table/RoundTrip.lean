import DefTable.Proofs.Data.Json.Values
import DefTable.Proofs.Outcome

/-!
# Tables survive JSON

Whatever of a table can be written as JSON is read back as it was, so a table that is in order and
does not nest too deep is decoded from its own text.  Compiled tables are of this kind: whatever
compiles to JSON can be decoded, and what is decoded is the compiled table, bit for bit.
-/

namespace DefTable

/-!
## Data with a written form
-/

namespace Json

open Struct (spelled spelledItems spelledEntries)

mutual

theorem spelled_of_isOk : forall d : Data, (write d).isOk = true -> spelled d = d
  | .null, _ => rfl
  | .bool _, _ => rfl
  | .number x, h => by
      rw [write, isOk_writeNumber] at h
      rw [spelled, if_pos h]
  | .integer _, _ => rfl
  | .string _, _ => rfl
  | .time _, _ => rfl
  | .list ds, h => by
      rw [isOk_writeList] at h
      rw [spelled, spelledItems_of_isOk ds h]
  | .map es, h => by
      rw [isOk_writeMap] at h
      rw [spelled, spelledEntries_of_isOk es h]
  | .mixedMap _, _ => rfl

theorem spelledItems_of_isOk :
    forall ds : List Data, (ds.all fun d => (write d).isOk) = true -> spelledItems ds = ds
  | [], _ => rfl
  | d :: ds, h => by
      rw [List.all_cons, Bool.and_eq_true] at h
      rw [spelledItems, spelled_of_isOk d h.1, spelledItems_of_isOk ds h.2]

theorem spelledEntries_of_isOk :
    forall es : List (String × Data), (es.all fun e => (write e.2).isOk) = true ->
      spelledEntries es = es
  | [], _ => rfl
  | (k, d) :: es, h => by
      rw [List.all_cons, Bool.and_eq_true] at h
      rw [spelledEntries, spelled_of_isOk d h.1, spelledEntries_of_isOk es h.2]

end

end Json

/-!
## Tables
-/

namespace Table

theorem ofEntries_of_finite
    {n : Nat} {t : Table} (h : t.Regular n) (hfinite : t.isFinite = true) :
    Table.ofEntries (Wire.ofEntries t) = .ok t := by
  have hspelled : Struct.spelledEntries (Wire.ofEntries t) = Wire.ofEntries t := by
    apply Json.spelledEntries_of_isOk
    rw [Json.all_isOk_write_ofEntries]
    exact hfinite
  rw [← hspelled]
  exact Wire.toTable_spelled h.entries h.ascending hfinite

theorem readable_toData {n : Nat} {t : Table} (h : t.Regular n) (hn : 2 * n + 4 ≤ Json.maxDepth) :
    Struct.Readable Json.maxDepth t.toData := by
  have hentries := Wire.entriesReadable_ofEntries h.entries
  exact ⟨Wire.ascending_ofEntries h.ascending, hentries.mono (Nat.le_of_succ_le_succ hn)⟩

theorem decode_json
    {n : Nat} {t : Table} {out : List UInt8} (h : t.Regular n) (hn : 2 * n + 4 ≤ Json.maxDepth)
    (hemit : Format.json.emit t = .ok out) : Format.decode Format.json.name out = .ok t := by
  rw [Format.emit] at hemit
  cases hwrite : Json.write t.toData with
  | error u =>
      rw [hwrite] at hemit
      cases hemit
  | ok s =>
      rw [hwrite] at hemit
      cases hemit
      have hfinite : t.isFinite = true := by
        rw [← Json.all_isOk_write_ofEntries, ← Json.isOk_writeMap, ← Table.toData, hwrite]
        rfl
      have hread : Json.read (Text.decode (Text.bytes (Text.ofString s))) = some t.toData := by
        rw [Text.decode_bytes_ofString]
        exact Json.read_write (readable_toData h hn) hwrite
      have hentries : Format.json.entries (Text.bytes (Text.ofString s)) =
          .ok (Wire.ofEntries t) := by
        rw [Format.entries, hread]
        rfl
      rw [Format.decode, show Format.ofName Format.json.name = .ok .json from rfl]
      dsimp only
      rw [hentries]
      dsimp only
      rw [ofEntries_of_finite h hfinite]
      rfl

end Table

/-!
## Compiled tables
-/

section

variable {path : String} {source : List UInt8} {names : List String}

theorem Compilation.written_of_errors
    (h : (compile (some .json) path (Text.decode source) names).errors = []) :
    exists t out, Compiles source names t ∧
      (compile (some .json) path (Text.decode source) names).table = some t ∧
      (compile (some .json) path (Text.decode source) names).output = some out ∧
      Format.json.emit t = .ok out := by
  have hcases := compile_cases (some .json) path source names
  dsimp only at hcases
  generalize compile (some .json) path (Text.decode source) names = c at h hcases ⊢
  rcases hcases with ⟨hends, _⟩ | ⟨hends, _⟩ | ⟨t, hcompiles, htable, hends, _⟩ |
      ⟨_, _, _, _, _, hends, _⟩
  · exact absurd h hends.1
  · rcases hends.1 with ⟨d, herrors, _⟩
    cases h.symm.trans herrors
  · rcases hends.2 with ⟨t', htable', hwrites⟩
    cases htable.symm.trans htable'
    rcases Option.map_eq_some_iff.mp hwrites with ⟨out, hout, hemit⟩
    exact ⟨t, out, hcompiles, htable, hout, hemit.symm⟩
  · rcases hends.1 with ⟨d, herrors, _⟩
    cases h.symm.trans herrors

/-- What was compiled to JSON without an error is decoded to the compiled table. -/
theorem decode_of_compile
    (h : (compile (some .json) path (Text.decode source) names).errors = []) :
    exists t out, (compile (some .json) path (Text.decode source) names).table = some t ∧
      (compile (some .json) path (Text.decode source) names).output = some out ∧
      Format.decode Format.json.name out = .ok t := by
  rcases Compilation.written_of_errors h with ⟨t, out, hcompiles, htable, hout, hemit⟩
  exact ⟨t, out, htable, hout, t.decode_json hcompiles.regular (by decide) hemit⟩

end

def variedSource : List UInt8 :=
  Text.bytes (Text.ofString ("s = \"q\\\" \\\\ <b>&\\t é\"; n = [-0, 2.5e-7, 1e21, 0x10]; " ++
    "f x y = if x then [y, null] else \\z -> n `k` z;"))

theorem decode_of_compile_varied :
    (compile (some .json) "" (Text.decode variedSource) ["k"]).errors = [] ∧
      exists t out, (compile (some .json) "" (Text.decode variedSource) ["k"]).table = some t ∧
        (compile (some .json) "" (Text.decode variedSource) ["k"]).output = some out ∧
        Format.decode Format.json.name out = .ok t := by
  have herrors : (compile (some .json) "" (Text.decode variedSource) ["k"]).errors = [] := by
    decide +kernel
  exact ⟨herrors, decode_of_compile herrors⟩

end DefTable
