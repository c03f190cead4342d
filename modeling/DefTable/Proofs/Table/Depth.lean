import DefTable.Proofs.Compilation
import DefTable.Proofs.Data.Depth

/-!
# How deep tables nest

The message of a table can be read as far as messages may nest.  Each function takes two levels.  A
table that stays within the limit comes back from its message, and one that goes beyond is refused,
whatever else it holds.  Compiled tables stay far below the limit, because expressions may only nest
as deep as the parser goes.
-/

namespace DefTable

/-!
## Reading messages
-/

namespace Table

/-- A table that can be kept as a message: it is in order, its numbers are finite, and its message is
not longer than a length can say.  Its functions may nest as deep as they like. -/
structure Storable (t : Table) : Prop where
  regular : exists n, t.Regular n
  finite : t.isFinite = true
  short : t.message.length < Struct.lengthLimit

/-- How deep the maps and lists of a table nest. -/
def levels (t : Table) : Nat :=
  t.toData.levels

theorem decode_message_of_deep
    {t : Table} (h : Struct.maxDepth / 2 < t.levels) :
    Format.decode Format.proto.name t.message = .error .unreadable := by
  have hread : Struct.read t.message = none := Struct.read_write_of_deep h
  rw [decode_message_eq, hread]

theorem read_message_of_levels
    {t : Table} (h : t.Storable) (hlevels : t.levels ≤ Struct.maxDepth / 2) :
    Struct.read t.message = some (Struct.spelledEntries (Wire.ofEntries t)) := by
  rcases h.regular with ⟨n, hregular⟩
  have hordered := ((Struct.entriesReadable_iff _ _).mp
    (Wire.entriesReadable_ofEntries hregular.entries)).1
  have hentries : Data.levelsOfEntries (Wire.ofEntries t) ≤ Struct.maxDepth / 2 - 1 :=
    Nat.le_sub_one_of_lt hlevels
  exact Struct.read_write (Wire.ascending_ofEntries hregular.ascending)
    ((Struct.entriesReadable_iff _ _).mpr ⟨hordered, hentries⟩) h.short

theorem decode_message_of_storable
    {t : Table} (h : t.Storable) :
    Format.decode Format.proto.name t.message =
      if t.levels ≤ Struct.maxDepth / 2 then .ok t else .error .unreadable := by
  split
  · rename_i hlevels
    rcases h.regular with ⟨n, hregular⟩
    rw [decode_message_eq, read_message_of_levels h hlevels]
    dsimp only
    rw [Wire.toTable_spelled hregular.entries hregular.ascending h.finite]
    rfl
  · rename_i hlevels
    exact decode_message_of_deep (Nat.lt_of_not_le hlevels)

/-!
## Functions and levels
-/

theorem levels_le_of_regular {n : Nat} {t : Table} (h : t.Regular n) : t.levels ≤ 2 * n + 4 :=
  Nat.succ_le_succ ((Struct.entriesReadable_iff _ _).mp (Wire.entriesReadable_ofEntries h.entries)).2

end Table

theorem Compiles.levels_le
    {source : List UInt8} {names : List String} {t : Table} (h : Compiles source names t) :
    t.levels ≤ Struct.maxDepth / 2 :=
  Nat.le_trans (Table.levels_le_of_regular h.regular) (by decide)

/-!
## Functions inside of each other

The message of a function is that of its table and a constant number of bytes more, so functions can
nest deeper than messages are read long before a message is too long.
-/

namespace Struct

theorem length_varint_le {room n : Nat} (h : n < 128 ^ (room + 1)) :
    (varint n).length ≤ room + 1 := by
  induction room generalizing n with
  | zero =>
      rw [varint_of_lt (by simpa using h)]
      exact Nat.le_refl 1
  | succ room ih =>
      by_cases hsmall : n < 128
      · rw [varint_of_lt hsmall]
        exact Nat.succ_le_succ (Nat.zero_le _)
      · rw [varint_of_le (Nat.not_lt.mp hsmall)]
        apply Nat.succ_le_succ
        apply ih
        rw [Nat.div_lt_iff_lt_mul (by decide)]
        exact h

theorem length_delimited_le {number : Nat} {bs : Bytes} (hnumber : number < 15)
    (h : bs.length < lengthLimit) : (delimited number bs).length ≤ bs.length + 11 := by
  have htag : (varint (number * 8 + 2)).length ≤ 1 := length_varint_le (by omega)
  have hlength : (varint bs.length).length ≤ 10 :=
    length_varint_le (Nat.lt_trans h (by decide))
  rw [delimited, List.length_append, List.length_append]
  omega

theorem length_value_map_le {es : List (String × Data)} (h : (entries es).length < lengthLimit) :
    (value (.map es)).length ≤ (entries es).length + 11 :=
  length_delimited_le (by decide) h

theorem length_entries_cons_le
    (k : String) (d : Data) (es : List (String × Data))
    (h : (delimited 1 (text k)).length + (value d).length + 11 < lengthLimit) :
    (entries ((k, d) :: es)).length ≤
      (delimited 1 (text k)).length + (value d).length + (entries es).length + 22 := by
  have hvalue : (delimited 2 (value d)).length ≤ (value d).length + 11 :=
    length_delimited_le (by decide) (by omega)
  have hpair : (delimited 1 (text k) ++ delimited 2 (value d)).length ≤
      (delimited 1 (text k)).length + (value d).length + 11 := by
    rw [List.length_append]
    omega
  have hentry : (delimited 1 (delimited 1 (text k) ++ delimited 2 (value d))).length ≤
      (delimited 1 (text k) ++ delimited 2 (value d)).length + 11 :=
    length_delimited_le (by decide) (Nat.lt_of_le_of_lt hpair h)
  rw [entries, List.length_append]
  omega

end Struct

namespace Def

def nested : Nat → Def
  | 0 => .null
  | n + 1 => .func [] [(Table.resultId, nested n)]

theorem nested_regular (n : Nat) : (nested n).Regular n := by
  induction n with
  | zero => trivial
  | succ n ih => exact ⟨ascending_single _, ih, trivial⟩

theorem isFinite_nested (n : Nat) : (nested n).isFinite = true := by
  induction n with
  | zero => rfl
  | succ n ih =>
      rw [nested, isFinite, areFinite, ih]
      rfl

theorem levels_nested (n : Nat) : (Wire.ofDef (nested n)).levels = 2 * n + 1 := by
  induction n with
  | zero => rfl
  | succ n ih =>
      simp only [nested, Wire.ofDef, Wire.ofEntries, Wire.strings, Data.levels,
        Data.levelsOfEntries, Data.levelsOfAll, List.map_nil, ih]
      omega

theorem length_value_func_le
    {d : Def} (h : (Struct.value (Wire.ofDef d)).length + 128 < Struct.lengthLimit) :
    (Struct.value (Wire.ofDef (.func [] [(Table.resultId, d)]))).length ≤
      (Struct.value (Wire.ofDef d)).length + 91 := by
  have hresult : (Struct.delimited 1 (Struct.text Table.resultId)).length = 3 := by decide +kernel
  have hbody : (Struct.delimited 1 (Struct.text "b")).length = 3 := by decide +kernel
  have hothers : (Struct.entries [("p", .list []), ("t", .string "f")]).length = 19 := by
    decide +kernel
  have htable : (Struct.entries (Wire.ofEntries [(Table.resultId, d)])).length ≤
      (Struct.value (Wire.ofDef d)).length + 25 := by
    have hentries := Struct.length_entries_cons_le Table.resultId (Wire.ofDef d) [] (by omega)
    rw [hresult, Struct.entries, List.length_nil] at hentries
    rw [Wire.ofEntries, Wire.ofEntries]
    omega
  have hinner := Struct.length_value_map_le (Nat.lt_of_le_of_lt htable (by omega))
  have houter := Struct.length_entries_cons_le "b"
    (.map (Wire.ofEntries [(Table.resultId, d)])) [("p", .list []), ("t", .string "f")] (by omega)
  have hfunc := Struct.length_value_map_le (Nat.lt_of_le_of_lt houter (by omega))
  rw [Wire.ofDef, Wire.strings, List.map_nil]
  omega

theorem length_value_nested_le {n : Nat} (h : n < 2 ^ 32) :
    (Struct.value (Wire.ofDef (nested n))).length ≤ 128 * (n + 1) := by
  induction n with
  | zero => decide +kernel
  | succ n ih =>
      have hinner := ih (Nat.lt_of_succ_lt h)
      have hlimit : Struct.lengthLimit = 2 ^ 64 := rfl
      have hfunc := length_value_func_le (d := nested n) (by omega)
      rw [nested]
      omega

end Def

namespace Table

def nested (n : Nat) : Table :=
  [("x", Def.nested n)]

theorem levels_nested (n : Nat) : (nested n).levels = 2 * n + 2 := by
  change max (Wire.ofDef (Def.nested n)).levels 0 + 1 = _
  rw [Def.levels_nested, Nat.max_zero]

theorem storable_nested {n : Nat} (h : n < 2 ^ 32) : (nested n).Storable where
  regular := ⟨n, ascending_single _, Def.nested_regular n, trivial⟩
  finite := by
    rw [isFinite, nested, Def.areFinite, Def.isFinite_nested]
    rfl
  short := by
    have hname : (Struct.delimited 1 (Struct.text "x")).length = 3 := by decide +kernel
    have hlimit : Struct.lengthLimit = 2 ^ 64 := rfl
    have hvalue := Def.length_value_nested_le h
    have hentries := Struct.length_entries_cons_le "x" (Wire.ofDef (Def.nested n)) [] (by omega)
    rw [hname, Struct.entries, List.length_nil] at hentries
    change (Struct.entries [("x", Wire.ofDef (Def.nested n))]).length < _
    omega

/-- Functions that nest two thousand five hundred deep are not read back. -/
theorem decode_nested_iff {n : Nat} (h : n < 2 ^ 32) :
    Format.decode Format.proto.name (nested n).message = .ok (nested n) <-> n < 2500 := by
  rw [decode_message_of_storable (storable_nested h), levels_nested]
  have hlimit : Struct.maxDepth = 10000 := rfl
  split
  · rename_i hlevels
    exact iff_of_true rfl (by omega)
  · rename_i hlevels
    exact iff_of_false nofun (by omega)

end Table
end DefTable
