import DefTable.Proofs.Lowering.Numbers
import DefTable.Proofs.Table.Depth

/-!
# Messages never alter a table

Every table can be written as a message.  What is decoded from the message is the table itself or
nothing: a number that is not finite is refused, and so is a table that nests deeper than messages
are read; whatever else is in order comes back.
-/

namespace DefTable
namespace Table

theorem only_read_message
    {n : Nat} {t : Table} (h : t.Regular n) (hlevels : t.levels ≤ Struct.maxDepth / 2) :
    Struct.Only (Struct.read t.message) (Struct.spelledEntries (Wire.ofEntries t)) := by
  have hordered := ((Struct.entriesReadable_iff _ _).mp
    (Wire.entriesReadable_ofEntries h.entries)).1
  have hentries : Data.levelsOfEntries (Wire.ofEntries t) ≤ Struct.maxDepth / 2 - 1 :=
    Nat.le_sub_one_of_lt hlevels
  exact Struct.only_read_write (Wire.ascending_ofEntries h.ascending)
    ((Struct.entriesReadable_iff _ _).mpr ⟨hordered, hentries⟩)

theorem decode_message_or
    {n : Nat} {t : Table} (h : t.Regular n) :
    Format.decode Format.proto.name t.message = .error .unreadable ∨
      Format.decode Format.proto.name t.message =
        (Wire.toTable (Struct.spelledEntries (Wire.ofEntries t))).mapError .table := by
  rcases Nat.lt_or_ge (Struct.maxDepth / 2) t.levels with hdeep | hlevels
  · exact Or.inl (decode_message_of_deep hdeep)
  · rw [decode_message_eq]
    cases hread : Struct.read t.message with
    | none => exact Or.inl rfl
    | some es =>
        rw [only_read_message h hlevels es hread]
        exact Or.inr rfl

theorem eq_of_decode
    {n : Nat} {t t' : Table} (h : t.Regular n)
    (hdecode : Format.decode Format.proto.name t.message = .ok t') : t' = t := by
  rcases decode_message_or h with hunreadable | hread
  · cases hunreadable.symm.trans hdecode
  · rw [hdecode] at hread
    cases hfinite : t.isFinite with
    | true =>
        rw [Wire.toTable_spelled h.entries h.ascending hfinite] at hread
        exact Except.ok.inj hread
    | false =>
        rcases Wire.toTable_spelled_of_not_finite hfinite with ⟨fault, hfault⟩
        rw [hfault] at hread
        cases hread

theorem decode_of_not_finite
    {n : Nat} {t : Table} (h : t.Regular n) {x : Number} (hx : x ∈ t.numbers)
    (hfinite : x.isFinite = false) :
    exists e, Format.decode Format.proto.name t.message = .error e := by
  have hnot : t.isFinite = false := by
    rw [Table.isFinite_eq, List.all_eq_false]
    exact ⟨x, hx, by rw [hfinite]; exact Bool.false_ne_true⟩
  rcases decode_message_or h with hunreadable | hread
  · exact ⟨_, hunreadable⟩
  · rcases Wire.toTable_spelled_of_not_finite hnot with ⟨fault, hfault⟩
    exact ⟨.table fault, by rw [hread, hfault]; rfl⟩

/-- A table in order, whose functions may nest as deep as they like, can always be written as a
message.  If its numbers are finite and it stays within the depth and the length of messages, it is
decoded bit for bit; if some number is not finite, the message is refused; and no other table is ever
decoded from it. -/
theorem decode_emit_message {n : Nat} {t : Table} (h : t.Regular n) :
    exists out, Format.proto.emit t = .ok out ∧
      ((forall x, x ∈ t.numbers -> x.isFinite = true) -> t.levels ≤ Struct.maxDepth / 2 ->
        out.length < Struct.lengthLimit -> Format.decode Format.proto.name out = .ok t) ∧
      ((exists x, x ∈ t.numbers ∧ x.isFinite = false) ->
        exists e, Format.decode Format.proto.name out = .error e) ∧
      forall t', Format.decode Format.proto.name out = .ok t' -> t' = t := by
  refine ⟨t.message, rfl, ?_, ?_, fun t' => eq_of_decode h⟩
  · intro hfinite hlevels hshort
    have hall : t.isFinite = true := by
      rw [Table.isFinite_eq, List.all_eq_true]
      exact hfinite
    rw [decode_message_of_storable ⟨⟨n, h⟩, hall, hshort⟩, if_pos hlevels]
  · rintro ⟨x, hx, hfinite⟩
    exact decode_of_not_finite h hx hfinite

def packed (x : Number) : Table :=
  [("f", .func [] [(resultId, .matrix [.number (.ofMagnitude true 0), .number x])]),
    ("s", .switch [⟨some "f", "s"⟩, ⟨none, "f"⟩])]

theorem packed_regular (x : Number) : (packed x).Regular 1 where
  ascending := ascending_pair (by decide)
  entries := ⟨⟨ascending_single _, trivial, trivial⟩, by simp [Def.Regular], trivial⟩

theorem decode_emit_message_packed :
    (packed .zero).Regular 1 ∧
      Format.decode Format.proto.name (packed .zero).message = .ok (packed .zero) ∧
      (packed (.infinity true)).Regular 1 ∧
      exists e, Format.decode Format.proto.name (packed (.infinity true)).message = .error e := by
  rcases decode_emit_message (packed_regular .zero) with ⟨out, hout, hread, _⟩
  rcases decode_emit_message (packed_regular (.infinity true)) with ⟨out', hout', _, hrefused, _⟩
  cases hout
  cases hout'
  refine ⟨packed_regular _, hread ?_ ?_ ?_, packed_regular _, hrefused ?_⟩
  · decide +kernel
  · decide +kernel
  · decide +kernel
  · exact ⟨.infinity true, by decide +kernel, by decide +kernel⟩

end Table
end DefTable
