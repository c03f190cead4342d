import DefTable.Data.Struct
import DefTable.Proofs.Data.Ascending
import DefTable.Proofs.Text.Utf8
import Mathlib.Algebra.Group.Nat.Defs

/-!
# Binary messages are read back

What is written as a message is read back field by field, and from its fields as data.  Lengths are
written in at most ten groups of seven bits, so no part may be longer than that allows, and maps and
lists may only nest as deep as the reader goes.
-/

namespace DefTable
namespace Struct

open Text (toNat_byte)

def lengthLimit : Nat := 2 ^ 64

/-!
## Numbers
-/

theorem varint_of_lt {n : Nat} (h : n < 128) : varint n = [UInt8.ofNat n] := by
  rw [varint, if_pos h]

theorem varint_of_le {n : Nat} (h : 128 ≤ n) :
    varint n = UInt8.ofNat (n % 128 + 128) :: varint (n / 128) := by
  rw [varint, if_neg (Nat.not_lt.mpr h)]

theorem byte_lt_128_iff {n : Nat} (h : n < 256) : UInt8.ofNat n < 128 <-> n < 128 := by
  rw [UInt8.lt_iff_toNat_lt, toNat_byte h]
  rfl

theorem varintPrefix?_varint
    (room : Nat) {n : Nat} (rest : Bytes) (h : n < 2 ^ (7 * room + 1)) :
    varintPrefix? (room + 1) (varint n ++ rest) = some (n, (varint n).length) := by
  induction room generalizing n with
  | zero =>
      have hn : n < 128 := by omega
      have hone : ¬ (1 : UInt8) < UInt8.ofNat n := by
        rw [UInt8.lt_iff_toNat_lt, toNat_byte (by omega)]
        exact Nat.not_lt.mpr (Nat.le_of_lt_succ h)
      rw [varint_of_lt hn, List.cons_append, varintPrefix?,
        if_pos ((byte_lt_128_iff (by omega)).mpr hn), toNat_byte (by omega)]
      simp [hone]
  | succ room ih =>
      by_cases hn : n < 128
      · rw [varint_of_lt hn, List.cons_append, varintPrefix?,
          if_pos ((byte_lt_128_iff (by omega)).mpr hn), toNat_byte (by omega)]
        simp
      · have hdiv : n / 128 < 2 ^ (7 * room + 1) := by
          have hpow : 2 ^ (7 * (room + 1) + 1) = 128 * 2 ^ (7 * room + 1) := by
            rw [show 7 * (room + 1) + 1 = 7 + (7 * room + 1) by omega, Nat.pow_add]
          rw [hpow] at h
          exact Nat.div_lt_of_lt_mul h
        have hbig : ¬ UInt8.ofNat (n % 128 + 128) < 128 := by
          rw [byte_lt_128_iff (by omega)]
          omega
        rw [varint_of_le (Nat.not_lt.mp hn), List.cons_append, varintPrefix?, if_neg hbig,
          ih hdiv, toNat_byte (by omega)]
        simp only [Option.map_some, List.length_cons, Option.some.injEq, Prod.mk.injEq, and_true]
        omega

theorem varint?_varint {n : Nat} (rest : Bytes) (h : n < lengthLimit) :
    varint? (varint n ++ rest) = some (n, (varint n).length) :=
  varintPrefix?_varint 9 rest h

theorem length_littleEndian (count n : Nat) : (littleEndian count n).length = count := by
  induction count generalizing n with
  | zero => rfl
  | succ count ih => rw [littleEndian, List.length_cons, ih]

theorem ofLittleEndian_littleEndian (count n : Nat) :
    ofLittleEndian (littleEndian count n) = n % 256 ^ count := by
  induction count generalizing n with
  | zero => rw [Nat.pow_zero, Nat.mod_one]; rfl
  | succ count ih =>
      rw [littleEndian, ofLittleEndian, List.foldr_cons]
      have hrest : List.foldr (fun b n => b.toNat + 256 * n) 0 (littleEndian count (n / 256)) =
          n / 256 % 256 ^ count := ih (n / 256)
      rw [hrest, toNat_byte (Nat.mod_lt _ (by omega)), Nat.pow_succ, Nat.mul_comm _ 256,
        Nat.mod_mul]

/-!
## Fields
-/

theorem tag?_byte
    {number kind : Nat} (rest : Bytes) (hnumber : 1 ≤ number) (hkind : kind < 8)
    (hsmall : number * 8 + kind < 128) :
    tag? (UInt8.ofNat (number * 8 + kind) :: rest) = some (number, kind, 1) := by
  have hvarint : varint? (UInt8.ofNat (number * 8 + kind) :: rest) =
      some (number * 8 + kind, 1) := by
    have hread := varint?_varint (n := number * 8 + kind) rest
      (Nat.lt_trans hsmall (by decide))
    rwa [varint_of_lt hsmall] at hread
  have hdiv : (number * 8 + kind) / 8 = number := by omega
  have hmod : (number * 8 + kind) % 8 = kind := by omega
  have hmax : number ≤ maxFieldNumber := by
    unfold maxFieldNumber
    omega
  unfold tag?
  rw [hvarint, Option.bind_eq_bind, Option.bind_some]
  dsimp only
  rw [hdiv, hmod, if_pos ⟨hnumber, hmax⟩]

theorem bytes?_append (bs rest : Bytes) : bytes? bs.length (bs ++ rest) = some bs := by
  unfold bytes?
  rw [List.take_left, if_pos rfl]

theorem payload?_delimited (bs rest : Bytes) (h : bs.length < lengthLimit) :
    payload? 2 (varint bs.length ++ (bs ++ rest)) =
      some (.delimited bs, (varint bs.length).length + bs.length) := by
  unfold payload?
  rw [varint?_varint _ h, Option.bind_eq_bind, Option.bind_some]
  dsimp only
  rw [List.drop_left, bytes?_append]
  rfl

theorem fields?_cons
    {b : UInt8} {rest more : Bytes} {f : Field} {used : Nat}
    (hfield : field? b rest = some (f, used)) (hdrop : rest.drop used = more) :
    fields? (b :: rest) = (fields? more).map (f :: ·) := by
  rw [fields?, hfield, Option.bind_eq_bind, Option.bind_some]
  dsimp only
  rw [hdrop]
  cases fields? more with
  | none => rfl
  | some fs => rfl

theorem field?_plain
    {number kind size : Nat} {rest : Bytes} {payload : Payload} (hnumber : 1 ≤ number)
    (hkind : kind < 3) (hsmall : number * 8 + kind < 128)
    (hpayload : payload? kind rest = some (payload, size)) :
    field? (UInt8.ofNat (number * 8 + kind)) rest = some (⟨number, payload⟩, size) := by
  unfold field?
  rw [tag?_byte rest hnumber (by omega) hsmall, Option.bind_eq_bind, Option.bind_some]
  dsimp only
  rw [if_neg (by omega), List.drop_one, List.tail_cons, hpayload]
  simp

theorem fields?_delimited
    {number : Nat} {bs : Bytes} (more : Bytes) (hnumber : 1 ≤ number) (hsmall : number < 15)
    (hlength : bs.length < lengthLimit) :
    fields? (delimited number bs ++ more) =
      (fields? more).map (Field.mk number (.delimited bs) :: ·) := by
  have htag : number * 8 + 2 < 128 := by omega
  have hbytes : delimited number bs ++ more =
      UInt8.ofNat (number * 8 + 2) :: (varint bs.length ++ (bs ++ more)) := by
    rw [delimited, varint_of_lt htag]
    simp
  rw [hbytes]
  refine fields?_cons (field?_plain hnumber (by omega) htag
    (payload?_delimited bs more hlength)) ?_
  rw [← List.append_assoc, ← List.length_append, List.drop_left]

theorem fields?_null : fields? (value .null) = some [⟨1, .varint 0⟩] := by
  decide +kernel

theorem fields?_bool (b : Bool) :
    fields? (value (.bool b)) = some [⟨4, .varint (if b then 1 else 0)⟩] := by
  cases b <;> decide +kernel

theorem fields?_number (x : Number) :
    fields? (value (.number x)) = some [⟨2, .fixed64 x.bits.toNat⟩] := by
  have hbits : ofLittleEndian (littleEndian 8 x.bits.toNat) = x.bits.toNat := by
    rw [ofLittleEndian_littleEndian]
    exact Nat.mod_eq_of_lt x.bits.toNat_lt
  have hpayload : payload? 1 (littleEndian 8 x.bits.toNat) =
      some (.fixed64 x.bits.toNat, 8) := by
    have hbytes := bytes?_append (littleEndian 8 x.bits.toNat) []
    rw [length_littleEndian, List.append_nil] at hbytes
    change (bytes? 8 (littleEndian 8 x.bits.toNat)).map
      (fun eight => (Payload.fixed64 (ofLittleEndian eight), 8)) = _
    rw [hbytes, Option.map_some, hbits]
  have hfield : field? (UInt8.ofNat (2 * 8 + 1)) (littleEndian 8 x.bits.toNat) =
      some (⟨2, .fixed64 x.bits.toNat⟩, 8) :=
    field?_plain (by omega) (by omega) (by omega) hpayload
  have hdrop : (littleEndian 8 x.bits.toNat).drop 8 = [] :=
    List.drop_eq_nil_iff.mpr (Nat.le_of_eq (length_littleEndian 8 x.bits.toNat))
  rw [value, fields?_cons (b := 0x11) hfield hdrop, fields?]
  rfl

theorem fields?_single
    {number : Nat} {bs : Bytes} (hnumber : 1 ≤ number) (hsmall : number < 15)
    (hlength : bs.length < lengthLimit) :
    fields? (delimited number bs) = some [⟨number, .delimited bs⟩] := by
  have hfields := fields?_delimited [] hnumber hsmall hlength
  rw [List.append_nil, fields?] at hfields
  exact hfields

theorem length_lt_of_delimited
    (number : Nat) {limit : Nat} {bs : Bytes} (h : (delimited number bs).length < limit) :
    bs.length < limit := by
  rw [delimited, List.length_append] at h
  omega

theorem fields?_flatMap
    {α : Type} (f : α -> Bytes) {xs : List α}
    (hlength : (xs.flatMap fun x => delimited 1 (f x)).length < lengthLimit) :
    fields? (xs.flatMap fun x => delimited 1 (f x)) =
      some (xs.map fun x => ⟨1, .delimited (f x)⟩) := by
  induction xs with
  | nil => rw [List.flatMap_nil, fields?]; rfl
  | cons x xs ih =>
      rw [List.flatMap_cons, List.length_append] at hlength
      have hfirst : (f x).length < lengthLimit :=
        length_lt_of_delimited 1 (by omega)
      rw [List.flatMap_cons, fields?_delimited _ (by omega) (by omega) hfirst,
        ih (by omega)]
      rfl

theorem mapM_map_some
    {α β : Type} {g : β -> Option (Option α)} {f : α -> β} {xs : List α}
    (h : forall x, x ∈ xs -> g (f x) = some (some x)) :
    (xs.map f).mapM g = some (xs.map some) := by
  induction xs with
  | nil => rfl
  | cons x xs ih =>
      rw [List.forall_mem_cons] at h
      rw [List.map_cons, List.mapM_cons, ih h.2, h.1]
      rfl

theorem repeated?_flatMap
    {α : Type} {read : Bytes -> Option α} {f : α -> Bytes} {xs : List α}
    (hlength : (xs.flatMap fun x => delimited 1 (f x)).length < lengthLimit)
    (hread : forall x, x ∈ xs -> read (f x) = some x) :
    repeated? read (xs.flatMap fun x => delimited 1 (f x)) = some xs := by
  unfold repeated?
  rw [fields?_flatMap f hlength, Option.bind_eq_bind, Option.bind_some, mapM_map_some]
  · rw [Option.bind_eq_bind, Option.bind_some, List.filterMap_map]
    simp
  · intro x hx
    change (read (f x)).map some = some (some x)
    rw [hread x hx]
    rfl

/-!
## Data
-/

mutual

/-- The data is made of what tables are written as, with maps in order, and its maps and lists nest
at most as deep as the number says. -/
def Readable : Nat -> Data -> Prop
  | _, .null => True
  | _, .bool _ => True
  | _, .number _ => True
  | _, .string _ => True
  | 0, .list _ => False
  | n + 1, .list ds => AllReadable n ds
  | 0, .map _ => False
  | n + 1, .map es => Ascending es ∧ EntriesReadable n es
  | _, .integer _ => False
  | _, .time _ => False
  | _, .mixedMap _ => False

def AllReadable : Nat -> List Data -> Prop
  | _, [] => True
  | n, d :: ds => Readable n d ∧ AllReadable n ds

def EntriesReadable : Nat -> List (String × Data) -> Prop
  | _, [] => True
  | n, (_, d) :: es => Readable n d ∧ EntriesReadable n es

end

theorem items_eq_flatMap (ds : List Data) : items ds = ds.flatMap fun d => delimited 1 (value d) := by
  induction ds with
  | nil => rfl
  | cons d ds ih => rw [items, ih, List.flatMap_cons]

def entry (e : String × Data) : Bytes :=
  delimited 1 (text e.1) ++ delimited 2 (value e.2)

theorem entries_eq_flatMap (es : List (String × Data)) :
    entries es = es.flatMap fun e => delimited 1 (entry e) := by
  induction es with
  | nil => rfl
  | cons e es ih =>
      rcases e with ⟨k, d⟩
      rw [entries, ih, List.flatMap_cons]
      rfl

theorem textOf?_text (s : String) : textOf? (text s) = some s :=
  Text.string?_bytes_ofString s

theorem keyValue?_entry
    {nested : Nested} {e : String × Data} (hlength : (entry e).length < lengthLimit)
    (hvalue : afterMessage nested none (value e.2) = some (some e.2)) :
    keyValue? nested (entry e) = some e := by
  have hsizes := hlength
  rw [entry, List.length_append] at hsizes
  have hkey : (text e.1).length < lengthLimit :=
    length_lt_of_delimited 1 (by omega)
  have hdata : (value e.2).length < lengthLimit :=
    length_lt_of_delimited 2 (by omega)
  have hfields : fields? (entry e) =
      some [⟨1, .delimited (text e.1)⟩, ⟨2, .delimited (value e.2)⟩] := by
    rw [entry, fields?_delimited _ (by omega) (by omega) hkey,
      fields?_single (by omega) (by omega) hdata]
    rfl
  unfold keyValue?
  rw [hfields, Option.bind_eq_bind, Option.bind_some]
  simp only [List.foldlM_cons, List.foldlM_nil, textOf?_text, hvalue, Option.map_some,
    Option.bind_eq_bind, Option.bind_some, Option.pure_def, Option.getD_some]

theorem afterMessage_single
    {nested : Nested} {bs : Bytes} {f : Field} {d : Data} (hfields : fields? bs = some [f])
    (hfield : afterField nested none f = some (some d)) :
    afterMessage nested none bs = some (some d) := by
  unfold afterMessage
  rw [hfields, Option.bind_eq_bind, Option.bind_some, List.foldlM_cons, hfield]
  rfl

mutual

theorem afterMessage_value :
    (n : Nat) -> (d : Data) -> Readable n d -> (value d).length < lengthLimit ->
      afterMessage (nested n) none (value d) = some (some d)
  | _, .null, _, _ => afterMessage_single fields?_null rfl
  | _, .bool b, _, _ => by
      refine afterMessage_single (fields?_bool b) ?_
      cases b <;> rfl
  | _, .number x, _, _ => by
      refine afterMessage_single (fields?_number x) ?_
      change some (some (Data.number ⟨UInt64.ofNat x.bits.toNat⟩)) = _
      rw [UInt64.ofNat_toNat]
  | _, .string s, _, hlength => by
      rw [value] at hlength ⊢
      refine afterMessage_single (fields?_single (by omega) (by omega)
        (length_lt_of_delimited 3 hlength)) ?_
      change (textOf? (text s)).map (fun s => some (Data.string s)) = _
      rw [textOf?_text]
      rfl
  | n + 1, .list ds, hreadable, hlength => by
      rw [value] at hlength ⊢
      have hitems := length_lt_of_delimited 6 hlength
      refine afterMessage_single (fields?_single (by omega) (by omega) hitems) ?_
      change ((nested (n + 1)).list (items ds)).map (fun more => some (Data.list more)) = _
      rw [nested_list n ds hreadable hitems]
      rfl
  | n + 1, .map es, hreadable, hlength => by
      rw [value] at hlength ⊢
      have hentries := length_lt_of_delimited 5 hlength
      refine afterMessage_single (fields?_single (by omega) (by omega) hentries) ?_
      change ((nested (n + 1)).map (entries es)).map (fun more => some (Data.map more)) = _
      rw [nested_map n es hreadable.1 hreadable.2 hentries]
      rfl

theorem nested_list :
    (n : Nat) -> (ds : List Data) -> AllReadable n ds -> (items ds).length < lengthLimit ->
      (nested (n + 1)).list (items ds) = some ds
  | n, ds, hreadable, hlength => by
      have hread := readable_items n ds hreadable hlength
      rw [items_eq_flatMap] at hlength ⊢
      refine repeated?_flatMap hlength ?_
      intro d hd
      rw [hread d hd]
      rfl

theorem readable_items :
    (n : Nat) -> (ds : List Data) -> AllReadable n ds -> (items ds).length < lengthLimit ->
      forall d, d ∈ ds -> afterMessage (nested n) none (value d) = some (some d)
  | _, [], _, _ => fun _ hd => absurd hd List.not_mem_nil
  | n, d :: ds, hreadable, hlength => by
      rw [items, List.length_append] at hlength
      have hfirst : (value d).length < lengthLimit :=
        length_lt_of_delimited 1 (by omega)
      rw [List.forall_mem_cons]
      exact ⟨afterMessage_value n d hreadable.1 hfirst,
        readable_items n ds hreadable.2 (by omega)⟩

theorem nested_map :
    (n : Nat) -> (es : List (String × Data)) -> Ascending es -> EntriesReadable n es ->
      (entries es).length < lengthLimit -> (nested (n + 1)).map (entries es) = some es
  | n, es, hascending, hreadable, hlength => by
      have hread := readable_entries n es hreadable hlength
      rw [entries_eq_flatMap] at hlength ⊢
      change (repeated? (keyValue? (nested n)) _).map Data.ofEntries = some es
      rw [repeated?_flatMap hlength hread, Option.map_some,
        Data.ofEntries_of_ascending hascending]

theorem readable_entries :
    (n : Nat) -> (es : List (String × Data)) -> EntriesReadable n es ->
      (entries es).length < lengthLimit ->
      forall e, e ∈ es -> keyValue? (nested n) (entry e) = some e
  | _, [], _, _ => fun _ he => absurd he List.not_mem_nil
  | n, (k, d) :: es, hreadable, hlength => by
      rw [entries, List.length_append] at hlength
      have hentry : (entry (k, d)).length < lengthLimit :=
        length_lt_of_delimited 1 (Nat.lt_of_le_of_lt (Nat.le_add_right _ _) hlength)
      have hvalue : (value d).length < lengthLimit := by
        rw [entry, List.length_append] at hentry
        exact length_lt_of_delimited 2 (Nat.lt_of_le_of_lt (Nat.le_add_left _ _) hentry)
      rw [List.forall_mem_cons]
      exact ⟨keyValue?_entry hentry (afterMessage_value n d hreadable.1 hvalue),
        readable_entries n es hreadable.2 (by omega)⟩

end

theorem read_write
    {es : List (String × Data)} (hascending : Ascending es)
    (hreadable : EntriesReadable (maxDepth / 2 - 1) es)
    (hlength : (write es).length < lengthLimit) :
    read (write es) = some (spelledEntries es) := by
  have hmap := nested_map (maxDepth / 2 - 1) es hascending hreadable hlength
  unfold read write
  rw [show maxDepth / 2 = (maxDepth / 2 - 1) + 1 from rfl, hmap]
  rfl

end Struct
end DefTable
