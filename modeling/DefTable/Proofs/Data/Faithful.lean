import DefTable.Proofs.Data.Message

/-!
# What is read was written

A part of a message that is longer than a length can say makes the whole message unreadable.  So
whatever is read from the message of some data, at any length, is that data.
-/

namespace DefTable
namespace Struct

/-!
## Lengths that cannot be read
-/

theorem varintPrefix?_varint_of_le
    (room : Nat) {n : Nat} (rest : Bytes) (h : 2 ^ (7 * room + 1) ≤ n) :
    varintPrefix? (room + 1) (varint n ++ rest) = none := by
  induction room generalizing n with
  | zero =>
      by_cases hn : n < 128
      · have hone : (1 : UInt8) < UInt8.ofNat n := by
          rw [UInt8.lt_iff_toNat_lt, Text.toNat_byte (by omega)]
          exact h
        rw [varint_of_lt hn, List.cons_append, varintPrefix?,
          if_pos ((byte_lt_128_iff (by omega)).mpr hn)]
        simp [hone]
      · have hbig : ¬ UInt8.ofNat (n % 128 + 128) < 128 := by
          rw [byte_lt_128_iff (by omega)]
          omega
        rw [varint_of_le (Nat.not_lt.mp hn), List.cons_append, varintPrefix?, if_neg hbig,
          varintPrefix?]
        rfl
  | succ room ih =>
      have hpow : 2 ^ (7 * (room + 1) + 1) = 128 * 2 ^ (7 * room + 1) := by
        rw [show 7 * (room + 1) + 1 = 7 + (7 * room + 1) by omega, Nat.pow_add]
      have hpos : 0 < 2 ^ (7 * room + 1) := Nat.two_pow_pos _
      have hbig : ¬ UInt8.ofNat (n % 128 + 128) < 128 := by
        rw [byte_lt_128_iff (by omega)]
        omega
      rw [varint_of_le (by omega), List.cons_append, varintPrefix?, if_neg hbig, ih (by omega)]
      rfl

theorem payload?_delimited_of_le (bs rest : Bytes) (h : lengthLimit ≤ bs.length) :
    payload? 2 (varint bs.length ++ rest) = none := by
  have hvarint : varint? (varint bs.length ++ rest) = none := varintPrefix?_varint_of_le 9 rest h
  unfold payload?
  rw [hvarint]
  rfl

theorem fields?_delimited_eq_some
    {number : Nat} {bs more : Bytes} {fs : List Field} (hnumber : 1 ≤ number)
    (hsmall : number < 15) (h : fields? (delimited number bs ++ more) = some fs) :
    exists rest, fields? more = some rest ∧ fs = ⟨number, .delimited bs⟩ :: rest := by
  by_cases hlength : bs.length < lengthLimit
  · rw [fields?_delimited more hnumber hsmall hlength] at h
    rcases Option.map_eq_some_iff.mp h with ⟨rest, hrest, rfl⟩
    exact ⟨rest, hrest, rfl⟩
  · have htag : number * 8 + 2 < 128 := by omega
    have hbytes : delimited number bs ++ more =
        UInt8.ofNat (number * 8 + 2) :: (varint bs.length ++ (bs ++ more)) := by
      rw [delimited, varint_of_lt htag]
      simp
    rw [hbytes, fields?, field?, tag?_byte _ hnumber (by omega) htag] at h
    simp only [Option.bind_eq_bind, Option.bind_some] at h
    rw [if_neg (by omega), List.drop_one, List.tail_cons,
      payload?_delimited_of_le bs _ (Nat.not_lt.mp hlength)] at h
    cases h

theorem fields?_single_eq_some
    {number : Nat} {bs : Bytes} {fs : List Field} (hnumber : 1 ≤ number) (hsmall : number < 15)
    (h : fields? (delimited number bs) = some fs) : fs = [⟨number, .delimited bs⟩] := by
  rw [← List.append_nil (delimited number bs)] at h
  rcases fields?_delimited_eq_some hnumber hsmall h with ⟨rest, hrest, rfl⟩
  rw [fields?] at hrest
  cases hrest
  rfl

theorem fields?_flatMap_eq_some
    {α : Type} (f : α -> Bytes) {xs : List α} {fs : List Field}
    (h : fields? (xs.flatMap fun x => delimited 1 (f x)) = some fs) :
    fs = xs.map fun x => ⟨1, .delimited (f x)⟩ := by
  induction xs generalizing fs with
  | nil =>
      rw [List.flatMap_nil, fields?] at h
      cases h
      rfl
  | cons x xs ih =>
      rw [List.flatMap_cons] at h
      rcases fields?_delimited_eq_some (by omega) (by omega) h with ⟨rest, hrest, rfl⟩
      rw [ih hrest]
      rfl

/-!
## Readers that answer what was written
-/

/-- There is no other result. -/
def Only {α : Type} (x : Option α) (a : α) : Prop :=
  forall b, x = some b -> b = a

theorem Only.map {α β : Type} {x : Option α} {a : α} (h : Only x a) (f : α -> β) :
    Only (x.map f) (f a) := by
  intro b hb
  rcases Option.map_eq_some_iff.mp hb with ⟨a', ha', rfl⟩
  rw [h a' ha']

theorem only_some {α : Type} (a : α) : Only (some a) a :=
  fun _ h => (Option.some.inj h).symm

theorem Only.of_eq {α : Type} {x : Option α} {a : α} (h : x = some a) : Only x a :=
  h ▸ only_some a

theorem only_mapM
    {α β : Type} {g : β -> Option (Option α)} {f : α -> β} {xs : List α}
    (h : forall x, x ∈ xs -> Only (g (f x)) (some x)) :
    Only ((xs.map f).mapM g) (xs.map some) := by
  induction xs with
  | nil => exact only_some []
  | cons x xs ih =>
      rw [List.forall_mem_cons] at h
      intro parts hparts
      rw [List.map_cons, List.mapM_cons] at hparts
      rcases Option.bind_eq_some_iff.mp hparts with ⟨part, hpart, hparts⟩
      rcases Option.bind_eq_some_iff.mp hparts with ⟨rest, hrest, hparts⟩
      cases hparts
      rw [h.1 part hpart, ih h.2 rest hrest, List.map_cons]

theorem only_repeated
    {α : Type} {read : Bytes -> Option α} {f : α -> Bytes} {xs : List α}
    (hread : forall x, x ∈ xs -> Only (read (f x)) x) :
    Only (repeated? read (xs.flatMap fun x => delimited 1 (f x))) xs := by
  intro ys hys
  unfold repeated? at hys
  rcases Option.bind_eq_some_iff.mp hys with ⟨fs, hfs, hys⟩
  rw [fields?_flatMap_eq_some f hfs] at hys
  rcases Option.bind_eq_some_iff.mp hys with ⟨parts, hparts, hys⟩
  cases hys
  rw [only_mapM ?_ parts hparts, List.filterMap_map]
  · simp
  · intro x hx
    exact (hread x hx).map some

theorem only_afterMessage
    {nested : Nested} {number : Nat} {bs : Bytes} {d : Data} (hnumber : 1 ≤ number)
    (hsmall : number < 15)
    (hfield : Only (afterField nested none ⟨number, .delimited bs⟩) (some d)) :
    Only (afterMessage nested none (delimited number bs)) (some d) := by
  intro r hr
  unfold afterMessage at hr
  rcases Option.bind_eq_some_iff.mp hr with ⟨fs, hfs, hr⟩
  rw [fields?_single_eq_some hnumber hsmall hfs, List.foldlM_cons] at hr
  rcases Option.bind_eq_some_iff.mp hr with ⟨current, hcurrent, hr⟩
  cases hr
  exact hfield r hcurrent

theorem only_keyValue
    {nested : Nested} {e : String × Data}
    (hvalue : Only (afterMessage nested none (value e.2)) (some e.2)) :
    Only (keyValue? nested (entry e)) e := by
  intro r hr
  unfold keyValue? at hr
  rcases Option.bind_eq_some_iff.mp hr with ⟨fs, hfs, hr⟩
  rw [entry] at hfs
  rcases fields?_delimited_eq_some (by omega) (by omega) hfs with ⟨rest, hrest, rfl⟩
  rw [fields?_single_eq_some (by omega) (by omega) hrest] at hr
  simp only [List.foldlM_cons, List.foldlM_nil, textOf?_text, Option.map_some,
    Option.bind_eq_bind, Option.bind_some, Option.pure_def, Option.bind_fun_some] at hr
  rcases Option.bind_eq_some_iff.mp hr with ⟨pair, hpair, hr⟩
  rcases Option.map_eq_some_iff.mp hpair with ⟨d, hd, rfl⟩
  rw [hvalue d hd] at hr
  exact (Option.some.inj hr).symm

mutual

theorem only_afterMessage_value :
    (n : Nat) -> (d : Data) -> Readable n d -> Only (afterMessage (nested n) none (value d)) (some d)
  | _, .null, _ => .of_eq (afterMessage_single fields?_null rfl)
  | _, .bool b, _ => by
      refine .of_eq (afterMessage_single (fields?_bool b) ?_)
      cases b <;> rfl
  | _, .number x, _ => by
      refine .of_eq (afterMessage_single (fields?_number x) ?_)
      change some (some (Data.number ⟨UInt64.ofNat x.bits.toNat⟩)) = _
      rw [UInt64.ofNat_toNat]
  | _, .string s, _ => by
      rw [value]
      refine only_afterMessage (by omega) (by omega) (.of_eq ?_)
      change (textOf? (text s)).map (fun s => some (Data.string s)) = _
      rw [textOf?_text]
      rfl
  | n + 1, .list ds, hreadable => by
      rw [value]
      refine only_afterMessage (by omega) (by omega) ?_
      exact (only_nested_list n ds hreadable).map fun more => some (Data.list more)
  | n + 1, .map es, hreadable => by
      rw [value]
      refine only_afterMessage (by omega) (by omega) ?_
      exact (only_nested_map n es hreadable.1 hreadable.2).map fun more => some (Data.map more)

theorem only_nested_list :
    (n : Nat) -> (ds : List Data) -> AllReadable n ds ->
      Only ((nested (n + 1)).list (items ds)) ds
  | n, ds, hreadable => by
      have hread := only_items n ds hreadable
      rw [items_eq_flatMap]
      exact only_repeated fun d hd => (hread d hd).map fun d => d.getD .null

theorem only_items :
    (n : Nat) -> (ds : List Data) -> AllReadable n ds ->
      forall d, d ∈ ds -> Only (afterMessage (nested n) none (value d)) (some d)
  | _, [], _ => fun _ hd => absurd hd List.not_mem_nil
  | n, d :: ds, hreadable => by
      rw [List.forall_mem_cons]
      exact ⟨only_afterMessage_value n d hreadable.1, only_items n ds hreadable.2⟩

theorem only_nested_map :
    (n : Nat) -> (es : List (String × Data)) -> Ascending es -> EntriesReadable n es ->
      Only ((nested (n + 1)).map (entries es)) es
  | n, es, hascending, hreadable => by
      have hread := only_entries n es hreadable
      rw [entries_eq_flatMap]
      change Only ((repeated? (keyValue? (nested n)) _).map Data.ofEntries) es
      have hentries := (only_repeated hread).map Data.ofEntries
      rwa [Data.ofEntries_of_ascending hascending] at hentries

theorem only_entries :
    (n : Nat) -> (es : List (String × Data)) -> EntriesReadable n es ->
      forall e, e ∈ es -> Only (keyValue? (nested n) (entry e)) e
  | _, [], _ => fun _ he => absurd he List.not_mem_nil
  | n, (k, d) :: es, hreadable => by
      rw [List.forall_mem_cons]
      exact ⟨only_keyValue (only_afterMessage_value n d hreadable.1),
        only_entries n es hreadable.2⟩

end

theorem only_read_write
    {es : List (String × Data)} (hascending : Ascending es)
    (hreadable : EntriesReadable (maxDepth / 2 - 1) es) :
    Only (read (write es)) (spelledEntries es) := by
  have hmap := only_nested_map (maxDepth / 2 - 1) es hascending hreadable
  unfold read write
  rw [show maxDepth / 2 = (maxDepth / 2 - 1) + 1 from rfl]
  exact hmap.map spelledEntries

end Struct
end DefTable
