import DefTable.Proofs.Data.Faithful

/-!
# How deep data nests

Data is read back if its maps are in order and if maps and lists nest at most as deep as the reader
goes.  The two conditions are independent of each other, and the depth is a number of the data.  A
message of data that nests deeper is refused.
-/

namespace DefTable
namespace Data

mutual

/-- How many maps and lists stand inside of each other. -/
def levels : Data -> Nat
  | .list ds => levelsOfAll ds + 1
  | .map es => levelsOfEntries es + 1
  | _ => 0

def levelsOfAll : List Data -> Nat
  | [] => 0
  | d :: ds => max (levels d) (levelsOfAll ds)

def levelsOfEntries : List (String × Data) -> Nat
  | [] => 0
  | (_, d) :: es => max (levels d) (levelsOfEntries es)

end

mutual

/-- The data is made of what tables are written as, with maps in order. -/
def Ordered : Data -> Prop
  | .list ds => AllOrdered ds
  | .map es => Ascending es ∧ EntriesOrdered es
  | .integer _ => False
  | .time _ => False
  | .mixedMap _ => False
  | _ => True

def AllOrdered : List Data -> Prop
  | [] => True
  | d :: ds => Ordered d ∧ AllOrdered ds

def EntriesOrdered : List (String × Data) -> Prop
  | [] => True
  | (_, d) :: es => Ordered d ∧ EntriesOrdered es

end

end Data

namespace Struct

open Data (levels levelsOfAll levelsOfEntries Ordered AllOrdered EntriesOrdered)

mutual

theorem readable_iff : forall (n : Nat) (d : Data), Readable n d <-> d.Ordered ∧ d.levels ≤ n
  | n, .null => by cases n <;> simp [Readable, Ordered, levels]
  | n, .bool _ => by cases n <;> simp [Readable, Ordered, levels]
  | n, .number _ => by cases n <;> simp [Readable, Ordered, levels]
  | n, .string _ => by cases n <;> simp [Readable, Ordered, levels]
  | n, .integer _ => by cases n <;> simp [Readable, Ordered]
  | n, .time _ => by cases n <;> simp [Readable, Ordered]
  | n, .mixedMap _ => by cases n <;> simp [Readable, Ordered]
  | 0, .list _ => by simp [Readable, levels]
  | n + 1, .list ds => by
      rw [Readable, Ordered, levels, Nat.succ_le_succ_iff]
      exact allReadable_iff n ds
  | 0, .map _ => by simp [Readable, levels]
  | n + 1, .map es => by
      rw [Readable, Ordered, levels, Nat.succ_le_succ_iff, and_assoc, entriesReadable_iff n es]

theorem allReadable_iff :
    forall (n : Nat) (ds : List Data), AllReadable n ds <-> AllOrdered ds ∧ levelsOfAll ds ≤ n
  | n, [] => by simp [AllReadable, AllOrdered, levelsOfAll]
  | n, d :: ds => by
      rw [AllReadable, AllOrdered, levelsOfAll, Nat.max_le, readable_iff n d, allReadable_iff n ds]
      exact and_and_and_comm

theorem entriesReadable_iff :
    forall (n : Nat) (es : List (String × Data)),
      EntriesReadable n es <-> EntriesOrdered es ∧ levelsOfEntries es ≤ n
  | n, [] => by simp [EntriesReadable, EntriesOrdered, levelsOfEntries]
  | n, (_, d) :: es => by
      rw [EntriesReadable, EntriesOrdered, levelsOfEntries, Nat.max_le, readable_iff n d,
        entriesReadable_iff n es]
      exact and_and_and_comm

end

theorem EntriesReadable.mono
    {n m : Nat} {es : List (String × Data)} (h : EntriesReadable n es) (hle : n ≤ m) :
    EntriesReadable m es := by
  rw [entriesReadable_iff] at h ⊢
  exact ⟨h.1, Nat.le_trans h.2 hle⟩

/-!
## Messages that are refused
-/

theorem exists_of_mapM
    {α β γ : Type} {g : β -> Option γ} {f : α -> β} {xs : List α} {ys : List γ}
    (h : (xs.map f).mapM g = some ys) : forall x, x ∈ xs -> exists y, g (f x) = some y := by
  induction xs generalizing ys with
  | nil => exact fun _ hx => absurd hx List.not_mem_nil
  | cons x xs ih =>
      rw [List.map_cons, List.mapM_cons] at h
      rcases Option.bind_eq_some_iff.mp h with ⟨y, hy, h⟩
      rcases Option.bind_eq_some_iff.mp h with ⟨ys', hys, _⟩
      exact List.forall_mem_cons.mpr ⟨⟨y, hy⟩, ih hys⟩

theorem exists_of_repeated
    {α β : Type} {read : Bytes -> Option β} {f : α -> Bytes} {xs : List α} {ys : List β}
    (h : repeated? read (xs.flatMap fun x => delimited 1 (f x)) = some ys) :
    forall x, x ∈ xs -> exists y, read (f x) = some y := by
  unfold repeated? at h
  rcases Option.bind_eq_some_iff.mp h with ⟨fs, hfs, h⟩
  rw [fields?_flatMap_eq_some f hfs] at h
  rcases Option.bind_eq_some_iff.mp h with ⟨parts, hparts, _⟩
  intro x hx
  rcases exists_of_mapM hparts x hx with ⟨part, hpart⟩
  rcases Option.map_eq_some_iff.mp hpart with ⟨y, hy, _⟩
  exact ⟨y, hy⟩

theorem exists_of_afterMessage
    {nested : Nested} {number : Nat} {bs : Bytes} {r : Option Data} (hnumber : 1 ≤ number)
    (hsmall : number < 15) (h : afterMessage nested none (delimited number bs) = some r) :
    exists current, afterField nested none ⟨number, .delimited bs⟩ = some current := by
  unfold afterMessage at h
  rcases Option.bind_eq_some_iff.mp h with ⟨fs, hfs, h⟩
  rw [fields?_single_eq_some hnumber hsmall hfs, List.foldlM_cons] at h
  rcases Option.bind_eq_some_iff.mp h with ⟨current, hcurrent, _⟩
  exact ⟨current, hcurrent⟩

theorem exists_of_keyValue
    {nested : Nested} {e r : String × Data} (h : keyValue? nested (entry e) = some r) :
    exists x, afterMessage nested none (value e.2) = some x := by
  unfold keyValue? at h
  rcases Option.bind_eq_some_iff.mp h with ⟨fs, hfs, h⟩
  rw [entry] at hfs
  rcases fields?_delimited_eq_some (by omega) (by omega) hfs with ⟨rest, hrest, rfl⟩
  rw [fields?_single_eq_some (by omega) (by omega) hrest] at h
  simp only [List.foldlM_cons, List.foldlM_nil, textOf?_text, Option.map_some,
    Option.bind_eq_bind, Option.bind_some, Option.pure_def, Option.bind_fun_some] at h
  rcases Option.bind_eq_some_iff.mp h with ⟨pair, hpair, _⟩
  rcases Option.map_eq_some_iff.mp hpair with ⟨x, hx, _⟩
  exact ⟨x, hx⟩

mutual

theorem levels_of_afterMessage :
    forall (n : Nat) (d : Data) {x : Option Data},
      afterMessage (nested n) none (value d) = some x -> d.levels ≤ n
  | n, .null, _, _ => Nat.zero_le n
  | n, .bool _, _, _ => Nat.zero_le n
  | n, .number _, _, _ => Nat.zero_le n
  | n, .string _, _, _ => Nat.zero_le n
  | n, .integer _, _, _ => Nat.zero_le n
  | n, .time _, _, _ => Nat.zero_le n
  | n, .mixedMap _, _, _ => Nat.zero_le n
  | n, .list ds, _, h => by
      rw [value] at h
      rcases exists_of_afterMessage (by omega) (by omega) h with ⟨current, hcurrent⟩
      rcases Option.map_eq_some_iff.mp hcurrent with ⟨more, hmore, _⟩
      cases n with
      | zero => cases hmore
      | succ n =>
          rw [items_eq_flatMap] at hmore
          refine Nat.succ_le_succ (levelsOfAll_of_afterMessage n ds fun d hd => ?_)
          rcases exists_of_repeated hmore d hd with ⟨d', hd'⟩
          rcases Option.map_eq_some_iff.mp hd' with ⟨x, hx, _⟩
          exact ⟨x, hx⟩
  | n, .map es, _, h => by
      rw [value] at h
      rcases exists_of_afterMessage (by omega) (by omega) h with ⟨current, hcurrent⟩
      rcases Option.map_eq_some_iff.mp hcurrent with ⟨more, hmore, _⟩
      cases n with
      | zero => cases hmore
      | succ n => exact Nat.succ_le_succ (levelsOfEntries_of_nested n es hmore)

theorem levelsOfAll_of_afterMessage :
    forall (n : Nat) (ds : List Data),
      (forall d, d ∈ ds -> exists x, afterMessage (nested n) none (value d) = some x) ->
        levelsOfAll ds ≤ n
  | n, [], _ => Nat.zero_le n
  | n, d :: ds, h => by
      rw [List.forall_mem_cons] at h
      rcases h.1 with ⟨x, hx⟩
      exact Nat.max_le.mpr
        ⟨levels_of_afterMessage n d hx, levelsOfAll_of_afterMessage n ds h.2⟩

theorem levelsOfEntries_of_nested :
    forall (n : Nat) (es : List (String × Data)) {more : List (String × Data)},
      (nested (n + 1)).map (entries es) = some more -> levelsOfEntries es ≤ n
  | n, es, more, h => by
      rw [entries_eq_flatMap] at h
      rcases Option.map_eq_some_iff.mp h with ⟨read, hread, _⟩
      refine levelsOfEntries_of_afterMessage n es fun e he => ?_
      rcases exists_of_repeated hread e he with ⟨r, hr⟩
      exact exists_of_keyValue hr

theorem levelsOfEntries_of_afterMessage :
    forall (n : Nat) (es : List (String × Data)),
      (forall e, e ∈ es -> exists x, afterMessage (nested n) none (value e.2) = some x) ->
        levelsOfEntries es ≤ n
  | n, [], _ => Nat.zero_le n
  | n, (_, d) :: es, h => by
      rw [List.forall_mem_cons] at h
      rcases h.1 with ⟨x, hx⟩
      exact Nat.max_le.mpr
        ⟨levels_of_afterMessage n d hx, levelsOfEntries_of_afterMessage n es h.2⟩

end

theorem read_write_of_deep
    {es : List (String × Data)} (h : maxDepth / 2 < (Data.map es).levels) :
    read (write es) = none := by
  have hbudget : maxDepth / 2 = (maxDepth / 2 - 1) + 1 := rfl
  unfold read write
  cases hmap : (nested (maxDepth / 2)).map (entries es) with
  | none => rfl
  | some more =>
      rw [hbudget] at hmap
      have hlevels := levelsOfEntries_of_nested (maxDepth / 2 - 1) es hmap
      rw [levels, hbudget] at h
      omega

end Struct
end DefTable
