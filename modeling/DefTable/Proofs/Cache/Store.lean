import DefTable.Cache.Basic
import Mathlib.Data.Finset.Card

/-!
# Stores

A store is asked by key.  Putting a compilation changes what is found under its key and nothing else,
and it adds a key if there was none.  A closed cache answers nothing.
-/

namespace DefTable
namespace Cache

namespace Store

variable {s : Store} {u : Stored} {key : String}

def keys (s : Store) : List String :=
  s.map Stored.key

theorem key_of_find? (h : s.find? key = some u) : u.key = key :=
  of_decide_eq_true (List.find?_some (p := fun v : Stored => decide (v.key = key)) h)

theorem find?_eq_none_iff : s.find? key = none <-> key ∉ s.keys := by
  unfold find? keys
  rw [List.find?_eq_none, List.mem_map]
  constructor
  · intro h hmem
    rcases hmem with ⟨v, hv, hkey⟩
    exact h v hv (decide_eq_true hkey)
  · intro h v hv hkey
    exact h ⟨v, hv, of_decide_eq_true hkey⟩

theorem find?_isSome_iff : (s.find? key).isSome = true <-> key ∈ s.keys := by
  rw [Option.isSome_iff_ne_none, Ne, find?_eq_none_iff, Classical.not_not]

theorem mem_keys_filter :
    key ∈ keys (s.filter fun v => v.key ≠ u.key) <-> key ∈ s.keys ∧ key ≠ u.key := by
  unfold keys
  simp only [List.mem_map, List.mem_filter, decide_eq_true_eq]
  constructor
  · intro h
    rcases h with ⟨v, ⟨hv, hne⟩, hkey⟩
    exact ⟨⟨v, hv, hkey⟩, hkey ▸ hne⟩
  · intro h
    rcases h with ⟨⟨v, hv, hkey⟩, hne⟩
    exact ⟨v, ⟨hv, hkey.symm ▸ hne⟩, hkey⟩

theorem keys_put (s : Store) (u : Stored) :
    (s.put u).keys = keys (s.filter fun v => v.key ≠ u.key) ++ [u.key] :=
  List.map_append

theorem mem_keys_put : key ∈ (s.put u).keys <-> u.key = key ∨ key ∈ s.keys := by
  rw [keys_put, List.mem_append, mem_keys_filter, List.mem_singleton]
  by_cases hkey : key = u.key
  · exact iff_of_true (.inr hkey) (.inl hkey.symm)
  · simp [hkey, Ne.symm hkey]

theorem find?_put_self (s : Store) (u : Stored) : (s.put u).find? u.key = some u := by
  have hothers : find? (s.filter fun v => v.key ≠ u.key) u.key = none := by
    rw [find?_eq_none_iff, mem_keys_filter]
    exact fun h => h.2 rfl
  unfold find? put at *
  rw [List.find?_append, hothers, Option.none_or, List.find?_singleton, decide_eq_true rfl]
  rfl

theorem find?_put_of_ne (s : Store) (h : u.key ≠ key) : (s.put u).find? key = s.find? key := by
  have hput : List.find? (fun v => decide (v.key = key)) [u] = none := by
    rw [List.find?_singleton, if_neg (ne_true_of_eq_false (decide_eq_false h))]
  unfold find? put
  rw [List.find?_append, hput, Option.or_none, List.find?_filter]
  congr 1
  funext v
  by_cases hkey : v.key = key
  · simp [hkey, Ne.symm h]
  · simp [hkey]

theorem nodup_keys_put (h : s.keys.Nodup) (u : Stored) : (s.put u).keys.Nodup := by
  rw [keys_put]
  apply List.Nodup.append
  · exact h.sublist (List.filter_sublist.map _)
  · exact List.nodup_singleton _
  · intro key hkey hself
    exact (mem_keys_filter.mp hkey).2 (List.mem_singleton.mp hself)

theorem find?_put_isSome :
    ((s.put u).find? key).isSome = true <-> u.key = key ∨ (s.find? key).isSome = true := by
  rw [find?_isSome_iff, find?_isSome_iff, mem_keys_put]

theorem length_eq_card (h : s.keys.Nodup) : s.length = s.keys.toFinset.card := by
  rw [List.toFinset_card_of_nodup h, keys, List.length_map]

theorem length_put (h : s.keys.Nodup) (u : Stored) :
    (s.put u).length = if u.key ∈ s.keys then s.length else s.length + 1 := by
  have hkeys : (s.put u).keys.toFinset = insert u.key s.keys.toFinset := by
    ext key
    rw [List.mem_toFinset, mem_keys_put, Finset.mem_insert, List.mem_toFinset, @eq_comm _ key]
  rw [length_eq_card (nodup_keys_put h u), hkeys, length_eq_card h]
  split
  · rename_i hmem
    rw [Finset.insert_eq_of_mem (List.mem_toFinset.mpr hmem)]
  · rename_i hmem
    rw [Finset.card_insert_of_notMem fun h => hmem (List.mem_toFinset.mp h)]

end Store

/-!
## Answers of a cache
-/

section

variable {c : Cache} {source : List UInt8} {names : List String} {u : Stored}

theorem get_of_closed (h : c.isOpen = false) : c.get source names = .error .closed := by
  unfold get
  rw [h]
  rfl

theorem get_of_find_none
    (hopen : c.isOpen = true) (hfind : c.store.find? (key source names) = none) :
    c.get source names = .ok none := by
  unfold get
  rw [hopen, hfind]
  rfl

theorem get_of_find_some
    (hopen : c.isOpen = true) (hfind : c.store.find? (key source names) = some u) :
    c.get source names = u.table.map fun t => some ⟨u.key, u.build, t⟩ := by
  unfold get
  rw [hopen, hfind]
  rfl

theorem put_of_closed (h : c.isOpen = false) (build : Build) (t : Table) :
    c.put build source names t = .error .closed := by
  unfold put
  rw [h]
  rfl

theorem put_of_open (h : c.isOpen = true) (build : Build) (t : Table) :
    c.put build source names t =
      .ok (⟨key source names, build, t⟩,
        { c with
          store := c.store.put ⟨key source names, build, Struct.write (Wire.ofEntries t)⟩ }) := by
  unfold put
  rw [h]
  rfl

theorem size_of_closed (h : c.isOpen = false) : c.size = .error .closed := by
  unfold size
  rw [h]
  rfl

theorem size_of_open (h : c.isOpen = true) : c.size = .ok c.store.length := by
  unfold size
  rw [h]
  rfl

end

end Cache
end DefTable
