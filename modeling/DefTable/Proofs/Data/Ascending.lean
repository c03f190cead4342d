import DefTable.Data.Basic
import DefTable.Table.Basic

/-!
# Entries in ascending order

Tables and maps are kept in ascending order of their keys by the same way of placing an entry.  It
keeps the order, and it changes nothing about entries that come in order already.
-/

namespace DefTable

def place {β : Type} (key : String) (v : β) : List (String × β) -> List (String × β)
  | [] => [(key, v)]
  | entry :: rest =>
    if key < entry.1 then (key, v) :: entry :: rest
    else if key = entry.1 then (key, v) :: rest
    else entry :: place key v rest

theorem place_cons {β : Type} (key : String) (v : β) (entry : String × β)
    (rest : List (String × β)) :
    place key v (entry :: rest) =
      if key < entry.1 then (key, v) :: entry :: rest
      else if key = entry.1 then (key, v) :: rest
      else entry :: place key v rest := rfl

theorem Table.insert_eq_place (id : String) (d : Def) (t : Table) :
    t.insert id d = place id d t := by
  induction t with
  | nil => rfl
  | cons entry rest ih => rw [Table.insert, place_cons, ih]

theorem Data.insert_eq_place (key : String) (d : Data) (es : List (String × Data)) :
    Data.insert key d es = place key d es := by
  induction es with
  | nil => rfl
  | cons entry rest ih => rw [Data.insert, place_cons, ih]

def Ascending {β : Type} (es : List (String × β)) : Prop :=
  es.Pairwise fun a b => a.1 < b.1

section

variable {β : Type} {key : String} {v : β} {es : List (String × β)}

theorem ascending_single (a : String × β) : Ascending [a] :=
  List.pairwise_singleton _ a

theorem ascending_pair {a b : String} {x y : β} (h : a < b) : Ascending [(a, x), (b, y)] := by
  refine List.pairwise_cons.mpr ⟨?_, ascending_single (b, y)⟩
  intro entry hentry
  rw [List.mem_singleton.mp hentry]
  exact h

theorem ascending_triple {a b c : String} {x y z : β} (hab : a < b) (hbc : b < c) :
    Ascending [(a, x), (b, y), (c, z)] := by
  refine List.pairwise_cons.mpr ⟨?_, ascending_pair hbc⟩
  intro entry hentry
  rcases List.mem_cons.mp hentry with heq | hlast
  · rw [heq]
    exact hab
  · rw [List.mem_singleton.mp hlast]
    exact String.lt_trans hab hbc

theorem mem_place {entry : String × β} (h : entry ∈ place key v es) :
    entry = (key, v) ∨ entry ∈ es := by
  induction es with
  | nil => exact Or.inl (List.mem_singleton.mp h)
  | cons first rest ih =>
      rw [place_cons] at h
      split at h
      · exact List.mem_cons.mp h
      · split at h
        · rcases List.mem_cons.mp h with heq | hrest
          · exact Or.inl heq
          · exact Or.inr (List.mem_cons_of_mem first hrest)
        · rcases List.mem_cons.mp h with heq | hrest
          · exact Or.inr (List.mem_cons.mpr (.inl heq))
          · rcases ih hrest with heq | hmem
            · exact Or.inl heq
            · exact Or.inr (List.mem_cons_of_mem first hmem)

theorem ascending_place (h : Ascending es) : Ascending (place key v es) := by
  induction es with
  | nil => exact List.pairwise_singleton _ _
  | cons first rest ih =>
      rcases List.pairwise_cons.mp h with ⟨hfirst, hrest⟩
      rw [place_cons]
      split
      · rename_i hlt
        refine List.pairwise_cons.mpr ⟨?_, h⟩
        intro entry hentry
        rcases List.mem_cons.mp hentry with rfl | hlater
        · exact hlt
        · exact String.lt_trans hlt (hfirst entry hlater)
      · split
        · rename_i heq
          refine List.pairwise_cons.mpr ⟨?_, hrest⟩
          intro entry hentry
          rw [heq]
          exact hfirst entry hentry
        · rename_i hnotlt hne
          refine List.pairwise_cons.mpr ⟨?_, ih hrest⟩
          intro entry hentry
          rcases mem_place hentry with rfl | hmem
          · rcases Std.lt_trichotomy key first.1 with hlt | heq | hgt
            · exact absurd hlt hnotlt
            · exact absurd heq hne
            · exact hgt
          · exact hfirst entry hmem

theorem place_front (h : forall entry, entry ∈ es -> key < entry.1) :
    place key v es = (key, v) :: es := by
  cases es with
  | nil => rfl
  | cons first rest => rw [place_cons, if_pos (h first List.mem_cons_self)]

theorem place_perm
    (hnew : forall entry, entry ∈ es -> key ≠ entry.1) :
    (place key v es).Perm ((key, v) :: es) := by
  induction es with
  | nil => exact List.Perm.refl _
  | cons first rest ih =>
      rw [List.forall_mem_cons] at hnew
      rw [place_cons]
      by_cases hlt : key < first.1
      · rw [if_pos hlt]
      · rw [if_neg hlt, if_neg hnew.1]
        exact ((ih hnew.2).cons first).trans (List.Perm.swap _ _ _)

theorem foldl_place_perm
    {before : List (String × β)} (h : (es ++ before).Pairwise fun a b => a.1 ≠ b.1) :
    (es.foldl (fun acc e => place e.1 e.2 acc) before).Perm (es ++ before) := by
  induction es generalizing before with
  | nil => exact List.Perm.refl _
  | cons first rest ih =>
      rw [List.cons_append, List.pairwise_cons] at h
      have hplace : (place first.1 first.2 before).Perm (first :: before) :=
        place_perm fun entry hentry => h.1 entry (List.mem_append_right rest hentry)
      have hperm : (rest ++ place first.1 first.2 before).Perm (first :: (rest ++ before)) :=
        (hplace.append_left rest).trans List.perm_middle
      exact (ih ((hperm.pairwise_iff Ne.symm).mpr (List.pairwise_cons.mpr h))).trans hperm

theorem ascending_foldl_place
    {before : List (String × β)} (h : Ascending before) :
    Ascending (es.foldl (fun acc e => place e.1 e.2 acc) before) := by
  induction es generalizing before with
  | nil => exact h
  | cons first rest ih => exact ih (ascending_place h)

theorem Ascending.keys_ne (h : Ascending es) : es.Pairwise fun a b => a.1 ≠ b.1 := by
  refine List.Pairwise.imp ?_ (show es.Pairwise fun a b => a.1 < b.1 from h)
  intro a b hlt heq
  rw [heq] at hlt
  exact String.lt_irrefl _ hlt

end

theorem Data.ofEntries_of_perm
    {es es' : List (String × Data)} (h : Ascending es) (hperm : es'.Perm es) :
    Data.ofEntries es' = es := by
  have hkeys : (es' ++ []).Pairwise fun a b : String × Data => a.1 ≠ b.1 := by
    rw [List.append_nil]
    exact (hperm.pairwise_iff Ne.symm).mpr h.keys_ne
  have hsorted := foldl_place_perm hkeys
  rw [List.append_nil] at hsorted
  unfold Data.ofEntries
  simp only [Data.insert_eq_place]
  exact (hsorted.trans hperm).eq_of_pairwise
    (fun _ _ _ _ hlt hgt => absurd hgt (String.lt_asymm hlt)) (ascending_foldl_place .nil) h

theorem Data.ofEntries_of_ascending
    {es : List (String × Data)} (h : Ascending es) : Data.ofEntries es = es :=
  ofEntries_of_perm h (List.Perm.refl es)

end DefTable
