import DefTable.Proofs.Data.Ascending
import DefTable.Table.Basic
import Mathlib.Data.List.Nodup
import Mathlib.Data.List.Perm.Basic

/-!
# Tables and the entries put into them

A table that is filled one entry after another holds no others, and has the identifiers of all of
them.  If each stands under an identifier of its own, the table holds exactly these entries.
-/

namespace DefTable
namespace Table

abbrev Entry := String × Def

def put (t : Table) (e : Entry) : Table :=
  t.insert e.1 e.2

def collect (out : List Entry) : Table :=
  out.foldl put []

/-!
## Filling a table

A later entry may replace an earlier one; the identifiers of both still stand in the table.
-/

theorem put_eq_place : put = fun t e => place e.1 e.2 t :=
  funext fun t => funext fun e => insert_eq_place e.1 e.2 t

theorem mem_identifiers_insert (id : String) (d : Def) (t : Table) (x : String) :
    x ∈ (t.insert id d).identifiers <-> x = id ∨ x ∈ t.identifiers := by
  induction t with
  | nil => simp [insert, identifiers]
  | cons first rest ih =>
      unfold identifiers at ih ⊢
      rw [insert]
      split
      · simp
      · split
        · rename_i heq
          simp [heq]
        · rw [List.map_cons, List.mem_cons, ih, List.map_cons, List.mem_cons, or_left_comm]

theorem identifiers_insert_perm {id : String} {t : Table} (hnew : id ∉ t.identifiers) (d : Def) :
    (t.insert id d).identifiers.Perm (id :: t.identifiers) := by
  have hplace : (t.insert id d).Perm ((id, d) :: t) := by
    rw [insert_eq_place]
    apply place_perm
    intro entry hentry heq
    exact hnew (heq ▸ List.mem_map_of_mem hentry)
  exact hplace.map Prod.fst

theorem mem_of_mem_collect {out : List Entry} {entry : Entry} (h : entry ∈ collect out) :
    entry ∈ out := by
  have hfold : forall t : Table, entry ∈ out.foldl put t -> entry ∈ out ∨ entry ∈ t := by
    clear h
    induction out with
    | nil => exact fun _ => Or.inr
    | cons first rest ih =>
        intro t h
        rcases ih _ h with hlater | hput
        · exact Or.inl (List.mem_cons_of_mem first hlater)
        · rw [put_eq_place] at hput
          rcases mem_place hput with hfirst | hold
          · exact Or.inl (hfirst ▸ List.mem_cons_self)
          · exact Or.inr hold
  exact (hfold [] h).resolve_right List.not_mem_nil

theorem mem_identifiers_collect (out : List Entry) (id : String) :
    id ∈ (collect out).identifiers <-> id ∈ out.map Prod.fst := by
  have hfold : forall t : Table,
      id ∈ (out.foldl put t).identifiers <-> id ∈ out.map Prod.fst ∨ id ∈ t.identifiers := by
    induction out with
    | nil => simp
    | cons first rest ih =>
        intro t
        rw [List.foldl_cons, ih, put, mem_identifiers_insert, List.map_cons, List.mem_cons,
          or_assoc, or_left_comm]
  exact (hfold []).trans (or_iff_left List.not_mem_nil)

theorem identifiers_perm
    {t u : Table} (hperm : t.Perm u) :
    t.identifiers.Perm u.identifiers :=
  hperm.map Prod.fst

theorem collect_perm
    {out : List Entry} (hnodup : (out.map Prod.fst).Nodup) :
    (collect out).Perm out := by
  have hkeys : (out ++ []).Pairwise fun a b : Entry => a.1 ≠ b.1 := by
    rw [List.append_nil]
    exact List.pairwise_map.mp hnodup
  have hfilled : (out.foldl put []).Perm (out ++ []) := by
    rw [put_eq_place]
    exact foldl_place_perm hkeys
  rwa [List.append_nil] at hfilled

theorem nodup_identifiers_collect
    {out : List Entry} (hnodup : (out.map Prod.fst).Nodup) :
    (collect out).identifiers.Nodup :=
  (identifiers_perm (collect_perm hnodup)).nodup_iff.mpr hnodup

/-!
## Looking an entry up
-/

theorem get?_insert (t : Table) (id : String) (d : Def) (asked : String) :
    (t.insert id d).get? asked = if asked = id then some d else t.get? asked := by
  unfold get?
  induction t with
  | nil =>
      rw [insert, List.lookup_cons]
      by_cases heq : asked = id
      · rw [beq_iff_eq.mpr heq, if_pos heq]
      · rw [beq_false_of_ne heq, if_neg heq]
  | cons first rest ih =>
      rw [insert]
      by_cases hlt : id < first.1
      · rw [if_pos hlt, List.lookup_cons]
        by_cases heq : asked = id
        · rw [beq_iff_eq.mpr heq, if_pos heq]
        · rw [beq_false_of_ne heq, if_neg heq]
      · rw [if_neg hlt]
        by_cases hsame : id = first.1
        · rw [if_pos hsame, List.lookup_cons, List.lookup_cons, hsame]
          by_cases heq : asked = first.1
          · rw [beq_iff_eq.mpr heq, if_pos heq]
          · rw [beq_false_of_ne heq, if_neg heq]
        · rw [if_neg hsame, List.lookup_cons, List.lookup_cons, ih]
          by_cases heq : asked = first.1
          · have hne : asked ≠ id := fun hasked => hsame (hasked.symm.trans heq)
            rw [beq_iff_eq.mpr heq, if_neg hne, if_neg hne]
          · rw [beq_false_of_ne heq]

theorem get?_eq_some_of_mem
    {t : Table} {id : String} {d : Def}
    (hnodup : t.identifiers.Nodup) (hmem : (id, d) ∈ t) :
    t.get? id = some d := by
  induction t with
  | nil =>
      cases hmem
  | cons entry rest ih =>
      have hsplit : entry.1 ∉ identifiers rest ∧ (identifiers rest).Nodup := by
        simpa [identifiers] using hnodup
      rcases List.mem_cons.mp hmem with hhead | htail
      · subst hhead
        exact List.lookup_cons_self
      · have hne : id ≠ entry.1 := by
          intro heq
          exact hsplit.1 (heq ▸ List.mem_map_of_mem (f := Prod.fst) htail)
        rw [get?, List.lookup_cons, beq_false_of_ne hne]
        exact ih hsplit.2 htail

theorem get?_eq_none_of_not_mem
    {t : Table} {id : String} (hnew : id ∉ t.identifiers) :
    t.get? id = none := by
  rw [get?, List.lookup_eq_none_iff]
  intro entry hmem
  have hne : id ≠ entry.1 := by
    intro heq
    exact hnew (heq ▸ List.mem_map_of_mem (f := Prod.fst) hmem)
  simpa using hne

end Table
end DefTable
