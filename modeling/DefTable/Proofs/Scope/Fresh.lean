import DefTable.Scope.Basic
import Mathlib.Data.List.Nodup
import Mathlib.Data.List.Perm.Subperm

/-!
# Fresh identifiers

A synthetic identifier is an underscore, a number and a hint.  The search for a fresh one ends at
an identifier that nothing taken is equal to, because candidates with different numbers differ and
there is one candidate more than there are taken identifiers.
-/

namespace DefTable
namespace Scope

/-!
## The shape of synthetic identifiers
-/

def isSynthetic (name : String) : Bool :=
  match name.toList with
  | '_' :: c :: _ => c.isDigit
  | _ => false

theorem candidate_toList (hint : String) (k : Nat) :
    (candidate hint k).toList = '_' :: (Nat.toDigits 10 k ++ hint.toList) := by
  simp [candidate, String.toList_append]

theorem candidate_injective
    {hint : String} {j k : Nat}
    (heq : candidate hint j = candidate hint k) :
    j = k := by
  have hlists := congrArg String.toList heq
  rw [candidate_toList, candidate_toList] at hlists
  injection hlists with _ htails
  have hdigits : Nat.toDigits 10 j = Nat.toDigits 10 k := List.append_cancel_right htails
  have hvalues := congrArg (fun cs => Nat.ofDigitChars 10 cs 0) hdigits
  simpa using hvalues

theorem candidate_isSynthetic (hint : String) (k : Nat) :
    isSynthetic (candidate hint k) = true := by
  unfold isSynthetic
  rw [candidate_toList]
  cases hdigits : Nat.toDigits 10 k with
  | nil =>
      exact absurd hdigits Nat.toDigits_ne_nil
  | cons c rest =>
      have hmem : c ∈ Nat.toDigits 10 k := by
        rw [hdigits]
        exact List.mem_cons_self
      exact Nat.isDigit_of_mem_toDigits (by decide) (by decide) hmem

theorem candidate_ne_empty (hint : String) (k : Nat) :
    candidate hint k ≠ "" := by
  intro heq
  have hlists := congrArg String.toList heq
  rw [candidate_toList] at hlists
  exact List.cons_ne_nil _ _ hlists

theorem candidate_ne_resultId (hint : String) (k : Nat) :
    candidate hint k ≠ "=" := by
  intro heq
  have hlists := congrArg String.toList heq
  rw [candidate_toList] at hlists
  injection hlists with hhead _
  exact absurd hhead (by decide)

theorem candidate_not_isGlobal (hint : String) (k : Nat) :
    isGlobal (candidate hint k) = false := by
  unfold isGlobal
  rw [candidate_toList, List.head?_cons]
  decide

/-!
## The search

Either the search stops at a free candidate, or it has passed as many taken candidates as it had
steps.
-/

theorem leastFree_free_or_exhausted
    (taken : List String) (hint : String) (steps k : Nat) :
    candidate hint (leastFree taken hint steps k) ∉ taken ∨
      (leastFree taken hint steps k = k + steps ∧
        forall i, i < steps -> candidate hint (k + i) ∈ taken) := by
  induction steps generalizing k with
  | zero =>
      exact Or.inr ⟨rfl, fun i hi => absurd hi (Nat.not_lt_zero i)⟩
  | succ steps ih =>
      rw [leastFree]
      by_cases htaken : taken.contains (candidate hint k) = true
      · rw [if_pos htaken]
        rcases ih (k + 1) with hfree | ⟨hend, hpassed⟩
        · exact Or.inl hfree
        · refine Or.inr ⟨by omega, ?_⟩
          intro i hi
          cases i with
          | zero =>
              exact List.contains_iff_mem.mp htaken
          | succ i =>
              have hstep := hpassed i (by omega)
              rwa [Nat.add_assoc, Nat.add_comm 1 i] at hstep
      · rw [if_neg htaken]
        exact Or.inl (fun hmem => htaken (List.contains_iff_mem.mpr hmem))

theorem leastFree_free (taken : List String) (hint : String) (k : Nat) :
    candidate hint (leastFree taken hint taken.length k) ∉ taken := by
  rcases leastFree_free_or_exhausted taken hint taken.length k with hfree | ⟨hend, hpassed⟩
  · exact hfree
  · intro hlast
    rw [hend] at hlast
    let passed := (List.range (taken.length + 1)).map fun i => candidate hint (k + i)
    have hnodup : passed.Nodup := by
      refine List.Nodup.map_on ?_ List.nodup_range
      intro i _ j _ heq
      have hsum := candidate_injective heq
      omega
    have hsubset : passed ⊆ taken := by
      intro x hx
      rcases List.mem_map.mp hx with ⟨i, hi, rfl⟩
      have hlt := List.mem_range.mp hi
      by_cases hlast' : i = taken.length
      · rw [hlast']
        exact hlast
      · exact hpassed i (by omega)
    have hlength := (List.subperm_of_subset hnodup hsubset).length_le
    simp only [passed, List.length_map, List.length_range] at hlength
    omega

theorem le_leastFree (taken : List String) (hint : String) (steps k : Nat) :
    k ≤ leastFree taken hint steps k := by
  induction steps generalizing k with
  | zero => exact Nat.le_refl k
  | succ steps ih =>
      rw [leastFree]
      split
      · exact Nat.le_of_succ_le (ih (k + 1))
      · exact Nat.le_refl k

theorem mem_of_lt_leastFree
    {taken : List String} {hint : String} {steps k i : Nat}
    (hle : k ≤ i) (hlt : i < leastFree taken hint steps k) : candidate hint i ∈ taken := by
  induction steps generalizing k with
  | zero => exact absurd hlt (Nat.not_lt.mpr hle)
  | succ steps ih =>
      rw [leastFree] at hlt
      split at hlt
      · rename_i htaken
        by_cases heq : i = k
        · rw [heq]
          exact List.contains_iff_mem.mp htaken
        · exact ih (by omega) hlt
      · exact absurd hlt (Nat.not_lt.mpr hle)

theorem leastFree_congr
    {taken taken' : List String} {hint : String}
    (hsame : forall i, candidate hint i ∈ taken <-> candidate hint i ∈ taken') (k : Nat) :
    leastFree taken hint taken.length k = leastFree taken' hint taken'.length k := by
  have hfree := leastFree_free taken hint k
  have hfree' := leastFree_free taken' hint k
  rcases Nat.lt_trichotomy (leastFree taken hint taken.length k)
    (leastFree taken' hint taken'.length k) with hlt | heq | hgt
  · have hmem := mem_of_lt_leastFree (le_leastFree taken hint _ k) hlt
    exact absurd ((hsame _).mpr hmem) hfree
  · exact heq
  · have hmem := mem_of_lt_leastFree (le_leastFree taken' hint _ k) hgt
    exact absurd ((hsame _).mp hmem) hfree'

/-!
## Taking a fresh identifier
-/

/-- What it means to have taken the identifier `id` for `hint`. -/
structure Taken (space : Namespace) (visible : List String) (hint : String)
    (id : String) (space' : Namespace) : Prop where
  names_eq : space'.names = id :: space.names
  not_mem_names : id ∉ space.names
  not_mem_visible : id ∉ visible
  synthetic : exists k, id = candidate hint k

theorem taken_fresh (space : Namespace) (visible : List String) (hint : String) :
    Taken space visible hint (space.fresh visible hint).1 (space.fresh visible hint).2 := by
  have hfree := leastFree_free (space.names ++ visible) hint space.counter
  rw [List.mem_append, not_or] at hfree
  exact ⟨rfl, hfree.1, hfree.2, ⟨_, rfl⟩⟩

end Scope
end DefTable
