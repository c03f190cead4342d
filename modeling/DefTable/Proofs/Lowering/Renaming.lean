import DefTable.Proofs.Lowering.Emission
import DefTable.Proofs.Scope.Fresh
import Mathlib.Logic.Equiv.Basic
import Mathlib.Algebra.Group.End

/-!
# Tables that differ in their synthetic identifiers

Two tables are equal up to renaming if a permutation that moves synthetic identifiers only takes the
identifiers of the one to those of the other, and equal definitions stand under them.  A function
brings a permutation of its own for its own table; a mention inside of it is renamed by the
permutation of the table that the identifier is found in.
-/

namespace DefTable
namespace Lowering

open Scope (candidate isSynthetic)
open Table (Entry)

/-!
## Renamings
-/

/-- A level of one table and the level at the same place of another, with a permutation that takes
the identifiers of the one to those of the other. -/
structure Layer where
  before : Level
  after : Level
  relabel : Equiv.Perm String

def KeepsOrdinary (relabel : Equiv.Perm String) : Prop :=
  forall id, isSynthetic id = false -> relabel id = id

/-- Looked up from the innermost layer outwards, the identifiers are found in the same layer and are
renamed there.  What is found in no layer is not renamed. -/
def Corresponds : List Layer -> String -> String -> Prop
  | [], id, id' => id = id'
  | l :: outer, id, id' =>
    if id ∈ l.before.identifiers then id' ∈ l.after.identifiers ∧ l.relabel id = id'
    else id' ∉ l.after.identifiers ∧ Corresponds outer id id'

structure CasesCorrespond (layers : List Layer) (c c' : Case) : Prop where
  guard : Option.Rel (Corresponds layers) c.guard c'.guard
  value : Corresponds layers c.value c'.value

inductive Renamed : List Layer -> Def -> Def -> Prop where
  | number {layers v} : Renamed layers (.number v) (.number v)
  | string {layers v} : Renamed layers (.string v) (.string v)
  | bool {layers v} : Renamed layers (.bool v) (.bool v)
  | null {layers} : Renamed layers .null .null
  | matrix {layers cells} : Renamed layers (.matrix cells) (.matrix cells)
  | list {layers items items'} :
      List.Forall₂ (Corresponds layers) items items' ->
      Renamed layers (.list items) (.list items')
  | call {layers target target' args args'} :
      Corresponds layers target target' ->
      List.Forall₂ (Corresponds layers) args args' ->
      Renamed layers (.call target args) (.call target' args')
  | switch {layers cases cases'} :
      List.Forall₂ (CasesCorrespond layers) cases cases' ->
      Renamed layers (.switch cases) (.switch cases')
  | func {layers params body body'} (relabel : Equiv.Perm String) :
      KeepsOrdinary relabel ->
      (forall q, q ∈ params -> relabel q = q) ->
      (Table.identifiers body').Perm ((Table.identifiers body).map relabel) ->
      (forall id d d', (id, d) ∈ body -> (relabel id, d') ∈ body' ->
        Renamed (⟨⟨params, body⟩, ⟨params, body'⟩, relabel⟩ :: layers) d d') ->
      Renamed layers (.func params body) (.func params body')

/-- The tables of two programs are equal up to renaming. -/
def RenamedTable (t t' : Table) : Prop :=
  Renamed [] (.func [] t) (.func [] t')

/-!
## Renaming one list of identifiers to another
-/

theorem exists_perm_map
    {α : Type} [DecidableEq α] {xs ys : List α} (hlength : xs.length = ys.length)
    (hxs : xs.Nodup) (hys : ys.Nodup) :
    exists f : Equiv.Perm α, xs.map f = ys ∧ forall z, z ∉ xs -> z ∉ ys -> f z = z := by
  induction xs generalizing ys with
  | nil =>
      cases ys with
      | nil => exact ⟨1, rfl, fun _ _ _ => rfl⟩
      | cons y ys => cases hlength
  | cons x xs ih =>
      cases ys with
      | nil => cases hlength
      | cons y ys =>
          rw [List.nodup_cons] at hxs hys
          rcases ih (Nat.succ.inj hlength) hxs.2 hys.2 with ⟨f, hmap, hfixed⟩
          -- The image of `x` is exchanged for `y`; neither is among the images of the others.
          refine ⟨Equiv.swap y (f x) * f, ?_, ?_⟩
          · rw [List.map_cons, Equiv.Perm.mul_apply, Equiv.swap_apply_right, ← hmap]
            refine congrArg (y :: ·) (List.map_congr_left fun a ha => ?_)
            have hy : f a ≠ y := by
              intro heq
              exact hys.1 (heq ▸ hmap ▸ List.mem_map_of_mem ha)
            have hx : f a ≠ f x := by
              intro heq
              exact hxs.1 (f.injective heq ▸ ha)
            exact Equiv.swap_apply_of_ne_of_ne hy hx
          · intro z hzx hzy
            rw [List.mem_cons, not_or] at hzx hzy
            have hz : f z = z := hfixed z hzx.2 hzy.2
            have hx : z ≠ f x := by
              intro heq
              exact hzx.1 (f.injective (hz.trans heq))
            rw [Equiv.Perm.mul_apply, hz, Equiv.swap_apply_of_ne_of_ne hzy.1 hx]

/-- The identifiers are equal, or both are synthetic. -/
def Paired (id id' : String) : Prop :=
  id = id' ∨ (isSynthetic id = true ∧ isSynthetic id' = true)

theorem paired_candidate (name : String) (k k' : Nat) :
    Paired (candidate name k) (candidate name k') :=
  Or.inr ⟨Scope.candidate_isSynthetic name k, Scope.candidate_isSynthetic name k'⟩

theorem exists_renaming
    {ids ids' : List String} (hpaired : List.Forall₂ Paired ids ids')
    (hids : ids.Nodup) (hids' : ids'.Nodup) :
    exists relabel : Equiv.Perm String, KeepsOrdinary relabel ∧ ids.map relabel = ids' ∧
      forall id, id ∉ ids -> id ∉ ids' -> relabel id = id := by
  rcases exists_perm_map hpaired.length_eq hids hids' with ⟨f, hmap, hfixed⟩
  refine ⟨f, ?_, hmap, hfixed⟩
  intro id hordinary
  have hown : forall x, x ∈ ids -> Paired x (f x) := by
    rw [← hmap, List.forall₂_map_right_iff] at hpaired
    exact List.forall₂_same.mp hpaired
  have hequal : forall x, x ∈ ids -> x = id ∨ f x = id -> f x = x := by
    intro x hx hid
    rcases hown x hx with heq | ⟨hsynthetic, hsynthetic'⟩
    · exact heq.symm
    · rcases hid with rfl | rfl
      · rw [hordinary] at hsynthetic
        cases hsynthetic
      · rw [hordinary] at hsynthetic'
        cases hsynthetic'
  by_cases hid : id ∈ ids
  · exact hequal id hid (Or.inl rfl)
  · by_cases hid' : id ∈ ids'
    · rw [← hmap] at hid'
      rcases List.mem_map.mp hid' with ⟨x, hx, rfl⟩
      rw [hequal x hx (Or.inr rfl)]
      exact hequal x hx (Or.inr rfl)
    · exact hfixed id hid hid'

/-!
## Looking identifiers up in two tables
-/

def layerAt (layers : List Layer) (depth : Nat) : Option Layer :=
  layers.reverse[depth]?

theorem layerAt_cons
    {layers : List Layer} {depth : Nat} (l : Layer) (hinside : depth < layers.length) :
    layerAt (l :: layers) depth = layerAt layers depth := by
  unfold layerAt
  rw [List.reverse_cons, List.getElem?_append_left (by simpa using hinside)]

theorem layerAt_length (l : Layer) (layers : List Layer) :
    layerAt (l :: layers) layers.length = some l := by
  unfold layerAt
  rw [List.reverse_cons, List.getElem?_append_right (by simp)]
  simp

def SitesAgree (layers : List Layer) (site site' : Site) : Prop :=
  site.depth? = site'.depth? ∧
    match site.depth? with
    | none => site.id = site'.id
    | some depth => exists l, layerAt layers depth = some l ∧ l.relabel site.id = site'.id

theorem reach_lt
    {levels : List Level} {id : String} {depth : Nat} (h : reach levels id = some depth) :
    depth < levels.length := by
  induction levels with
  | nil => cases h
  | cons l outer ih =>
      rw [reach] at h
      split at h
      · cases h
        exact Nat.lt_succ_self _
      · exact Nat.lt_succ_of_lt (ih h)

theorem corresponds_of_reach
    {layers : List Layer} {id id' : String} {depth : Option Nat}
    (hbefore : reach (layers.map Layer.before) id = depth)
    (hafter : reach (layers.map Layer.after) id' = depth)
    (hnone : depth = none -> id = id')
    (hsome : forall d, depth = some d ->
      exists l, layerAt layers d = some l ∧ l.relabel id = id') :
    Corresponds layers id id' := by
  induction layers with
  | nil => exact hnone hbefore.symm
  | cons l outer ih =>
      rw [List.map_cons, reach, List.length_map] at hbefore hafter
      rw [Corresponds]
      by_cases hid : id ∈ l.before.identifiers
      · rw [if_pos hid] at hbefore
        rw [if_pos hid]
        rcases hsome _ hbefore.symm with ⟨m, hm, hrenamed⟩
        rw [layerAt_length, Option.some.injEq] at hm
        refine ⟨?_, hm ▸ hrenamed⟩
        by_contra hid'
        rw [if_neg hid', ← hbefore] at hafter
        have hlt := reach_lt hafter
        rw [List.length_map] at hlt
        exact Nat.lt_irrefl _ hlt
      · rw [if_neg hid] at hbefore
        rw [if_neg hid]
        have hid' : id' ∉ l.after.identifiers := by
          intro hmem
          rw [if_pos hmem] at hafter
          rw [← hafter] at hbefore
          have hlt := reach_lt hbefore
          rw [List.length_map] at hlt
          exact Nat.lt_irrefl _ hlt
        rw [if_neg hid'] at hafter
        refine ⟨hid', ih hbefore hafter fun d hd => ?_⟩
        have hlt := reach_lt (hbefore.trans hd)
        rw [List.length_map] at hlt
        rw [← layerAt_cons l hlt]
        exact hsome d hd

theorem corresponds_of_reaches
    {layers : List Layer} {site site' : Site} (hagree : SitesAgree layers site site')
    (hbefore : Reaches (layers.map Layer.before) site)
    (hafter : Reaches (layers.map Layer.after) site') :
    Corresponds layers site.id site'.id := by
  rcases hagree with ⟨hdepth, hid⟩
  refine corresponds_of_reach hbefore (hafter.trans hdepth.symm) ?_ ?_
  · intro hnone
    rw [hnone] at hid
    exact hid
  · intro d hsome
    rw [hsome] at hid
    exact hid

end Lowering
end DefTable
