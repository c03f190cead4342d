import DefTable.Proofs.Semantics.FirstOrder
import DefTable.Proofs.Semantics.Memo.Basic
import DefTable.Proofs.Semantics.Table

/-!
# Remembering values changes none

A heap shows, for each of its frames, the frames that the frame stands for when nothing is
remembered.  What it shows grows at the end when a function is applied and is never changed.  A
remembered value is the one that evaluating the entry again would give.
-/

namespace DefTable
namespace Semantics
namespace Memo

/-- For each frame of a heap, the frames from its own outwards. -/
abbrev View := List (List Target.Frame)

def Shows (view : View) : Value Closure -> Value Target.Closure -> Prop :=
  Value.Rel fun c g => exists frames, view[c.frame]? = some frames ∧
    g = .mk c.params c.body frames

/-- The number of a frame, or of none, stands for the frames. -/
def At (view : View) : Option Nat -> List Target.Frame -> Prop
  | none, frames => frames = []
  | some i, frames => view[i]? = some frames

structure Stands (I : Interpretation) (view : View) (f : Frame) (g : Target.Frame)
    (outer : List Target.Frame) : Prop where
  table : g.table = f.table
  around : At view f.outer outer
  known : forall id v, f.known.lookup id = some v ->
    exists w, Target.lookup I (g :: outer) id = some w ∧ Shows view v w
  unknown : forall id, f.known.lookup id = none -> g.args.lookup id = none

structure Sound (I : Interpretation) (view : View) (heap : Heap) : Prop where
  length : heap.length = view.length
  stands : forall (i : Nat) (f : Frame), heap[i]? = some f ->
    exists g outer, view[i]? = some (g :: outer) ∧ Stands I view f g outer

/-- A run that starts with the view may leave the heap, and then a view that has the property. -/
def Leaves (I : Interpretation) (view : View) (heap : Heap) (P : View -> Prop) : Prop :=
  exists later, view <+: later ∧ Sound I later heap ∧ P later

section

variable {I : Interpretation} {view later : View} {heap : Heap} {i : Nat}
  {f : Frame} {g : Target.Frame} {frames outer : List Target.Frame} {id : String}
  {v : Value Closure} {w : Value Target.Closure}

/-!
## Views that grow
-/

theorem At.mono (hgrows : view <+: later) {i : Option Nat} (h : At view i frames) :
    At later i frames := by
  cases i with
  | none => exact h
  | some i =>
      rcases hgrows with ⟨more, rfl⟩
      exact (List.getElem?_append_left (List.getElem?_eq_some_iff.mp h).1).trans h

theorem Shows.mono (hgrows : view <+: later) (h : Shows view v w) : Shows later v w := by
  refine Value.Rel.mono ?_ v w h
  rintro c g ⟨frames, hframes, rfl⟩
  exact ⟨frames, At.mono (i := some c.frame) hgrows hframes, rfl⟩

theorem Stands.mono (hgrows : view <+: later) (h : Stands I view f g outer) :
    Stands I later f g outer := by
  refine ⟨h.table, h.around.mono hgrows, ?_, h.unknown⟩
  intro id v hv
  rcases h.known id v hv with ⟨w, hw, hshows⟩
  exact ⟨w, hw, hshows.mono hgrows⟩

theorem Leaves.here {P : View -> Prop} (hsound : Sound I view heap) (h : P view) :
    Leaves I view heap P :=
  ⟨view, List.prefix_rfl, hsound, h⟩

theorem Leaves.after {P : View -> Prop} (hgrows : view <+: later) (h : Leaves I later heap P) :
    Leaves I view heap P := by
  rcases h with ⟨last, hgrows', hsound, hP⟩
  exact ⟨last, hgrows.trans hgrows', hsound, hP⟩

theorem Leaves.imp {P Q : View -> Prop} (h : Leaves I view heap P)
    (hPQ : forall later, view <+: later -> P later -> Q later) : Leaves I view heap Q := by
  rcases h with ⟨later, hgrows, hsound, hP⟩
  exact ⟨later, hgrows, hsound, hPQ later hgrows hP⟩

/-!
## Frames and what they stand for
-/

theorem Sound.frame (h : Sound I view heap) (hat : view[i]? = some frames) :
    exists f g outer, heap[i]? = some f ∧ frames = g :: outer ∧ Stands I view f g outer := by
  rcases List.getElem?_eq_some_iff.mp hat with ⟨hi, _⟩
  have hf := List.getElem?_eq_getElem (h.length ▸ hi)
  rcases h.stands i _ hf with ⟨g, outer, hview, hstands⟩
  rw [hat] at hview
  exact ⟨_, g, outer, hf, Option.some.inj hview, hstands⟩

theorem Stands.locate?_entry
    (h : Stands I view f g outer) (hknown : f.known.lookup id = none) {d : Def}
    (htable : f.table.get? id = some d) :
    Target.locate? (g :: outer) id = some (.entry d (g :: outer)) := by
  rw [Target.locate?, h.unknown id hknown, h.table, htable]

theorem Stands.locate?_outer
    (h : Stands I view f g outer) (hknown : f.known.lookup id = none)
    (htable : f.table.get? id = none) :
    Target.locate? (g :: outer) id = Target.locate? outer id := by
  rw [Target.locate?, h.unknown id hknown, h.table, htable]

theorem Stands.remember
    (h : Stands I view f g outer) (hlookup : Target.lookup I (g :: outer) id = some w)
    (hshows : Shows view v w) :
    Stands I view { f with known := (id, v) :: f.known } g outer := by
  refine ⟨h.table, h.around, ?_, ?_⟩
  · intro id' v' hv
    rw [List.lookup_cons] at hv
    by_cases heq : id' = id
    · rw [beq_iff_eq.mpr heq] at hv
      cases hv
      exact ⟨w, heq ▸ hlookup, hshows⟩
    · rw [beq_false_of_ne heq] at hv
      exact h.known id' v' hv
  · intro id' hnone
    rw [List.lookup_cons] at hnone
    cases heq : id' == id with
    | true =>
        rw [heq] at hnone
        cases hnone
    | false =>
        rw [heq] at hnone
        exact h.unknown id' hnone

theorem Sound.remember
    (h : Sound I view heap) (hat : view[i]? = some frames)
    (hlookup : Target.lookup I frames id = some w) (hshows : Shows view v w) :
    Sound I view (heap.remember i id v) := by
  constructor
  · rw [Heap.remember, List.length_modify, h.length]
  · intro j f hf
    rw [Heap.remember, List.getElem?_modify] at hf
    rcases Option.map_eq_some_iff.mp hf with ⟨f', hf', rfl⟩
    rcases h.stands j f' hf' with ⟨g, outer, hview, hstands⟩
    refine ⟨g, outer, hview, ?_⟩
    by_cases heq : i = j
    · subst heq
      rw [hat] at hview
      cases hview
      rw [if_pos rfl]
      exact hstands.remember hlookup hshows
    · rw [if_neg heq]
      exact hstands

theorem stands_enter
    {c : Closure} {args : List (Value Closure)} {ws : List (Value Target.Closure)}
    (hat : view[c.frame]? = some frames) (hargs : List.Forall₂ (Shows view) args ws) :
    Stands I view ⟨c.body, c.params.zip args, some c.frame⟩ (.mk (c.params.zip ws) c.body)
      frames := by
  have hrel := lookup_zip_rel hargs c.params
  refine ⟨rfl, hat, ?_, ?_⟩
  · intro id v hv
    have hid := hrel id
    rw [hv] at hid
    generalize hw : (c.params.zip ws).lookup id = found at hid
    cases hid with
    | some hshows =>
        refine ⟨_, ?_, hshows⟩
        rw [Target.lookup, Target.locate?, Target.Frame.args, hw]
  · intro id hnone
    have hid := hrel id
    rw [hnone] at hid
    generalize hw : (c.params.zip ws).lookup id = found at hid
    cases hid
    exact hw

theorem Sound.enter
    {c : Closure} {args : List (Value Closure)} {ws : List (Value Target.Closure)}
    (h : Sound I view heap) (hat : view[c.frame]? = some frames)
    (hargs : List.Forall₂ (Shows view) args ws) :
    Sound I (view ++ [.mk (c.params.zip ws) c.body :: frames]) (heap.enter c args) := by
  have hgrows := List.prefix_append view [.mk (c.params.zip ws) c.body :: frames]
  constructor
  · rw [Heap.enter, List.length_append, List.length_append, h.length]
    rfl
  · intro j f hf
    rw [Heap.enter, List.getElem?_append] at hf
    by_cases hj : j < heap.length
    · rw [if_pos hj] at hf
      rcases h.stands j f hf with ⟨g, outer, hview, hstands⟩
      exact ⟨g, outer, At.mono (i := some j) hgrows hview, hstands.mono hgrows⟩
    · rw [if_neg hj, List.getElem?_singleton] at hf
      split at hf
      · rename_i hlast
        cases hf
        refine ⟨_, frames, ?_, (stands_enter hat hargs).mono hgrows⟩
        rw [h.length] at hj hlast
        rw [List.getElem?_append_right (Nat.le_of_not_lt hj), hlast]
        rfl
      · cases hf

theorem at_enter (h : Sound I view heap) : At (view ++ [frames]) (some heap.length) frames := by
  show (view ++ [frames])[heap.length]? = some frames
  rw [h.length]
  exact List.getElem?_concat_length

theorem Leaves.remember
    (h : Leaves I view heap fun later => Shows later v w) (hat : view[i]? = some frames)
    (hlookup : Target.lookup I frames id = some w) :
    Leaves I view (heap.remember i id v) fun later => Shows later v w := by
  rcases h with ⟨later, hgrows, hsound, hshows⟩
  exact ⟨later, hgrows,
    hsound.remember (At.mono (i := some i) hgrows hat) hlookup hshows, hshows⟩

end

theorem shows_cells (view : View) (cells : List DefTable.Cell) :
    List.Forall₂ (Shows view) (cells.map cell) (cells.map Target.cell) := by
  rw [List.forall₂_map_left_iff, List.forall₂_map_right_iff, List.forall₂_same]
  intro c _
  cases c with
  | number v => exact .number v
  | bool v => exact .bool v

end Memo
end Semantics
end DefTable
