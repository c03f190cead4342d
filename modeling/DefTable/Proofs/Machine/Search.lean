import DefTable.Proofs.Machine.Assembling

/-!
# The search for a fresh identifier

The search tries one number after another and has no bound of its own.  It ends nevertheless,
because only finitely many identifiers are taken and the candidates of one hint all differ, and it
ends at the least number from the counter on whose candidate is free.
-/

namespace DefTable
namespace Scope

/-!
## The least free number
-/

def IsFree (space : Namespace) (frames : List Frame) (id : String) : Prop :=
  id ∉ space.names ∧
    forall frame, frame ∈ frames -> forall b, b ∈ frame.bindings -> b.2 ≠ id

theorem isFree_iff (space : Namespace) (frames : List Frame) (id : String) :
    IsFree space frames id <-> id ∉ space.names ++ identifiers frames := by
  have hbound : id ∉ identifiers frames <->
      forall frame, frame ∈ frames -> forall b, b ∈ frame.bindings -> b.2 ≠ id := by
    constructor
    · intro hid frame hframe b hb heq
      exact hid (List.mem_flatMap.mpr ⟨frame, hframe, List.mem_map.mpr ⟨b, hb, heq⟩⟩)
    · intro hfree hid
      rcases List.mem_flatMap.mp hid with ⟨frame, hframe, hmem⟩
      rcases List.mem_map.mp hmem with ⟨b, hb, heq⟩
      exact hfree frame hframe b hb heq
  rw [List.mem_append, not_or, hbound, IsFree]

/-- From the counter on, the candidate with the number `k` is the first one that is free. -/
structure LeastFree (space : Namespace) (frames : List Frame) (hint : String) (k : Nat) :
    Prop where
  counted : space.counter ≤ k
  free : IsFree space frames (candidate hint k)
  passed : forall j, space.counter ≤ j -> j < k -> ¬ IsFree space frames (candidate hint j)

theorem leastFree_le (taken : List String) (hint : String) (steps k : Nat) :
    leastFree taken hint steps k ≤ k + steps := by
  induction steps generalizing k with
  | zero => exact Nat.le_refl k
  | succ steps ih =>
      rw [leastFree]
      split
      · have hrest := ih (k + 1)
        omega
      · exact Nat.le_add_right k (steps + 1)

theorem leastFree_least (space : Namespace) (frames : List Frame) (hint : String) :
    let taken := space.names ++ identifiers frames
    LeastFree space frames hint (leastFree taken hint taken.length space.counter) := by
  intro taken
  constructor
  · exact le_leastFree taken hint taken.length space.counter
  · rw [isFree_iff]
    exact leastFree_free taken hint space.counter
  · intro j hcounted hless hfree
    rw [isFree_iff] at hfree
    exact hfree (mem_of_lt_leastFree hcounted hless)

end Scope

/-!
## The search without a bound
-/

namespace Machine

open Scope (Frame LeastFree candidate)

def Layer.ofFrame (frame : Frame) : Layer where
  kind := match frame.kind with
    | .owning => owningKind
    | .transparent => transparentKind
  bindings := frame.bindings

theorem matches_ofFrame (frames : List Frame) : Matches (frames.map Layer.ofFrame) frames := by
  unfold Matches
  rw [List.flatMap_map]
  rfl

/-- Whatever is taken in the namespace and bound around, the search ends.  It hands out the candidate
with the least free number from the counter on, leaves the counter there and takes nothing else; and
so does the search whose steps are bounded.  It passes no more numbers than there are identifiers in
the namespace and the scopes. -/
theorem fresh_least (space : Scope.Namespace) (frames : List Frame) (hint : String)
    (nodes : Nodes) :
    exists k, LeastFree space frames hint k ∧
      k ≤ space.counter + (space.names.length + (Scope.identifiers frames).length) ∧
      (fresh (frames.map Layer.ofFrame) hint).run ⟨space, nodes⟩ =
        pure (candidate hint k, ⟨⟨candidate hint k :: space.names, k⟩, nodes⟩) ∧
      space.fresh (Scope.identifiers frames) hint =
        (candidate hint k, ⟨candidate hint k :: space.names, k⟩) := by
  let taken := space.names ++ Scope.identifiers frames
  refine ⟨Scope.leastFree taken hint taken.length space.counter, ?_, ?_, ?_, ?_⟩
  · exact Scope.leastFree_least space frames hint
  · rw [← List.length_append]
    exact Scope.leastFree_le taken hint taken.length space.counter
  · exact fresh_eq (matches_ofFrame frames) hint space nodes
  · rfl

/-- A number is passed if its candidate is taken in the namespace or bound in a scope around. -/
example :
    (⟨["_4x", "_6x", "x"], 4⟩ : Scope.Namespace).fresh
        (Scope.identifiers [⟨.transparent, [("x", "_5x")]⟩, ⟨.owning, [("y", "_8x")]⟩]) "x" =
      ("_7x", ⟨["_7x", "_4x", "_6x", "x"], 7⟩) := by
  decide +kernel

end Machine
end DefTable
