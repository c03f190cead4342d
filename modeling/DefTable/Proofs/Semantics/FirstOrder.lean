import Mathlib.Data.List.Forall2
import DefTable.Proofs.Semantics.Value

/-!
# Values that are the same up to their closures

Two semantics with closures of their own give values of one shape.  Such values are the same
first-order value, or none of them is one, so a function from outside cannot tell them apart.
Arguments are bound to names one by one, so related arguments are bound to the same names.
-/

namespace DefTable
namespace Semantics
namespace Value

variable {κ κ' : Type}

/-- Values of one shape, with related closures at the same places. -/
inductive Rel (R : κ -> κ' -> Prop) : Value κ -> Value κ' -> Prop where
  | number (v : Number) : Rel R (.number v) (.number v)
  | string (v : String) : Rel R (.string v) (.string v)
  | bool (v : Bool) : Rel R (.bool v) (.bool v)
  | null : Rel R .null .null
  | list {vs ws} : List.Forall₂ (Rel R) vs ws -> Rel R (.list vs) (.list ws)
  | builtin (f : Builtin) : Rel R (.builtin f) (.builtin f)
  | closure {c c'} : R c c' -> Rel R (.closure c) (.closure c')

section

variable {R S : κ -> κ' -> Prop}

mutual

theorem Rel.mono (h : forall c c', R c c' -> S c c') :
    (v : Value κ) -> (w : Value κ') -> Rel R v w -> Rel S v w
  | _, _, .number v => .number v
  | _, _, .string v => .string v
  | _, _, .bool v => .bool v
  | _, _, .null => .null
  | .list vs, .list ws, .list hitems => .list (rel_mono_all h vs ws hitems)
  | _, _, .builtin f => .builtin f
  | _, _, .closure hc => .closure (h _ _ hc)

theorem rel_mono_all (h : forall c c', R c c' -> S c c') :
    (vs : List (Value κ)) -> (ws : List (Value κ')) -> List.Forall₂ (Rel R) vs ws ->
      List.Forall₂ (Rel S) vs ws
  | [], _, .nil => .nil
  | v :: vs, _, .cons hfirst hrest => .cons (Rel.mono h v _ hfirst) (rel_mono_all h vs _ hrest)

end

mutual

theorem Rel.datum?_eq : (v : Value κ) -> (w : Value κ') -> Rel R v w -> v.datum? = w.datum?
  | _, _, .number _ => rfl
  | _, _, .string _ => rfl
  | _, _, .bool _ => rfl
  | _, _, .null => rfl
  | .list vs, .list ws, .list hitems => by rw [datum?, datum?, rel_data?_eq vs ws hitems]
  | _, _, .builtin _ => rfl
  | _, _, .closure _ => rfl

theorem rel_data?_eq :
    (vs : List (Value κ)) -> (ws : List (Value κ')) -> List.Forall₂ (Rel R) vs ws ->
      data? vs = data? ws
  | [], _, .nil => rfl
  | v :: vs, _, .cons hfirst hrest => by
      rw [data?, data?, Rel.datum?_eq v _ hfirst, rel_data?_eq vs _ hrest]

end

mutual

theorem rel_ofDatum : (d : Datum) -> Rel R (ofDatum d) (ofDatum d)
  | .number v => .number v
  | .string v => .string v
  | .bool v => .bool v
  | .null => .null
  | .list items => .list (rel_ofData items)

theorem rel_ofData : (ds : List Datum) -> List.Forall₂ (Rel R) (ofData ds) (ofData ds)
  | [] => .nil
  | d :: ds => .cons (rel_ofDatum d) (rel_ofData ds)

end

end

/-!
## First-order values
-/

mutual

theorem datum?_ofDatum : (d : Datum) -> (ofDatum d : Value κ).datum? = some d
  | .number _ => rfl
  | .string _ => rfl
  | .bool _ => rfl
  | .null => rfl
  | .list items => by rw [ofDatum, datum?, data?_ofData items]; rfl

theorem data?_ofData : (ds : List Datum) -> data? (ofData ds : List (Value κ)) = some ds
  | [] => rfl
  | d :: ds => by rw [ofData, data?, datum?_ofDatum d, data?_ofData ds]; rfl

end

mutual

theorem eq_ofDatum_of_datum? : (v : Value κ) -> (d : Datum) -> v.datum? = some d -> v = ofDatum d
  | .number _, _, h => by cases h; rfl
  | .string _, _, h => by cases h; rfl
  | .bool _, _, h => by cases h; rfl
  | .null, _, h => by cases h; rfl
  | .list items, d, h => by
      rw [datum?] at h
      rcases Option.map_eq_some_iff.mp h with ⟨ds, hds, rfl⟩
      rw [ofDatum, eq_ofData_of_data? items ds hds]
  | .builtin _, _, h => by cases h
  | .closure _, _, h => by cases h

theorem eq_ofData_of_data? :
    (vs : List (Value κ)) -> (ds : List Datum) -> data? vs = some ds -> vs = ofData ds
  | [], _, h => by cases h; rfl
  | v :: vs, ds, h => by
      rw [data?] at h
      rcases Option.bind_eq_some_iff.mp h with ⟨d, hd, h⟩
      rcases Option.bind_eq_some_iff.mp h with ⟨rest, hrest, h⟩
      cases h
      rw [ofData, eq_ofDatum_of_datum? v d hd, eq_ofData_of_data? vs rest hrest]

end

theorem datum?_eq_some_iff {v : Value κ} {d : Datum} : v.datum? = some d <-> v = ofDatum d := by
  constructor
  · exact eq_ofDatum_of_datum? v d
  · rintro rfl
    exact datum?_ofDatum d

theorem eq_ofDatum_iff {v : Value κ} {w : Value κ'} (h : v.datum? = w.datum?) (d : Datum) :
    v = ofDatum d <-> w = ofDatum d := by
  rw [← datum?_eq_some_iff, h, datum?_eq_some_iff]

theorem applyBuiltin_of_data?_eq
    {f : Builtin} {vs : List (Value κ)} {ws : List (Value κ')} {v : Value κ}
    (hargs : data? vs = data? ws) (h : applyBuiltin f vs = some v) :
    exists d, v = ofDatum d ∧ applyBuiltin f ws = some (ofDatum d) := by
  unfold applyBuiltin at h ⊢
  rcases Option.bind_eq_some_iff.mp h with ⟨ds, hds, h⟩
  rcases Option.bind_eq_some_iff.mp h with ⟨d, hd, h⟩
  cases h
  refine ⟨d, rfl, ?_⟩
  rw [← hargs, hds]
  dsimp only [bind, Option.bind_some]
  rw [hd]
  rfl

end Value

/-!
## Arguments
-/

section

variable {β γ : Type} {R : β -> γ -> Prop} {vs : List β} {ws : List γ}

theorem lookup_zip_rel (h : List.Forall₂ R vs ws) (names : List String) (name : String) :
    Option.Rel R ((names.zip vs).lookup name) ((names.zip ws).lookup name) := by
  induction h generalizing names with
  | nil =>
      rw [List.zip_nil_right, List.zip_nil_right]
      exact .none
  | cons hfirst _ ih =>
      cases names with
      | nil => exact .none
      | cons n names =>
          rw [List.zip_cons_cons, List.zip_cons_cons, List.lookup_cons, List.lookup_cons]
          cases name == n with
          | true => exact .some hfirst
          | false => exact ih names

theorem lookup_zip_ne_none
    {names : List String} {name : String} (hlength : names.length ≤ vs.length)
    (hmem : name ∈ names) :
    (names.zip vs).lookup name ≠ none := by
  intro hnone
  rw [← List.map_fst_zip hlength] at hmem
  rcases List.mem_map.mp hmem with ⟨arg, harg, rfl⟩
  exact bne_iff_ne.mp (List.lookup_eq_none_iff.mp hnone arg harg) rfl

theorem lookup_zip_eq_none {names : List String} {name : String} (hmem : name ∉ names) :
    (names.zip vs).lookup name = none := by
  rw [List.lookup_eq_none_iff]
  intro arg harg
  rw [bne_iff_ne]
  intro heq
  exact hmem (heq ▸ (List.of_mem_zip harg).1)

theorem isEmpty_drop_eq (h : List.Forall₂ R vs ws) (n : Nat) :
    (vs.drop n).isEmpty = (ws.drop n).isEmpty := by
  have hlength := h.length_eq
  rw [Bool.eq_iff_iff, List.isEmpty_iff_length_eq_zero, List.isEmpty_iff_length_eq_zero,
    List.length_drop, List.length_drop, hlength]

end

end Semantics
end DefTable
