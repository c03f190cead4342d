import DefTable.Data.Yaml.Node

/-!
# How often nodes are visited

A few aliases of aliases can stand for more nodes than could ever be read.  The visits to nodes are
therefore counted, and a document is refused where too large a part of them repeats nodes that were
visited under their own name.
-/

namespace DefTable
namespace Yaml

structure Visits where
  total : Nat
  repeated : Nat
deriving DecidableEq, Repr

namespace Visits

def manyVisits : Nat := 400000

/-- The part of so many visits that may be repeated, in units of one to 360 million: from
ninety-nine in a hundred down to ten in a hundred. -/
def allowed (total : Nat) : Nat :=
  356400000 - 89 * min (total - manyVisits) 3600000

def isExcessive (v : Visits) : Bool :=
  100 < v.repeated && 1000 < v.total && v.total * allowed v.total < v.repeated * 360000000

def next (repeated : Bool) (v : Visits) : Option Visits :=
  let v : Visits := ⟨v.total + 1, if repeated then v.repeated + 1 else v.repeated⟩
  if v.isExcessive then none else some v

end Visits

namespace Node

def isMerge : Node → Bool
  | .scalar plain tag text => text = "<<" && ((plain && tag = "") || tag = "!!merge")
  | _ => false

def merged : Node → List Node
  | .sequence items => items
  | n => [n]

/-- The nodes that are visited in a mapping after the mapping itself: keys and values, and then, for
a merge, all keys once more and what is merged. -/
def mappingVisits (es : List (Node × Node)) : List Node :=
  let own := (es.filter fun e => !e.1.isMerge).flatMap fun e => [e.1, e.2]
  match es.find? fun e => e.1.isMerge with
  | none => own
  | some merge => own ++ es.map Prod.fst ++ merge.2.merged

def visit (fuel : Nat) (repeated : Bool) (v : Visits) (n : Node) : Option Visits :=
  match fuel with
  | 0 => some v
  | fuel + 1 => do
    let v ← v.next repeated
    match n with
    | .scalar _ _ _ | .alias _ none => return v
    | .alias _ (some target) => visit fuel true v target
    | .sequence items => items.foldlM (visit fuel repeated) v
    | .mapping es => (mappingVisits es).foldlM (visit fuel repeated) v

end Node
end Yaml
end DefTable
