import DefTable.Data.Yaml.Node
import DefTable.Proofs.Data.Ascending
import DefTable.Proofs.Data.Yaml.Style

/-!
# The nodes of written data

Data that is written as YAML stands for a tree of nodes, and such a tree for a list of tokens, with a
token where each block collection starts and where it ends.  The entries of a map are written in an
order of their own.
-/

namespace DefTable
namespace Yaml

/-!
## Tokens
-/

namespace Node

mutual

def tokens : Node -> List Token
  | .scalar plain _ text => [.scalar plain text]
  | .sequence [] => [.flowSequence, .flowSequenceEnd]
  | .sequence (n :: ns) => .blockSequence :: itemTokens (n :: ns)
  | .mapping [] => [.flowMapping, .flowMappingEnd]
  | .mapping (e :: es) => .blockMapping :: entryTokens (e :: es)
  | .alias name _ => [.alias name]

def itemTokens : List Node -> List Token
  | [] => [.blockEnd]
  | n :: ns => .item :: (tokens n ++ itemTokens ns)

def entryTokens : List (Node × Node) -> List Token
  | [] => [.blockEnd]
  | (k, v) :: es => .key :: (tokens k ++ .value :: (tokens v ++ entryTokens es))

end

theorem itemTokens_eq (ns : List Node) :
    itemTokens ns = ns.flatMap (fun n => .item :: n.tokens) ++ [.blockEnd] := by
  induction ns with
  | nil => rfl
  | cons n ns ih =>
      rw [itemTokens, ih, List.flatMap_cons, List.cons_append, List.cons_append, List.append_assoc]

theorem entryTokens_eq (es : List (Node × Node)) :
    entryTokens es =
      es.flatMap (fun e => .key :: (e.1.tokens ++ .value :: e.2.tokens)) ++ [.blockEnd] := by
  induction es with
  | nil => rfl
  | cons e es ih =>
      rw [entryTokens, ih, List.flatMap_cons]
      simp

end Node

/-!
## Data
-/

/-- A text as it is read back: from a literal block without the line break that it starts with. -/
def keptText (s : String) : String :=
  if style s = .literal then String.ofList (kept s.toList) else s

def textNode (s : String) : Node :=
  .scalar (style s = .plain) "" (keptText s)

theorem keptText_of_not_literal {s : String} (h : style s ≠ .literal) : keptText s = s :=
  if_neg h

theorem keptText_of_oneLine {k : String} (hk : OneLine k) : keptText k = k :=
  keptText_of_not_literal fun hstyle => not_oneLine_of_literal hstyle hk

theorem textNode_of_oneLine {k : String} (hk : OneLine k) :
    textNode k = .scalar (style k = .plain) "" k := by
  rw [textNode, keptText_of_oneLine hk]

def inKeyOrder {β : Type} (es : List (String × β)) : List (String × β) :=
  es.mergeSort fun a b => keyLe a.1 b.1

mutual

def nodeOf : Data -> Node
  | .null => .scalar true "" "null"
  | .bool b => .scalar true "" (toString b)
  | .number x => .scalar true "" (Writer.layout.write x)
  | .string s => textNode s
  | .list ds => .sequence (nodesOf ds)
  | .map es => .mapping ((inKeyOrder (entryNodes es)).map fun e => (textNode e.1, e.2))
  | _ => .absent

def nodesOf : List Data -> List Node
  | [] => []
  | d :: ds => nodeOf d :: nodesOf ds

def entryNodes : List (String × Data) -> List (String × Node)
  | [] => []
  | (k, d) :: es => (k, nodeOf d) :: entryNodes es

end

theorem nodesOf_eq_map (ds : List Data) : nodesOf ds = ds.map nodeOf := by
  induction ds with
  | nil => rfl
  | cons d ds ih => rw [nodesOf, ih, List.map_cons]

theorem entryNodes_eq_map (es : List (String × Data)) :
    entryNodes es = es.map fun e => (e.1, nodeOf e.2) := by
  induction es with
  | nil => rfl
  | cons e es ih => rw [entryNodes, ih, List.map_cons]

theorem inKeyOrder_map {β γ : Type} (f : β -> γ) (es : List (String × β)) :
    inKeyOrder (es.map fun e => (e.1, f e.2)) = (inKeyOrder es).map fun e => (e.1, f e.2) := by
  rw [inKeyOrder, inKeyOrder, ← List.map_mergeSort]
  exact fun _ _ _ _ => rfl

theorem inKeyOrder_perm {β : Type} (es : List (String × β)) : (inKeyOrder es).Perm es :=
  List.mergeSort_perm es _

theorem mem_inKeyOrder {β : Type} {es : List (String × β)} {e : String × β} :
    e ∈ inKeyOrder es <-> e ∈ es :=
  (inKeyOrder_perm es).mem_iff

def entryNode (e : String × Data) : Node × Node :=
  (textNode e.1, nodeOf e.2)

theorem nodeOf_map (es : List (String × Data)) :
    nodeOf (.map es) = .mapping ((inKeyOrder es).map entryNode) := by
  rw [nodeOf, entryNodes_eq_map, inKeyOrder_map, List.map_map]
  rfl

theorem inKeyOrder_ne_nil {β : Type} {es : List (String × β)} (hne : es ≠ []) :
    inKeyOrder es ≠ [] := by
  intro hnil
  have hperm := inKeyOrder_perm es
  rw [hnil] at hperm
  exact hne hperm.nil_eq.symm

/-!
## Data that comes back
-/

/-- A key that stands on one line and does not merge another map. -/
structure IsKey (k : String) : Prop where
  oneLine : OneLine k
  not_merge : k ≠ "<<"

instance (k : String) : Decidable (IsKey k) :=
  decidable_of_iff (OneLine k ∧ k ≠ "<<") ⟨fun h => ⟨h.1, h.2⟩, fun h => ⟨h.1, h.2⟩⟩

/-- Data that nests at most as deep as the number says.  A text of several lines stands in no list,
where its margin would be told wrongly. -/
inductive Storable : Bool -> Nat -> Data -> Prop where
  | null {lines n} : Storable lines n .null
  | bool {lines n} (b : Bool) : Storable lines n (.bool b)
  | number {lines n x} : x.isUndefined = false -> Storable lines n (.number x)
  | string {lines n s} : (lines = false -> OneLine s) -> Storable lines n (.string s)
  | list {lines n ds} :
      (forall d, d ∈ ds -> Storable false n d) -> Storable lines (n + 1) (.list ds)
  | map {lines n es} :
      Ascending es -> (forall e, e ∈ es -> IsKey e.1) ->
      (forall e, e ∈ es -> Storable lines n e.2) -> Storable lines (n + 1) (.map es)

/-- A literal block that starts with a tab. -/
def TabLed (s : String) : Prop :=
  style s = .literal ∧ s.toList.head? = some '\t'

inductive Tabbed : Data -> Prop where
  | string {s} : TabLed s -> Tabbed (.string s)
  | list {ds d} : d ∈ ds -> Tabbed d -> Tabbed (.list ds)
  | map {es e} : e ∈ es -> Tabbed e.2 -> Tabbed (.map es)

theorem tabbed_string_iff {s : String} : Tabbed (.string s) <-> TabLed s := by
  constructor
  · rintro ⟨hs⟩
    exact hs
  · exact .string

theorem tabbed_list_iff {ds : List Data} : Tabbed (.list ds) <-> exists d, d ∈ ds ∧ Tabbed d := by
  constructor
  · intro htab
    cases htab with
    | list hd hitem => exact ⟨_, hd, hitem⟩
  · rintro ⟨d, hd, hitem⟩
    exact .list hd hitem

theorem tabbed_map_iff {es : List (String × Data)} :
    Tabbed (.map es) <-> exists e, e ∈ es ∧ Tabbed e.2 := by
  constructor
  · intro htab
    cases htab with
    | map he hvalue => exact ⟨_, he, hvalue⟩
  · rintro ⟨e, he, hvalue⟩
    exact .map he hvalue

theorem not_tabbed_of_oneLine {s : String} (h : OneLine s) : ¬ Tabbed (.string s) :=
  fun htab => not_oneLine_of_literal (tabbed_string_iff.mp htab).1 h

theorem not_tabbed_of_lines {n : Nat} {d : Data} (h : Storable false n d) : ¬ Tabbed d := by
  generalize hlines : false = lines at h
  induction h with
  | null => exact nofun
  | bool => exact nofun
  | number => exact nofun
  | string hline => exact not_tabbed_of_oneLine (hline hlines.symm)
  | list _ ih =>
      intro htab
      cases htab with
      | list hd hitem => exact ih _ hd rfl hitem
  | map _ _ _ ih =>
      intro htab
      cases htab with
      | map he hvalue => exact ih _ he hlines hvalue

end Yaml
end DefTable
