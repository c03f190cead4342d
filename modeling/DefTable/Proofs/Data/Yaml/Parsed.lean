import DefTable.Data.Yaml.Visits
import DefTable.Proofs.Data.Yaml.Nodes

/-!
# The node of its tokens

A node without anchors and tags is read back from the tokens that it is written as, with fuel for
four steps a token.  The nodes of data are of this kind, and nothing in them is visited twice.
-/

namespace DefTable
namespace Yaml

/-!
## Nodes without names
-/

/-- A node in which nothing has an anchor or a tag, and which merges nothing. -/
inductive Bare : Node -> Prop where
  | scalar (plain : Bool) (text : String) : Bare (.scalar plain "" text)
  | sequence {ns} : (forall n, n ∈ ns -> Bare n) -> Bare (.sequence ns)
  | mapping {es} :
      (forall e, e ∈ es -> e.1.isMerge = false) -> (forall e, e ∈ es -> Bare e.1) ->
      (forall e, e ∈ es -> Bare e.2) -> Bare (.mapping es)

theorem isMerge_textNode {k : String} (hk : IsKey k) : (textNode k).isMerge = false := by
  rw [textNode_of_oneLine hk.oneLine, Node.isMerge, decide_eq_false hk.not_merge]
  rfl

theorem bare_of_storable {lines : Bool} {n : Nat} {d : Data} (h : Storable lines n d) :
    Bare (nodeOf d) := by
  induction h with
  | null => exact .scalar true "null"
  | bool b => exact .scalar true (toString b)
  | @number _ _ x _ => exact .scalar true (Writer.layout.write x)
  | string => exact .scalar _ _
  | @list _ _ ds _ ih =>
      rw [nodeOf, nodesOf_eq_map]
      refine .sequence fun n hn => ?_
      rcases List.mem_map.mp hn with ⟨d, hd, rfl⟩
      exact ih d hd
  | @map _ _ es _ hkeys _ ih =>
      rw [nodeOf_map]
      refine .mapping ?_ ?_ ?_
      all_goals
        intro e he
        rcases List.mem_map.mp he with ⟨a, ha, rfl⟩
        have hmem := mem_inKeyOrder.mp ha
      · exact isMerge_textNode (hkeys a hmem)
      · exact .scalar _ _
      · exact ih a hmem

def startsNode : Token -> Bool
  | .scalar _ _ | .flowSequence | .flowMapping | .blockSequence | .blockMapping => true
  | _ => false

theorem tokens_of_bare {n : Node} (h : Bare n) :
    exists t ts, n.tokens = t :: ts ∧ startsNode t = true := by
  cases h with
  | scalar plain text => exact ⟨_, _, rfl, rfl⟩
  | @sequence ns _ => cases ns <;> exact ⟨_, _, rfl, rfl⟩
  | @mapping es _ _ _ => cases es <;> exact ⟨_, _, rfl, rfl⟩

/-!
## Reading the tokens
-/

/-- The node is read from the front of any tokens that start with its own. -/
def ReadBack (n : Node) : Prop :=
  forall fuel loose names ts, 4 * n.tokens.length ≤ fuel ->
    node fuel true loose names (n.tokens ++ ts) = some (n, names, ts)

theorem node_of_startsNode
    {t : Token} (h : startsNode t = true) (fuel : Nat) (loose : Bool) (names : Names)
    (ts : List Token) :
    node (fuel + 1) true loose names (t :: ts) =
      content fuel true loose ⟨none, none⟩ "" names (t :: ts) := by
  cases t <;> first | rfl | cases h

theorem part_of_readBack
    {n : Node} (hbare : Bare n) (h : ReadBack n) {fuel : Nat}
    (hfuel : 4 * n.tokens.length + 1 ≤ fuel) {ends : Token -> Bool}
    (hends : forall t, startsNode t = true -> ends t = false) (loose : Bool) (names : Names)
    (ts : List Token) :
    part fuel true loose ends names (n.tokens ++ ts) = some (n, names, ts) := by
  cases fuel with
  | zero => exact absurd hfuel (Nat.not_succ_le_zero _)
  | succ fuel =>
      have hnode := h fuel loose names ts (Nat.le_of_succ_le_succ hfuel)
      rcases tokens_of_bare hbare with ⟨t, more, htokens, hstart⟩
      rw [htokens, List.cons_append] at hnode ⊢
      rw [part, if_neg (by rw [hends t hstart]; exact Bool.false_ne_true)]
      exact hnode

theorem not_endsItem {t : Token} (h : startsNode t = true) : endsItem t = false := by
  cases t <;> first | rfl | cases h

theorem not_endsEntry {t : Token} (h : startsNode t = true) : endsEntry t = false := by
  cases t <;> first | rfl | cases h

theorem blockItems_tokens
    {ns : List Node} (hbare : forall n, n ∈ ns -> Bare n) (h : forall n, n ∈ ns -> ReadBack n)
    {fuel : Nat} (hfuel : 4 * (Node.itemTokens ns).length ≤ fuel) (names : Names)
    (ts : List Token) :
    blockItems fuel names (Node.itemTokens ns ++ ts) = some (ns, names, ts) := by
  induction ns generalizing fuel with
  | nil =>
      cases fuel with
      | zero => cases hfuel
      | succ fuel => rfl
  | cons n ns ih =>
      rw [List.forall_mem_cons] at hbare h
      rw [Node.itemTokens, List.length_cons, List.length_append] at hfuel
      cases fuel with
      | zero => omega
      | succ fuel =>
          have hitem : part fuel true false endsItem names
              (n.tokens ++ (Node.itemTokens ns ++ ts)) =
              some (n, names, Node.itemTokens ns ++ ts) :=
            part_of_readBack hbare.1 h.1 (by omega) (fun _ => not_endsItem) false names _
          rw [Node.itemTokens, List.cons_append, List.append_assoc, blockItems, hitem]
          show (blockItems fuel names (Node.itemTokens ns ++ ts)).bind _ = _
          rw [ih hbare.2 h.2 (by omega)]
          rfl

theorem blockEntries_tokens
    {es : List (Node × Node)} (hkeys : forall e, e ∈ es -> Bare e.1 ∧ ReadBack e.1)
    (hvalues : forall e, e ∈ es -> Bare e.2 ∧ ReadBack e.2) {fuel : Nat}
    (hfuel : 4 * (Node.entryTokens es).length ≤ fuel) (names : Names) (ts : List Token) :
    blockEntries fuel names (Node.entryTokens es ++ ts) = some (es, names, ts) := by
  induction es generalizing fuel with
  | nil =>
      cases fuel with
      | zero => cases hfuel
      | succ fuel => rfl
  | cons e es ih =>
      rcases e with ⟨k, v⟩
      rw [List.forall_mem_cons] at hkeys hvalues
      rw [Node.entryTokens, List.length_cons, List.length_append, List.length_cons,
        List.length_append] at hfuel
      cases fuel with
      | zero => omega
      | succ fuel =>
          have hkey : part fuel true true endsEntry names
              (k.tokens ++ .value :: (v.tokens ++ (Node.entryTokens es ++ ts))) =
              some (k, names, .value :: (v.tokens ++ (Node.entryTokens es ++ ts))) :=
            part_of_readBack (n := k) hkeys.1.1 hkeys.1.2 (by omega) (fun _ => not_endsEntry) true
              names _
          have hvalue : valuePart fuel true endsEntry names
              (.value :: (v.tokens ++ (Node.entryTokens es ++ ts))) =
              some (v, names, Node.entryTokens es ++ ts) := by
            cases fuel with
            | zero => omega
            | succ fuel =>
                exact part_of_readBack (n := v) hvalues.1.1 hvalues.1.2 (by omega)
                  (fun _ => not_endsEntry) true names _
          rw [Node.entryTokens, List.cons_append, List.append_assoc, List.cons_append,
            List.append_assoc, blockEntries, hkey]
          show (valuePart fuel true endsEntry names _).bind _ = _
          rw [hvalue]
          show (blockEntries fuel names (Node.entryTokens es ++ ts)).bind _ = _
          rw [ih hkeys.2 hvalues.2 (by omega)]
          rfl

theorem content_blockSequence
    (fuel : Nat) (loose : Bool) (properties : Properties) (tag : String) (names : Names)
    (ts : List Token) :
    content (fuel + 1) true loose properties tag names (.blockSequence :: ts) =
      (blockItems fuel names ts).map fun (items, rest) => (.sequence items, rest) := rfl

theorem content_blockMapping
    (fuel : Nat) (loose : Bool) (properties : Properties) (tag : String) (names : Names)
    (ts : List Token) :
    content (fuel + 1) true loose properties tag names (.blockMapping :: ts) =
      (blockEntries fuel names ts).map fun (es, rest) => (.mapping es, rest) := rfl

theorem readBack_of_bare {n : Node} (h : Bare n) : ReadBack n := by
  induction h with
  | scalar plain text =>
      intro fuel loose names ts hfuel
      rcases Nat.exists_eq_add_of_le' (show 2 ≤ fuel from by simp [Node.tokens] at hfuel; omega)
        with ⟨fuel, rfl⟩
      rfl
  | @sequence ns hbare ih =>
      intro fuel loose names ts hfuel
      have hthree : 3 ≤ fuel := by
        cases ns <;> simp only [Node.tokens, List.length_cons] at hfuel <;> omega
      rcases Nat.exists_eq_add_of_le' hthree with ⟨fuel, rfl⟩
      cases ns with
      | nil => rfl
      | cons n ns =>
          rw [Node.tokens, List.length_cons] at hfuel
          rw [Node.tokens, List.cons_append, node_of_startsNode rfl, content_blockSequence,
            blockItems_tokens hbare ih (by omega)]
          rfl
  | @mapping es _ hkeys hvalues ihkeys ihvalues =>
      intro fuel loose names ts hfuel
      have hthree : 3 ≤ fuel := by
        cases es <;> simp only [Node.tokens, List.length_cons] at hfuel <;> omega
      rcases Nat.exists_eq_add_of_le' hthree with ⟨fuel, rfl⟩
      cases es with
      | nil => rfl
      | cons e es =>
          rw [Node.tokens, List.length_cons] at hfuel
          rw [Node.tokens, List.cons_append, node_of_startsNode rfl, content_blockMapping,
            blockEntries_tokens (fun e he => ⟨hkeys e he, ihkeys e he⟩)
              (fun e he => ⟨hvalues e he, ihvalues e he⟩) (by omega)]
          rfl

theorem firstDocument_of_startsNode {t : Token} (h : startsNode t = true) (ts : List Token) :
    firstDocument (t :: ts) =
      (node (4 * (t :: ts).length + 8) true false (.start []) (t :: ts)).bind fun r =>
        if r.2.2.isEmpty then none else some ⟨r.1, (t :: ts).length + 1⟩ := by
  cases t <;> first | rfl | cases h

theorem firstDocument_of_bare {n : Node} (h : Bare n) :
    firstDocument (n.tokens ++ [.streamEnd]) = some ⟨n, n.tokens.length + 2⟩ := by
  have hnode := readBack_of_bare h (4 * (n.tokens ++ [Token.streamEnd]).length + 8) false
    (.start []) [.streamEnd] (by rw [List.length_append]; omega)
  have hlength : (n.tokens ++ [Token.streamEnd]).length + 1 = n.tokens.length + 2 := by
    rw [List.length_append, List.length_singleton]
  rcases tokens_of_bare h with ⟨t, ts, htokens, hstart⟩
  rw [← hlength]
  have hcons : n.tokens ++ [Token.streamEnd] = t :: (ts ++ [.streamEnd]) := by
    rw [htokens, List.cons_append]
  rw [hcons] at hnode ⊢
  rw [firstDocument_of_startsNode hstart, hnode]
  rfl

/-!
## Tokens that are cut short
-/

theorem front_cases
    {α : Type} {as bs front back : List α} (h : as ++ bs = front ++ back) :
    (exists more, front = as ++ more ∧ bs = more ++ back) ∨
      exists left, left ≠ [] ∧ as = front ++ left := by
  rcases List.append_eq_append_iff.mp h with ⟨more, hfront, hbs⟩ | ⟨left, has, hback⟩
  · exact .inl ⟨more, hfront, hbs⟩
  · by_cases hleft : left = []
    · subst hleft
      rw [List.append_nil] at has
      exact .inl ⟨[], by rw [has, List.append_nil], hback.symm⟩
    · exact .inr ⟨left, hleft, has⟩

theorem eq_nil_of_singleton
    {α : Type} {a b : α} {more back : List α} (h : [a] = b :: more ++ back) : back = [] :=
  (List.append_eq_nil_iff.mp (List.cons.inj h).2.symm).2

theorem startsNode_of_front
    {n : Node} (h : Bare n) {t : Token} {more back : List Token}
    (hfront : n.tokens = t :: more ++ back) : startsNode t = true := by
  rcases tokens_of_bare h with ⟨first, ts, htokens, hstart⟩
  have hcons : first :: ts = t :: (more ++ back) := htokens.symm.trans hfront
  rwa [(List.cons.inj hcons).1] at hstart

/-- Without the last of its tokens the node is not read. -/
def Refused (n : Node) : Prop :=
  forall fuel loose names front back, n.tokens = front ++ back -> back ≠ [] ->
    4 * front.length ≤ fuel -> node fuel true loose names front = none

theorem node_nil (fuel : Nat) (block loose : Bool) (names : Names) :
    node fuel block loose names [] = none := by
  cases fuel with
  | zero => rfl
  | succ fuel => cases fuel <;> rfl

theorem flow_nil (fuel : Nat) (names : Names) :
    flowItems fuel true names [] = none ∧ flowEntries fuel true names [] = none := by
  cases fuel with
  | zero => exact ⟨rfl, rfl⟩
  | succ fuel =>
      show (node fuel false false names []).bind _ = none ∧
        (node fuel false false names []).bind _ = none
      rw [node_nil]
      exact ⟨rfl, rfl⟩

theorem part_of_refused
    {n : Node} (hbare : Bare n) (h : Refused n) {fuel : Nat} {front back : List Token}
    (hfront : n.tokens = front ++ back) (hback : back ≠ [])
    (hfuel : 4 * front.length + 1 ≤ fuel) {ends : Token -> Bool}
    (hends : forall t, startsNode t = true -> ends t = false) (loose : Bool) (names : Names) :
    part fuel true loose ends names front = none := by
  cases fuel with
  | zero => rfl
  | succ fuel =>
      cases front with
      | nil => rfl
      | cons t more =>
          have hstart := startsNode_of_front hbare hfront
          rw [part, if_neg (by rw [hends t hstart]; exact Bool.false_ne_true)]
          exact h fuel loose names (t :: more) back hfront hback (Nat.le_of_succ_le_succ hfuel)

theorem bind_part_eq_none
    {β : Type} {n : Node} (hbare : Bare n) (h : Refused n) {fuel : Nat}
    {rest front back : List Token} (hfront : n.tokens ++ rest = front ++ back)
    (hfuel : 4 * front.length + 1 ≤ fuel) {ends : Token -> Bool}
    (hends : forall t, startsNode t = true -> ends t = false) (loose : Bool) (names : Names)
    {next : Node × Names × List Token -> Option β}
    (hnext : forall after, rest = after ++ back -> after.length ≤ front.length ->
      next (n, names, after) = none) :
    (part fuel true loose ends names front).bind next = none := by
  rcases front_cases hfront with ⟨after, rfl, hafter⟩ | ⟨left, hleft, htokens⟩
  · rw [List.length_append] at hfuel
    rw [part_of_readBack hbare (readBack_of_bare hbare) (by omega) hends loose names after]
    exact hnext after hafter (by rw [List.length_append]; exact Nat.le_add_left _ _)
  · rw [part_of_refused hbare h htokens hleft hfuel hends]
    rfl

theorem blockItems_cut
    {ns : List Node} (hbare : forall n, n ∈ ns -> Bare n) (h : forall n, n ∈ ns -> Refused n)
    {fuel : Nat} {front back : List Token} (hfront : Node.itemTokens ns = front ++ back)
    (hback : back ≠ []) (hfuel : 4 * front.length ≤ fuel) (names : Names) :
    blockItems fuel names front = none := by
  induction ns generalizing fuel front with
  | nil =>
      cases front with
      | nil => cases fuel <;> rfl
      | cons t more =>
          exact absurd (eq_nil_of_singleton hfront) hback
  | cons n ns ih =>
      rw [List.forall_mem_cons] at hbare h
      cases fuel with
      | zero => rfl
      | succ fuel =>
          cases front with
          | nil => rfl
          | cons t more =>
              rw [List.length_cons] at hfuel
              rcases List.cons.inj hfront with ⟨rfl, hmore⟩
              refine bind_part_eq_none hbare.1 h.1 hmore (by omega) (fun _ => not_endsItem)
                false names fun after hafter hlength => ?_
              show (blockItems fuel names after).bind _ = _
              rw [ih hbare.2 h.2 hafter (by omega)]
              rfl

theorem blockEntries_cut
    {es : List (Node × Node)} (hkeys : forall e, e ∈ es -> Bare e.1 ∧ Refused e.1)
    (hvalues : forall e, e ∈ es -> Bare e.2 ∧ Refused e.2) {fuel : Nat}
    {front back : List Token} (hfront : Node.entryTokens es = front ++ back) (hback : back ≠ [])
    (hfuel : 4 * front.length ≤ fuel) (names : Names) :
    blockEntries fuel names front = none := by
  induction es generalizing fuel front with
  | nil =>
      cases front with
      | nil => cases fuel <;> rfl
      | cons t more =>
          exact absurd (eq_nil_of_singleton hfront) hback
  | cons e es ih =>
      rw [List.forall_mem_cons] at hkeys hvalues
      cases fuel with
      | zero => rfl
      | succ fuel =>
          cases front with
          | nil => rfl
          | cons t more =>
              rw [List.length_cons] at hfuel
              rcases List.cons.inj hfront with ⟨rfl, hmore⟩
              refine bind_part_eq_none hkeys.1.1 hkeys.1.2 hmore (by omega)
                (fun _ => not_endsEntry) true names fun after hafter hlength => ?_
              show (valuePart fuel true endsEntry names after).bind _ = _
              cases after with
              | nil => cases fuel <;> rfl
              | cons t after =>
                  rw [List.length_cons] at hlength
                  rcases List.cons.inj hafter with ⟨rfl, hvalue⟩
                  rcases Nat.exists_eq_add_of_le' (show 1 ≤ fuel by omega) with ⟨fuel, rfl⟩
                  refine bind_part_eq_none hvalues.1.1 hvalues.1.2 hvalue (by omega)
                    (fun _ => not_endsEntry) true names fun after hafter hlength => ?_
                  show (blockEntries (fuel + 1) names after).bind _ = _
                  rw [ih hkeys.2 hvalues.2 hafter (by omega)]
                  rfl

theorem refused_of_bare {n : Node} (h : Bare n) : Refused n := by
  induction h with
  | scalar plain text =>
      intro fuel loose names front back hfront hback _
      cases front with
      | nil => exact node_nil fuel true loose names
      | cons t more =>
          exact absurd (eq_nil_of_singleton hfront) hback
  | @sequence ns hbare ih =>
      intro fuel loose names front back hfront hback hfuel
      cases front with
      | nil => exact node_nil fuel true loose names
      | cons t more =>
          rw [List.length_cons] at hfuel
          rcases Nat.exists_eq_add_of_le' (show 3 ≤ fuel by omega) with ⟨fuel, rfl⟩
          cases ns with
          | nil =>
              rcases List.cons.inj hfront with ⟨rfl, hmore⟩
              cases more with
              | nil =>
                  show (flowItems (fuel + 1) true names []).map _ = none
                  rw [(flow_nil _ _).1]
                  rfl
              | cons t more =>
                  exact absurd (eq_nil_of_singleton hmore) hback
          | cons n ns =>
              rcases List.cons.inj hfront with ⟨rfl, hmore⟩
              rw [node_of_startsNode rfl, content_blockSequence,
                blockItems_cut hbare ih hmore hback (by omega)]
              rfl
  | @mapping es _ hkeys hvalues ihkeys ihvalues =>
      intro fuel loose names front back hfront hback hfuel
      cases front with
      | nil => exact node_nil fuel true loose names
      | cons t more =>
          rw [List.length_cons] at hfuel
          rcases Nat.exists_eq_add_of_le' (show 3 ≤ fuel by omega) with ⟨fuel, rfl⟩
          cases es with
          | nil =>
              rcases List.cons.inj hfront with ⟨rfl, hmore⟩
              cases more with
              | nil =>
                  show (flowEntries (fuel + 1) true names []).map _ = none
                  rw [(flow_nil _ _).2]
                  rfl
              | cons t more =>
                  exact absurd (eq_nil_of_singleton hmore) hback
          | cons e es =>
              rcases List.cons.inj hfront with ⟨rfl, hmore⟩
              rw [node_of_startsNode rfl, content_blockMapping,
                blockEntries_cut (fun e he => ⟨hkeys e he, ihkeys e he⟩)
                  (fun e he => ⟨hvalues e he, ihvalues e he⟩) hmore hback (by omega)]
              rfl

theorem firstDocument_of_refused
    {n : Node} (h : Bare n) {front back : List Token} (hfront : n.tokens = front ++ back)
    (hback : back ≠ []) : firstDocument front = none := by
  cases front with
  | nil => rfl
  | cons t more =>
      rw [firstDocument_of_startsNode (startsNode_of_front h hfront),
        refused_of_bare h _ _ _ _ _ hfront hback (Nat.le_add_right _ 8)]
      rfl

/-!
## Visits
-/

theorem next_of_repeated_zero {v : Visits} (h : v.repeated = 0) :
    exists v', v.next false = some v' ∧ v'.repeated = 0 := by
  refine ⟨⟨v.total + 1, 0⟩, ?_, rfl⟩
  simp [Visits.next, Visits.isExcessive, h]

/-- A visit to the node repeats nothing. -/
def VisitedOnce (n : Node) : Prop :=
  forall fuel (v : Visits), v.repeated = 0 ->
    exists v', n.visit fuel false v = some v' ∧ v'.repeated = 0

theorem foldlM_visit
    {ns : List Node} (h : forall n, n ∈ ns -> VisitedOnce n) (fuel : Nat) {v : Visits}
    (hv : v.repeated = 0) :
    exists v', ns.foldlM (Node.visit fuel false) v = some v' ∧ v'.repeated = 0 := by
  induction ns generalizing v with
  | nil => exact ⟨v, rfl, hv⟩
  | cons n ns ih =>
      rw [List.forall_mem_cons] at h
      rcases h.1 fuel v hv with ⟨v', hvisit, hv'⟩
      rw [List.foldlM_cons, hvisit]
      exact ih h.2 hv'

theorem mappingVisits_of_not_isMerge
    {es : List (Node × Node)} (h : forall e, e ∈ es -> e.1.isMerge = false) :
    Node.mappingVisits es = es.flatMap fun e => [e.1, e.2] := by
  have hown : es.filter (fun e => !e.1.isMerge) = es :=
    List.filter_eq_self.mpr fun e he => by rw [h e he]; rfl
  have hfind : es.find? (fun e => e.1.isMerge) = none :=
    List.find?_eq_none.mpr fun e he => by rw [h e he]; exact Bool.false_ne_true
  rw [Node.mappingVisits, hown, hfind]

theorem visitedOnce_of_bare {n : Node} (h : Bare n) : VisitedOnce n := by
  induction h with
  | scalar plain text =>
      intro fuel v hv
      cases fuel with
      | zero => exact ⟨v, rfl, hv⟩
      | succ fuel =>
          rcases next_of_repeated_zero hv with ⟨v', hnext, hv'⟩
          exact ⟨v', by rw [Node.visit, hnext]; rfl, hv'⟩
  | sequence _ ih =>
      intro fuel v hv
      cases fuel with
      | zero => exact ⟨v, rfl, hv⟩
      | succ fuel =>
          rcases next_of_repeated_zero hv with ⟨v', hnext, hv'⟩
          rw [Node.visit, hnext]
          exact foldlM_visit ih fuel hv'
  | @mapping es hmerge _ _ ihkeys ihvalues =>
      intro fuel v hv
      cases fuel with
      | zero => exact ⟨v, rfl, hv⟩
      | succ fuel =>
          rcases next_of_repeated_zero hv with ⟨v', hnext, hv'⟩
          have hparts : forall n, n ∈ Node.mappingVisits es -> VisitedOnce n := by
            intro n hn
            rw [mappingVisits_of_not_isMerge hmerge] at hn
            rcases List.mem_flatMap.mp hn with ⟨e, he, hn⟩
            rw [List.mem_cons, List.mem_singleton] at hn
            rcases hn with rfl | rfl
            · exact ihkeys e he
            · exact ihvalues e he
          rw [Node.visit, hnext]
          exact foldlM_visit hparts fuel hv'

end Yaml
end DefTable
