import DefTable.Data.Yaml.Read
import DefTable.Proofs.Data.Yaml.Numbers
import DefTable.Proofs.Data.Yaml.Parsed

/-!
# What the node of written data stands for

A node is read as the data that it was written for, except that a number may come back as an integer
and that a literal block loses the line break at its start.  The keys are texts that differ, so that
nothing is merged and nothing is set twice.
-/

namespace DefTable
namespace Yaml

mutual

/-- Data as it comes back from a YAML text. -/
def reread : Data -> Data
  | .number x => resolve (Writer.layout.write x)
  | .string s => .string (keptText s)
  | .list ds => .list (rereadItems ds)
  | .map es => .map (rereadEntries es)
  | d => d

def rereadItems : List Data -> List Data
  | [] => []
  | d :: ds => reread d :: rereadItems ds

def rereadEntries : List (String × Data) -> List (String × Data)
  | [] => []
  | (k, d) :: es => (k, reread d) :: rereadEntries es

end

theorem rereadItems_eq_map (ds : List Data) : rereadItems ds = ds.map reread := by
  induction ds with
  | nil => rfl
  | cons d ds ih => rw [rereadItems, ih, List.map_cons]

theorem rereadEntries_eq_map (es : List (String × Data)) :
    rereadEntries es = es.map fun e => (e.1, reread e.2) := by
  induction es with
  | nil => rfl
  | cons e es ih => rw [rereadEntries, ih, List.map_cons]

namespace Node

/-!
## Texts
-/

theorem scalarData_textNode (s : String) :
    scalarData (style s = .plain) "" (keptText s) = some (.string (keptText s)) := by
  cases hstyle : decide (style s = .plain) with
  | false => rfl
  | true =>
      have hplain : style s = .plain := of_decide_eq_true hstyle
      rw [keptText_of_not_literal (by rw [hplain]; decide)]
      exact congrArg some (resolve_of_meansItself (meansItself_of_plain hplain))

theorem isText_textNode {k : String} (hk : OneLine k) : (textNode k).isText = true := by
  rw [textNode_of_oneLine hk]
  show (!decide (style k = .plain) || meansItself k) = true
  cases hstyle : decide (style k = .plain) with
  | false => rfl
  | true => exact meansItself_of_plain (of_decide_eq_true hstyle)

theorem textKey_textNode {k : String} (hk : OneLine k) :
    textKey (textNode k) = pure (some (.string k)) := by
  have htext : scalarText (style k = .plain) "" k = some (some k) := by
    have hdata := scalarData_textNode k
    rw [keptText_of_oneLine hk] at hdata
    rw [scalarText, hdata]
    rfl
  rw [textNode_of_oneLine hk]
  show (Reading.need (scalarText _ "" k) >>= fun text => pure (text.map Data.string)) = _
  rw [htext]
  rfl

/-!
## Entries
-/

theorem put_of_not_sameKey
    {β : Type} {key : Data} (value : β) {es : List (Data × β)}
    (h : forall e, e ∈ es -> sameKey e.1 key = false) :
    put key value es = es ++ [(key, value)] := by
  induction es with
  | nil => rfl
  | cons e es ih =>
      rw [List.forall_mem_cons] at h
      rw [put, h.1, if_neg Bool.false_ne_true, ih h.2, List.cons_append]

section

variable {β : Type} {parts : Parts β} {read : Data -> β}

def collected (read : Data -> β) (es : List (String × Data)) : List (Data × β) :=
  es.map fun e => (.string e.1, read e.2)

theorem not_sameKey_collected
    {es : List (String × Data)} {k : String} (h : forall e, e ∈ es -> e.1 ≠ k) :
    forall e, e ∈ collected read es -> sameKey e.1 (.string k) = false := by
  intro e he
  rcases List.mem_map.mp he with ⟨a, ha, rfl⟩
  exact decide_eq_false (h a ha)

theorem addEntry_entryNode
    (hkey : parts.key = textKey) {e : String × Data} {es : List (String × Data)}
    (hk : OneLine e.1) (hvalue : parts.value (nodeOf e.2) = pure (read e.2))
    (hnew : forall a, a ∈ es -> a.1 ≠ e.1) :
    addEntry parts ⟨collected read es, none⟩ (entryNode e) =
      pure ⟨collected read (es ++ [e]), none⟩ := by
  have hsame : forall a, a ∈ collected read es -> sameKey a.1 (.string e.1) = false :=
    not_sameKey_collected hnew
  have hany : ((collected read es).any fun a => sameKey a.1 (.string e.1)) = false :=
    List.any_eq_false.mpr fun a ha => by rw [hsame a ha]; exact Bool.false_ne_true
  rw [addEntry, hkey, entryNode, textKey_textNode hk, pure_bind]
  dsimp only
  rw [hany, Bool.and_false, hvalue]
  show (pure ⟨put (.string e.1) (read e.2) (collected read es), none⟩ : Reading (Collected β)) = _
  rw [put_of_not_sameKey _ hsame, collected, collected, List.map_append]
  rfl

theorem foldlM_addEntry
    (hkey : parts.key = textKey) {es before : List (String × Data)}
    (hes : forall e, e ∈ es -> OneLine e.1 ∧ parts.value (nodeOf e.2) = pure (read e.2))
    (hdiffer : (before ++ es).Pairwise fun a b => a.1 ≠ b.1) :
    (es.map entryNode).foldlM (addEntry parts) ⟨collected read before, none⟩ =
      pure ⟨collected read (before ++ es), none⟩ := by
  induction es generalizing before with
  | nil => rw [List.append_nil]; rfl
  | cons e es ih =>
      rw [List.forall_mem_cons] at hes
      have hnew : forall a, a ∈ before -> a.1 ≠ e.1 :=
        fun a ha => (List.pairwise_append.mp hdiffer).2.2 a ha e List.mem_cons_self
      rw [← List.singleton_append, ← List.append_assoc] at hdiffer ⊢
      rw [List.singleton_append, List.map_cons, List.foldlM_cons,
        addEntry_entryNode hkey hes.1.1 hes.1.2 hnew, pure_bind]
      exact ih hes.2 hdiffer

theorem keysDiffer_entryNodes
    {es : List (String × Data)} (hkeys : forall e, e ∈ es -> OneLine e.1)
    (hdiffer : es.Pairwise fun a b => a.1 ≠ b.1) : keysDiffer (es.map entryNode) = true := by
  induction es with
  | nil => rfl
  | cons e es ih =>
      rw [List.forall_mem_cons] at hkeys
      rw [List.pairwise_cons] at hdiffer
      have hany : ((es.map entryNode).any fun f => (textNode e.1).alike f.1) = false := by
        refine List.any_eq_false.mpr fun f hf => ?_
        rcases List.mem_map.mp hf with ⟨a, ha, rfl⟩
        rw [entryNode, textNode_of_oneLine hkeys.1, textNode_of_oneLine (hkeys.2 a ha)]
        show ¬ decide (e.1 = a.1) = true
        rw [decide_eq_false (hdiffer.1 a ha)]
        exact Bool.false_ne_true
      rw [List.map_cons, keysDiffer, ih hkeys.2 hdiffer.2, Bool.and_true]
      show (!(es.map entryNode).any fun f => (textNode e.1).alike f.1) = true
      rw [hany]
      rfl

theorem collect_entryNodes
    (hkey : parts.key = textKey) (fuel : Nat) (data : Node -> Reading Data)
    {es : List (String × Data)} (hkeys : forall e, e ∈ es -> IsKey e.1)
    (hvalues : forall e, e ∈ es -> parts.value (nodeOf e.2) = pure (read e.2))
    (hdiffer : es.Pairwise fun a b => a.1 ≠ b.1) :
    collect (fuel + 1) data parts ⟨[], none⟩ (es.map entryNode) =
      pure ⟨collected read es, none⟩ := by
  have hmerge : forall e, e ∈ es.map entryNode -> e.1.isMerge = false := by
    intro e he
    rcases List.mem_map.mp he with ⟨a, ha, rfl⟩
    exact isMerge_textNode (hkeys a ha)
  have hfilter : (es.map entryNode).filter (fun e => !e.1.isMerge) = es.map entryNode :=
    List.filter_eq_self.mpr fun e he => by rw [hmerge e he]; rfl
  have hfind : (es.map entryNode).find? (fun e => e.1.isMerge) = none :=
    List.find?_eq_none.mpr fun e he => by rw [hmerge e he]; exact Bool.false_ne_true
  rw [collect, keysDiffer_entryNodes (fun e he => (hkeys e he).oneLine) hdiffer, hfilter, hfind]
  show ((es.map entryNode).foldlM (addEntry parts) ⟨collected read [], none⟩ >>= fun c => pure c) =
    _
  have hnone : ([] ++ es).Pairwise fun a b : String × Data => a.1 ≠ b.1 := hdiffer
  rw [foldlM_addEntry hkey (fun e he => ⟨(hkeys e he).oneLine, hvalues e he⟩) hnone, pure_bind]
  rfl

end

/-!
## Data
-/

theorem length_tokens_item {n : Node} {ns : List Node} (h : n ∈ ns) :
    n.tokens.length < (Node.sequence ns).tokens.length := by
  cases ns with
  | nil => cases h
  | cons m ns =>
      rw [tokens, itemTokens_eq, List.length_cons, List.length_append]
      have hsub := (List.sublist_flatten_of_mem
        (List.mem_map_of_mem (f := fun n : Node => Token.item :: n.tokens) h)).length_le
      rw [← List.flatMap_def, List.length_cons] at hsub
      omega

theorem length_tokens_value {e : Node × Node} {es : List (Node × Node)} (h : e ∈ es) :
    e.2.tokens.length < (Node.mapping es).tokens.length := by
  cases es with
  | nil => cases h
  | cons a es =>
      rw [tokens, entryTokens_eq, List.length_cons, List.length_append]
      have hsub := (List.sublist_flatten_of_mem (List.mem_map_of_mem
        (f := fun e : Node × Node => Token.key :: (e.1.tokens ++ .value :: e.2.tokens))
        h)).length_le
      rw [← List.flatMap_def, List.length_cons, List.length_append, List.length_cons] at hsub
      omega

theorem toData_scalar (fuel : Nat) (plain : Bool) (tag text : String) :
    toData fuel (.scalar plain tag text) = Reading.need (scalarData plain tag text) := by
  rw [toData]

theorem resolve_null : resolve "null" = .null := by
  rfl

theorem resolve_bool (b : Bool) : resolve (toString b) = .bool b := by
  cases b <;> rfl

theorem mapM_toData
    {fuel : Nat} {ds : List Data}
    (h : forall d, d ∈ ds -> toData fuel (nodeOf d) = pure (reread d)) :
    (ds.map nodeOf).mapM (toData fuel) = pure (ds.map reread) := by
  induction ds with
  | nil => rfl
  | cons d ds ih =>
      rw [List.forall_mem_cons] at h
      rw [List.map_cons, List.mapM_cons, h.1, pure_bind, ih h.2, pure_bind, List.map_cons]

theorem shown_collected {β : Type} (read : Data -> β) (es : List (String × Data)) :
    (collected read es).map (fun e => (e.1.shown, e.2)) = es.map fun e => (e.1, read e.2) := by
  rw [collected, List.map_map]
  refine List.map_congr_left fun e _ => ?_
  show ((Data.string e.1).shown, read e.2) = _
  rw [Data.shown]

theorem ofEntries_inKeyOrder {es : List (String × Data)} (hes : Ascending es) :
    Data.ofEntries ((inKeyOrder es).map fun e => (e.1, reread e.2)) = rereadEntries es := by
  rw [rereadEntries_eq_map]
  exact Data.ofEntries_of_perm (List.pairwise_map.mpr hes) ((inKeyOrder_perm es).map _)

theorem differ_inKeyOrder {es : List (String × Data)} (hes : Ascending es) :
    (inKeyOrder es).Pairwise fun a b => a.1 ≠ b.1 :=
  ((inKeyOrder_perm es).pairwise_iff Ne.symm).mpr hes.keys_ne

theorem toData_nodeOf
    {lines : Bool} {n : Nat} {d : Data} (h : Storable lines n d) {fuel : Nat}
    (hfuel : (nodeOf d).tokens.length ≤ fuel) : toData fuel (nodeOf d) = pure (reread d) := by
  induction h generalizing fuel with
  | null =>
      rw [nodeOf, toData_scalar]
      exact congrArg pure resolve_null
  | bool b =>
      rw [nodeOf, toData_scalar]
      exact congrArg pure (resolve_bool b)
  | @number _ _ x _ =>
      rw [nodeOf, toData_scalar, reread]
      rfl
  | @string _ _ s _ =>
      rw [nodeOf, textNode, toData_scalar, scalarData_textNode, reread]
      rfl
  | @list _ _ ds _ ih =>
      rw [nodeOf, nodesOf_eq_map] at hfuel ⊢
      cases fuel with
      | zero => cases ds <;> cases hfuel
      | succ fuel =>
          have hitems : forall d, d ∈ ds -> toData fuel (nodeOf d) = pure (reread d) := by
            intro d hd
            have hlength := length_tokens_item (List.mem_map_of_mem (f := nodeOf) hd)
            exact ih d hd (by omega)
          rw [toData, mapM_toData hitems, pure_bind, reread, rereadItems_eq_map]
  | @map _ _ es hascending hkeys _ ih =>
      rw [nodeOf_map] at hfuel ⊢
      cases fuel with
      | zero => cases hsorted : inKeyOrder es <;> rw [hsorted] at hfuel <;> cases hfuel
      | succ fuel =>
          have hvalues : forall e, e ∈ inKeyOrder es ->
              toData fuel (nodeOf e.2) = pure (reread e.2) := by
            intro e he
            have hlength : (nodeOf e.2).tokens.length < _ :=
              length_tokens_value (List.mem_map_of_mem (f := entryNode) he)
            exact ih e (mem_inKeyOrder.mp he) (by omega)
          have hsorted : forall e, e ∈ inKeyOrder es -> IsKey e.1 :=
            fun e he => hkeys e (mem_inKeyOrder.mp he)
          have htexts : ((inKeyOrder es).map entryNode).all (fun e => e.1.isText) = true := by
            refine List.all_eq_true.mpr fun e he => ?_
            rcases List.mem_map.mp he with ⟨a, ha, rfl⟩
            exact isText_textNode (hsorted a ha).oneLine
          rw [toData]
          dsimp only
          rw [htexts, if_pos rfl,
            collect_entryNodes rfl fuel _ hsorted hvalues (differ_inKeyOrder hascending), pure_bind,
            textEntries, shown_collected, ofEntries_inKeyOrder hascending, reread]

end Node
end Yaml
end DefTable
