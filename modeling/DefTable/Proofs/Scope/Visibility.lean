import DefTable.Proofs.Scope.History

/-!
# What a declaration changes

A name is resolved along a chain of scopes, from the inside out.  Of all operations only the
declaration of that name can change the outcome, in a scope of the chain and where no scope further
inside binds the name.  Bindings are never replaced, and an operation that is refused leaves no
trace.
-/

namespace DefTable
namespace Scope

/-!
## Bindings and chains
-/

namespace Tree

def binding? (t : Tree) (s : Nat) (name : String) : Option String :=
  t.nodes[s]?.bind fun node => node.frame.lookup? name

def chain (t : Tree) (s : Nat) : List Nat :=
  match t.nodes[s]? with
  | some node => s :: node.ancestors
  | none => []

/-- The scope `u` is `s` or one around it, and no scope from `s` up to `u` binds the name, `u` itself
left aside. -/
def Sees (t : Tree) (s u : Nat) (name : String) : Prop :=
  exists inner outer, t.chain s = inner ++ u :: outer ∧
    forall r, r ∈ inner -> t.binding? r name = none

theorem chain_of_node {t : Tree} {s : Nat} {node : Node} (hnode : t.nodes[s]? = some node) :
    t.chain s = s :: node.ancestors := by
  rw [chain, hnode]

theorem binding?_of_node
    {t : Tree} {s : Nat} {node : Node} (hnode : t.nodes[s]? = some node) (name : String) :
    t.binding? s name = node.frame.lookup? name := by
  rw [binding?, hnode]
  rfl

theorem findSome?_filterMap
    {α β γ : Type} (f : α -> Option β) (g : β -> Option γ) (as : List α) :
    (as.filterMap f).findSome? g = as.findSome? fun a => (f a).bind g := by
  induction as with
  | nil => rfl
  | cons a as ih =>
      cases ha : f a with
      | none =>
          rw [List.filterMap_cons_none ha, List.findSome?_cons, ha, ih]
          rfl
      | some b =>
          rw [List.filterMap_cons_some ha, List.findSome?_cons, List.findSome?_cons, ha, ih]
          rfl

theorem resolve_of_node
    {t : Tree} {s : Nat} {node : Node} (hnode : t.nodes[s]? = some node) (name : String) :
    t.resolve s name = some (if isGlobal name then .ok name
      else match (t.chain s).findSome? fun r => t.binding? r name with
        | some id => .ok id
        | none => .error (.unresolved name)) := by
  have hframes : ((t.frames node).findSome? fun frame => frame.lookup? name) =
      (t.chain s).findSome? fun r => t.binding? r name := by
    rw [chain_of_node hnode, frames, List.findSome?_cons, List.findSome?_cons,
      binding?_of_node hnode, findSome?_filterMap]
    simp only [binding?, Option.bind_map]
    rfl
  rw [resolve, hnode, Option.map_some, Scope.resolve]
  cases hfound : (t.chain s).findSome? fun r => t.binding? r name with
  | none => rw [hframes, hfound]
  | some id => rw [hframes, hfound]

theorem findSome?_congr
    {α β : Type} {f g : α -> Option β} {as : List α} (h : forall a, a ∈ as -> f a = g a) :
    as.findSome? f = as.findSome? g := by
  induction as with
  | nil => rfl
  | cons a as ih =>
      rw [List.forall_mem_cons] at h
      rw [List.findSome?_cons, List.findSome?_cons, h.1, ih h.2]

theorem resolve_congr
    {t t' : Tree} {s : Nat} {node node' : Node} {name : String}
    (hnode : t.nodes[s]? = some node) (hnode' : t'.nodes[s]? = some node')
    (hancestors : node'.ancestors = node.ancestors)
    (hfirst : ((t.chain s).findSome? fun r => t'.binding? r name) =
      (t.chain s).findSome? fun r => t.binding? r name) :
    t'.resolve s name = t.resolve s name := by
  have hchain : t'.chain s = t.chain s := by
    rw [chain_of_node hnode, chain_of_node hnode', hancestors]
  rw [resolve_of_node hnode, resolve_of_node hnode', hchain, hfirst]

/-!
## What an operation answers and does
-/

/-- The answer to an operation. -/
inductive Answer where
  | opened (s : Nat)
  | issued (id : String)
  | refused (cause : NameError)
  | missing
deriving DecidableEq, Repr

def answer (t : Tree) : Act -> Answer
  | .openRoot _ => .opened t.nodes.length
  | .openChild kind s => ((t.openChild kind s).map fun p => .opened p.1).getD .missing
  | .register s name =>
    match t.register s name with
    | some (.ok (id, _)) => .issued id
    | some (.error e) => .refused e
    | none => .missing
  | .resolve s name =>
    match t.resolve s name with
    | some (.ok id) => .issued id
    | some (.error e) => .refused e
    | none => .missing
  | .fresh s hint => ((t.fresh s hint).map fun p => .issued p.1).getD .missing

def answers (t : Tree) : List Act -> List Answer
  | [] => []
  | a :: acts => t.answer a :: answers (t.act a).1 acts

def declared (t : Tree) (s : Nat) (node : Node) (name id : String) (space : Namespace) : Tree :=
  ⟨t.nodes.set s { node with frame := node.frame.bind name id }, t.spaces.set node.space space⟩

inductive Changes (t : Tree) : Act -> Tree -> Prop where
  | unchanged {a} : Changes t a t
  | openRoot {names} : Changes t (.openRoot names) (t.openRoot names)
  | openChild {kind s node space spaces} :
      t.nodes[s]? = some node ->
      Changes t (.openChild kind s)
        ⟨t.nodes ++ [⟨.empty kind, s :: node.ancestors, space⟩], t.spaces ++ spaces⟩
  | fresh {s hint node id space} :
      t.nodes[s]? = some node -> space.names = id :: (t.spaceOf node).names ->
      Changes t (.fresh s hint) ⟨t.nodes, t.spaces.set node.space space⟩
  | register {s name node id space} :
      t.nodes[s]? = some node ->
      declare node.frame (t.outer node) (t.spaceOf node) name = .ok (id, space) ->
      Changes t (.register s name) (t.declared s node name id space)

section

variable {t : Tree} {s : Nat} {node : Node} {name : String}

theorem register_of_node (hnode : t.nodes[s]? = some node) :
    t.register s name =
      some ((declare node.frame (t.outer node) (t.spaceOf node) name).map fun made =>
        (made.1, t.declared s node name made.1 made.2)) := by
  rw [Tree.register, hnode]
  rfl

theorem answer_of_declare
    {id : String} {space : Namespace} (hnode : t.nodes[s]? = some node)
    (hdeclare : declare node.frame (t.outer node) (t.spaceOf node) name = .ok (id, space)) :
    t.answer (.register s name) = .issued id := by
  rw [answer, register_of_node hnode, hdeclare]
  rfl

end

theorem changes_act (t : Tree) (a : Act) : Changes t a (t.act a).1 := by
  cases a with
  | openRoot names => exact .openRoot
  | openChild kind s =>
      rw [act, Tree.openChild]
      cases hnode : t.nodes[s]? with
      | none => exact .unchanged
      | some node =>
          cases kind with
          | owning => exact .openChild hnode
          | transparent =>
              have hopened : Changes t (.openChild .transparent s)
                  ⟨t.nodes ++ [⟨.empty .transparent, s :: node.ancestors, node.space⟩],
                    t.spaces ++ []⟩ :=
                .openChild hnode
              rwa [List.append_nil] at hopened
  | register s name =>
      rw [act]
      cases hnode : t.nodes[s]? with
      | none => exact .unchanged
      | some node =>
          rw [register_of_node hnode]
          cases hdeclare : declare node.frame (t.outer node) (t.spaceOf node) name with
          | error e => exact .unchanged
          | ok made => exact .register hnode hdeclare
  | resolve s name => exact .unchanged
  | fresh s hint =>
      rw [act, Tree.fresh]
      cases hnode : t.nodes[s]? with
      | none => exact .unchanged
      | some node =>
          have htaken := taken_fresh (t.spaceOf node) (identifiers (t.frames node)) hint
          exact .fresh hnode htaken.names_eq

theorem act_of_refused
    {t : Tree} {s : Nat} {name : String} {cause : NameError}
    (h : t.answer (.register s name) = .refused cause) : (t.act (.register s name)).1 = t := by
  rw [answer] at h
  rw [act]
  cases hnode : t.nodes[s]? with
  | none => rfl
  | some node =>
      rw [register_of_node hnode] at h ⊢
      cases hdeclare : declare node.frame (t.outer node) (t.spaceOf node) name with
      | error e => rfl
      | ok made =>
          rw [hdeclare] at h
          cases h

end Tree

/-!
## Bindings are never replaced
-/

def Node.Owned (spaces : List Namespace) (node : Node) : Prop :=
  node.frame.kind = .owning -> forall b, b ∈ node.frame.bindings ->
    exists space, spaces[node.space]? = some space ∧ b.1 ∈ space.names

/-- The scopes around a scope are there, and owned names are taken. -/
structure Tree.Formed (t : Tree) : Prop where
  around : forall node, node ∈ t.nodes -> forall r, r ∈ node.ancestors -> r < t.nodes.length
  owned : forall node, node ∈ t.nodes -> node.Owned t.spaces

theorem Node.Owned.grow
    {spaces spaces' : List Namespace} {node : Node} (h : node.Owned spaces)
    (hgrows : forall (k : Nat) space, spaces[k]? = some space ->
      exists space', spaces'[k]? = some space' ∧ space.names ⊆ space'.names) :
    node.Owned spaces' := by
  intro hkind b hb
  rcases h hkind b hb with ⟨space, hspace, hname⟩
  rcases hgrows _ _ hspace with ⟨space', hspace', hsubset⟩
  exact ⟨space', hspace', hsubset hname⟩

theorem Node.Owned.unbound
    {spaces : List Namespace} {node : Node} (h : node.Owned spaces) {outer : List Frame}
    {space space' : Namespace} (hspace : spaces[node.space]? = some space) {name id : String}
    (hdeclare : declare node.frame outer space name = .ok (id, space')) :
    node.frame.lookup? name = none := by
  unfold declare at hdeclare
  cases hkind : node.frame.kind with
  | owning =>
      rw [hkind] at hdeclare
      dsimp only at hdeclare
      split at hdeclare
      · cases hdeclare
      · rename_i hfree
        cases hlookup : node.frame.lookup? name with
        | none => rfl
        | some bound =>
            rcases List.lookup_eq_some_iff.mp hlookup with ⟨before, after, hsplit, _⟩
            have hmem : (name, bound) ∈ node.frame.bindings := by
              rw [hsplit]
              exact List.mem_append_right before List.mem_cons_self
            rcases h hkind _ hmem with ⟨holder, hholder, hname⟩
            cases hholder.symm.trans hspace
            exact absurd (List.contains_iff_mem.mpr hname) hfree
  | transparent =>
      rw [hkind] at hdeclare
      dsimp only at hdeclare
      split at hdeclare
      · cases hdeclare
      · rename_i hfree
        exact Option.not_isSome_iff_eq_none.mp hfree

theorem mem_names_of_declare
    {frame : Frame} {outer : List Frame} {space space' : Namespace} {name id : String}
    (hkind : frame.kind = .owning) (hdeclare : declare frame outer space name = .ok (id, space')) :
    name ∈ space'.names := by
  unfold declare at hdeclare
  rw [hkind] at hdeclare
  dsimp only at hdeclare
  split at hdeclare
  · cases hdeclare
  · cases hdeclare
    exact List.mem_cons_self

namespace Tree

theorem Formed.append
    {t : Tree} (hformed : t.Formed) {node : Node} {spaces : List Namespace}
    (haround : forall r, r ∈ node.ancestors -> r < t.nodes.length)
    (howned : node.Owned (t.spaces ++ spaces)) : Formed ⟨t.nodes ++ [node], t.spaces ++ spaces⟩ := by
  constructor
  · intro other hother r hr
    rw [List.length_append]
    apply Nat.lt_add_right
    rcases List.mem_append.mp hother with hold | hnew
    · exact hformed.around other hold r hr
    · rw [List.mem_singleton.mp hnew] at hr
      exact haround r hr
  · intro other hother
    rcases List.mem_append.mp hother with hold | hnew
    · exact (hformed.owned other hold).grow (grows_append t [node] spaces).spaces
    · rw [List.mem_singleton.mp hnew]
      exact howned

section

variable {t t' : Tree} {a : Act} (hformed : t.Formed)
  (hlocated : forall (s : Nat) node, t.nodes[s]? = some node ->
    t.spaces[node.space]? = some (t.spaceOf node))
include hformed hlocated

theorem Formed.changes (h : Changes t a t') : t'.Formed := by
  cases h with
  | unchanged => exact hformed
  | @openRoot names =>
      refine hformed.append (fun r hr => absurd hr List.not_mem_nil) ?_
      intro _ b hb
      rcases List.mem_map.mp hb with ⟨name, hname, rfl⟩
      exact ⟨_, List.getElem?_concat_length, hname⟩
  | @openChild kind s node space spaces hnode =>
      refine hformed.append ?_ fun _ b hb => absurd hb List.not_mem_nil
      intro r hr
      rcases List.mem_cons.mp hr with rfl | hr
      · exact (List.getElem?_eq_some_iff.mp hnode).1
      · exact hformed.around node (List.mem_of_getElem? hnode) r hr
  | @fresh s hint node id space hnode hnames =>
      have hsubset : (t.spaceOf node).names ⊆ space.names := by
        rw [hnames]
        exact List.subset_cons_self _ _
      constructor
      · exact hformed.around
      · intro other hother
        exact (hformed.owned other hother).grow
          fun k _ hk => spaces_set (hlocated s node hnode) hsubset k hk
  | @register s name node id space hnode hdeclare =>
      have hspace := hlocated s node hnode
      have hmem := List.mem_of_getElem? hnode
      have hsubset : (t.spaceOf node).names ⊆ space.names := by
        rw [(History.declare_ok hdeclare).1]
        exact List.subset_cons_self _ _
      have hgrown : forall other, other ∈ t.nodes ->
          other.Owned (t.spaces.set node.space space) := by
        intro other hother
        exact (hformed.owned other hother).grow fun k _ hk => spaces_set hspace hsubset k hk
      constructor
      · intro other hother r hr
        unfold declared
        rw [List.length_set]
        rcases List.mem_or_eq_of_mem_set hother with hold | rfl
        · exact hformed.around other hold r hr
        · exact hformed.around node hmem r hr
      · intro other hother
        rcases List.mem_or_eq_of_mem_set hother with hold | rfl
        · exact hgrown other hold
        · intro hkind b hb
          have hname := mem_names_of_declare (show node.frame.kind = .owning from hkind) hdeclare
          rcases List.mem_cons.mp hb with rfl | hb
          · exact ⟨space, List.getElem?_set_self (List.getElem?_eq_some_iff.mp hspace).1, hname⟩
          · exact hgrown node hmem hkind b hb

theorem Formed.keeps
    (h : Changes t a t') {r : Nat} {node : Node} (hnode : t.nodes[r]? = some node) :
    exists node', t'.nodes[r]? = some node' ∧ node'.ancestors = node.ancestors ∧
      (node'.frame = node.frame ∨
        exists name id, a = .register r name ∧ t.answer a = .issued id ∧
          node.frame.lookup? name = none ∧ node'.frame = node.frame.bind name id) := by
  cases h with
  | unchanged => exact ⟨node, hnode, rfl, Or.inl rfl⟩
  | openRoot => exact ⟨node, getElem?_append_of_some _ hnode, rfl, Or.inl rfl⟩
  | openChild _ => exact ⟨node, getElem?_append_of_some _ hnode, rfl, Or.inl rfl⟩
  | fresh _ _ => exact ⟨node, hnode, rfl, Or.inl rfl⟩
  | @register s name holder id space hholder hdeclare =>
      by_cases hsr : s = r
      · subst hsr
        cases hholder.symm.trans hnode
        have hset : (t.declared s node name id space).nodes[s]? =
            some { node with frame := node.frame.bind name id } :=
          List.getElem?_set_self (List.getElem?_eq_some_iff.mp hnode).1
        have hunbound := (hformed.owned node (List.mem_of_getElem? hnode)).unbound
          (hlocated s node hnode) hdeclare
        refine ⟨_, hset, rfl, Or.inr ⟨name, id, rfl, ?_, hunbound, rfl⟩⟩
        exact answer_of_declare hnode hdeclare
      · exact ⟨node, (List.getElem?_set_ne hsr).trans hnode, rfl, Or.inl rfl⟩

theorem Formed.binding_cases
    (h : Changes t a t') {r : Nat} (hr : r < t.nodes.length) (name : String) :
    t'.binding? r name = t.binding? r name ∨
      exists id, a = .register r name ∧ t.answer a = .issued id ∧
        t.binding? r name = none ∧ t'.binding? r name = some id := by
  have hnode := List.getElem?_eq_getElem hr
  rcases hformed.keeps hlocated h hnode with ⟨node', hnode', _, hframe⟩
  rw [binding?_of_node hnode, binding?_of_node hnode']
  rcases hframe with hsame | ⟨declared, id, hact, hanswer, hunbound, hbind⟩
  · rw [hsame]
    exact Or.inl rfl
  · rw [hbind]
    by_cases hname : name = declared
    · subst hname
      have hfound : (t.nodes[r].frame.bind name id).lookup? name = some id :=
        List.lookup_cons_self
      exact Or.inr ⟨id, hact, hanswer, hunbound, hfound⟩
    · left
      have hne : (name == declared) = false := beq_false_of_ne hname
      rw [Frame.bind, Frame.lookup?, Frame.lookup?, List.lookup_cons, hne]

theorem Formed.resolve
    (h : Changes t a t') {s : Nat} (hs : s < t.nodes.length) {name : String}
    (hchanged : t'.resolve s name ≠ t.resolve s name) :
    exists u id, a = .register u name ∧ t.answer a = .issued id ∧ t.Sees s u name := by
  have hnode := List.getElem?_eq_getElem hs
  rcases hformed.keeps hlocated h hnode with ⟨node', hnode', hancestors, _⟩
  have hthere : forall r, r ∈ t.chain s -> r < t.nodes.length := by
    intro r hr
    rw [chain_of_node hnode] at hr
    rcases List.mem_cons.mp hr with rfl | hr
    · exact hs
    · exact hformed.around _ (List.mem_of_getElem? hnode) r hr
  have hfirst : ((t.chain s).findSome? fun r => t'.binding? r name) ≠
      (t.chain s).findSome? fun r => t.binding? r name :=
    fun heq => hchanged (resolve_congr hnode hnode' hancestors heq)
  -- Some scope of the chain changes its binding, so it is the one that declares the name.
  have hsome : exists u, u ∈ t.chain s ∧ t'.binding? u name ≠ t.binding? u name := by
    by_contra hnone
    apply hfirst
    apply findSome?_congr
    intro r hr
    by_contra hne
    exact hnone ⟨r, hr, hne⟩
  rcases hsome with ⟨u, hu, hne⟩
  rcases hformed.binding_cases hlocated h (hthere u hu) name with heq | ⟨id, hact, hanswer, _, _⟩
  · exact absurd heq hne
  · rcases List.eq_append_cons_of_mem hu with ⟨inner, outer, hchain, hnotin⟩
    refine ⟨u, id, hact, hanswer, inner, outer, hchain, ?_⟩
    have hsame : forall r, r ∈ inner -> t'.binding? r name = t.binding? r name := by
      intro r hr
      have hmem : r ∈ t.chain s := by
        rw [hchain]
        exact List.mem_append_left _ hr
      rcases hformed.binding_cases hlocated h (hthere r hmem) name with heq | ⟨_, hact', _⟩
      · exact heq
      · cases hact.symm.trans hact'
        exact absurd hr hnotin
    cases hinner : inner.findSome? fun r => t.binding? r name with
    | none => exact List.findSome?_eq_none_iff.mp hinner
    | some hidden =>
        rw [hchain, List.findSome?_append, List.findSome?_append, findSome?_congr hsame,
          hinner] at hfirst
        exact absurd rfl hfirst

theorem Formed.binding_stays
    (h : Changes t a t') {r : Nat} {name id : String} (hbound : t.binding? r name = some id) :
    t'.binding? r name = some id := by
  have hr : r < t.nodes.length := by
    rcases Option.bind_eq_some_iff.mp hbound with ⟨node, hnode, _⟩
    exact (List.getElem?_eq_some_iff.mp hnode).1
  rcases hformed.binding_cases hlocated h hr name with heq | ⟨_, _, _, hunbound, _⟩
  · rw [heq]
    exact hbound
  · rw [hbound] at hunbound
    cases hunbound

end

end Tree

/-!
## Histories
-/

namespace History

theorem tree_after_append (acts : List Act) (a : Act) :
    (after (acts ++ [a])).tree = ((after acts).tree.act a).1 := by
  rw [after_append]
  rfl

theorem formed_after (acts : List Act) : (after acts).tree.Formed := by
  induction acts using List.reverseRecOn with
  | nil => exact ⟨fun _ hnode => absurd hnode List.not_mem_nil,
      fun _ hnode => absurd hnode List.not_mem_nil⟩
  | append_singleton acts a ih =>
      rw [tree_after_append]
      exact ih.changes (fun _ _ => (sound_after acts).space_of_node) (Tree.changes_act _ a)

theorem binding_after
    {acts : List Act} {r : Nat} {name id : String}
    (hbound : (after acts).tree.binding? r name = some id) (later : List Act) :
    (after (acts ++ later)).tree.binding? r name = some id := by
  induction later using List.reverseRecOn with
  | nil =>
      rw [List.append_nil]
      exact hbound
  | append_singleton later a ih =>
      rw [← List.append_assoc, tree_after_append]
      exact (formed_after _).binding_stays (fun _ _ => (sound_after _).space_of_node)
        (Tree.changes_act _ a) ih

/-- **Scopes do not leak.**  Whatever has been done so far, the next operation changes what a name is
resolved to only if it declares that name, in the same scope or one around it, and no scope further
inside binds the name; a name that a scope has bound keeps its identifier from then on; and a
declaration that is refused changes no answer to what is done later. -/
theorem confined_after (acts : List Act) :
    (forall a s name, s < (after acts).tree.nodes.length ->
      (after (acts ++ [a])).tree.resolve s name ≠ (after acts).tree.resolve s name ->
      exists u id, a = .register u name ∧ (after acts).tree.answer a = .issued id ∧
        (after acts).tree.Sees s u name) ∧
    (forall r name id, (after acts).tree.binding? r name = some id ->
      forall later, (after (acts ++ later)).tree.binding? r name = some id) ∧
    (forall s name cause, (after acts).tree.answer (.register s name) = .refused cause ->
      forall later, (after (acts ++ [.register s name])).tree.answers later =
        (after acts).tree.answers later) := by
  refine ⟨?_, ?_, ?_⟩
  · intro a s name hs hchanged
    rw [tree_after_append] at hchanged
    exact (formed_after acts).resolve (fun _ _ => (sound_after acts).space_of_node)
      (Tree.changes_act _ a) hs hchanged
  · intro r name id hbound later
    exact binding_after hbound later
  · intro s name cause hrefused later
    rw [tree_after_append, Tree.act_of_refused hrefused]

def nested : List Act :=
  [.openRoot ["f"], .openChild .transparent 0, .openChild .owning 1]

theorem confined_after_nested :
    (exists u id, Act.register 1 "x" = .register u "x" ∧
      (after nested).tree.answer (.register 1 "x") = .issued id ∧
      (after nested).tree.Sees 2 u "x") ∧
    (after (nested ++ [.register 2 "f"])).tree.binding? 0 "f" = some "f" ∧
    (after (nested ++ [.register 0 "f"])).tree.answers [.register 2 "x", .fresh 0 "f"] =
      [.issued "x", .issued "_0f"] := by
  rcases confined_after nested with ⟨hresolve, hbinding, hrefused⟩
  have hchanged : (after (nested ++ [.register 1 "x"])).tree.resolve 2 "x" ≠
      (after nested).tree.resolve 2 "x" := by
    decide +kernel
  refine ⟨hresolve (.register 1 "x") 2 "x" (by decide) hchanged, ?_, ?_⟩
  · exact hbinding 0 "f" "f" (by decide) [.register 2 "f"]
  · rw [hrefused 0 "f" (.duplicate "f") (by decide) [.register 2 "x", .fresh 0 "f"]]
    decide +kernel

end History

end Scope
end DefTable
