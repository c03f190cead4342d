import DefTable.Proofs.Scope.Fresh
import DefTable.Scope.Tree
import Mathlib.Data.List.Induction

/-!
# Histories of scopes

Scopes are opened, declare names and take fresh identifiers in any order.  Every identifier that
comes into a namespace on the way leaves a record.  No namespace hands out an identifier that is on
record for it, and a synthetic identifier is none that a visible name was bound to before.
-/

namespace DefTable
namespace Scope

/-!
## Operations and their records
-/

/-- An operation on a collection of scope trees.  One on a scope that is not there does nothing. -/
inductive Act where
  | openRoot (names : List String)
  | openChild (kind : Kind) (s : Nat)
  | register (s : Nat) (name : String)
  | resolve (s : Nat) (name : String)
  | fresh (s : Nat) (hint : String)
deriving DecidableEq, Repr

inductive Origin where
  | builtin
  | kept
  | renamed
  | temporary
deriving DecidableEq, Repr

namespace Origin

def isIssued : Origin -> Bool
  | builtin => false
  | _ => true

def isBinding : Origin -> Bool
  | temporary => false
  | _ => true

def isSynthetic : Origin -> Bool
  | renamed => true
  | temporary => true
  | _ => false

end Origin

def Kind.origin : Kind -> Origin
  | .owning => .kept
  | .transparent => .renamed

/-- An identifier, the scope of the operation that brought it in with the scopes around, and the
namespace. -/
structure Record where
  scope : Nat
  outer : List Nat
  space : Nat
  id : String
  origin : Origin
deriving DecidableEq, Repr

/-- An identifier that is handed out later differs from all earlier ones of its namespace, and a
synthetic one from those that a name is bound to in its scope or around it. -/
structure Record.Apart (earlier later : Record) : Prop where
  space : later.origin.isIssued = true -> earlier.space = later.space -> earlier.id ≠ later.id
  binding : later.origin.isSynthetic = true -> earlier.origin.isBinding = true ->
    earlier.scope ∈ later.scope :: later.outer -> earlier.id ≠ later.id

def Node.issues (node : Node) (s : Nat) (id : String) (origin : Origin) : Record :=
  ⟨s, node.ancestors, node.space, id, origin⟩

namespace Tree

def empty : Tree := ⟨[], []⟩

def openRoot (t : Tree) (names : List String) : Tree :=
  ⟨t.nodes ++ [⟨(root names).1, [], t.spaces.length⟩], t.spaces ++ [(root names).2]⟩

theorem openRoot_empty (names : List String) : empty.openRoot names = ofNames names :=
  rfl

def builtins (t : Tree) (names : List String) : List Record :=
  names.map fun name => ⟨t.nodes.length, [], t.spaces.length, name, .builtin⟩

def act (t : Tree) : Act -> Tree × List Record
  | .openRoot names => (t.openRoot names, t.builtins names)
  | .openChild kind s =>
    match t.openChild kind s with
    | some (_, grown) => (grown, [])
    | none => (t, [])
  | .register s name =>
    match t.nodes[s]?, t.register s name with
    | some node, some (.ok (id, grown)) =>
      (grown, [node.issues s id node.frame.kind.origin])
    | _, _ => (t, [])
  | .resolve _ _ => (t, [])
  | .fresh s hint =>
    match t.nodes[s]?, t.fresh s hint with
    | some node, some (id, grown) => (grown, [node.issues s id .temporary])
    | _, _ => (t, [])

end Tree

structure History where
  tree : Tree
  records : List Record
deriving Repr

namespace History

def next (h : History) (a : Act) : History :=
  ⟨(h.tree.act a).1, h.records ++ (h.tree.act a).2⟩

/-- What some operations lead to, from nothing. -/
def after (acts : List Act) : History :=
  acts.foldl next ⟨.empty, []⟩

theorem after_append (acts : List Act) (a : Act) : after (acts ++ [a]) = (after acts).next a := by
  unfold after
  rw [List.foldl_append]
  rfl

end History

/-!
## Trees only grow
-/

namespace Tree

structure Grows (t t' : Tree) : Prop where
  spaces : forall (k : Nat) space, t.spaces[k]? = some space ->
    exists space', t'.spaces[k]? = some space' ∧ space.names ⊆ space'.names
  nodes : forall (s : Nat) node, t.nodes[s]? = some node ->
    exists node', t'.nodes[s]? = some node' ∧ node.frame.identifiers ⊆ node'.frame.identifiers

theorem Grows.refl (t : Tree) : Grows t t where
  spaces _ space h := ⟨space, h, List.Subset.refl _⟩
  nodes _ node h := ⟨node, h, List.Subset.refl _⟩

theorem getElem?_append_of_some
    {α : Type} {xs : List α} {k : Nat} {x : α} (ys : List α) (h : xs[k]? = some x) :
    (xs ++ ys)[k]? = some x := by
  rw [List.getElem?_append_left (List.getElem?_eq_some_iff.mp h).1, h]

theorem grows_append (t : Tree) (nodes : List Node) (spaces : List Namespace) :
    Grows t ⟨t.nodes ++ nodes, t.spaces ++ spaces⟩ where
  spaces _ space h := ⟨space, getElem?_append_of_some spaces h, List.Subset.refl _⟩
  nodes _ node h := ⟨node, getElem?_append_of_some nodes h, List.Subset.refl _⟩

theorem spaces_set
    {spaces : List Namespace} {k : Nat} {space space' : Namespace} (hspace : spaces[k]? = some space)
    (hnames : space.names ⊆ space'.names) (j : Nat) {other : Namespace}
    (hother : spaces[j]? = some other) :
    exists other', (spaces.set k space')[j]? = some other' ∧ other.names ⊆ other'.names := by
  by_cases hkj : k = j
  · subst hkj
    rw [hspace] at hother
    cases hother
    exact ⟨space', List.getElem?_set_self (List.getElem?_eq_some_iff.mp hspace).1, hnames⟩
  · exact ⟨other, (List.getElem?_set_ne hkj).trans hother, List.Subset.refl _⟩

theorem nodes_bind
    {nodes : List Node} {s : Nat} {node : Node} (hnode : nodes[s]? = some node) (name id : String)
    (r : Nat) {other : Node} (hother : nodes[r]? = some other) :
    exists other', (nodes.set s { node with frame := node.frame.bind name id })[r]? = some other' ∧
      other.frame.identifiers ⊆ other'.frame.identifiers := by
  by_cases hsr : s = r
  · subst hsr
    rw [hnode] at hother
    cases hother
    exact ⟨_, List.getElem?_set_self (List.getElem?_eq_some_iff.mp hnode).1,
      List.subset_cons_self _ _⟩
  · exact ⟨other, (List.getElem?_set_ne hsr).trans hother, List.Subset.refl _⟩

end Tree

/-!
## What is on record is taken
-/

/-- Every scope has a namespace, every identifier on record is taken in its namespace, and if a name
is bound to it, it is among those of its scope. -/
structure History.Sound (h : History) : Prop where
  located : forall node, node ∈ h.tree.nodes -> node.space < h.tree.spaces.length
  taken : forall r, r ∈ h.records ->
    exists space, h.tree.spaces[r.space]? = some space ∧ r.id ∈ space.names
  bound : forall r, r ∈ h.records -> r.origin.isBinding = true ->
    exists node, h.tree.nodes[r.scope]? = some node ∧ r.id ∈ node.frame.identifiers
  apart : h.records.Pairwise Record.Apart

namespace History

theorem sound_start : Sound ⟨.empty, []⟩ where
  located _ hnode := absurd hnode List.not_mem_nil
  taken _ hr := absurd hr List.not_mem_nil
  bound _ hr := absurd hr List.not_mem_nil
  apart := List.Pairwise.nil

theorem Sound.grow
    {h : History} (hsound : h.Sound) {t : Tree} {records : List Record}
    (hgrows : h.tree.Grows t)
    (hlocated : forall node, node ∈ t.nodes -> node.space < t.spaces.length)
    (htaken : forall r, r ∈ records ->
      exists space, t.spaces[r.space]? = some space ∧ r.id ∈ space.names)
    (hbound : forall r, r ∈ records -> r.origin.isBinding = true ->
      exists node, t.nodes[r.scope]? = some node ∧ r.id ∈ node.frame.identifiers)
    (hapart : (h.records ++ records).Pairwise Record.Apart) :
    Sound ⟨t, h.records ++ records⟩ where
  located := hlocated
  taken r hr := by
    rcases List.mem_append.mp hr with hold | hnew
    · rcases hsound.taken r hold with ⟨space, hspace, hid⟩
      rcases hgrows.spaces _ _ hspace with ⟨space', hspace', hsubset⟩
      exact ⟨space', hspace', hsubset hid⟩
    · exact htaken r hnew
  bound r hr hbinding := by
    rcases List.mem_append.mp hr with hold | hnew
    · rcases hsound.bound r hold hbinding with ⟨node, hnode, hid⟩
      rcases hgrows.nodes _ _ hnode with ⟨node', hnode', hsubset⟩
      exact ⟨node', hnode', hsubset hid⟩
    · exact hbound r hnew hbinding
  apart := hapart

theorem Sound.unrecorded
    {h : History} (hsound : h.Sound) {t : Tree} (hgrows : h.tree.Grows t)
    (hlocated : forall node, node ∈ t.nodes -> node.space < t.spaces.length) :
    Sound ⟨t, h.records ++ []⟩ :=
  hsound.grow hgrows hlocated (fun _ hr => absurd hr List.not_mem_nil)
    (fun _ hr => absurd hr List.not_mem_nil) (by rw [List.append_nil]; exact hsound.apart)

theorem Sound.unchanged {h : History} (hsound : h.Sound) : Sound ⟨h.tree, h.records ++ []⟩ :=
  hsound.unrecorded (Tree.Grows.refl _) hsound.located

theorem Sound.located_append
    {h : History} (hsound : h.Sound) {node : Node} {spaces : List Namespace}
    (hspace : node.space < (h.tree.spaces ++ spaces).length) (other : Node)
    (hother : other ∈ h.tree.nodes ++ [node]) : other.space < (h.tree.spaces ++ spaces).length := by
  rcases List.mem_append.mp hother with hold | hnew
  · have hlt := hsound.located other hold
    rw [List.length_append]
    exact Nat.lt_add_right _ hlt
  · rw [List.mem_singleton.mp hnew]
    exact hspace

theorem Sound.openRoot {h : History} (hsound : h.Sound) (names : List String) :
    (h.next (.openRoot names)).Sound := by
  refine hsound.grow (Tree.grows_append h.tree _ _) ?_ ?_ ?_ ?_
  · apply hsound.located_append
    rw [List.length_append]
    exact Nat.lt_succ_self _
  · intro r hr
    rcases List.mem_map.mp hr with ⟨name, hname, rfl⟩
    exact ⟨_, List.getElem?_concat_length, hname⟩
  · intro r hr _
    rcases List.mem_map.mp hr with ⟨name, hname, rfl⟩
    refine ⟨_, List.getElem?_concat_length, ?_⟩
    exact List.mem_map.mpr ⟨(name, name), List.mem_map_of_mem hname, rfl⟩
  · -- Builtins are not handed out, so nothing is required of them.
    have hbuiltin : forall earlier r, r ∈ h.tree.builtins names -> Record.Apart earlier r := by
      intro earlier r hr
      rcases List.mem_map.mp hr with ⟨name, _, rfl⟩
      exact ⟨fun hissued => absurd hissued Bool.false_ne_true,
        fun hsynthetic => absurd hsynthetic Bool.false_ne_true⟩
    refine List.pairwise_append.mpr ⟨hsound.apart, ?_, fun earlier _ r hr => hbuiltin earlier r hr⟩
    exact List.Pairwise.imp_of_mem (fun _ hr _ => hbuiltin _ _ hr)
      (List.pairwise_of_forall (R := fun _ _ => True) fun _ _ => trivial)

theorem Sound.openChild {h : History} (hsound : h.Sound) (kind : Kind) (s : Nat) :
    (h.next (.openChild kind s)).Sound := by
  unfold next
  rw [Tree.act, Tree.openChild]
  cases hnode : h.tree.nodes[s]? with
  | none => exact hsound.unchanged
  | some node =>
      cases kind with
      | owning =>
          refine hsound.unrecorded (Tree.grows_append h.tree _ _) (hsound.located_append ?_)
          rw [List.length_append]
          exact Nat.lt_succ_self _
      | transparent =>
          have hspace := hsound.located node (List.mem_of_getElem? hnode)
          rw [← List.append_nil h.tree.spaces] at hspace
          have hgrows := Tree.grows_append h.tree
            [⟨.empty .transparent, s :: node.ancestors, node.space⟩] []
          have hopened := hsound.unrecorded hgrows (hsound.located_append hspace)
          rwa [List.append_nil h.tree.spaces] at hopened

/-!
## Identifiers that are handed out
-/

theorem Sound.mem_visible
    {h : History} (hsound : h.Sound) {s : Nat} {node : Node} (hnode : h.tree.nodes[s]? = some node)
    {r : Record} (hr : r ∈ h.records) (hbinding : r.origin.isBinding = true)
    (hscope : r.scope ∈ s :: node.ancestors) : r.id ∈ identifiers (h.tree.frames node) := by
  rcases hsound.bound r hr hbinding with ⟨holder, hholder, hid⟩
  refine List.mem_flatMap.mpr ⟨holder.frame, ?_, hid⟩
  rcases List.mem_cons.mp hscope with heq | houter
  · rw [heq, hnode] at hholder
    cases hholder
    exact List.mem_cons_self
  · refine List.mem_cons_of_mem _ (List.mem_filterMap.mpr ⟨r.scope, houter, ?_⟩)
    rw [hholder]
    rfl

theorem Sound.mem_names
    {h : History} (hsound : h.Sound) {node : Node} {r : Record} (hr : r ∈ h.records)
    (hspace : r.space = node.space) : r.id ∈ (h.tree.spaceOf node).names := by
  rcases hsound.taken r hr with ⟨space, htaken, hid⟩
  unfold Tree.spaceOf
  rw [← hspace, htaken]
  exact hid

theorem Sound.apart_of_new
    {h : History} (hsound : h.Sound) {s : Nat} {node : Node} (hnode : h.tree.nodes[s]? = some node)
    {id : String} {origin : Origin} (hnames : id ∉ (h.tree.spaceOf node).names)
    (hvisible : origin.isSynthetic = true -> id ∉ identifiers (h.tree.frames node)) :
    (h.records ++ [node.issues s id origin]).Pairwise Record.Apart := by
  refine List.pairwise_append.mpr ⟨hsound.apart, List.pairwise_singleton _ _, ?_⟩
  intro earlier hearlier later hlater
  rw [List.mem_singleton.mp hlater]
  constructor
  · intro _ hspace heq
    have htaken := hsound.mem_names hearlier hspace
    rw [heq] at htaken
    exact hnames htaken
  · intro hsynthetic hbinding hscope heq
    have hseen := hsound.mem_visible hnode hearlier hbinding hscope
    rw [heq] at hseen
    exact hvisible hsynthetic hseen

theorem Sound.space_of_node
    {h : History} (hsound : h.Sound) {s : Nat} {node : Node} (hnode : h.tree.nodes[s]? = some node) :
    h.tree.spaces[node.space]? = some (h.tree.spaceOf node) := by
  have hlt := hsound.located node (List.mem_of_getElem? hnode)
  unfold Tree.spaceOf
  rw [List.getElem?_eq_getElem hlt]
  rfl

theorem Sound.issue
    {h : History} (hsound : h.Sound) {s : Nat} {node : Node} (hnode : h.tree.nodes[s]? = some node)
    {id : String} {origin : Origin} {space : Namespace} {nodes : List Node}
    (hnames_eq : space.names = id :: (h.tree.spaceOf node).names)
    (hnames : id ∉ (h.tree.spaceOf node).names)
    (hvisible : origin.isSynthetic = true -> id ∉ identifiers (h.tree.frames node))
    (hgrows : h.tree.Grows ⟨nodes, h.tree.spaces⟩)
    (hlocated : forall other, other ∈ nodes -> other.space < h.tree.spaces.length)
    (hbound : origin.isBinding = true ->
      exists node', nodes[s]? = some node' ∧ id ∈ node'.frame.identifiers) :
    Sound ⟨⟨nodes, h.tree.spaces.set node.space space⟩,
      h.records ++ [node.issues s id origin]⟩ := by
  have hspace := hsound.space_of_node hnode
  refine hsound.grow ⟨?_, hgrows.nodes⟩ ?_ ?_ ?_ (hsound.apart_of_new hnode hnames hvisible)
  · intro k other hother
    refine Tree.spaces_set hspace ?_ k hother
    rw [hnames_eq]
    exact List.subset_cons_self _ _
  · intro other hother
    rw [List.length_set]
    exact hlocated other hother
  · intro r hr
    rw [List.mem_singleton.mp hr]
    refine ⟨space, List.getElem?_set_self (List.getElem?_eq_some_iff.mp hspace).1, ?_⟩
    rw [hnames_eq]
    exact List.mem_cons_self
  · intro r hr hbinding
    rw [List.mem_singleton.mp hr] at hbinding ⊢
    exact hbound hbinding

theorem Sound.fresh {h : History} (hsound : h.Sound) (s : Nat) (hint : String) :
    (h.next (.fresh s hint)).Sound := by
  unfold next
  rw [Tree.act, Tree.fresh]
  cases hnode : h.tree.nodes[s]? with
  | none => exact hsound.unchanged
  | some node =>
      have htaken := taken_fresh (h.tree.spaceOf node) (identifiers (h.tree.frames node)) hint
      exact hsound.issue hnode htaken.names_eq htaken.not_mem_names
        (fun _ => htaken.not_mem_visible) (Tree.Grows.refl _) hsound.located
        (fun hbinding => absurd hbinding Bool.false_ne_true)

theorem Sound.bind
    {h : History} (hsound : h.Sound) {s : Nat} {node : Node} (hnode : h.tree.nodes[s]? = some node)
    (name : String) {id : String} {origin : Origin} {space : Namespace}
    (hnames_eq : space.names = id :: (h.tree.spaceOf node).names)
    (hnames : id ∉ (h.tree.spaceOf node).names)
    (hvisible : origin.isSynthetic = true -> id ∉ identifiers (h.tree.frames node)) :
    Sound ⟨⟨h.tree.nodes.set s { node with frame := node.frame.bind name id },
      h.tree.spaces.set node.space space⟩, h.records ++ [node.issues s id origin]⟩ := by
  refine hsound.issue hnode hnames_eq hnames hvisible
    ⟨fun _ other hother => ⟨other, hother, List.Subset.refl _⟩, ?_⟩ ?_ ?_
  · intro r other hother
    exact Tree.nodes_bind hnode name id r hother
  · intro other hother
    rcases List.mem_or_eq_of_mem_set hother with hold | heq
    · exact hsound.located other hold
    · rw [heq]
      exact hsound.located node (List.mem_of_getElem? hnode)
  · intro _
    exact ⟨_, List.getElem?_set_self (List.getElem?_eq_some_iff.mp hnode).1, List.mem_cons_self⟩

theorem declare_ok
    {frame : Frame} {outer : List Frame} {space space' : Namespace} {name id : String}
    (h : declare frame outer space name = .ok (id, space')) :
    space'.names = id :: space.names ∧ id ∉ space.names ∧
      ((frame.kind.origin).isSynthetic = true -> id ∉ identifiers (frame :: outer)) := by
  unfold declare at h
  cases hkind : frame.kind with
  | owning =>
      rw [hkind] at h
      dsimp only at h
      split at h
      · cases h
      · rename_i htaken
        cases h
        refine ⟨rfl, fun hmem => htaken (List.contains_iff_mem.mpr hmem), ?_⟩
        exact fun hsynthetic => absurd hsynthetic Bool.false_ne_true
  | transparent =>
      rw [hkind] at h
      dsimp only at h
      split at h
      · cases h
      · have htaken := taken_fresh space (identifiers (frame :: outer)) name
        rw [Except.ok.inj h] at htaken
        exact ⟨htaken.names_eq, htaken.not_mem_names, fun _ => htaken.not_mem_visible⟩

theorem Sound.register {h : History} (hsound : h.Sound) (s : Nat) (name : String) :
    (h.next (.register s name)).Sound := by
  unfold next
  rw [Tree.act, Tree.register]
  cases hnode : h.tree.nodes[s]? with
  | none => exact hsound.unchanged
  | some node =>
      dsimp only [Option.map_some]
      cases hdeclare : declare node.frame (h.tree.outer node) (h.tree.spaceOf node) name with
      | error e => exact hsound.unchanged
      | ok made =>
          rcases declare_ok hdeclare with ⟨hnames_eq, hnames, hvisible⟩
          exact hsound.bind hnode name hnames_eq hnames hvisible

theorem Sound.next {h : History} (hsound : h.Sound) (a : Act) : (h.next a).Sound := by
  cases a with
  | openRoot names => exact hsound.openRoot names
  | openChild kind s => exact hsound.openChild kind s
  | register s name => exact hsound.register s name
  | resolve s name => exact hsound.unchanged
  | fresh s hint => exact hsound.fresh s hint

theorem sound_after (acts : List Act) : (after acts).Sound := by
  induction acts using List.reverseRecOn with
  | nil => exact sound_start
  | append_singleton acts a ih =>
      rw [after_append]
      exact ih.next a

/-- In every history each identifier that is handed out differs from the earlier ones of its
namespace, builtins among them, and a synthetic one differs from every identifier that a name was
bound to before, in its scope or around it. -/
theorem issued_apart (acts : List Act) : (after acts).records.Pairwise Record.Apart :=
  (sound_after acts).apart

/-- A let beside a builtin with a synthetic name, and a function inside it: the temporary of the
function avoids the let, though it is taken in another namespace. -/
example :
    ((after [.openRoot ["f", "_0x"], .openChild .transparent 0, .register 1 "x",
      .openChild .owning 1, .register 2 "x", .register 2 "x", .fresh 2 "x", .fresh 0 ""]).records.map
        fun r => (r.space, r.id, r.origin)) =
      [(0, "f", .builtin), (0, "_0x", .builtin), (0, "_1x", .renamed), (1, "x", .kept),
        (1, "_2x", .temporary), (0, "_1", .temporary)] := by
  decide +kernel

end History
end Scope
end DefTable
