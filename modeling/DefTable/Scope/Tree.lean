import DefTable.Scope.Basic

/-!
# Trees of scopes

A tree of scopes grows by children and changes by declarations, at any of its scopes and in any
order.  Scopes are numbered as they are opened.
-/

namespace DefTable
namespace Scope

structure Node where
  frame : Frame
  ancestors : List Nat
  space : Nat
deriving Repr, Inhabited

structure Tree where
  nodes : List Node
  spaces : List Namespace
deriving Repr, Inhabited

namespace Tree

def ofNames (names : List String) : Tree :=
  let (frame, space) := root names
  ⟨[⟨frame, [], 0⟩], [space]⟩

def frames (t : Tree) (node : Node) : List Frame :=
  node.frame :: node.ancestors.filterMap fun i => (t.nodes[i]?).map Node.frame

def outer (t : Tree) (node : Node) : List Frame :=
  (t.frames node).tail

def spaceOf (t : Tree) (node : Node) : Namespace :=
  t.spaces[node.space]?.getD .empty

def openChild (t : Tree) (kind : Kind) (s : Nat) : Option (Nat × Tree) :=
  t.nodes[s]?.map fun node =>
    let (space, spaces) := match kind with
      | .owning => (t.spaces.length, t.spaces ++ [Namespace.empty])
      | .transparent => (node.space, t.spaces)
    (t.nodes.length, ⟨t.nodes ++ [⟨.empty kind, s :: node.ancestors, space⟩], spaces⟩)

def register (t : Tree) (s : Nat) (name : String) : Option (Except NameError (String × Tree)) :=
  t.nodes[s]?.map fun node =>
    (declare node.frame (t.outer node) (t.spaceOf node) name).map fun (id, space) =>
      (id, ⟨t.nodes.set s { node with frame := node.frame.bind name id },
        t.spaces.set node.space space⟩)

def resolve (t : Tree) (s : Nat) (name : String) : Option (Except NameError String) :=
  t.nodes[s]?.map fun node => Scope.resolve (t.frames node) name

def fresh (t : Tree) (s : Nat) (hint : String) : Option (String × Tree) :=
  t.nodes[s]?.map fun node =>
    let (id, space) := (t.spaceOf node).fresh (identifiers (t.frames node)) hint
    (id, { t with spaces := t.spaces.set node.space space })

def kind (t : Tree) (s : Nat) : Option Kind :=
  t.nodes[s]?.map fun node => node.frame.kind

def parent (t : Tree) (s : Nat) : Option Nat :=
  t.nodes[s]?.bind fun node => node.ancestors.head?

end Tree
end Scope
end DefTable
