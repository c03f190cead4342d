import DefTable.Builtin
import DefTable.Text.Quoted

/-!
# Scopes

Source names are declared in scopes and resolved from the innermost scope outwards.  Each name
stands for an identifier of some flat table of definitions.  An owning scope has a table of its own
and keeps its names as they are; a transparent scope shares the table of the scope around it, so its
names get fresh identifiers there.  The identifiers handed out for one table form a namespace.
-/

namespace DefTable
namespace Scope

/-! ## Namespaces -/

/-- The identifiers taken in one table, and where the search for a fresh one starts. -/
structure Namespace where
  names : List String
  counter : Nat
deriving DecidableEq, Repr, Inhabited

namespace Namespace

def empty : Namespace := ⟨[], 0⟩

def has (space : Namespace) (name : String) : Bool :=
  space.names.contains name

def add (space : Namespace) (name : String) : Namespace :=
  { space with names := name :: space.names }

end Namespace

def candidate (hint : String) (k : Nat) : String :=
  "_" ++ toString k ++ hint

/-- The first number from `k` on whose candidate is not taken.  One candidate more than there are
taken identifiers suffices, so the search ends after `steps = taken.length`. -/
def leastFree (taken : List String) (hint : String) : (steps k : Nat) → Nat
  | 0, k => k
  | steps + 1, k =>
    if taken.contains (candidate hint k) then leastFree taken hint steps (k + 1) else k

/-- Take a fresh identifier that is neither in the namespace nor among the `visible` ones.  The
counter only moves past identifiers that are taken. -/
def Namespace.fresh (space : Namespace) (visible : List String) (hint : String) :
    String × Namespace :=
  let taken := space.names ++ visible
  let k := leastFree taken hint taken.length space.counter
  (candidate hint k, ({ space with counter := k } : Namespace).add (candidate hint k))

/-! ## Frames -/

inductive Kind where
  | owning
  | transparent
deriving DecidableEq, Repr, Inhabited

def Kind.label : Kind → String
  | owning => "owning"
  | transparent => "transparent"

structure Frame where
  kind : Kind
  bindings : List (String × String)
deriving DecidableEq, Repr, Inhabited

namespace Frame

def empty (kind : Kind) : Frame := ⟨kind, []⟩

def bind (frame : Frame) (name id : String) : Frame :=
  { frame with bindings := (name, id) :: frame.bindings }

def lookup? (frame : Frame) (name : String) : Option String :=
  frame.bindings.lookup name

def identifiers (frame : Frame) : List String :=
  frame.bindings.map Prod.snd

end Frame

def root (names : List String) : Frame × Namespace :=
  (⟨.owning, names.map fun n => (n, n)⟩, ⟨names, 0⟩)

def identifiers (frames : List Frame) : List String :=
  frames.flatMap Frame.identifiers

/-! ## Names -/

inductive NameError where
  | duplicate (name : String)
  | unresolved (name : String)
deriving DecidableEq, Repr

def NameError.message : NameError → String
  | duplicate name => s!"identifier {Quoted.string name} is already declared"
  | unresolved name => s!"cannot resolve identifier {Quoted.string name}"

def resolve (frames : List Frame) (name : String) : Except NameError String :=
  if isGlobal name then .ok name
  else match frames.findSome? fun f => f.lookup? name with
    | some id => .ok id
    | none => .error (.unresolved name)

/-- The identifier for a name about to be declared in `frame`, inside the scopes `outer`, and the
namespace with it. -/
def declare (frame : Frame) (outer : List Frame) (space : Namespace) (name : String) :
    Except NameError (String × Namespace) :=
  match frame.kind with
  | .owning => if space.has name then .error (.duplicate name) else .ok (name, space.add name)
  | .transparent =>
    if (frame.lookup? name).isSome then .error (.duplicate name)
    else .ok (space.fresh (identifiers (frame :: outer)) name)

end Scope
end DefTable
