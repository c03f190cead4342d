import DefTable.Lowering
import DefTable.Proofs.Machine.Basic

/-!
# A lowering that mutates

The table under construction and the namespace of its identifiers are one state that every step
changes.  A scope has a number for its kind, which need not be the number of a kind; the search for
a fresh identifier counts up until it finds one, without a bound; and an infix application is
rewritten to a curried one and lowered again, so the recursion does not follow the expression.
-/

namespace DefTable
namespace Machine

inductive Node where
  | number (value : Number)
  | string (value : String)
  | matrix (values : List Cell)
  | bool (value : Bool)
  | null
  | list (items : List String)
  | call (target : String) (args : List String)
  | func (params : List String) (body : List (String × Node))
  | switch (cases : List Case)
  | unknown

abbrev Nodes := List (String × Node)

def Nodes.insert (id : String) (n : Node) : Nodes -> Nodes
  | [] => [(id, n)]
  | entry :: rest =>
      if id < entry.1 then (id, n) :: entry :: rest
      else if id = entry.1 then (id, n) :: rest
      else entry :: insert id n rest

/-- One scope of the chain: the number of its kind and what it declares. -/
structure Layer where
  kind : Nat
  bindings : List (String × String)

namespace Layer

def owningKind : Nat := 0

def transparentKind : Nat := 1

def owning : Layer := ⟨owningKind, []⟩

def transparent : Layer := ⟨transparentKind, []⟩

def bind (layer : Layer) (name id : String) : Layer :=
  { layer with bindings := (name, id) :: layer.bindings }

end Layer

structure Assembly where
  space : Scope.Namespace
  nodes : Nodes

/-- A step either fails with an error of the source or goes on. -/
abbrev Assembler := StateT Assembly (ExceptT Lowering.Error Run)

def crash {α : Type} (c : Crash) : Assembler α :=
  liftM (throw c : Run α)

/-!
## Scopes
-/

def define (id : String) (n : Node) : Assembler Unit :=
  modify fun a => { a with nodes := a.nodes.insert id n }

def binds (layers : List Layer) (id : String) : Bool :=
  layers.any fun layer => layer.bindings.any fun p => p.2 = id

def fresh (layers : List Layer) (hint : String) : Assembler String :=
  letI fresh : Assembler String := by apply fresh; exact layers; exact hint
  do
    let a ← get
    let id := Scope.candidate hint a.space.counter
    if a.space.has id || binds layers id then
      set { a with space := { a.space with counter := a.space.counter + 1 } }
      fresh
    else
      set { a with space := a.space.add id }
      return id
partial_fixpoint

def resolve (layers : List Layer) (i : Ident) : Assembler String :=
  if isGlobal i.name then
    return i.name
  else
    match layers.findSome? fun layer => layer.bindings.lookup i.name with
    | some id => return id
    | none => throw (.name (.unresolved i.name) i.token)

def register (layer : Layer) (outer : List Layer) (i : Ident) : Assembler (String × Layer) := do
  if layer.kind = Layer.owningKind then
    let a ← get
    if a.space.has i.name then
      throw (.name (.duplicate i.name) i.token)
    else
      set { a with space := a.space.add i.name }
      return (i.name, layer.bind i.name i.name)
  else if layer.kind = Layer.transparentKind then
    if (layer.bindings.lookup i.name).isSome then
      throw (.name (.duplicate i.name) i.token)
    else
      let id ← fresh (layer :: outer) i.name
      return (id, layer.bind i.name id)
  else
    crash .unknownScopeKind

def registerAll (outer : List Layer) : Layer -> List Ident -> Assembler Layer
  | layer, [] => return layer
  | layer, i :: rest => do
      let (_, layer) ← register layer outer i
      registerAll outer layer rest

/-!
## Expressions
-/

def unwind : Expr -> List Expr -> Expr × List Expr
  | .binary _ left .apply right, args => unwind left (right :: args)
  | e, args => (e, args)

mutual

def lowerExpr (out : String) (e : Expr) (layers : List Layer) : Assembler Unit :=
  letI lowerExpr : String -> Expr -> List Layer -> Assembler Unit := by apply lowerExpr
  letI lowerCall : Expr × List Expr -> List Layer -> Assembler (String × List String) := by
    apply lowerCall
  letI lowerOperands : List Expr -> List Layer -> Assembler (List String) := by apply lowerOperands
  letI lowerDecl : String -> List Ident -> Expr -> List Layer -> Assembler Unit := by
    apply lowerDecl
  letI lowerFunction : List Ident -> Expr -> List Layer -> Assembler Node := by apply lowerFunction
  match e with
  | .group _ inner => lowerExpr out inner layers
  | .ident i => do
      let id ← resolve layers i
      define out (.call id [])
  | .letIn _ name params value body => do
      let (id, layer) ← register .transparent layers name
      lowerDecl id params value (layer :: layers)
      lowerExpr out body (layer :: layers)
  | .binary t left (.named op) right =>
      lowerExpr out (.binary t (.binary op.token (.ident op) .apply left) .apply right) layers
  | .binary _ _ .apply _ => do
      let (target, args) ← lowerCall (unwind e []) layers
      define out (.call target args)
  | .list _ es =>
      match Lowering.packed? es with
      | some cells => define out (.matrix cells)
      | none => do
          let items ← lowerOperands es layers
          define out (.list items)
  | .cond _ test yes no => do
      let testId ← fresh layers ""
      let yesId ← fresh layers ""
      let noId ← fresh layers ""
      lowerExpr testId test layers
      lowerExpr yesId yes layers
      lowerExpr noId no layers
      define out (.switch [⟨some testId, yesId⟩, ⟨none, noId⟩])
  | .number _ v => define out (.number v)
  | .string _ v => define out (.string v)
  | .bool _ v => define out (.bool v)
  | .null _ => define out .null
  | .lambda _ params body => do
      let n ← lowerFunction params body layers
      define out n
  | .hole => crash .unexpectedExpression
partial_fixpoint

def lowerCall (call : Expr × List Expr) (layers : List Layer) :
    Assembler (String × List String) :=
  letI lowerOperand : Expr -> List Layer -> Assembler String := by apply lowerOperand
  letI lowerOperands : List Expr -> List Layer -> Assembler (List String) := by apply lowerOperands
  do
    let target ← lowerOperand call.1 layers
    let args ← lowerOperands call.2 layers
    return (target, args)
partial_fixpoint

def lowerOperand (e : Expr) (layers : List Layer) : Assembler String :=
  letI lowerExpr : String -> Expr -> List Layer -> Assembler Unit := by apply lowerExpr
  match e with
  | .ident i => resolve layers i
  | e => do
      let id ← fresh layers ""
      lowerExpr id e layers
      return id
partial_fixpoint

def lowerOperands (es : List Expr) (layers : List Layer) : Assembler (List String) :=
  letI lowerOperand : Expr -> List Layer -> Assembler String := by apply lowerOperand
  letI lowerOperands : List Expr -> List Layer -> Assembler (List String) := by apply lowerOperands
  match es with
  | [] => return []
  | e :: rest => do
      let id ← lowerOperand e layers
      let ids ← lowerOperands rest layers
      return id :: ids
partial_fixpoint

def lowerDecl (out : String) (params : List Ident) (body : Expr) (layers : List Layer) :
    Assembler Unit :=
  letI lowerExpr : String -> Expr -> List Layer -> Assembler Unit := by apply lowerExpr
  letI lowerFunction : List Ident -> Expr -> List Layer -> Assembler Node := by apply lowerFunction
  do
    if params.isEmpty then
      lowerExpr out body (.transparent :: layers)
    else
      let n ← lowerFunction params body layers
      define out n
partial_fixpoint

def lowerFunction (params : List Ident) (body : Expr) (layers : List Layer) : Assembler Node :=
  letI lowerExpr : String -> Expr -> List Layer -> Assembler Unit := by apply lowerExpr
  do
    let outer ← get
    set (Assembly.mk .empty [])
    let layer ← registerAll layers .owning params
    lowerExpr Table.resultId body (layer :: layers)
    let inner ← get
    set outer
    return .func (params.map Ident.name) inner.nodes
partial_fixpoint

end

/-!
## Programs
-/

def lowerDecls (layers : List Layer) : List Decl -> Assembler Unit
  | [] => return ()
  | d :: rest => do
      lowerDecl d.name.name d.params d.body layers
      lowerDecls layers rest

def lowerProgram (p : Program) (extra : List String) : ExceptT Lowering.Error Run Nodes := do
  let names := Builtin.names ++ extra
  let global : Layer := ⟨Layer.owningKind, names.map fun n => (n, n)⟩
  let lowering : Assembler Unit := do
    let layer ← registerAll [] global (p.decls.map Decl.name)
    lowerDecls [layer] p.decls
  let (_, a) ← lowering.run ⟨⟨names, 0⟩, []⟩
  return a.nodes

end Machine
end DefTable
