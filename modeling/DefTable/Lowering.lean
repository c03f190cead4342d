import DefTable.Expr.Basic
import DefTable.Scope.Basic
import DefTable.Table.Basic

/-!
# Lowering a program to a table

Every expression becomes definitions under identifiers of one table: the nested expressions get
fresh identifiers, names become the identifiers they are bound to, and an application takes all its
arguments at once.  A function gets a table of its own.

How an expression is lowered depends on its use, so lowering gives for each expression its three
uses: its definition under a given identifier, its value as an operand, and its call when it is
applied to further arguments.
-/

namespace DefTable
namespace Lowering

inductive Error where
  | name (cause : Scope.NameError) (token : Token)
  | hole
deriving DecidableEq, Repr

namespace Error

def cause : Error → String
  | name cause _ => cause.message
  | hole => "ir: unexpected expression <nil>"

def token : Error → Token
  | name _ token => token
  | hole => .absent

def message (e : Error) : String :=
  let p := e.token.position
  if p.line = 0 then e.cause else s!"{p.line}:{p.column}: {e.cause}"

end Error

/-! ## Building a table -/

/-- A table under construction with the namespace of its identifiers. -/
structure Builder where
  space : Scope.Namespace
  table : Table
deriving Inhabited

abbrev Build (α : Type) := StateT Builder (Except Error) α

open Scope (Frame)

def define (id : String) (d : Def) : Build Unit :=
  modify fun b => { b with table := b.table.insert id d }

def fresh (frames : List Frame) : Build String := do
  let b ← get
  let (id, space) := b.space.fresh (Scope.identifiers frames) ""
  set { b with space := space }
  return id

def resolve (frames : List Frame) (i : Ident) : Build String :=
  match Scope.resolve frames i.name with
  | .ok id => return id
  | .error e => throw (.name e i.token)

/-- Declare the name of a `let` in a scope of its own, which is put in front. -/
def declareLet (frames : List Frame) (i : Ident) : Build (String × List Frame) := do
  let b ← get
  let frame := Frame.empty .transparent
  match Scope.declare frame frames b.space i.name with
  | .error e => throw (.name e i.token)
  | .ok (id, space) =>
    set { b with space := space }
    return (id, frame.bind i.name id :: frames)

def declareAll (outer : List Frame) :
    Frame × Scope.Namespace → List Ident → Except Error (Frame × Scope.Namespace)
  | state, [] => .ok state
  | (frame, space), i :: rest =>
    match Scope.declare frame outer space i.name with
    | .error e => .error (.name e i.token)
    | .ok (id, space) => declareAll outer (frame.bind i.name id, space) rest

def function (frames : List Frame) (params : List Ident) (body : List Frame → Build Unit) :
    Build Def := do
  let (frame, space) ← declareAll frames (Frame.empty .owning, .empty) params
  let (_, b) ← (body (frame :: frames)).run ⟨space, []⟩
  return .func (params.map Ident.name) b.table

/-! ## Expressions -/

/-- The three uses of an expression. -/
structure Uses where
  into : String → Build Unit
  operand : Build String
  /-- The target and the arguments of the call it is when applied further. -/
  call : Build (String × List String)

def Uses.ofInto (frames : List Frame) (into : String → Build Unit) : Uses :=
  let operand := do
    let id ← fresh frames
    into id
    return id
  { into := into, operand := operand, call := operand.map fun id => (id, []) }

/-- The elements of a list packed together, if all are numbers or all are truth values. -/
def packed? (es : List Expr) : Option (List Cell) :=
  let number? : Expr → Option Cell := fun
    | .number _ v => some (.number v)
    | _ => none
  let bool? : Expr → Option Cell := fun
    | .bool _ v => some (.bool v)
    | _ => none
  es.mapM number? <|> es.mapM bool?

def declaration (frames : List Frame) (id : String) (params : List Ident)
    (body : List Frame → String → Build Unit) : Build Unit := do
  if params.isEmpty then
    body frames id
  else
    define id (← function frames params fun inner => body inner Table.resultId)

mutual

def uses (frames : List Frame) : Expr → Uses
  | .hole => .ofInto frames fun _ => throw .hole
  | .group _ e => .ofInto frames fun id => (uses frames e).into id
  | .ident i =>
    { into := fun id => do define id (.call (← resolve frames i) [])
      operand := resolve frames i
      call := return (← resolve frames i, []) }
  | .number _ v => .ofInto frames fun id => define id (.number v)
  | .string _ v => .ofInto frames fun id => define id (.string v)
  | .bool _ v => .ofInto frames fun id => define id (.bool v)
  | .null _ => .ofInto frames fun id => define id .null
  | .letIn _ name params value body => .ofInto frames fun id => do
    let (bound, inner) ← declareLet frames name
    declaration inner bound params fun frames id => (uses frames value).into id
    (uses inner body).into id
  | .binary _ left .apply right =>
    let call := do
      let (target, args) ← (uses frames left).call
      let arg ← (uses frames right).operand
      return (target, args ++ [arg])
    let into := fun id => do
      let (target, args) ← call
      define id (.call target args)
    { Uses.ofInto frames into with call := call }
  | .binary _ left (.named op) right => .ofInto frames fun id => do
    let target ← resolve frames op
    let a ← (uses frames left).operand
    let b ← (uses frames right).operand
    define id (.call target [a, b])
  | .list _ es => .ofInto frames fun id =>
    match packed? es with
    | some cells => define id (.matrix cells)
    | none => do define id (.list (← operands frames es))
  | .cond _ test yes no => .ofInto frames fun id => do
    let testId ← fresh frames
    let yesId ← fresh frames
    let noId ← fresh frames
    (uses frames test).into testId
    (uses frames yes).into yesId
    (uses frames no).into noId
    define id (.switch [⟨some testId, yesId⟩, ⟨none, noId⟩])
  | .lambda _ params body => .ofInto frames fun id => do
    define id (← function frames params fun inner => (uses inner body).into Table.resultId)

def operands (frames : List Frame) : List Expr → Build (List String)
  | [] => return []
  | e :: rest => do
    let id ← (uses frames e).operand
    let ids ← operands frames rest
    return id :: ids

end

/-! ## Programs -/

def declarations (frames : List Frame) : List Decl → Build Unit
  | [] => return ()
  | d :: rest => do
    declaration frames d.name.name d.params fun frames id => (uses frames d.body).into id
    declarations frames rest

end Lowering

namespace Program

/-- Lower a program whose scope holds the builtins and the `extra` names.  All top-level names are
declared first, so that declarations can refer to each other in any order. -/
def lower (p : Program) (extra : List String) : Except Lowering.Error Table := do
  let (frame, space) ←
    Lowering.declareAll [] (Scope.root (Builtin.names ++ extra)) (p.decls.map Decl.name)
  let (_, b) ← (Lowering.declarations [frame] p.decls).run ⟨space, []⟩
  return b.table

end Program
end DefTable
