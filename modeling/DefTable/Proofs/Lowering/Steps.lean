import DefTable.Lowering

/-!
# The steps of a lowering

Lowering takes an expression apart into a few steps: it puts a definition into the table, takes a
fresh identifier, looks a name up or declares it, and gives a function a table of its own.  Here it
is stated over these steps, whatever they do.  With the steps of the table builder it is the
lowering of programs; with steps that do more than build a table it is the same lowering, watched.
-/

namespace DefTable
namespace Lowering

open Scope (Frame)

structure Steps (m : Type -> Type) where
  define : String -> Def -> m Unit
  fresh : List Frame -> m String
  resolve : List Frame -> Ident -> m String
  declareLet : List Frame -> Ident -> m (String × List Frame)
  function : List Frame -> List Ident -> (List Frame -> m Unit) -> m Def
  missing : m Unit

structure UsesIn (m : Type -> Type) where
  into : String -> m Unit
  operand : m String
  call : m (String × List String)

namespace Steps

variable {m : Type -> Type} [Monad m] (S : Steps m)

def ofInto (frames : List Frame) (into : String -> m Unit) : UsesIn m :=
  let operand := do
    let id ← S.fresh frames
    into id
    return id
  { into := into, operand := operand, call := do return (← operand, []) }

def declaration (frames : List Frame) (id : String) (params : List Ident)
    (body : List Frame -> String -> m Unit) : m Unit := do
  if params.isEmpty then
    body frames id
  else
    S.define id (← S.function frames params fun inner => body inner Table.resultId)

mutual

def uses (frames : List Frame) : Expr -> UsesIn m
  | .hole => S.ofInto frames fun _ => S.missing
  | .group _ e => S.ofInto frames fun id => (uses frames e).into id
  | .ident i =>
    { into := fun id => do S.define id (.call (← S.resolve frames i) [])
      operand := S.resolve frames i
      call := do return (← S.resolve frames i, []) }
  | .number _ v => S.ofInto frames fun id => S.define id (.number v)
  | .string _ v => S.ofInto frames fun id => S.define id (.string v)
  | .bool _ v => S.ofInto frames fun id => S.define id (.bool v)
  | .null _ => S.ofInto frames fun id => S.define id .null
  | .letIn _ name params value body => S.ofInto frames fun id => do
    let (bound, inner) ← S.declareLet frames name
    S.declaration inner bound params fun frames id => (uses frames value).into id
    (uses inner body).into id
  | .binary _ left .apply right =>
    let call := do
      let (target, args) ← (uses frames left).call
      let arg ← (uses frames right).operand
      return (target, args ++ [arg])
    let into := fun id => do
      let (target, args) ← call
      S.define id (.call target args)
    { S.ofInto frames into with call := call }
  | .binary _ left (.named op) right => S.ofInto frames fun id => do
    let target ← S.resolve frames op
    let a ← (uses frames left).operand
    let b ← (uses frames right).operand
    S.define id (.call target [a, b])
  | .list _ es => S.ofInto frames fun id =>
    match packed? es with
    | some cells => S.define id (.matrix cells)
    | none => do S.define id (.list (← operands frames es))
  | .cond _ test yes no => S.ofInto frames fun id => do
    let testId ← S.fresh frames
    let yesId ← S.fresh frames
    let noId ← S.fresh frames
    (uses frames test).into testId
    (uses frames yes).into yesId
    (uses frames no).into noId
    S.define id (.switch [⟨some testId, yesId⟩, ⟨none, noId⟩])
  | .lambda _ params body => S.ofInto frames fun id => do
    S.define id (← S.function frames params fun inner => (uses inner body).into Table.resultId)

def operands (frames : List Frame) : List Expr -> m (List String)
  | [] => return []
  | e :: rest => do
    let id ← (uses frames e).operand
    let ids ← operands frames rest
    return id :: ids

end

def declarations (frames : List Frame) : List Decl -> m Unit
  | [] => return ()
  | d :: rest => do
    S.declaration frames d.name.name d.params fun frames id => (S.uses frames d.body).into id
    declarations frames rest

end Steps

/-!
## The steps of the table builder
-/

def Steps.builder : Steps Build where
  define := Lowering.define
  fresh := Lowering.fresh
  resolve := Lowering.resolve
  declareLet := Lowering.declareLet
  function := Lowering.function
  missing := throw .hole

def Uses.inBuild (u : Uses) : UsesIn Build :=
  ⟨u.into, u.operand, u.call⟩

mutual

theorem uses_builder :
    forall (e : Expr) (frames : List Frame),
      Steps.builder.uses frames e = (uses frames e).inBuild
  | .hole, frames => by
      rw [Steps.uses, uses]
      rfl
  | .group _ e, frames => by
      rw [Steps.uses, uses, uses_builder e]
      rfl
  | .ident i, frames => by
      rw [Steps.uses, uses]
      rfl
  | .number _ v, frames => by
      rw [Steps.uses, uses]
      rfl
  | .string _ v, frames => by
      rw [Steps.uses, uses]
      rfl
  | .bool _ v, frames => by
      rw [Steps.uses, uses]
      rfl
  | .null _, frames => by
      rw [Steps.uses, uses]
      rfl
  | .letIn _ name params value body, frames => by
      rw [Steps.uses, uses]
      simp only [uses_builder value, uses_builder body]
      rfl
  | .binary _ left .apply right, frames => by
      rw [Steps.uses, uses, uses_builder left, uses_builder right]
      rfl
  | .binary _ left (.named op) right, frames => by
      rw [Steps.uses, uses, uses_builder left, uses_builder right]
      rfl
  | .list _ es, frames => by
      rw [Steps.uses, uses, operands_builder es]
      rfl
  | .cond _ test yes no, frames => by
      rw [Steps.uses, uses, uses_builder test, uses_builder yes, uses_builder no]
      rfl
  | .lambda _ params body, frames => by
      rw [Steps.uses, uses]
      simp only [uses_builder body]
      rfl

theorem operands_builder :
    forall (es : List Expr) (frames : List Frame),
      Steps.builder.operands frames es = operands frames es
  | [], frames => by
      rw [Steps.operands, operands]
  | e :: es, frames => by
      rw [Steps.operands, operands, uses_builder e, operands_builder es]
      rfl

end

theorem declarations_builder (ds : List Decl) (frames : List Frame) :
    Steps.builder.declarations frames ds = declarations frames ds := by
  induction ds with
  | nil => rfl
  | cons d ds ih =>
      rw [Steps.declarations, declarations, ih]
      simp only [uses_builder d.body]
      rfl

end Lowering
end DefTable
