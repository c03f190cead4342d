import DefTable.Proofs.Semantics.Value
import DefTable.Table.Basic

/-!
# The meaning of tables

A frame holds a table and the arguments of the function whose table it is.  An identifier is looked
up in the innermost frame first, where arguments come before entries, then in the frames around it,
and last among the names from outside.  An entry is evaluated on demand in the frame that holds it.
Values of entries are not kept here, since evaluating an entry again gives the same value; `Memo` is
the same semantics with values that are kept.
-/

namespace DefTable
namespace Semantics
namespace Target

mutual

inductive Frame where
  | mk (args : List (String × Value Closure)) (table : List (String × Def))

inductive Closure where
  | mk (params : List String) (body : List (String × Def)) (frames : List Frame)

end

namespace Frame

def args : Frame -> List (String × Value Closure)
  | .mk args _ => args

def table : Frame -> Table
  | .mk _ table => table

end Frame

/-- What an identifier stands for: a value, or an entry with the frames from its own outwards. -/
inductive Located where
  | value (v : Value Closure)
  | entry (d : Def) (frames : List Frame)

def locate? : List Frame -> String -> Option Located
  | [], _ => none
  | f :: outer, id =>
    match f.args.lookup id with
    | some v => some (.value v)
    | none =>
      match f.table.get? id with
      | some d => some (.entry d (f :: outer))
      | none => locate? outer id

def cell : Cell -> Value Closure
  | .number v => .number v
  | .bool v => .bool v

mutual

def lookup (I : Interpretation) (frames : List Frame) (id : String) : Option (Value Closure) :=
  letI eval : List Frame -> Def -> Option (Value Closure) := by apply eval; exact I
  match locate? frames id with
  | some (.value v) => some v
  | some (.entry d inner) => eval inner d
  | none => (I id).map .builtin
partial_fixpoint

def eval (I : Interpretation) (frames : List Frame) (d : Def) : Option (Value Closure) :=
  letI lookup : List Frame -> String -> Option (Value Closure) := by apply lookup; exact I
  letI switch : List Frame -> List Case -> Option (Value Closure) := by apply switch; exact I
  letI apply : Value Closure -> List (Value Closure) -> Option (Value Closure) := by
    apply apply; exact I
  match d with
  | .number v => some (.number v)
  | .string v => some (.string v)
  | .bool v => some (.bool v)
  | .null => some .null
  | .matrix cells => some (.list (cells.map cell))
  | .list items => do
    let vs <- items.mapM fun id => lookup frames id
    return .list vs
  | .func params body => some (.closure (.mk params body frames))
  | .switch cases => switch frames cases
  | .call target args => do
    let f <- lookup frames target
    if args.isEmpty then return f
    else
      let vs <- args.mapM fun id => lookup frames id
      apply f vs
partial_fixpoint

/-- The value of the first case that is the default or whose guard holds. -/
def switch (I : Interpretation) (frames : List Frame) (cases : List Case) :
    Option (Value Closure) :=
  letI lookup : List Frame -> String -> Option (Value Closure) := by apply lookup; exact I
  letI switch : List Frame -> List Case -> Option (Value Closure) := by apply switch; exact I
  match cases with
  | [] => none
  | ⟨none, id⟩ :: _ => lookup frames id
  | ⟨some guard, id⟩ :: rest => do
    match <- lookup frames guard with
    | .bool true => lookup frames id
    | .bool false => switch frames rest
    | _ => none
partial_fixpoint

def apply (I : Interpretation) (f : Value Closure) (args : List (Value Closure)) :
    Option (Value Closure) :=
  letI lookup : List Frame -> String -> Option (Value Closure) := by apply lookup; exact I
  letI apply : Value Closure -> List (Value Closure) -> Option (Value Closure) := by
    apply apply; exact I
  match f with
  | .builtin f => Value.applyBuiltin f args
  | .closure (.mk params body frames) =>
    if args.length < params.length then none
    else do
      let result <- lookup (.mk (params.zip args) body :: frames) Table.resultId
      let rest := args.drop params.length
      if rest.isEmpty then return result else apply result rest
  | _ => none
partial_fixpoint

end

def value? (I : Interpretation) (t : Table) (id : String) : Option (Value Closure) :=
  lookup I [.mk [] t] id

end Target
end Semantics
end DefTable
