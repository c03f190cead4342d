import DefTable.Builtin
import DefTable.Number.Basic

/-!
# Values

Programs and tables are evaluated to the same kind of values, apart from their closures.  What lies
outside of a program is known only by an interpretation, which gives to a name a function on
first-order values.
-/

namespace DefTable
namespace Semantics

/-- A first-order value. -/
inductive Datum where
  | number (value : Number)
  | string (value : String)
  | bool (value : Bool)
  | null
  | list (items : List Datum)

abbrev Builtin := List Datum -> Option Datum

/-- What the names from outside of the program stand for. -/
abbrev Interpretation := String -> Option Builtin

/-- A value, whose closures are of type `κ`. -/
inductive Value (κ : Type) where
  | number (value : Number)
  | string (value : String)
  | bool (value : Bool)
  | null
  | list (items : List (Value κ))
  | builtin (f : Builtin)
  | closure (c : κ)

namespace Value

variable {κ : Type}

mutual

def ofDatum : Datum -> Value κ
  | .number v => .number v
  | .string v => .string v
  | .bool v => .bool v
  | .null => .null
  | .list items => .list (ofData items)

def ofData : List Datum -> List (Value κ)
  | [] => []
  | d :: ds => ofDatum d :: ofData ds

end

mutual

def datum? : Value κ -> Option Datum
  | .number v => some (.number v)
  | .string v => some (.string v)
  | .bool v => some (.bool v)
  | .null => some .null
  | .list items => (data? items).map .list
  | .builtin _ => none
  | .closure _ => none

def data? : List (Value κ) -> Option (List Datum)
  | [] => some []
  | v :: vs => do
    let d <- datum? v
    let ds <- data? vs
    return d :: ds

end

/-- A function from outside takes and returns first-order values only. -/
def applyBuiltin (f : Builtin) (args : List (Value κ)) : Option (Value κ) := do
  let ds <- data? args
  let d <- f ds
  return ofDatum d

end Value
end Semantics
end DefTable
