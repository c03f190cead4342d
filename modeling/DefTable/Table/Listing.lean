import DefTable.Number.Layout
import DefTable.Table.Basic
import DefTable.Text.Quoted

/-!
# Listings

A listing shows a table for people: one entry a line in the order of identifiers, the body of a
function indented under its entry.
-/

namespace DefTable
namespace Listing

def cell : Cell → String
  | .number v => v.text
  | .bool v => toString v

def case (c : Case) : String :=
  " | " ++ c.guard.getD "_" ++ " -> " ++ c.value

def margin (depth : Nat) : String :=
  String.join (List.replicate depth "    ")

mutual

def definition (depth : Nat) : Def → String
  | .number v => "num " ++ v.text
  | .string v => "str " ++ Quoted.string v
  | .bool v => "bool " ++ toString v
  | .null => "null"
  | .matrix vs => "matrix [" ++ ", ".intercalate (vs.map cell) ++ "]"
  | .list items => "list [" ++ ", ".intercalate items ++ "]"
  | .call target args => "call " ++ " ".intercalate (target :: args)
  | .switch cases => "switch" ++ String.join (cases.map case)
  | .func params body =>
    "fn(" ++ " ".intercalate params ++ ") \x7b\n" ++ entries (depth + 1) body ++ margin depth ++
      "\x7d"

def entries (depth : Nat) : List (String × Def) → String
  | [] => ""
  | (id, d) :: rest =>
    margin depth ++ id ++ " = " ++ definition depth d ++ "\n" ++ entries depth rest

end

end Listing

namespace Table

def listing (t : Table) : String :=
  Listing.entries 0 t

end Table
end DefTable
