import DefTable.Number.Basic

/-!
# Tables of definitions

A compiled program is a flat table from identifiers to definitions.  A definition refers to others
by their identifiers only; a function carries a table of its own, in which the result stands under
the identifier `=`.  A table lists its entries in ascending order of identifiers, so that two tables
with the same entries are equal.
-/

namespace DefTable

inductive Cell where
  | number (value : Number)
  | bool (value : Bool)
deriving DecidableEq, Repr, Inhabited

structure Case where
  guard : Option String
  value : String
deriving DecidableEq, Repr, Inhabited

inductive Def where
  | number (value : Number)
  | string (value : String)
  | matrix (values : List Cell)
  | bool (value : Bool)
  | null
  | list (items : List String)
  /-- An application; without arguments it is a plain reference. -/
  | call (target : String) (args : List String)
  | func (params : List String) (body : List (String × Def))
  | switch (cases : List Case)
deriving Repr, Inhabited

abbrev Table := List (String × Def)

namespace Table

/-- The identifier of a function's result. -/
def resultId : String := "="

def insert (id : String) (d : Def) : Table → Table
  | [] => [(id, d)]
  | entry :: rest =>
    if id < entry.1 then (id, d) :: entry :: rest
    else if id = entry.1 then (id, d) :: rest
    else entry :: insert id d rest

def get? (t : Table) (id : String) : Option Def :=
  t.lookup id

def identifiers (t : Table) : List String :=
  t.map Prod.fst

end Table
end DefTable
