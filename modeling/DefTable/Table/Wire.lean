import DefTable.Data.Basic
import DefTable.Table.Basic
import DefTable.Text.Quoted

/-!
# Tables as plain data

A definition travels as a map with a tag under `t` that names its kind, and with the fields of that
kind.  Reading checks the fields that the tag uses and passes over all others.
-/

namespace DefTable
namespace Wire

/-! ## Writing -/

def strings (ss : List String) : Data :=
  .list (ss.map .string)

def cell : Cell → Data
  | .number v => .number v
  | .bool v => .bool v

def case (c : Case) : Data :=
  .map [("c", (c.guard.map Data.string).getD .null), ("v", .string c.value)]

mutual

def ofDef : Def → Data
  | .number v => .map [("t", .string "n"), ("v", .number v)]
  | .string v => .map [("t", .string "s"), ("v", .string v)]
  | .matrix vs => .map [("t", .string "m"), ("v", .list (vs.map cell))]
  | .bool v => .map [("t", .string "b"), ("v", .bool v)]
  | .null => .map [("t", .string "u")]
  | .list items => .map [("t", .string "l"), ("v", strings items)]
  | .call target args => .map [("a", strings args), ("f", .string target), ("t", .string "c")]
  | .func params body =>
    .map [("b", .map (ofEntries body)), ("p", strings params), ("t", .string "f")]
  | .switch cases => .map [("m", .list (cases.map case)), ("t", .string "w")]

def ofEntries : List (String × Def) → List (String × Data)
  | [] => []
  | (id, d) :: rest => (id, ofDef d) :: ofEntries rest

end

/-! ## Reading -/

inductive Fault where
  | notObject (found : Data)
  | badValue (kind : String) (found : Data)
  | badElement (index : Nat) (found : Data)
  | notIdentifiers (kind : String) (found : Data)
  | badIdentifier (kind : String) (index : Nat) (found : Data)
  | missingTarget
  | missingBody
  | missingCases
  | badCase (index : Nat) (found : Data)
  | caseWithoutValue (index : Nat)
  | unknownTag (tag : String)
  | inBody (fault : Fault)
  | inEntry (id : String) (fault : Fault)
deriving Repr

def Fault.message : Fault → String
  | notObject found => s!"expected object, got {found.typeName}"
  | badValue kind found => s!"{kind}: bad value {found.shown}"
  | badElement index found => s!"matrix: element {index} is {found.typeName}"
  | notIdentifiers kind found => s!"{kind}: expected list of identifiers, got {found.typeName}"
  | badIdentifier kind index found =>
    s!"{kind}: identifier {index}: expected string, got {found.typeName}"
  | missingTarget => "call: missing target"
  | missingBody => "function: missing body"
  | missingCases => "switch: missing cases"
  | badCase index found => s!"switch: case {index} is {found.typeName}"
  | caseWithoutValue index => s!"switch: case {index} has no value"
  | unknownTag tag => s!"unknown tag {Quoted.string tag}"
  | inBody fault => s!"function body: {fault.message}"
  | inEntry id fault => s!"def {Quoted.string id}: {fault.message}"

/-- A field of a map; a field that is not there reads as null. -/
def field (entries : List (String × Data)) (key : String) : Data :=
  (entries.lookup key).getD .null

def identifiersFrom (kind : String) : Nat → List Data → Except Fault (List String)
  | _, [] => .ok []
  | index, .string s :: rest => (identifiersFrom kind (index + 1) rest).map (s :: ·)
  | index, d :: _ => .error (.badIdentifier kind index d)

def identifiers (kind : String) : Data → Except Fault (List String)
  | .list items => identifiersFrom kind 0 items
  | d => .error (.notIdentifiers kind d)

def cellsFrom : Nat → List Data → Except Fault (List Cell)
  | _, [] => .ok []
  | index, .bool b :: rest => (cellsFrom (index + 1) rest).map (.bool b :: ·)
  | index, d :: rest =>
    match d.number? with
    | some x => (cellsFrom (index + 1) rest).map (.number x :: ·)
    | none => .error (.badElement index d)

/-- The guard of a case.  Anything that is not a non-empty text makes the case the default. -/
def guard? (d : Data) : Option String :=
  d.string?.filter (· ≠ "")

def casesFrom : Nat → List Data → Except Fault (List Case)
  | _, [] => .ok []
  | index, d :: rest =>
    match d.entries? with
    | none => .error (.badCase index d)
    | some es =>
      match field es "v" with
      | .string value =>
        (casesFrom (index + 1) rest).map (⟨guard? (field es "c"), value⟩ :: ·)
      | _ => .error (.caseWithoutValue index)

def flatDef (tag : String) (es : List (String × Data)) : Except Fault Def :=
  let v := field es "v"
  match tag with
  | "n" => match v.number? with
    | some x => .ok (.number x)
    | none => .error (.badValue "number" v)
  | "s" => match v with
    | .string s => .ok (.string s)
    | _ => .error (.badValue "string" v)
  | "m" => match v with
    | .list items => (cellsFrom 0 items).map .matrix
    | _ => .error (.badValue "matrix" v)
  | "b" => match v with
    | .bool b => .ok (.bool b)
    | _ => .error (.badValue "bool" v)
  | "u" => .ok .null
  | "l" => (identifiers "list" v).map .list
  | "c" => match field es "f" with
    | .string target => (identifiers "call" (field es "a")).map (.call target)
    | _ => .error .missingTarget
  | "w" => match field es "m" with
    | .list items => (casesFrom 0 items).map .switch
    | _ => .error .missingCases
  | _ => .error (.unknownTag tag)

mutual

def toDef : Data → Except Fault Def
  | .map es => ofFields es
  | .mixedMap es => ofFields es
  | d => .error (.notObject d)

def ofFields (es : List (String × Data)) : Except Fault Def :=
  let tag := (field es "t").string?.getD ""
  if tag = "f" then do
    let params ← identifiers "function" (field es "p")
    let body ← bodyOf es
    return .func params body
  else flatDef tag es

/-- The table under the first key `b`. -/
def bodyOf : List (String × Data) → Except Fault Table
  | [] => .error .missingBody
  | (key, d) :: rest => if key = "b" then bodyTable d else bodyOf rest

def bodyTable : Data → Except Fault Table
  | .map es => (toTable es).mapError .inBody
  | .mixedMap es => (toTable es).mapError .inBody
  | _ => .error .missingBody

def toTable : List (String × Data) → Except Fault Table
  | [] => .ok []
  | (id, d) :: rest => do
    let definition ← (toDef d).mapError (.inEntry id)
    let table ← toTable rest
    return table.insert id definition

end

end Wire

namespace Table

def toData (t : Table) : Data :=
  .map (Wire.ofEntries t)

def ofEntries (entries : List (String × Data)) : Except Wire.Fault Table :=
  Wire.toTable entries

end Table
end DefTable
