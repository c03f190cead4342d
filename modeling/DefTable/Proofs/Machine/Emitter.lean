import DefTable.Format
import DefTable.Proofs.Machine.Assembling

/-!
# Writing what was assembled

The writer of plain data crashes on a definition of no known kind; the listing leaves such a one
blank.  The nodes of a table are all of a known kind, so they are written as the table is.
-/

namespace DefTable
namespace Machine

/-!
## Plain data
-/

mutual

def wireNode : Node -> Run Data
  | .number v => return .map [("t", .string "n"), ("v", .number v)]
  | .string v => return .map [("t", .string "s"), ("v", .string v)]
  | .matrix vs => return .map [("t", .string "m"), ("v", .list (vs.map Wire.cell))]
  | .bool v => return .map [("t", .string "b"), ("v", .bool v)]
  | .null => return .map [("t", .string "u")]
  | .list items => return .map [("t", .string "l"), ("v", Wire.strings items)]
  | .call target args =>
      return .map [("a", Wire.strings args), ("f", .string target), ("t", .string "c")]
  | .func params body => do
      let entries ← wireNodes body
      return .map [("b", .map entries), ("p", Wire.strings params), ("t", .string "f")]
  | .switch cases => return .map [("m", .list (cases.map Wire.case)), ("t", .string "w")]
  | .unknown => throw .unknownDefinition

def wireNodes : Nodes -> Run (List (String × Data))
  | [] => return []
  | (id, n) :: rest => do
      let d ← wireNode n
      let entries ← wireNodes rest
      return (id, d) :: entries

end

mutual

theorem wireNode_eq : (d : Def) -> wireNode (.ofDef d) = pure (Wire.ofDef d)
  | .number _ => rfl
  | .string _ => rfl
  | .matrix _ => rfl
  | .bool _ => rfl
  | .null => rfl
  | .list _ => rfl
  | .call _ _ => rfl
  | .func params body => by
      rw [Node.ofDef, wireNode, wireNodes_eq body, pure_bind]
      rfl
  | .switch _ => rfl

theorem wireNodes_eq :
    (t : List (String × Def)) -> wireNodes (.ofTable t) = pure (Wire.ofEntries t)
  | [] => rfl
  | (id, d) :: rest => by
      rw [Nodes.ofTable, wireNodes, wireNode_eq d, wireNodes_eq rest, pure_bind, pure_bind]
      rfl

end

/-!
## Listings
-/

mutual

def listNode (depth : Nat) : Node -> String
  | .number v => "num " ++ v.text
  | .string v => "str " ++ Quoted.string v
  | .bool v => "bool " ++ toString v
  | .null => "null"
  | .matrix vs => "matrix [" ++ ", ".intercalate (vs.map Listing.cell) ++ "]"
  | .list items => "list [" ++ ", ".intercalate items ++ "]"
  | .call target args => "call " ++ " ".intercalate (target :: args)
  | .switch cases => "switch" ++ String.join (cases.map Listing.case)
  | .func params body =>
      "fn(" ++ " ".intercalate params ++ ") \x7b\n" ++ listNodes (depth + 1) body ++
        Listing.margin depth ++ "\x7d"
  | .unknown => ""

def listNodes (depth : Nat) : Nodes -> String
  | [] => ""
  | (id, n) :: rest =>
      Listing.margin depth ++ id ++ " = " ++ listNode depth n ++ "\n" ++ listNodes depth rest

end

mutual

theorem listNode_eq (depth : Nat) :
    (d : Def) -> listNode depth (.ofDef d) = Listing.definition depth d
  | .number _ => rfl
  | .string _ => rfl
  | .matrix _ => rfl
  | .bool _ => rfl
  | .null => rfl
  | .list _ => rfl
  | .call _ _ => rfl
  | .func params body => by
      rw [Node.ofDef, listNode, listNodes_eq (depth + 1) body, Listing.definition]
  | .switch _ => rfl

theorem listNodes_eq (depth : Nat) :
    (t : List (String × Def)) -> listNodes depth (.ofTable t) = Listing.entries depth t
  | [] => rfl
  | (id, d) :: rest => by
      rw [Nodes.ofTable, listNodes, listNode_eq depth d, listNodes_eq depth rest, Listing.entries]

end

/-!
## Formats
-/

def emit (f : Format) (nodes : Nodes) : Run (Except Json.Unwritable (List UInt8)) :=
  match f with
  | .json => do
      let entries ← wireNodes nodes
      return (Json.write (.map entries)).map fun s => Text.bytes s
  | .yaml => do
      let entries ← wireNodes nodes
      return .ok (Text.bytes (Yaml.write (.map entries)))
  | .proto => do
      let entries ← wireNodes nodes
      return .ok (Struct.write entries)
  | .text => return .ok (Text.bytes (listNodes 0 nodes))

theorem emit_eq (f : Format) (t : Table) : emit f (.ofTable t) = pure (f.emit t) := by
  cases f with
  | json =>
      rw [emit, wireNodes_eq, pure_bind]
      rfl
  | yaml =>
      rw [emit, wireNodes_eq, pure_bind]
      rfl
  | proto =>
      rw [emit, wireNodes_eq, pure_bind]
      rfl
  | text =>
      rw [emit, listNodes_eq]
      rfl

end Machine
end DefTable
