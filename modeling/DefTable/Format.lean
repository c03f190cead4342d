import DefTable.Data.Json
import DefTable.Data.Struct
import DefTable.Data.Yaml.Read
import DefTable.Data.Yaml.Write
import DefTable.Table.Listing
import DefTable.Table.Wire

/-!
# Output formats

A table can be written as JSON, as YAML, as a binary message or as a listing, and read back from all
but the listing.
-/

namespace DefTable

inductive Format where
  | json
  | yaml
  | proto
  | text
deriving DecidableEq, Repr, Inhabited

namespace Format

def name : Format → String
  | json => "json"
  | yaml => "yaml"
  | proto => "proto"
  | text => "text"

def all : List Format := [json, yaml, proto, text]

def names : List String :=
  ["json", "proto", "text", "yaml"]

structure Unknown where
  name : String
deriving DecidableEq, Repr

def Unknown.message (u : Unknown) : String :=
  s!"unknown output format {Quoted.string u.name} (want one of [" ++ " ".intercalate names ++ "])"

/-- The format of the given name; without a name it is JSON. -/
def ofName (name : String) : Except Unknown Format :=
  if name = "" then .ok json
  else match all.find? fun f => f.name = name with
    | some f => .ok f
    | none => .error ⟨name⟩

def extension : Format → String
  | json => ".json"
  | yaml => ".yaml"
  | proto => ".pb"
  | text => ".txt"

/-- The extension for the format of the given name; nothing for a name that is no format. -/
def extensionOf (name : String) : String :=
  ((all.find? fun f => f.name = name).map extension).getD ""

/-- Write a table.  Only JSON can fail, on numbers that it cannot express. -/
def emit (f : Format) (t : Table) : Except Json.Unwritable (List UInt8) :=
  match f with
  | json => (Json.write t.toData).map fun s => Text.bytes s
  | yaml => .ok (Text.bytes (Yaml.write t.toData))
  | proto => .ok (Struct.write (Wire.ofEntries t))
  | text => .ok (Text.bytes t.listing)

inductive DecodeError where
  | unreadable
  | collectionKey (kind : String)
  | table (fault : Wire.Fault)
  | undecodable (format : String)
deriving Repr

def DecodeError.message : DecodeError → String
  | unreadable => "decoding ir"
  | collectionKey kind => s!"runtime error: hash of unhashable type {kind}"
  | table fault => fault.message
  | undecodable format => s!"format {Quoted.string format} cannot be decoded"

def DecodeError.ofYaml : Yaml.Fault → DecodeError
  | .unreadable => unreadable
  | .collectionKey kind => collectionKey kind

def DecodeError.unless {α : Type} : Option α → Except DecodeError α
  | none => .error unreadable
  | some a => .ok a

/-- The entries of the map that bytes hold.  A JSON null holds none. -/
def entries (f : Format) (bytes : List UInt8) : Except DecodeError (List (String × Data)) :=
  match f with
  | json => match Json.read (Text.decode bytes) with
    | some (.map es) => .ok es
    | some .null => .ok []
    | _ => .error .unreadable
  | yaml => (Yaml.read bytes).mapError .ofYaml
  | proto => DecodeError.unless (Struct.read bytes)
  | text => .error .unreadable

def decode (name : String) (bytes : List UInt8) : Except DecodeError Table :=
  match ofName name with
  | .error _ => .error (.undecodable name)
  | .ok .text => .error (.undecodable name)
  | .ok f =>
    match f.entries bytes with
    | .error e => .error e
    | .ok es => (Table.ofEntries es).mapError .table

end Format
end DefTable
