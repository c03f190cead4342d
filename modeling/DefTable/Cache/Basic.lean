import DefTable.Format
import DefTable.Sha256

/-!
# The cache of compiled programs

A compiled table is kept under a key that stands for the source and the names known besides the
builtins.  Every table that is put gets a build number.  A cache can be closed; what it holds stays
in the store and is there again after reopening.
-/

namespace DefTable
namespace Cache

/-! ## Keys -/

def insertName (name : String) : List String → List String
  | [] => [name]
  | other :: rest =>
    if name < other then name :: other :: rest
    else if name = other then other :: rest
    else other :: insertName name rest

def nameSet (names : List String) : List String :=
  names.foldr insertName []

/-- The bytes that identify a compilation: each name is ended by a zero byte, and so is the list of
names; the source comes last. -/
def keyBytes (source : List UInt8) (names : List String) : List UInt8 :=
  (nameSet names).flatMap (fun (n : String) => Text.bytes n ++ [0]) ++ 0 :: source

def key (source : List UInt8) (names : List String) : String :=
  String.ofList ((Sha256.digest (keyBytes source names)).flatMap fun b => Quoted.hex 2 b.toNat)

/-! ## Stores -/

abbrev Build := Nat

def buildName (b : Build) : String := s!"b{b}"

/-- A compilation as it is stored: the table is written as a binary message. -/
structure Stored where
  key : String
  build : Build
  blob : List UInt8
deriving DecidableEq, Repr

abbrev Store := List Stored

namespace Store

def find? (s : Store) (key : String) : Option Stored :=
  List.find? (fun u => u.key = key) s

def put (s : Store) (u : Stored) : Store :=
  s.filter (fun v => v.key ≠ u.key) ++ [u]

/-- A build number that no compilation in the store has. -/
def freshBuild (s : Store) : Build :=
  s.foldl (fun n u => max n (u.build + 1)) 1

end Store

structure Found where
  key : String
  build : Build
  table : Table

/-! ## Faults -/

inductive Fault where
  | closed
  | unreadable (key : String) (why : Format.DecodeError)
deriving Repr

def Fault.message : Fault → String
  | closed => "cache is closed"
  | unreadable key why => s!"cache entry {key}: {why.message}"

end Cache

structure Cache where
  store : Cache.Store
  isOpen : Bool
deriving DecidableEq, Repr

namespace Cache

def empty : Cache := ⟨[], true⟩

def close (c : Cache) : Cache := { c with isOpen := false }

def reopen (c : Cache) : Cache := { c with isOpen := true }

def size (c : Cache) : Except Fault Nat :=
  if c.isOpen then .ok c.store.length else .error .closed

def Stored.table (u : Stored) : Except Fault Table :=
  (Format.decode Format.proto.name u.blob).mapError (.unreadable u.key)

def get (c : Cache) (source : List UInt8) (names : List String) : Except Fault (Option Found) :=
  if !c.isOpen then .error .closed
  else match c.store.find? (key source names) with
    | none => .ok none
    | some u => u.table.map fun t => some ⟨u.key, u.build, t⟩

def put (c : Cache) (build : Build) (source : List UInt8) (names : List String) (t : Table) :
    Except Fault (Found × Cache) :=
  if !c.isOpen then .error .closed
  else
    let k := key source names
    .ok (⟨k, build, t⟩, { c with store := c.store.put ⟨k, build, Struct.write (Wire.ofEntries t)⟩ })

def overwrite (c : Cache) (blob : List UInt8) : Cache :=
  { c with store := c.store.map fun u => { u with blob := blob } }

end Cache
end DefTable
