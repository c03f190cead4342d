import DefTable.Cache.Basic
import DefTable.Workspace

/-!
# Cache files

A store is kept in a file between runs: a signature, and then one entry for each compilation in the
binary form of messages.  An empty file holds an empty store.
-/

namespace DefTable
namespace Cache

/-- The first bytes of every cache file that is not empty. -/
def signature : List UInt8 :=
  Text.bytes (Text.ofString "definition tables\n")

def hexText (bytes : List UInt8) : String :=
  String.ofList (bytes.flatMap fun b => Quoted.hex 2 b.toNat)

def hexBytes? : List Char → Option (List UInt8)
  | [] => some []
  | [_] => none
  | a :: b :: rest => do
    let high ← Numeral.digitValue? a
    let low ← Numeral.digitValue? b
    return UInt8.ofNat (high * 16 + low) :: (← hexBytes? rest)

def Stored.data (u : Stored) : Data :=
  .map [("build", .string (toString u.build)), ("table", .string (hexText u.blob))]

def Stored.ofData? (key : String) (d : Data) : Option Stored := do
  let fields ← d.entries?
  let build ← (← fields.lookup "build").string?
  let table ← (← fields.lookup "table").string?
  return ⟨key, ← build.toNat?, ← hexBytes? table.toList⟩

namespace Store

def fileBytes (s : Store) : List UInt8 :=
  signature ++ Struct.write (s.map fun u => (u.key, u.data))

def ofFileBytes? (bytes : List UInt8) : Option Store :=
  if bytes.isEmpty then some []
  else if signature.isPrefixOf bytes then do
    let entries ← Struct.read (bytes.drop signature.length)
    entries.mapM fun e => Stored.ofData? e.1 e.2
  else none

end Store

/-! ## Opening -/

inductive OpenFault where
  | unopenable
  | notStore
  | cancelled
deriving DecidableEq, Repr

def OpenFault.message (path : String) (f : OpenFault) : String :=
  s!"initialising cache {path}: " ++ match f with
    | unopenable => "unable to open database file: out of memory (14)"
    | notStore => "file is not a database (26)"
    | cancelled => "context canceled"

def transientPath : String := ":memory:"

def ofRead (content : Except FileFailure (List UInt8)) : Except OpenFault Store :=
  match content with
  | .ok bytes =>
    match Store.ofFileBytes? bytes with
    | some s => .ok s
    | none => .error .notStore
  | .error f => if f.error = .missing then .ok [] else .error .unopenable

def needsFile (content : Except FileFailure (List UInt8)) : Bool :=
  match content with
  | .ok bytes => bytes.isEmpty
  | .error _ => true

end Cache
end DefTable
