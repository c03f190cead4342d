import DefTable.Data.Yaml.Scan
import DefTable.Data.Yaml.Source
import DefTable.Data.Yaml.Visits

/-!
# Plain data from YAML

The nodes of a document become plain data.  No mapping may hold two keys that are spelled alike.  A
mapping in which every key is a text becomes a map; any other one is kept apart.  What is never
looked at, such as the value of a key that means null in a map of texts, may hold anything.
-/

namespace DefTable
namespace Yaml

/-! ## Reading -/

inductive Fault where
  | unreadable
  | collectionKey (kind : String)
deriving DecidableEq, Repr

/-- Reading stops at a fault.  A complaint does not stop it, but makes its result useless; the state
tells that there was none. -/
abbrev Reading := StateT Bool (Except Fault)

namespace Reading

def stop {α : Type} (fault : Fault) : Reading α :=
  throw fault

def complain : Reading Unit :=
  set false

def need {α : Type} : Option α → Reading α
  | none => stop .unreadable
  | some a => pure a

def result {α : Type} (r : Reading α) : Except Fault α :=
  match r.run true with
  | .error fault => .error fault
  | .ok (a, sound) => if sound then .ok a else .error .unreadable

end Reading

namespace Node

open Reading (need complain stop)

/-! ## Scalars -/

def scalarData (plain : Bool) (tag text : String) : Option Data :=
  if tag = "" then some (if plain then resolve text else .string text) else tagged? tag text

def scalarText (plain : Bool) (tag text : String) : Option (Option String) :=
  (scalarData plain tag text).map fun
    | .null => none
    | .string s => some s
    | _ => some text

/-- The node that an alias stands for, or else the node itself; an alias that stands for the node
around it is refused. -/
def target? : Node → Option Node
  | .alias _ none => none
  | .alias _ (some (.alias _ _)) => none
  | .alias _ (some n) => some n
  | n => some n

/-! ## Keys -/

def alike : Node → Node → Bool
  | .scalar _ _ a, .scalar _ _ b => a = b
  | .sequence _, .sequence _ => true
  | .mapping _, .mapping _ => true
  | .alias a _, .alias b _ => a = b
  | _, _ => false

def keysDiffer : List (Node × Node) → Bool
  | [] => true
  | e :: es => !es.any (fun f => e.1.alike f.1) && keysDiffer es

def isText (n : Node) : Bool :=
  match n.target? with
  | some (.scalar plain tag text) =>
    if tag = "" then !plain || meansItself text else tag = "!!str" || tag = "!!merge"
  | _ => false

/-- The key as a text, whatever it means.  A key that means null is none, and neither is a list or a
map. -/
def textKey (n : Node) : Reading (Option Data) := do
  match ← need n.target? with
  | .scalar plain tag text => return (← need (scalarText plain tag text)).map .string
  | _ =>
    complain
    return none

def sameKey : Data → Data → Bool
  | .null, .null => true
  | .bool a, .bool b => a = b
  | .integer a, .integer b => a = b
  | .number a, .number b => !a.isUndefined && (a = b || (a.magnitude = 0 && b.magnitude = 0))
  | .string a, .string b => a = b
  | .time a, .time b => a = b
  | _, _ => false

def isScalar : Data → Bool
  | .list _ | .map _ | .mixedMap _ => false
  | _ => true

/-! ## Entries

The entries of a mapping are collected together with those that it merges.  An entry that is there
already is not replaced by one that is merged.
-/

def put {β : Type} (key : Data) (value : β) : List (Data × β) → List (Data × β)
  | [] => [(key, value)]
  | e :: es => if sameKey e.1 key then (e.1, value) :: es else e :: put key value es

/-- How the keys and the values of a mapping are read. -/
structure Parts (β : Type) where
  key : Node → Reading (Option Data)
  value : Node → Reading β
  mayRepeat : Data → Bool

structure Collected (β : Type) where
  entries : List (Data × β)
  taken : Option (List Data)

/-- Add one entry.  An entry without key, or with a key that is left alone, is not looked at. -/
def addEntry {β : Type} (parts : Parts β) (c : Collected β) (e : Node × Node) :
    Reading (Collected β) := do
  match ← parts.key e.1 with
  | none => return c
  | some key =>
    if !isScalar key then
      stop (if c.taken.isSome then .collectionKey key.typeName else .unreadable)
    else if c.taken.any fun taken => taken.any (sameKey key) then return c
    else if !parts.mayRepeat key && c.entries.any fun e => sameKey e.1 key then
      complain
      return c
    else
      let value ← parts.value e.2
      return ⟨put key value c.entries, c.taken.map (key :: ·)⟩

def entries? (n : Node) : Option (List (Node × Node)) := do
  match ← n.target? with
  | .mapping es => return es
  | _ => none

def ownKeys (data : Node → Reading Data) (es : List (Node × Node)) : Reading (List Data) :=
  es.mapM fun e => do
    let key ← data e.1
    if isScalar key then return key else stop (.collectionKey key.typeName)

/-- Add all entries of a mapping, and then those that it merges.  `data` reads keys for what they
mean. -/
def collect {β : Type} (fuel : Nat) (data : Node → Reading Data) (parts : Parts β)
    (c : Collected β) (es : List (Node × Node)) : Reading (Collected β) :=
  match fuel with
  | 0 => stop .unreadable
  | fuel + 1 => do
    if !keysDiffer es then
      complain
      return c
    else
      let c ← (es.filter fun e => !e.1.isMerge).foldlM (addEntry parts) c
      match es.find? fun e => e.1.isMerge with
      | none => return c
      | some merge =>
        let taken ← match c.taken with
          | some taken => pure taken
          | none => ownKeys data es
        merge.2.merged.foldlM
          (fun c n => do collect fuel data parts c (← need n.entries?)) ⟨c.entries, some taken⟩

/-! ## Data -/

/-- The place of a kind of key among the others.  Integers that do not fit a signed word are a kind
of their own. -/
def keyKind : Data → Nat
  | .null => 0
  | .bool _ => 1
  | .number x => if x.isUndefined then 2 else 3
  | .integer i => if i ≤ Data.largestInt then 4 else 6
  | .time _ => 7
  | _ => 5

def keyValue : Data → Int
  | .bool b => if b then 1 else 0
  | .integer i => i
  | .number x => if x.isNegative then -x.magnitude else x.magnitude
  | _ => 0

def keyLe (a b : Data) : Bool :=
  if keyKind a ≠ keyKind b then keyKind a < keyKind b
  else if keyValue a ≠ keyValue b then keyValue a < keyValue b
  else a.shown ≤ b.shown

/-- Entries in the order of their keys, each key as it is shown. -/
def mixedEntries (es : List (Data × Data)) : List (String × Data) :=
  (es.mergeSort fun a b => keyLe a.1 b.1).map fun e => (e.1.shown, e.2)

def textEntries (es : List (Data × Data)) : List (String × Data) :=
  Data.ofEntries (es.map fun e => (e.1.shown, e.2))

def toData (fuel : Nat) (n : Node) : Reading Data :=
  match n with
  | .scalar plain tag text => need (scalarData plain tag text)
  | .alias _ none => stop .unreadable
  | .alias _ (some target) =>
    match fuel with
    | 0 => stop .unreadable
    | fuel + 1 => toData fuel target
  | .sequence items =>
    match fuel with
    | 0 => stop .unreadable
    | fuel + 1 => do return .list (← items.mapM (toData fuel))
  | .mapping es =>
    match fuel with
    | 0 => stop .unreadable
    | fuel + 1 => do
      let read := toData fuel
      if es.all fun e => e.1.isText then
        let c ← collect (fuel + 1) read ⟨textKey, read, fun _ => true⟩ ⟨[], none⟩ es
        return .map (textEntries c.entries)
      else
        let key := fun k => do return some (← read k)
        let c ← collect (fuel + 1) read ⟨key, read, fun _ => true⟩ ⟨[], none⟩ es
        return .mixedMap (mixedEntries c.entries)

end Node

/-- The entries of a document whose keys are taken as texts, each value read by `value`.  A key that
is listed in `once` may not be repeated.  A document that means null has no entries. -/
def Document.fields {β : Type} (once : List String) (value : Node → Reading β) (d : Document) :
    Reading (List (String × β)) :=
  match d.root with
  | .mapping es => do
    let parts := ⟨Node.textKey, value, fun key => !once.contains key.shown⟩
    let c ← Node.collect d.depth (Node.toData d.depth) parts ⟨[], none⟩ es
    return c.entries.map fun e => (e.1.shown, e.2)
  | .scalar plain tag text => do
    match ← Reading.need (Node.scalarText plain tag text) with
    | none => return []
    | some _ => Reading.stop .unreadable
  | _ => Reading.stop .unreadable

def document (bytes : List UInt8) : Option Document := do
  firstDocument (tokens (← characters? bytes))

def read (bytes : List UInt8) : Except Fault (List (String × Data)) :=
  Reading.result do
    let d ← Reading.need (document bytes)
    let _ ← Reading.need (d.root.visit d.depth false ⟨1, 0⟩)
    return Data.ofEntries (← d.fields [] (Node.toData d.depth))

end Yaml
end DefTable
