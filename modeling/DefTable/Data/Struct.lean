import DefTable.Data.Basic
import DefTable.Text.Basic

/-!
# Binary messages

Data as a sequence of tagged fields.  A map is a message whose field 1 holds one entry each, an
entry is a message of key and value, and a value is a message with one field that tells its kind: 1
null, 2 number, 3 text, 4 truth value, 5 map, 6 list.  Numbers of bytes and small integers are
written in groups of seven bits, the lowest first.  Reading passes over fields it does not know and
lets later fields win.
-/

namespace DefTable
namespace Struct

abbrev Bytes := List UInt8

/-! ## Writing -/

def varint (n : Nat) : Bytes :=
  if n < 128 then [UInt8.ofNat n] else UInt8.ofNat (n % 128 + 128) :: varint (n / 128)
termination_by n

def littleEndian : (count : Nat) → Nat → Bytes
  | 0, _ => []
  | count + 1, n => UInt8.ofNat (n % 256) :: littleEndian count (n / 256)

def delimited (field : Nat) (bs : Bytes) : Bytes :=
  varint (field * 8 + 2) ++ varint bs.length ++ bs

def text (s : String) : Bytes :=
  (Text.ofString s).bytes

mutual

def value : Data → Bytes
  | .null => [0x08, 0x00]
  | .number x => 0x11 :: littleEndian 8 x.bits.toNat
  | .integer i => 0x11 :: littleEndian 8 (Number.ofInt i).bits.toNat
  | .string s => delimited 3 (text s)
  | .time s => delimited 3 (text s)
  | .bool b => [0x20, if b then 1 else 0]
  | .map es => delimited 5 (entries es)
  | .mixedMap es => delimited 5 (entries es)
  | .list ds => delimited 6 (items ds)

def items : List Data → Bytes
  | [] => []
  | d :: ds => delimited 1 (value d) ++ items ds

def entries : List (String × Data) → Bytes
  | [] => []
  | (k, d) :: es => delimited 1 (delimited 1 (text k) ++ delimited 2 (value d)) ++ entries es

end

def write (es : List (String × Data)) : Bytes :=
  entries es

/-! ## Fields of a message -/

inductive Payload where
  | varint (n : Nat)
  | fixed64 (n : Nat)
  | delimited (bs : Bytes)
  | other
deriving DecidableEq, Repr

structure Field where
  number : Nat
  payload : Payload
deriving DecidableEq, Repr

/-- The number that the first bytes hold, and how many bytes it takes.  At most ten bytes are read,
and the number is below two to the power of sixty-four. -/
def varintPrefix? : (room : Nat) → Bytes → Option (Nat × Nat)
  | 0, _ => none
  | _, [] => none
  | room + 1, b :: rest =>
    if b < 128 then
      if room = 0 && 1 < b then none else some (b.toNat, 1)
    else (varintPrefix? room rest).map fun (n, used) => (b.toNat - 128 + n * 128, used + 1)

def varint? (bs : Bytes) : Option (Nat × Nat) :=
  varintPrefix? 10 bs

def ofLittleEndian (bs : Bytes) : Nat :=
  bs.foldr (fun b n => b.toNat + 256 * n) 0

def maxFieldNumber : Nat := 0x1FFFFFFF

def tag? (bs : Bytes) : Option (Nat × Nat × Nat) := do
  let (n, used) ← varint? bs
  if 1 ≤ n / 8 ∧ n / 8 ≤ maxFieldNumber then some (n / 8, n % 8, used) else none

def bytes? (n : Nat) (bs : Bytes) : Option Bytes :=
  let front := bs.take n
  if front.length = n then some front else none

/-- A payload of the given kind, and how many bytes it takes; groups are not among them. -/
def payload? (kind : Nat) (bs : Bytes) : Option (Payload × Nat) :=
  match kind with
  | 0 => (varint? bs).map fun (n, used) => (.varint n, used)
  | 1 => (bytes? 8 bs).map fun eight => (.fixed64 (ofLittleEndian eight), 8)
  | 2 => do
    let (n, used) ← varint? bs
    let held ← bytes? n (bs.drop used)
    return (.delimited held, used + n)
  | 5 => (bytes? 4 bs).map fun _ => (.other, 4)
  | _ => none

def maxDepth : Nat := 10000

/-- The length of the fields up to the end of the groups that are open, the innermost first. -/
def groupLength? : (groups : List Nat) → Bytes → Option Nat
  | [], _ => some 0
  | _ :: _, [] => none
  | number :: outer, b :: rest => do
    let (found, kind, used) ← tag? (b :: rest)
    if kind = 3 then
      if outer.length + 1 < maxDepth then
        (groupLength? (found :: number :: outer) (rest.drop (used - 1))).map (· + used)
      else none
    else if kind = 4 then
      if found = number then (groupLength? outer (rest.drop (used - 1))).map (· + used) else none
    else
      let (_, size) ← payload? kind (rest.drop (used - 1))
      (groupLength? (number :: outer) (rest.drop (used - 1 + size))).map (· + used + size)
termination_by _ bs => bs.length
decreasing_by all_goals (simp only [List.length_drop, List.length_cons]; omega)

def field? (b : UInt8) (rest : Bytes) : Option (Field × Nat) := do
  let (number, kind, used) ← tag? (b :: rest)
  let after := (b :: rest).drop used
  if kind = 3 then
    let size ← groupLength? [number] after
    return (⟨number, .other⟩, used + size - 1)
  else
    let (payload, size) ← payload? kind after
    return (⟨number, payload⟩, used + size - 1)

def fields? : Bytes → Option (List Field)
  | [] => some []
  | b :: rest => do
    let (field, more) ← field? b rest
    let fields ← fields? (rest.drop more)
    return field :: fields
termination_by bs => bs.length
decreasing_by simp only [List.length_drop, List.length_cons]; omega

/-! ## Reading -/

def textOf? (bs : Bytes) : Option String :=
  Text.string? bs

def merge (es more : List (String × Data)) : List (String × Data) :=
  more.foldl (fun es e => Data.insert e.1 e.2 es) es

/-- How nested messages are read: the values of a list, and the entries of a map. -/
structure Nested where
  list : Bytes → Option (List Data)
  map : Bytes → Option (List (String × Data))

/-- A value after one more of its fields.  A second map or list is added to the first. -/
def afterField (nested : Nested) (current : Option Data) (f : Field) : Option (Option Data) :=
  match f.number, f.payload with
  | 1, .varint _ => some (some .null)
  | 2, .fixed64 n => some (some (.number ⟨UInt64.ofNat n⟩))
  | 3, .delimited bs => (textOf? bs).map fun s => some (.string s)
  | 4, .varint n => some (some (.bool (n ≠ 0)))
  | 5, .delimited bs => (nested.map bs).map fun more =>
    match current with
    | some (.map es) => some (.map (merge es more))
    | _ => some (.map more)
  | 6, .delimited bs => (nested.list bs).map fun more =>
    match current with
    | some (.list ds) => some (.list (ds ++ more))
    | _ => some (.list more)
  | _, _ => some current

def afterMessage (nested : Nested) (current : Option Data) (bs : Bytes) : Option (Option Data) := do
  (← fields? bs).foldlM (afterField nested) current

def keyValue? (nested : Nested) (bs : Bytes) : Option (String × Data) := do
  let (key, current) ← (← fields? bs).foldlM
    (fun (key, current) f => match f.number, f.payload with
      | 1, .delimited bs => (textOf? bs).map fun s => (s, current)
      | 2, .delimited bs => (afterMessage nested current bs).map fun d => (key, d)
      | _, _ => some (key, current))
    (("", none) : String × Option Data)
  return (key, current.getD .null)

def repeated? {α : Type} (read : Bytes → Option α) (bs : Bytes) : Option (List α) := do
  let parts ← (← fields? bs).mapM fun f => match f.number, f.payload with
    | 1, .delimited bs => (read bs).map some
    | _, _ => some none
  return parts.filterMap id

def nested : (budget : Nat) → Nested
  | 0 => ⟨fun _ => none, fun _ => none⟩
  | budget + 1 =>
    let inner := nested budget
    { list := repeated? fun bs => (afterMessage inner none bs).map fun d => d.getD .null
      map := fun bs => (repeated? (keyValue? inner) bs).map Data.ofEntries }

mutual

/-- Numbers that are not finite come back as texts. -/
def spelled : Data → Data
  | .number x =>
    if x.isFinite then .number x
    else if x.isUndefined then .string "NaN"
    else if x.isNegative then .string "-Infinity"
    else .string "Infinity"
  | .list ds => .list (spelledItems ds)
  | .map es => .map (spelledEntries es)
  | d => d

def spelledItems : List Data → List Data
  | [] => []
  | d :: ds => spelled d :: spelledItems ds

def spelledEntries : List (String × Data) → List (String × Data)
  | [] => []
  | (k, d) :: es => (k, spelled d) :: spelledEntries es

end

/-- The map that a message holds.  Each map or list takes two messages, its own and that of a value
in it. -/
def read (bs : Bytes) : Option (List (String × Data)) :=
  ((nested (maxDepth / 2)).map bs).map spelledEntries

end Struct
end DefTable
