import DefTable.Number.Layout

/-!
# Plain data

Tables travel as plain data: null, truth values, numbers, texts, lists and maps.  A map lists its
entries in ascending order of keys and holds each key once.  Readers of some formats also produce
integers, points in time and maps with keys that are no texts; these are kept apart so that messages
can name them.
-/

namespace DefTable

inductive Data where
  | null
  | bool (value : Bool)
  | number (value : Number)
  | integer (value : Int)
  | string (value : String)
  | time (shown : String)
  | list (items : List Data)
  | map (entries : List (String × Data))
  /-- A map in which some key is no text; every key is listed as it is shown, in the order of what
  the keys mean. -/
  | mixedMap (entries : List (String × Data))
deriving Repr, Inhabited

namespace Data

def insert (key : String) (d : Data) : List (String × Data) → List (String × Data)
  | [] => [(key, d)]
  | entry :: rest =>
    if key < entry.1 then (key, d) :: entry :: rest
    else if key = entry.1 then (key, d) :: rest
    else entry :: insert key d rest

/-- Entries in ascending order; of two with the same key the later one counts. -/
def ofEntries (entries : List (String × Data)) : List (String × Data) :=
  entries.foldl (fun es e => insert e.1 e.2 es) []

def entries? : Data → Option (List (String × Data))
  | map es => some es
  | mixedMap es => some es
  | _ => none

def largestInt : Int := 0x7FFFFFFFFFFFFFFF

def typeName : Data → String
  | null => "<nil>"
  | bool _ => "bool"
  | number _ => "float64"
  | integer i => if i ≤ largestInt then "int" else "uint64"
  | string _ => "string"
  | time _ => "time.Time"
  | list _ => "[]interface {}"
  | map _ => "map[string]interface {}"
  | mixedMap _ => "map[interface {}]interface {}"

mutual

def shown : Data → String
  | null => "<nil>"
  | bool b => toString b
  | number x => x.text
  | integer i => toString i
  | string s => s
  | time s => s
  | list ds => "[" ++ " ".intercalate (shownItems ds) ++ "]"
  | map es => "map[" ++ " ".intercalate (shownEntries es) ++ "]"
  | mixedMap es => "map[" ++ " ".intercalate (shownEntries es) ++ "]"

def shownItems : List Data → List String
  | [] => []
  | d :: ds => d.shown :: shownItems ds

def shownEntries : List (String × Data) → List String
  | [] => []
  | (k, d) :: es => (k ++ ":" ++ d.shown) :: shownEntries es

end

def number? : Data → Option Number
  | number x => some x
  | integer i => some (.ofInt i)
  | _ => none

def string? : Data → Option String
  | string s => some s
  | _ => none

end Data
end DefTable
