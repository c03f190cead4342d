import DefTable.Data.Yaml.Token

/-!
# From tokens to nodes

A document is a tree of nodes: scalars, sequences and mappings.  An alias stands for the node whose
anchor has its name; inside that node itself it stands for nothing.

The readers below take tokens from the front of a list and return what is left.  A list that is used
up before its end was announced is one that could not be cut into tokens, and is refused.
-/

namespace DefTable
namespace Yaml

inductive Node where
  /-- A scalar with its tag, which may be empty, and its text; a plain one may mean something else
  than its text. -/
  | scalar (plain : Bool) (tag : String) (text : String)
  | sequence (items : List Node)
  | mapping (entries : List (Node × Node))
  | alias (name : String) (target : Option Node)
deriving Repr, Inhabited

namespace Node

def absent : Node := .scalar true "" ""

end Node

/-! ## Names inside a document -/

structure Names where
  handles : List (String × String)
  anchors : List (String × Option Node)

namespace Names

def standardTag : String := "tag:yaml.org,2002:"

def start (handles : List (String × String)) : Names :=
  ⟨handles ++ [("!", "!"), ("!!", standardTag)], []⟩

def fullTag? (n : Names) (handle suffix : String) : Option String :=
  if handle = "" then some suffix else (n.handles.lookup handle).map (· ++ suffix)

def shownTag (tag : String) : String :=
  if tag = "!" then ""
  else if standardTag.toList.isPrefixOf tag.toList then
    "!!" ++ String.ofList (tag.toList.drop standardTag.length)
  else tag

def declare (n : Names) (name : String) : Names :=
  { n with anchors := (name, none) :: n.anchors }

/-- Fill in the node that was declared as number `place`. -/
def complete (n : Names) (place : Nat) (node : Node) : Names :=
  { n with anchors := n.anchors.modify (n.anchors.length - 1 - place) fun a => (a.1, some node) }

end Names

structure Properties where
  anchor : Option String
  tag : Option (String × String)

namespace Properties

def read : List Token → Properties × List Token
  | .anchor a :: .tag h s :: ts => (⟨some a, some (h, s)⟩, ts)
  | .tag h s :: .anchor a :: ts => (⟨some a, some (h, s)⟩, ts)
  | .anchor a :: ts => (⟨some a, none⟩, ts)
  | .tag h s :: ts => (⟨none, some (h, s)⟩, ts)
  | ts => (⟨none, none⟩, ts)

def isEmpty (p : Properties) : Bool :=
  p.anchor.isNone && p.tag.isNone

end Properties

/-! ## What ends a part of a collection -/

def endsItem : Token → Bool
  | .item | .blockEnd => true
  | _ => false

def endsLooseItem : Token → Bool
  | .item | .key | .value | .blockEnd => true
  | _ => false

def endsEntry : Token → Bool
  | .key | .value | .blockEnd => true
  | _ => false

def endsFlowValue (close : Token) (t : Token) : Bool :=
  t = .comma || t = close

def endsFlowKey (close : Token) (t : Token) : Bool :=
  t = .value || t = .comma || t = close

def afterComma? (first : Bool) : List Token → Option (List Token)
  | .comma :: ts => if first then some (.comma :: ts) else some ts
  | ts => if first then some ts else none

/-! ## Nodes

Each reader returns what it read, the names known then, and the tokens that are left.
-/

mutual

/-- A node.  Block collections are taken only where `block` holds, and dashes without an indentation
of their own only where `loose` holds. -/
def node (fuel : Nat) (block loose : Bool) (names : Names) (ts : List Token) :
    Option (Node × Names × List Token) :=
  match fuel with
  | 0 => none
  | fuel + 1 =>
    match ts with
    | .alias name :: ts => (names.anchors.lookup name).map fun n => (.alias name n, names, ts)
    | ts => do
      let (properties, ts) := Properties.read ts
      let tag ← match properties.tag with
        | none => some ""
        | some (handle, suffix) => names.fullTag? handle suffix
      match properties.anchor with
      | none => content fuel block loose properties (Names.shownTag tag) names ts
      | some name =>
        let place := names.anchors.length
        let (n, names, ts) ←
          content fuel block loose properties (Names.shownTag tag) (names.declare name) ts
        return (n, names.complete place n, ts)

def content (fuel : Nat) (block loose : Bool) (properties : Properties) (tag : String)
    (names : Names) (ts : List Token) : Option (Node × Names × List Token) :=
  match fuel with
  | 0 => none
  | fuel + 1 =>
    match ts with
    | [] => none
    | .scalar plain text :: ts => some (.scalar plain tag text, names, ts)
    | .flowSequence :: ts =>
      (flowItems fuel true names ts).map fun (items, rest) => (.sequence items, rest)
    | .flowMapping :: ts =>
      (flowEntries fuel true names ts).map fun (es, rest) => (.mapping es, rest)
    | t :: ts =>
      if block && t = .blockSequence then
        (blockItems fuel names ts).map fun (items, rest) => (.sequence items, rest)
      else if block && t = .blockMapping then
        (blockEntries fuel names ts).map fun (es, rest) => (.mapping es, rest)
      else if loose && t = .item then
        (looseItems fuel names (t :: ts)).map fun (items, rest) => (.sequence items, rest)
      else if properties.isEmpty then none
      else some (.scalar true tag "", names, t :: ts)

def part (fuel : Nat) (block loose : Bool) (ends : Token → Bool) (names : Names)
    (ts : List Token) : Option (Node × Names × List Token) :=
  match fuel with
  | 0 => none
  | fuel + 1 =>
    match ts with
    | [] => none
    | t :: ts =>
      if ends t then some (.absent, names, t :: ts) else node fuel block loose names (t :: ts)

def valuePart (fuel : Nat) (block : Bool) (ends : Token → Bool) (names : Names)
    (ts : List Token) : Option (Node × Names × List Token) :=
  match fuel with
  | 0 => none
  | fuel + 1 =>
    match ts with
    | [] => none
    | .value :: ts => part fuel block block ends names ts
    | ts => some (.absent, names, ts)

def blockItems (fuel : Nat) (names : Names) (ts : List Token) :
    Option (List Node × Names × List Token) :=
  match fuel with
  | 0 => none
  | fuel + 1 =>
    match ts with
    | .item :: ts => do
      let (n, names, ts) ← part fuel true false endsItem names ts
      let (items, rest) ← blockItems fuel names ts
      return (n :: items, rest)
    | .blockEnd :: ts => some ([], names, ts)
    | _ => none

/-- The items of a sequence that stands in the column of the mapping around it. -/
def looseItems (fuel : Nat) (names : Names) (ts : List Token) :
    Option (List Node × Names × List Token) :=
  match fuel with
  | 0 => none
  | fuel + 1 =>
    match ts with
    | [] => none
    | .item :: ts => do
      let (n, names, ts) ← part fuel true false endsLooseItem names ts
      let (items, rest) ← looseItems fuel names ts
      return (n :: items, rest)
    | ts => some ([], names, ts)

def blockEntries (fuel : Nat) (names : Names) (ts : List Token) :
    Option (List (Node × Node) × Names × List Token) :=
  match fuel with
  | 0 => none
  | fuel + 1 =>
    match ts with
    | .key :: ts => do
      let (k, names, ts) ← part fuel true true endsEntry names ts
      let (v, names, ts) ← valuePart fuel true endsEntry names ts
      let (es, rest) ← blockEntries fuel names ts
      return ((k, v) :: es, rest)
    | .blockEnd :: ts => some ([], names, ts)
    | _ => none

/-- The items of a flow sequence up to its bracket.  An item with a key in it is a mapping of one
entry.  Where the key is missing, the token in its place is passed over. -/
def flowItems (fuel : Nat) (first : Bool) (names : Names) (ts : List Token) :
    Option (List Node × Names × List Token) :=
  match fuel with
  | 0 => none
  | fuel + 1 =>
    match ts with
    | .flowSequenceEnd :: ts => some ([], names, ts)
    | ts => do
      let ts ← afterComma? first ts
      match ts with
      | .flowSequenceEnd :: ts => return ([], names, ts)
      | .key :: ts =>
        let (k, names, after) ← part fuel false false (endsFlowKey .flowSequenceEnd) names ts
        let after := if ts.head?.any (endsFlowKey .flowSequenceEnd) then after.drop 1 else after
        let (v, names, ts) ← valuePart fuel false (endsFlowValue .flowSequenceEnd) names after
        let (items, rest) ← flowItems fuel false names ts
        return (.mapping [(k, v)] :: items, rest)
      | ts =>
        let (n, names, ts) ← node fuel false false names ts
        let (items, rest) ← flowItems fuel false names ts
        return (n :: items, rest)

def flowEntries (fuel : Nat) (first : Bool) (names : Names) (ts : List Token) :
    Option (List (Node × Node) × Names × List Token) :=
  match fuel with
  | 0 => none
  | fuel + 1 =>
    match ts with
    | .flowMappingEnd :: ts => some ([], names, ts)
    | ts => do
      let ts ← afterComma? first ts
      match ts with
      | .flowMappingEnd :: ts => return ([], names, ts)
      | .key :: ts =>
        let (k, names, ts) ← part fuel false false (endsFlowKey .flowMappingEnd) names ts
        let (v, names, ts) ← valuePart fuel false (endsFlowValue .flowMappingEnd) names ts
        let (es, rest) ← flowEntries fuel false names ts
        return ((k, v) :: es, rest)
      | ts =>
        let (k, names, ts) ← node fuel false false names ts
        let (es, rest) ← flowEntries fuel false names ts
        return ((k, .absent) :: es, rest)

end

/-! ## Documents -/

/-- Directives before a document: the version is given at most once, and each short name too. -/
def directives (version : Bool) (handles : List (String × String)) :
    List Token → Option (List (String × String) × List Token)
  | .version major minor :: ts =>
    if version || major ≠ 1 || minor ≠ 1 then none else directives true handles ts
  | .handle name uri :: ts =>
    if (handles.lookup name).isSome then none else directives version ((name, uri) :: handles) ts
  | ts => some (handles, ts)

def endsDocument : Token → Bool
  | .version _ _ | .handle _ _ | .documentStart | .documentEnd | .streamEnd => true
  | _ => false

def startsDocument : Token → Bool
  | .version _ _ | .handle _ _ | .documentStart | .streamEnd => true
  | _ => false

structure Document where
  root : Node
  /-- More than all nodes that lie one inside the other, also through aliases. -/
  depth : Nat
deriving Repr

/-- The first document; a stream without one holds nothing.  What comes after it only has to be a
token.  Every collection and every alias starts with a token of its own, and an alias stands for a
node that ended before it: no way down through the nodes is longer than the list of tokens. -/
def firstDocument (ts : List Token) : Option Document := do
  let fuel := 4 * ts.length + 8
  let (n, _, rest) ← match ts with
    | .streamEnd :: ts => some (Node.absent, Names.start [], .streamEnd :: ts)
    | ts =>
      if ts.head?.any startsDocument then do
        let (handles, ts) ← directives false [] ts
        match ts with
        | .documentStart :: ts => part fuel true false endsDocument (.start handles) ts
        | _ => none
      else node fuel true false (.start []) ts
  if rest.isEmpty then none else some ⟨n, ts.length + 1⟩

end Yaml
end DefTable
