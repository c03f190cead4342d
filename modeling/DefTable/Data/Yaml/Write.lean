import DefTable.Data.Yaml.KeyOrder
import DefTable.Data.Yaml.Style
import DefTable.Text.Quoted

/-!
# Writing YAML

Data is written in block style with an indentation of four.
-/

namespace DefTable
namespace Yaml
namespace Writer

/-! ## Texts -/

def upperHex (width n : Nat) : List Char :=
  (Quoted.hex width n).map Char.toUpper

def named? (c : Char) : Option Char :=
  match c.toNat with
  | 0x00 => some '0'
  | 0x07 => some 'a'
  | 0x08 => some 'b'
  | 0x09 => some 't'
  | 0x0A => some 'n'
  | 0x0B => some 'v'
  | 0x0C => some 'f'
  | 0x0D => some 'r'
  | 0x1B => some 'e'
  | 0x22 => some '"'
  | 0x5C => some '\\'
  | 0x85 => some 'N'
  | 0xA0 => some '_'
  | 0x2028 => some 'L'
  | 0x2029 => some 'P'
  | _ => none

def escaped (c : Char) : List Char :=
  match named? c with
  | some e => ['\\', e]
  | none =>
    if c.toNat ≤ 0xFF then '\\' :: 'x' :: upperHex 2 c.toNat
    else if c.toNat ≤ 0xFFFF then '\\' :: 'u' :: upperHex 4 c.toNat
    else '\\' :: 'U' :: upperHex 8 c.toNat

def doubleChar (c : Char) : List Char :=
  if isWritable c && !isBreak c && c ≠ '"' && c ≠ '\\' then [c] else escaped c

/-- A text in double quotes.  One that starts with a byte order mark has every character escaped. -/
def double (cs : List Char) : String :=
  let char := if cs.head? = some byteOrderMark then escaped else doubleChar
  String.ofList ('"' :: cs.flatMap char ++ ['"'])

/-- Characters with the margin put in front of whatever follows a line break. -/
def withMargin (margin : Nat) (char : Char → List Char) (atStart : Bool) : List Char → List Char
  | [] => []
  | c :: cs =>
    if isBreak c then c :: withMargin margin char true cs
    else (if atStart then List.replicate margin ' ' else []) ++ char c ++
      withMargin margin char false cs

def single (margin : Nat) (cs : List Char) : String :=
  String.ofList ('\'' ::
    withMargin margin (fun c => if c = '\'' then ['\'', '\''] else [c]) false cs ++ ['\''])

def literalHeader (cs : List Char) : String :=
  let size := if cs.head?.any isEdge then "4" else ""
  let ending := match cs.reverse with
    | [] => "-"
    | c :: before =>
      if !isBreak c then "-"
      else if before.isEmpty || before.head?.any isBreak then "+"
      else ""
  "|" ++ size ++ ending

/-- A literal block.  A line break that it starts with also ends the line of the header. -/
def literal (margin : Nat) (cs : List Char) : String :=
  let first := if cs.head?.any isBreak then "" else "\n"
  literalHeader cs ++ first ++ String.ofList (withMargin margin (fun c => [c]) true cs)

def text (margin : Nat) (s : String) : String :=
  match style s with
  | .plain => s
  | .single => single margin s.toList
  | .double => double s.toList
  | .literal => literal margin s.toList

/-! ## Numbers -/

def layout : Number.Layout :=
  { Number.sourceLayout with
    positiveInfinity := ".inf", negativeInfinity := "-.inf", undefined := ".nan" }

/-! ## Lines -/

def deeper (indent : Nat) : Nat :=
  4 * ((indent + 4) / 4)

def spaces (n : Nat) : String :=
  String.ofList (List.replicate n ' ')

def endLine (s : String) : String :=
  if s.toList.getLast?.any isBreak then s else s ++ "\n"

/-- The parts of a collection, each on lines of its own; the first one starts at the current place.
-/
def stack (indent : Nat) (parts : List String) : String :=
  (spaces indent).intercalate (parts.map endLine)

/-! ## Data -/

def isSimpleKey (key : String) : Bool :=
  key.utf8ByteSize ≤ 128 && !key.toList.any isBreak

/-- A key that is too long, or has several lines, is announced by a question mark. -/
def key (indent : Nat) (k : String) : String :=
  if isSimpleKey k then text indent k ++ ":"
  else endLine ("? " ++ text (deeper indent) k) ++ spaces indent ++ ":"

def isNested : Data → Bool
  | .list (_ :: _) => true
  | .map (_ :: _) => true
  | .mixedMap (_ :: _) => true
  | _ => false

def separator (indent : Nat) (k : String) (d : Data) : String :=
  if !isNested d then " "
  else if isSimpleKey k then "\n" ++ spaces (deeper indent)
  else spaces (deeper indent - indent - 1)

def sortEntries (lines : List (String × String)) : List String :=
  (lines.mergeSort fun a b => keyLe a.1 b.1).map Prod.snd

mutual

/-- Data with the first line at the current place; the lines of a collection start at `indent`, and
the further lines of a text get that margin. -/
def node (indent : Nat) : Data → String
  | .null => "null"
  | .bool b => toString b
  | .number x => layout.write x
  | .integer i => toString i
  | .string s => text indent s
  | .time s => s
  | .list [] => "[]"
  | .list (d :: ds) => stack indent (items indent (d :: ds))
  | .map [] => "\x7b\x7d"
  | .map (e :: es) => stack indent (sortEntries (entries indent (e :: es)))
  | .mixedMap [] => "\x7b\x7d"
  | .mixedMap (e :: es) => stack indent (sortEntries (entries indent (e :: es)))

def items (indent : Nat) : List Data → List String
  | [] => []
  | d :: ds => ("- " ++ node (indent + 2) d) :: items indent ds

def entries (indent : Nat) : List (String × Data) → List (String × String)
  | [] => []
  | (k, d) :: es =>
    (k, key indent k ++ separator indent k d ++ node (deeper indent) d) :: entries indent es

end

end Writer

def write (d : Data) : String :=
  Writer.endLine (Writer.node 0 d)

end Yaml
end DefTable
