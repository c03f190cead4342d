import DefTable.Data.Basic
import DefTable.Data.Yaml.Time
import DefTable.Text.Base64

/-!
# What a plain scalar means

A scalar without quotes is null, a truth value, a number or a point in time if it is spelled like
one, and a text otherwise.
-/

namespace DefTable
namespace Yaml

def words : List (String × Data) :=
  [("", .null), ("~", .null), ("null", .null), ("Null", .null), ("NULL", .null),
   ("true", .bool true), ("True", .bool true), ("TRUE", .bool true),
   ("false", .bool false), ("False", .bool false), ("FALSE", .bool false),
   (".nan", .number .undefined), (".NaN", .number .undefined), (".NAN", .number .undefined),
   (".inf", .number (.infinity false)), (".Inf", .number (.infinity false)),
   (".INF", .number (.infinity false)),
   ("+.inf", .number (.infinity false)), ("+.Inf", .number (.infinity false)),
   ("+.INF", .number (.infinity false)),
   ("-.inf", .number (.infinity true)), ("-.Inf", .number (.infinity true)),
   ("-.INF", .number (.infinity true))]

/-! ## Integers -/

def radixValue? (radix : Nat) (cs : List Char) : Option Nat :=
  if cs.isEmpty then none
  else cs.foldlM (fun n c => do
    let d ← Numeral.digitValue? c
    if d < radix then some (n * radix + d) else none) 0

/-- Digits after their radix mark; a leading zero alone marks octal digits. -/
def unsigned? : List Char → Option Nat
  | '0' :: 'x' :: cs => radixValue? 16 cs
  | '0' :: 'X' :: cs => radixValue? 16 cs
  | '0' :: 'b' :: cs => radixValue? 2 cs
  | '0' :: 'B' :: cs => radixValue? 2 cs
  | '0' :: 'o' :: cs => radixValue? 8 cs
  | '0' :: 'O' :: cs => radixValue? 8 cs
  | ['0'] => some 0
  | '0' :: cs => radixValue? 8 cs
  | cs => radixValue? 10 cs

def signed? (negative : Bool) (n : Nat) : Option Int :=
  if negative then (if n ≤ 0x8000000000000000 then some (-n) else none)
  else if n < 0x8000000000000000 then some n else none

/-- An integer of at most sixty-four bits.  The sign may also stand after a binary or octal radix
mark. -/
def integer? : List Char → Option Int
  | '-' :: cs => (unsigned? cs).bind (signed? true)
  | '+' :: cs => (unsigned? cs).bind (signed? false)
  | '0' :: 'b' :: '-' :: cs => (radixValue? 2 cs).bind (signed? true)
  | '0' :: 'b' :: '+' :: cs => (radixValue? 2 cs).bind (signed? false)
  | '0' :: 'o' :: '-' :: cs => (radixValue? 8 cs).bind (signed? true)
  | '0' :: 'o' :: '+' :: cs => (radixValue? 8 cs).bind (signed? false)
  | cs => (unsigned? cs).bind fun n => if n < 0x10000000000000000 then some n else none

/-! ## Numbers with point or exponent -/

def exponent? : List Char → Option Int
  | [] => some 0
  | c :: cs =>
    if c = 'e' ∨ c = 'E' then
      let (negative, cs) := match cs with
        | '-' :: cs => (true, cs)
        | '+' :: cs => (false, cs)
        | cs => (false, cs)
      match digits cs with
      | ([], _) => none
      | (ds, []) => some (if negative then -(Numeral.natValue (ds.map .char))
          else Numeral.natValue (ds.map .char))
      | _ => none
    else none

/-- Digits with an optional point and an optional exponent; a leading point needs digits after it.
-/
def magnitude? (negative : Bool) (cs : List Char) : Option Number := do
  let (whole, rest) := digits cs
  let (part, rest, pointed) := match rest with
    | '.' :: rest =>
      let (part, rest) := digits rest
      (part, rest, true)
    | rest => ([], rest, false)
  if whole.isEmpty && (part.isEmpty || !pointed) then none
  else
    let power ← exponent? rest
    return .ofDecimal negative (Numeral.natValue ((whole ++ part).map .char)) (power - part.length)

def float? (cs : List Char) : Option Number :=
  let x := match cs with
    | '-' :: cs => magnitude? true cs
    | '+' :: cs => magnitude? false cs
    | cs => magnitude? false cs
  x.filter Number.isFinite

/-! ## All together -/

def numeric? (timed : Bool) (s : String) : Option Data :=
  let bare := s.toList.filter (· ≠ '_')
  (if timed then (time? s.toList).map .time else none)
    <|> (integer? bare).map .integer
    <|> (float? bare).map .number

def underscoresSeparate : List Char → Bool
  | a :: '_' :: b :: cs => a.isDigit && b.isDigit && underscoresSeparate (b :: cs)
  | '_' :: _ => false
  | [_, '_'] => false
  | _ :: cs => underscoresSeparate cs
  | [] => true

def meaning (timed : Bool) (s : String) : Data :=
  match words.lookup s with
  | some d => d
  | none =>
    let found := match s.toList with
      | '.' :: cs =>
        if underscoresSeparate ('.' :: cs) then
          (float? (('.' :: cs).filter (· ≠ '_'))).map Data.number
        else none
      | c :: _ => if c.isDigit || c = '+' || c = '-' then numeric? timed s else none
      | [] => none
    found.getD (.string s)

def resolve (s : String) : Data :=
  meaning true s

def meansItself (s : String) : Bool :=
  match resolve s with
  | .string _ => true
  | _ => false

/-! ## Tags -/

def tagOf : Data → String
  | .null => "!!null"
  | .bool _ => "!!bool"
  | .number _ => "!!float"
  | .integer _ => "!!int"
  | .time _ => "!!timestamp"
  | _ => "!!str"

def meaningTags : List String :=
  ["!!null", "!!bool", "!!float", "!!int", "!!timestamp"]

/-- A scalar with one of those tags has to mean what the tag says; a signed integer will do for a
number.  A binary text is written in base 64.  With any other tag a scalar is its text. -/
def tagged? (tag text : String) : Option Data :=
  if tag = "!!binary" then
    ((Base64.decode? text.toList).bind fun bytes => Text.string? bytes).map .string
  else if !meaningTags.contains tag then some (.string text)
  else
    let d := meaning (tag = "!!timestamp") text
    if tagOf d = tag then some d
    else match d with
      | .integer i =>
        if tag = "!!float" && i ≤ Data.largestInt then some (.number (.ofInt i)) else none
      | _ => none

end Yaml
end DefTable
