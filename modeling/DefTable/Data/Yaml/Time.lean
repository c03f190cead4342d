import DefTable.Token.Numeral

/-!
# Points in time

A date with a four-digit year, or a date and a time of day.  A point in time is kept as it is shown.
-/

namespace DefTable
namespace Yaml

def digits (cs : List Char) : List Char × List Char :=
  cs.span Char.isDigit

def field? (low high : Nat) (cs : List Char) : Option (Nat × List Char) :=
  let ds := (cs.take 2).takeWhile Char.isDigit
  let n := Numeral.natValue (ds.map .char)
  if ds.isEmpty || n < low || high < n then none else some (n, cs.drop ds.length)

def mark? (c : Char) : List Char → Option (List Char)
  | d :: cs => if d = c then some cs else none
  | [] => none

def isLeapYear (year : Nat) : Bool :=
  year % 4 = 0 && (year % 100 ≠ 0 || year % 400 = 0)

def daysIn (year month : Nat) : Nat :=
  match month with
  | 2 => if isLeapYear year then 29 else 28
  | 4 | 6 | 9 | 11 => 30
  | _ => 31

def padded (width n : Nat) : String :=
  let ds := Nat.toDigits 10 n
  String.ofList (List.replicate (width - ds.length) '0' ++ ds)

def date? (cs : List Char) : Option (String × List Char) := do
  let (year, cs) := digits cs
  if year.length ≠ 4 then none
  else
    let cs ← mark? '-' cs
    let (month, cs) ← field? 1 12 cs
    let cs ← mark? '-' cs
    let y := Numeral.natValue (year.map .char)
    let (day, cs) ← field? 1 (daysIn y month) cs
    return (s!"{padded 4 y}-{padded 2 month}-{padded 2 day}", cs)

def secondPart : List Char → String × List Char
  | [] => ("", [])
  | c :: cs =>
    let ds := cs.takeWhile Char.isDigit
    if (c = '.' || c = ',') && !ds.isEmpty then
      let shown := ((ds.take 9).reverse.dropWhile (· = '0')).reverse
      (if shown.isEmpty then "" else String.ofList ('.' :: shown), cs.drop ds.length)
    else ("", c :: cs)

def clock? (cs : List Char) : Option (String × List Char) := do
  let (hour, cs) ← field? 0 23 cs
  let cs ← mark? ':' cs
  let (minute, cs) ← field? 0 59 cs
  let cs ← mark? ':' cs
  let (second, cs) ← field? 0 59 cs
  let (part, cs) := secondPart cs
  return (s!"{padded 2 hour}:{padded 2 minute}:{padded 2 second}{part}", cs)

def universalZone : String := "+0000 UTC"

def zone? : List Char → Option String
  | ['Z'] => some universalZone
  | [sign, a, b, ':', c, d] =>
    let hours := Numeral.natValue [.char a, .char b]
    let minutes := Numeral.natValue [.char c, .char d]
    if (sign = '+' || sign = '-') && [a, b, c, d].all Char.isDigit && hours ≤ 24 &&
        minutes ≤ 60 then
      let offset := hours * 60 + minutes
      if offset = 0 then some universalZone
      else
        let shown := s!"{sign}{padded 2 (offset / 60)}{padded 2 (offset % 60)}"
        some s!"{shown} {shown}"
    else none
  | _ => none

/-- A date, or a date and a time.  Between them stands a `T` or there are spaces; without a `T`
there is no zone. -/
def time? (cs : List Char) : Option String := do
  let (date, rest) ← date? cs
  match rest with
  | [] => return s!"{date} 00:00:00 {universalZone}"
  | ' ' :: rest =>
    let (clock, rest) ← clock? (rest.dropWhile (· = ' '))
    if rest.isEmpty then return s!"{date} {clock} {universalZone}" else none
  | c :: rest =>
    if c = 'T' ∨ c = 't' then
      let (clock, rest) ← clock? rest
      let zone ← zone? rest
      return s!"{date} {clock} {zone}"
    else none

end Yaml
end DefTable
