import DefTable.Version.Basic

/-!
# Version constraints

A constraint is a list of alternatives, each a list of bounds that must all hold: `>= 1.0, < 2 ||
3`.  A bound may leave parts of its version open, and then only the parts that are given count.
-/

namespace DefTable
namespace Constraint

inductive Operator where
  | equal
  | unequal
  | above
  | below
  | atLeast
  | atMost
  | tilde
  | caret
deriving DecidableEq, Repr

/-- The parts of its version that a bound gives. -/
inductive Given where
  | nothing
  | major
  | minor
  | patch
deriving DecidableEq, Repr

structure Bound where
  operator : Operator
  written : String
  version : Version
  given : Given
deriving DecidableEq, Repr

/-! ## Reading -/

inductive Fault where
  | improper (part : String)
  | badVersion
deriving DecidableEq, Repr

def Fault.message : Fault → String
  | improper part => "improper constraint: " ++ part
  | badVersion => "constraint Parser Error"

def isBlank (c : Char) : Bool :=
  c = ' ' || c = '\t' || c = '\n' || c = '\x0c' || c = '\r'

def dropBlanks (cs : List Char) : List Char :=
  cs.dropWhile isBlank

def isPartChar (c : Char) : Bool :=
  c.isDigit || c = 'x' || c = 'X' || c = '*' || c = '|'

def isWildcard (part : String) : Bool :=
  part = "x" || part = "X" || part = "*"

def isOpen (part : Option String) : Bool :=
  part.all isWildcard

def givenBy (s : Version.Spelling) : Given :=
  if isWildcard s.major then .nothing
  else if isOpen s.minor then .major
  else if isOpen s.patch then .minor
  else .patch

/-- The version with what is not given left out; metadata only stays with a complete one. -/
def closed (s : Version.Spelling) : Version.Spelling :=
  match givenBy s with
  | .nothing => { s with major := "0", minor := none, patch := none, metadata := none }
  | .major => { s with minor := none, patch := none, metadata := none }
  | .minor => { s with patch := none, metadata := none }
  | .patch => s

def isDigits (part : String) : Bool :=
  part.toList.all Char.isDigit

def Bound.ofSpelling (op : Operator) (s : Version.Spelling) : Except Fault Bound :=
  let c := closed s
  if [some c.major, c.minor, c.patch].all (·.all isDigits) then
    match Version.ofSpelling c with
    | .ok v => .ok ⟨op, s.text, v, givenBy s⟩
    | .error _ => .error .badVersion
  else .error .badVersion

def operator : List Char → Operator × List Char
  | '!' :: '=' :: cs => (.unequal, cs)
  | '>' :: '=' :: cs => (.atLeast, cs)
  | '=' :: '>' :: cs => (.atLeast, cs)
  | '<' :: '=' :: cs => (.atMost, cs)
  | '=' :: '<' :: cs => (.atMost, cs)
  | '~' :: '>' :: cs => (.tilde, cs)
  | '=' :: cs => (.equal, cs)
  | '>' :: cs => (.above, cs)
  | '<' :: cs => (.below, cs)
  | '~' :: cs => (.tilde, cs)
  | '^' :: cs => (.caret, cs)
  | cs => (.equal, cs)

def spellings (fuel : Nat) (cs : List Char) : Option (List (Operator × Version.Spelling)) :=
  match fuel with
  | 0 => none
  | fuel + 1 => do
    let (op, rest) := operator (dropBlanks cs)
    let (s, rest) ← Version.Spelling.read isPartChar (dropBlanks rest)
    match dropBlanks rest with
    | [] => return [(op, s)]
    | ',' :: more => return (op, s) :: (← spellings fuel more)
    | more => if rest.head?.any isBlank then return (op, s) :: (← spellings fuel more) else none

def bounds (part : List Char) : Except Fault (List Bound) :=
  match spellings (part.length + 1) part with
  | none => .error (.improper (String.ofList part))
  | some items => items.mapM fun (op, s) => Bound.ofSpelling op s

def alternatives : List Char → List (List Char)
  | [] => [[]]
  | '|' :: '|' :: cs => [] :: alternatives cs
  | c :: cs =>
    match alternatives cs with
    | [] => [[c]]
    | part :: parts => (c :: part) :: parts

/-! ## Ranges

`A - B` stands for `>= A, <= B`.
-/

structure Range where
  text : List Char
  low : String
  high : String

def range? (cs : List Char) : Option (Range × List Char) := do
  let (low, rest) ← Version.Spelling.read isPartChar (dropBlanks cs)
  match dropBlanks rest with
  | '-' :: after =>
    if rest.head?.any isBlank && after.head?.any isBlank then
      let (high, rest) ← Version.Spelling.read isPartChar (dropBlanks after)
      let rest := dropBlanks rest
      return (⟨cs.take (cs.length - rest.length), low.text, high.text⟩, rest)
    else none
  | _ => none

def ranges (fuel : Nat) (cs : List Char) : List Range :=
  match fuel with
  | 0 => []
  | fuel + 1 =>
    match cs with
    | [] => []
    | _ :: tail =>
      match range? cs with
      | some (r, rest) => r :: ranges fuel rest
      | none => ranges fuel tail

def replaceFirst (old new : List Char) : List Char → List Char
  | [] => if old.isEmpty then new else []
  | c :: cs =>
    if old.isPrefixOf (c :: cs) then new ++ (c :: cs).drop old.length
    else c :: replaceFirst old new cs

def Range.bounds (r : Range) : List Char :=
  s!">= {r.low}, <= {r.high} ".toList

def expandRanges (cs : List Char) : List Char :=
  (ranges (cs.length + 1) cs).foldl (fun cs r => replaceFirst r.text r.bounds cs) cs

end Constraint

abbrev Constraint := List (List Constraint.Bound)

namespace Constraint

def ofString (s : String) : Except Fault Constraint :=
  (alternatives (expandRanges s.toList)).mapM bounds

/-! ## Checking -/

inductive Objection where
  | prerelease
  | notEqual
  | equal
  | notAbove
  | notBelow
  | less
  | greater
  | otherMajor
  | otherMajorMinor
  | otherMinor
  | otherMinorOfZero
  | otherPatchOfZero
deriving DecidableEq, Repr

def Objection.text (v : Version) (written : String) (o : Objection) : String :=
  let named := v.text
  match o with
  | prerelease =>
    named ++ " is a prerelease version and the constraint is only looking for release versions"
  | notEqual => s!"{named} is not equal to {written}"
  | equal => s!"{named} is equal to {written}"
  | notAbove => s!"{named} is less than or equal to {written}"
  | notBelow => s!"{named} is greater than or equal to {written}"
  | less => s!"{named} is less than {written}"
  | greater => s!"{named} is greater than {written}"
  | otherMajor => s!"{named} does not have same major version as {written}"
  | otherMajorMinor => s!"{named} does not have same major and minor version as {written}"
  | otherMinor => s!"{named} does not have same minor version as {written}"
  | otherMinorOfZero =>
    s!"{named} does not have same minor version as {written}. " ++
      "Expected minor versions to match when constraint major version is 0"
  | otherPatchOfZero =>
    s!"{named} does not equal {written}. " ++
      "Expect version and constraint to equal when major and minor versions are 0"

def objectIf (condition : Bool) (o : Objection) : Option Objection :=
  if condition then some o else none

namespace Bound

def agrees (b : Bound) (v : Version) : Bool :=
  let w := b.version
  match b.given with
  | .major => v.major = w.major
  | .minor => v.major = w.major && v.minor = w.minor && v.prerelease = w.prerelease
  | _ => v.compare w = .eq

def exceeds (b : Bound) (v : Version) : Bool :=
  let w := b.version
  match b.given with
  | .major => v.major > w.major
  | .minor => v.major > w.major || (v.major = w.major && v.minor > w.minor)
  | .nothing => v.major > w.major || (v.major = w.major && v.minor > w.minor)
  | .patch => v.compare w = .gt

/-- What `>` asks for: with a wildcard instead of a version, anything but zero. -/
def isAbove (b : Bound) (v : Version) : Bool :=
  match b.given with
  | .nothing => v.compare b.version = .gt
  | _ => b.exceeds v

def checkTilde (b : Bound) (v : Version) : Option Objection :=
  let w := b.version
  let zero := w.major = 0 && w.minor = 0 && w.patch = 0
  if v.compare w = .lt then some .less
  else if zero && (b.given = .nothing || b.given = .patch) then none
  else if v.major ≠ w.major then some .otherMajor
  else objectIf (v.minor ≠ w.minor && b.given ≠ .major) .otherMajorMinor

def checkCaret (b : Bound) (v : Version) : Option Objection :=
  let w := b.version
  if v.compare w = .lt then some .less
  else if v.major ≠ w.major then some .otherMajor
  else if w.major > 0 || b.given = .major then none
  else if w.minor > 0 || b.given = .minor then objectIf (v.minor ≠ w.minor) .otherMinorOfZero
  else if v.minor > 0 then some .otherMinor
  else objectIf (v.patch ≠ w.patch) .otherPatchOfZero

/-- The objection to a version, if there is one.  A prerelease only meets bounds that ask for one.
-/
def check (b : Bound) (v : Version) : Option Objection :=
  let w := b.version
  if v.prerelease ≠ "" && w.prerelease = "" then some .prerelease
  else match b.operator with
    | .equal =>
      if b.given = .patch then objectIf (v.compare w ≠ .eq) .notEqual else b.checkTilde v
    | .unequal => objectIf (b.agrees v) .equal
    | .above => objectIf (!b.isAbove v) .notAbove
    | .below => objectIf (v.compare w ≠ .lt) .notBelow
    | .atLeast => objectIf (v.compare w = .lt) .less
    | .atMost => objectIf (b.exceeds v) .greater
    | .tilde => b.checkTilde v
    | .caret => b.checkCaret v

end Bound

def objections (bs : List Bound) (v : Version) : List (Bound × Objection) :=
  bs.filterMap fun b => (b.check v).map fun o => (b, o)

def admits (c : Constraint) (v : Version) : Bool :=
  c.any fun bs => (objections bs v).isEmpty

/-- Of the objections to a prerelease as such only the first is kept. -/
def firstPrereleaseOnly : List (Bound × Objection) → List (Bound × Objection)
  | [] => []
  | (b, o) :: rest =>
    if o = .prerelease then (b, o) :: rest.filter fun e => e.2 ≠ .prerelease
    else (b, o) :: firstPrereleaseOnly rest

def complaints (c : Constraint) (v : Version) : List String :=
  (firstPrereleaseOnly (c.flatMap fun bs => objections bs v)).map fun e =>
    e.2.text v e.1.written

end Constraint
end DefTable
