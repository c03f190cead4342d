import DefTable.Text.Quoted

/-!
# Versions

A version has up to three numbers, a prerelease and metadata: `1.4.0-rc.1+build`.  Versions are
ordered by their numbers and then by their prereleases; a release comes after all its prereleases,
and metadata does not count.
-/

namespace DefTable

structure Version where
  major : Nat
  minor : Nat
  patch : Nat
  prerelease : String
  metadata : String
deriving DecidableEq, Repr, Inhabited

namespace Version

/-! ## Written versions

A version and the version of a constraint are spelled alike, except that in a constraint a part may
be a wildcard instead of a number.
-/

structure Spelling where
  text : String
  major : String
  minor : Option String
  patch : Option String
  prerelease : Option String
  metadata : Option String
deriving DecidableEq, Repr

def isWordChar (c : Char) : Bool :=
  c.isDigit || c.isAlpha || c = '-'

def marked? (mark : Char) (inClass : Char → Bool) : List Char → Option (String × List Char)
  | [] => none
  | c :: cs =>
    let run := cs.takeWhile inClass
    if c = mark && !run.isEmpty then some (String.ofList run, cs.drop run.length) else none

def moreWords (fuel : Nat) (done : String) (cs : List Char) : String × List Char :=
  match fuel with
  | 0 => (done, cs)
  | fuel + 1 =>
    match marked? '.' isWordChar cs with
    | some (word, rest) => moreWords fuel (done ++ "." ++ word) rest
    | none => (done, cs)

def words? (mark : Char) (cs : List Char) : Option (String × List Char) :=
  (marked? mark isWordChar cs).map fun (word, rest) => moreWords rest.length word rest

def optionally (read : List Char → Option (String × List Char)) (cs : List Char) :
    Option String × List Char :=
  match read cs with
  | some (s, rest) => (some s, rest)
  | none => (none, cs)

/-- The longest written version at the front; its numbers are made of the characters of a class. -/
def Spelling.read (inClass : Char → Bool) (cs : List Char) : Option (Spelling × List Char) :=
  let bare := match cs with
    | 'v' :: rest => rest
    | cs => cs
  let major := bare.takeWhile inClass
  if major.isEmpty then none
  else
    let (minor, rest) := optionally (marked? '.' inClass) (bare.drop major.length)
    let (patch, rest) :=
      if minor.isSome then optionally (marked? '.' inClass) rest else (none, rest)
    let (prerelease, rest) := optionally (words? '-') rest
    let (metadata, rest) := optionally (words? '+') rest
    some (⟨String.ofList (cs.take (cs.length - rest.length)), String.ofList major, minor, patch,
      prerelease, metadata⟩, rest)

/-! ## Reading -/

inductive Fault where
  | malformed
  | tooLarge (digits : String)
  | leadingZero
deriving DecidableEq, Repr

def Fault.message : Fault → String
  | malformed => "Invalid Semantic Version"
  | tooLarge digits =>
    s!"Error parsing version segment: strconv.ParseUint: parsing {Quoted.string digits}: " ++
      "value out of range"
  | leadingZero => "Version segment starts with 0"

def numberLimit : Nat := 0x10000000000000000

def digitsValue (s : String) : Nat :=
  s.toList.foldl (fun n c => n * 10 + (c.toNat - '0'.toNat)) 0

/-- The value of digits; nothing at all counts as zero. -/
def number (part : Option String) : Except Fault Nat :=
  match part with
  | none => .ok 0
  | some s => if digitsValue s < numberLimit then .ok (digitsValue s) else .error (.tooLarge s)

def prereleaseWords (s : String) : List String :=
  s.splitOn "."

def isNumeric (s : String) : Bool :=
  s.toList.all Char.isDigit

def hasLeadingZero (word : String) : Bool :=
  isNumeric word && word.length > 1 && word.toList.head? = some '0'

def ofSpelling (s : Spelling) : Except Fault Version := do
  let major ← number (some s.major)
  let minor ← number s.minor
  let patch ← number s.patch
  if s.prerelease.any fun p => (prereleaseWords p).any hasLeadingZero then throw .leadingZero
  return ⟨major, minor, patch, s.prerelease.getD "", s.metadata.getD ""⟩

def ofString (s : String) : Except Fault Version :=
  match Spelling.read Char.isDigit s.toList with
  | some (spelling, []) => ofSpelling spelling
  | _ => .error .malformed

/-! ## Writing -/

def text (v : Version) : String :=
  s!"{v.major}.{v.minor}.{v.patch}" ++
    (if v.prerelease = "" then "" else "-" ++ v.prerelease) ++
    (if v.metadata = "" then "" else "+" ++ v.metadata)

/-! ## Order -/

def compareNat (a b : Nat) : Ordering :=
  if a < b then .lt else if b < a then .gt else .eq

def wordNumber? (word : String) : Option Nat :=
  if isNumeric word && digitsValue word < numberLimit then some (digitsValue word) else none

/-- Numbers compare by value and come before words, which compare by their characters. -/
def compareWord (a b : String) : Ordering :=
  match wordNumber? a, wordNumber? b with
  | some m, some n => compareNat m n
  | some _, none => .lt
  | none, some _ => .gt
  | none, none => if a < b then .lt else if b < a then .gt else .eq

def compareWords : List String → List String → Ordering
  | [], [] => .eq
  | [], _ :: _ => .lt
  | _ :: _, [] => .gt
  | a :: as, b :: bs => (compareWord a b).then (compareWords as bs)

def comparePrerelease (a b : String) : Ordering :=
  match a, b with
  | "", "" => .eq
  | "", _ => .gt
  | _, "" => .lt
  | a, b => compareWords (prereleaseWords a) (prereleaseWords b)

def compare (v w : Version) : Ordering :=
  (compareNat v.major w.major).then <|
    (compareNat v.minor w.minor).then <|
      (compareNat v.patch w.patch).then (comparePrerelease v.prerelease w.prerelease)

end Version
end DefTable
