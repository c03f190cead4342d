import DefTable.Data.Yaml.Character
import DefTable.Data.Yaml.Scalar

/-!
# The style of a text

A text stands without quotes where it then reads as itself; otherwise it is quoted, or written as a
literal block if it has several lines.
-/

namespace DefTable
namespace Yaml

inductive Style where
  | plain
  | single
  | double
  | literal
deriving DecidableEq, Repr

def oldBools : List String :=
  ["y", "Y", "yes", "Yes", "YES", "on", "On", "ON", "n", "N", "no", "No", "NO", "off", "Off", "OFF"]

def sixtieths : List Char → Option (List Char)
  | ':' :: a :: b :: cs =>
    if a.isDigit && b.isDigit then (if a < '6' then some cs else none)
    else if a.isDigit then some (b :: cs)
    else none
  | [':', a] => if a.isDigit then some [] else none
  | _ => none

def sixtiethParts (fuel : Nat) (found : Bool) (cs : List Char) : Bool :=
  match fuel with
  | 0 => false
  | fuel + 1 =>
    match sixtieths cs with
    | some rest => sixtiethParts fuel true rest
    | none =>
      found && match cs with
        | [] => true
        | '.' :: rest => rest.all fun c => c.isDigit || c = '_'
        | _ => false

def isBaseSixty (s : String) : Bool :=
  let cs := match s.toList with
    | '-' :: cs => cs
    | '+' :: cs => cs
    | cs => cs
  match cs with
  | c :: _ =>
    let rest := cs.dropWhile fun c => c.isDigit || c = '_'
    c.isDigit && sixtiethParts (rest.length + 1) false rest
  | [] => false

def reads (s : String) : Bool :=
  meansItself s && !oldBools.contains s && !isBaseSixty s

def wanted (s : String) : Style :=
  if s.toList.contains '\n' then .literal else if reads s then .plain else .double

/-- Some character stands where it would be taken for an indicator.  `previous` is the character
before. -/
def hasIndicator (previous : Option Char) : List Char → Bool
  | [] => false
  | c :: rest =>
    let followed := rest.isEmpty || rest.head?.any isBlank
    let bad := match previous with
      | none => leadsBadly c || ((c = '?' || c = ':' || c = '-') && followed)
      | some p => (c = ':' && followed) || (c = '#' && (isBlank p || isBreak p))
    bad || hasIndicator (some c) rest

def isEdge (c : Char) : Bool :=
  c = ' ' || isBreak c

def hasPair (first second : Char → Bool) : List Char → Bool
  | a :: b :: cs => (first a && second b) || hasPair first second (b :: cs)
  | _ => false

def allowsPlain (cs : List Char) : Bool :=
  !(startsLikeDocument cs || hasIndicator none cs || cs.head?.any isEdge ||
    cs.getLast?.any isEdge || cs.any isBreak)

def isSpecial (c : Char) : Bool :=
  c ≠ '\t' && !isWritable c

def allowsSingle (cs : List Char) : Bool :=
  !(hasPair isBreak (· = ' ') cs || hasPair (· = ' ') isBreak cs || cs.contains '\t' ||
    cs.any isSpecial)

def allowsLiteral (cs : List Char) : Bool :=
  !(hasPair (· = ' ') isBreak cs || cs.getLast? = some ' ' || cs.any isSpecial)

def style (s : String) : Style :=
  let cs := s.toList
  let quoted := if allowsSingle cs then Style.single else .double
  match wanted s with
  | .plain => if allowsPlain cs && allowsSingle cs then .plain else quoted
  | .literal => if allowsLiteral cs then .literal else .double
  | other => other

end Yaml
end DefTable
