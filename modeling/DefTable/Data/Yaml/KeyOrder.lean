import DefTable.Text.Digit
import DefTable.Text.Letter

/-!
# The order of keys

Keys are written in the order in which people count: digits inside them compare as numbers.
-/

namespace DefTable
namespace Yaml

def isAnyLetter (c : Char) : Bool :=
  c.isAlpha || isForeignLetter c

def isAnyDigit (c : Char) : Bool :=
  c.isDigit || isForeignDigit c

/-- The number that a run of digits continues, and how long the run is.  A digit counts for its
distance from zero. -/
def digitRun (start : Int64) (cs : List Char) : Int64 × Nat :=
  let ds := cs.takeWhile isAnyDigit
  (ds.foldl (fun n c => n * 10 + Int64.ofNat (c.toNat - '0'.toNat)) start, ds.length)

def inNumber (before : List Char) : Bool :=
  (before.takeWhile isAnyDigit).any (· ≠ '0')

/-- Compare from the first difference on; `before` is what both keys share, the last character
first. -/
def lessAtDifference (before : List Char) (a : Char) (as : List Char) (b : Char) (bs : List Char) :
    Bool :=
  let afterDigit := before.head?.any isAnyDigit
  match isAnyLetter a, isAnyLetter b with
  | true, true => a < b
  | true, false => afterDigit
  | false, true => !afterDigit
  | false, false =>
    let start := if (a = '0' || b = '0') && inNumber before then 1 else 0
    let (m, i) := digitRun start (a :: as)
    let (n, j) := digitRun start (b :: bs)
    if m ≠ n then m < n
    else if i ≠ j then i < j
    else a < b

def keyLess (before : List Char) : List Char → List Char → Bool
  | [], [] => false
  | [], _ :: _ => true
  | _ :: _, [] => false
  | a :: as, b :: bs =>
    if a = b then keyLess (a :: before) as bs else lessAtDifference before a as b bs

def keyLe (a b : String) : Bool :=
  !keyLess [] b.toList a.toList

end Yaml
end DefTable
