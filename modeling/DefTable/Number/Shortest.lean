import DefTable.Number.Basic

/-!
# The fewest digits that read back

Between two neighbouring numbers there are many decimals.  A number is written with the fewest
digits that still round to it, and of those decimals with the nearest one.  Everything is decided in
exact integer arithmetic: the decimals that round to `m * 2 ^ q` form an interval, and on each
decimal grid only the two grid points around the value have to be tested.
-/

namespace DefTable

structure Decimal where
  digits : Nat
  exponent : Int
deriving DecidableEq, Repr, Inhabited

namespace Decimal

def trim (fuel : Nat) (d : Decimal) : Decimal :=
  match fuel with
  | 0 => d
  | fuel + 1 =>
    if d.digits ≠ 0 ∧ d.digits % 10 = 0 then trim fuel ⟨d.digits / 10, d.exponent + 1⟩ else d

def digitChars (d : Decimal) : List Char :=
  Nat.toDigits 10 d.digits

def decade (d : Decimal) : Int :=
  d.exponent + d.digitChars.length - 1

end Decimal

namespace Number

def decadeOf (a b : Nat) : Int :=
  if b ≤ a then (decimalLength (a / b) : Int) - 1
  else -(decimalLength ((b - 1) / a) : Int)

/-- Quarter steps around a significand: the value and the two ends of the interval that rounds to
it, all times four.  The interval is shorter below where a new binade starts. -/
structure Neighbourhood where
  value : Nat
  low : Nat
  high : Nat
  closed : Bool

def neighbourhood (x : Number) : Neighbourhood :=
  let m := x.significand
  { value := 4 * m
    low := if m = fractionSize ∧ 0 < x.binade then 4 * m - 1 else 4 * m - 2
    high := 4 * m + 2
    closed := m % 2 = 0 }

/-- The point `n` of the decimal grid `10 ^ k`, compared with `quarters * 2 ^ (q - 2)`: both sides
scaled to integers. -/
def scaled (q k : Int) (n quarters : Nat) : Nat × Nat :=
  let a := n * tenTo k.toNat * twoTo (2 - q).toNat
  let b := quarters * tenTo (-k).toNat * twoTo (q - 2).toNat
  (a, b)

def admits (x : Number) (k : Int) (n : Nat) : Bool :=
  let r := x.neighbourhood
  let lo := scaled x.exponent k n r.low
  let hi := scaled x.exponent k n r.high
  if r.closed then lo.2 ≤ lo.1 && hi.1 ≤ hi.2 else lo.2 < lo.1 && hi.1 < hi.2

def prefersLower (below rest unit : Nat) : Bool :=
  2 * rest < unit || (2 * rest = unit && below % 2 = 0)

def choose (admitted : Nat → Bool) (below : Nat) (lower : Bool) : Option Nat :=
  match admitted below, admitted (below + 1) with
  | true, true => some (if lower then below else below + 1)
  | true, false => some below
  | false, true => some (below + 1)
  | false, false => none

/-- The decimal on the grid `10 ^ k` that reads back as the number and is nearest to it; a tie goes
to the even digit. -/
def onGrid? (x : Number) (k : Int) : Option Decimal :=
  let one := scaled x.exponent k 1 x.neighbourhood.value
  let below := one.2 / one.1
  let lower := prefersLower below (one.2 % one.1) one.1
  (choose (admits x k) below lower).map fun n => ⟨n, k⟩

def firstOnGrids (onGrid? : Int → Option Decimal) (otherwise : Decimal) (decade : Int) :
    (steps count : Nat) → Decimal
  | 0, _ => otherwise
  | steps + 1, count =>
    match onGrid? (decade + 1 - count) with
    | some d => d.trim 18
    | none => firstOnGrids onGrid? otherwise decade steps (count + 1)

/-- The shortest decimal that reads back as a finite number, without its sign.  Seventeen digits
always suffice. -/
def shortest (x : Number) : Decimal :=
  if x.significand = 0 then ⟨0, 0⟩
  else
    let (a, b) := x.ratio
    firstOnGrids (onGrid? x) ⟨x.significand, 0⟩ (decadeOf a b) 17 1

end Number
end DefTable
