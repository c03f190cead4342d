/-!
# Numbers

A number of the language is a 64-bit binary floating-point value, held as its bit pattern: one sign
bit, eleven exponent bits and fifty-two fraction bits.  Two numbers are the same exactly when their
patterns are, so negative zero differs from zero.  A finite number denotes `significand * 2 ^
exponent` up to its sign, and every reading of a numeral ends in one rounding to the nearest
pattern.
-/

namespace DefTable

def twoTo (n : Nat) : Nat := Nat.pow 2 n

def tenTo (n : Nat) : Nat := Nat.pow 10 n

structure Number where
  bits : UInt64
deriving DecidableEq, Repr, Inhabited

namespace Number

def fractionSize : Nat := twoTo 52

def signSize : Nat := twoTo 63

/-- The pattern without its sign, read as a natural number; the patterns of the non-negative numbers
are ordered as the numbers are. -/
def magnitude (x : Number) : Nat :=
  x.bits.toNat % signSize

def isNegative (x : Number) : Bool :=
  signSize ≤ x.bits.toNat

def infiniteMagnitude : Nat := 2047 * fractionSize

def ofMagnitude (negative : Bool) (magnitude : Nat) : Number :=
  ⟨UInt64.ofNat (magnitude % signSize + if negative then signSize else 0)⟩

def zero : Number := ofMagnitude false 0

def infinity (negative : Bool) : Number := ofMagnitude negative infiniteMagnitude

/-- The pattern that stands for the outcome of an undefined operation. -/
def undefined : Number := ofMagnitude false (infiniteMagnitude + fractionSize / 2 + 1)

def isInfinite (x : Number) : Bool :=
  x.magnitude = infiniteMagnitude

def isUndefined (x : Number) : Bool :=
  infiniteMagnitude < x.magnitude

def isFinite (x : Number) : Bool :=
  x.magnitude < infiniteMagnitude

def neg (x : Number) : Number :=
  ofMagnitude (!x.isNegative) x.magnitude

instance : Neg Number := ⟨neg⟩

def binade (x : Number) : Nat :=
  x.magnitude / fractionSize - 1

/-- The integer `m` of the finite value `m * 2 ^ q`. -/
def significand (x : Number) : Nat :=
  x.magnitude - x.binade * fractionSize

def exponent (x : Number) : Int :=
  (x.binade : Int) - 1074

def ratio (x : Number) : Nat × Nat :=
  if 0 ≤ x.exponent then (x.significand * twoTo x.exponent.toNat, 1)
  else (x.significand, twoTo (-x.exponent).toNat)

/-! ## Rounding -/

/-- The integer nearest to `a / b`, a half going to the even neighbour. -/
def nearest (a b : Nat) : Nat :=
  let q := a / b
  let r := a % b
  if 2 * r < b then q
  else if b < 2 * r then q + 1
  else if q % 2 = 0 then q
  else q + 1

def log2Ratio (a b : Nat) : Int :=
  let k : Int := (a.log2 : Int) - b.log2
  let reached := if 0 ≤ k then b * twoTo k.toNat ≤ a else b ≤ a * twoTo (-k).toNat
  if reached then k else k - 1

/-- The number nearest to `± a / b`, a tie going to the even pattern.  Values beyond the largest
number become infinite. -/
def ofRatio (negative : Bool) (a b : Nat) : Number :=
  if a = 0 then ofMagnitude negative 0
  else
    let q := max (log2Ratio a b - 52) (-1074)
    let m := if 0 ≤ q then nearest a (b * twoTo q.toNat) else nearest (a * twoTo (-q).toNat) b
    ofMagnitude negative (min ((q + 1074).toNat * fractionSize + m) infiniteMagnitude)

def ofNat (n : Nat) : Number :=
  ofRatio false n 1

def ofInt (i : Int) : Number :=
  ofRatio (i < 0) i.natAbs 1

def decimalLength (n : Nat) : Nat :=
  (Nat.toDigits 10 n).length

/-- The number nearest to `± m * 10 ^ e`.  Exponents far outside the range are settled by the
position of the leading digit, without computing the power. -/
def ofDecimal (negative : Bool) (m : Nat) (e : Int) : Number :=
  if m = 0 then ofMagnitude negative 0
  else
    let point := e + decimalLength m
    if 309 < point then infinity negative
    else if point < -323 then ofMagnitude negative 0
    else if 0 ≤ e then ofRatio negative (m * tenTo e.toNat) 1
    else ofRatio negative m (tenTo (-e).toNat)

/-- The number nearest to `x * radix + digit` for a non-negative number; infinity stays. -/
def appendDigit (radix : Nat) (x : Number) (digit : Nat) : Number :=
  if x.isFinite then
    let (a, b) := x.ratio
    ofRatio false (a * radix + digit * b) b
  else x

end Number
end DefTable
