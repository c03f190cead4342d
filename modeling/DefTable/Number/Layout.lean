import DefTable.Number.Shortest

/-!
# How numbers are written

All written forms of a number share its shortest digits and differ in a few decisions: which powers
of ten are written out, how wide an exponent is, and what stands for the infinities.
-/

namespace DefTable
namespace Number

structure Layout where
  /-- The least power of ten of a leading digit that is written without exponent. -/
  plainFrom : Int
  plainBelow : Int
  exponentWidth : Nat
  positiveInfinity : String
  negativeInfinity : String
  undefined : String

namespace Layout

def scientific (l : Layout) (d : Decimal) : List Char :=
  let mantissa := match d.digitChars with
    | lead :: [] => [lead]
    | lead :: rest => lead :: '.' :: rest
    | [] => []
  let power := Nat.toDigits 10 d.decade.natAbs
  mantissa ++ 'e' :: (if d.decade < 0 then '-' else '+') ::
    (List.replicate (l.exponentWidth - power.length) '0' ++ power)

def plain (d : Decimal) : List Char :=
  let ds := d.digitChars
  if 0 ≤ d.exponent then ds ++ List.replicate d.exponent.toNat '0'
  else
    let places := (-d.exponent).toNat
    if places < ds.length then
      ds.take (ds.length - places) ++ '.' :: ds.drop (ds.length - places)
    else
      '0' :: '.' :: (List.replicate (places - ds.length) '0' ++ ds)

def write (l : Layout) (x : Number) : String :=
  if x.isUndefined then l.undefined
  else if x.isInfinite then (if x.isNegative then l.negativeInfinity else l.positiveInfinity)
  else
    let d := x.shortest
    let body := if l.plainFrom ≤ d.decade ∧ d.decade < l.plainBelow then plain d else l.scientific d
    String.ofList (if x.isNegative then '-' :: body else body)

end Layout

def sourceLayout : Layout where
  plainFrom := -4
  plainBelow := 6
  exponentWidth := 2
  positiveInfinity := "+Inf"
  negativeInfinity := "-Inf"
  undefined := "NaN"

def text (x : Number) : String :=
  sourceLayout.write x

end Number
end DefTable
