import DefTable.Number.Layout
import DefTable.Text.Quoted

/-!
# Numerals

A numeral is an optional sign followed by `0b`, `0o` or `0x` and digits of that radix, or by decimal
digits with an optional fraction and an optional exponent.  Digits after a radix mark are taken in
one by one with a rounding each; a decimal is rounded once.  A numeral beyond the largest number
reads as infinity.
-/

namespace DefTable
namespace Numeral

inductive Fault where
  | missingRadixDigits
  | radixDigit (radix : Nat) (found : UInt8)
  | leadingDigit (found : UInt8)
  | missingFraction
  | missingExponent
  | trailing (rest : Text)
deriving DecidableEq, Repr

def Fault.message : Fault → String
  | missingRadixDigits => "missing digits after radix prefix"
  | radixDigit radix found => s!"invalid base-{radix} digit {Quoted.byte found}"
  | leadingDigit found => s!"expected digit, got {Quoted.byte found}"
  | missingFraction => "missing digits after decimal point"
  | missingExponent => "missing exponent digits"
  | trailing rest => s!"unexpected {Quoted.text rest}"

inductive Error where
  | empty
  | malformed (numeral : Text) (fault : Fault)
deriving DecidableEq, Repr

def Error.message : Error → String
  | empty => "empty literal"
  | malformed numeral fault => s!"number {Quoted.text numeral}: {fault.message}"

/-! ## Digits -/

def digitValue? (c : Char) : Option Nat :=
  if c.isDigit then some (c.toNat - '0'.toNat)
  else if 'a' ≤ c ∧ c ≤ 'f' then some (c.toNat - 'a'.toNat + 10)
  else if 'A' ≤ c ∧ c ≤ 'F' then some (c.toNat - 'A'.toNat + 10)
  else none

def isDigit (g : Glyph) : Bool :=
  g.toChar.isDigit

def natValue (digits : Text) : Nat :=
  digits.foldl (fun n g => n * 10 + (g.toChar.toNat - '0'.toNat)) 0

/-! ## Radix numerals -/

def radixDigits (radix : Nat) : Number → Text → Except Fault Number
  | x, [] => .ok x
  | x, g :: rest =>
    match (digitValue? g.toChar).filter (· < radix) with
    | some d => radixDigits radix (x.appendDigit radix d) rest
    | none => .error (.radixDigit radix g.lead)

def radixBody (radix : Nat) (digits : Text) : Except Fault Number :=
  if digits.isEmpty then .error .missingRadixDigits else radixDigits radix .zero digits

/-! ## Decimal numerals -/

def fraction : Text → Except Fault (Text × Text)
  | .char '.' :: rest =>
    match rest.span isDigit with
    | ([], _) => .error .missingFraction
    | (digits, rest) => .ok (digits, rest)
  | rest => .ok ([], rest)

def sign : Text → Bool × Text
  | .char '+' :: rest => (false, rest)
  | .char '-' :: rest => (true, rest)
  | rest => (false, rest)

def exponent : Text → Except Fault (Int × Text)
  | .char c :: rest =>
    if c = 'e' ∨ c = 'E' then
      let (negative, rest) := sign rest
      match rest.span isDigit with
      | ([], _) => .error .missingExponent
      | (digits, rest) => .ok (if negative then -natValue digits else natValue digits, rest)
    else .ok (0, .char c :: rest)
  | rest => .ok (0, rest)

def decimalBody (body : Text) : Except Fault Number :=
  match body.span isDigit with
  | ([], rest) => .error (.leadingDigit ((rest.head?.map Glyph.lead).getD 0))
  | (whole, rest) => do
    let (part, rest) ← fraction rest
    let (power, rest) ← exponent rest
    if rest.isEmpty then
      return .ofDecimal false (natValue (whole ++ part)) (power - part.length)
    else
      .error (.trailing rest)

def body (t : Text) : Except Fault Number :=
  match t with
  | .char '0' :: .char 'b' :: digits => radixBody 2 digits
  | .char '0' :: .char 'o' :: digits => radixBody 8 digits
  | .char '0' :: .char 'x' :: digits => radixBody 16 digits
  | _ => decimalBody t

def read (t : Text) : Except Error Number :=
  let (negative, rest) := sign t
  if rest.isEmpty then .error .empty
  else match body rest with
    | .ok x => .ok (if negative then -x else x)
    | .error fault => .error (.malformed t fault)

end Numeral
end DefTable
