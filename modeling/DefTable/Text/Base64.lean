/-!
# Bytes as letters and digits

Three bytes are written as four digits of base 64.  Where one or two bytes are left at the end,
equals signs fill up the last four places.  Line breaks may stand anywhere.
-/

namespace DefTable
namespace Base64

def digit? (c : Char) : Option Nat :=
  if c.isUpper then some (c.toNat - 'A'.toNat)
  else if c.isLower then some (c.toNat - 'a'.toNat + 26)
  else if c.isDigit then some (c.toNat - '0'.toNat + 52)
  else if c = '+' then some 62
  else if c = '/' then some 63
  else none

/-- The byte that `n` holds above its lowest `bits` bits. -/
def byteAbove (bits n : Nat) : UInt8 :=
  UInt8.ofNat (n >>> bits)

def groups? : List Char → Option (List UInt8)
  | [] => some []
  | [a, b, '=', '='] => do
    let n := (← digit? a) * 64 + (← digit? b)
    return [byteAbove 4 n]
  | [a, b, c, '='] => do
    let n := ((← digit? a) * 64 + (← digit? b)) * 64 + (← digit? c)
    return [byteAbove 10 n, byteAbove 2 n]
  | a :: b :: c :: d :: rest => do
    let n := (((← digit? a) * 64 + (← digit? b)) * 64 + (← digit? c)) * 64 + (← digit? d)
    return byteAbove 16 n :: byteAbove 8 n :: byteAbove 0 n :: (← groups? rest)
  | _ => none

def decode? (cs : List Char) : Option (List UInt8) :=
  groups? (cs.filter fun c => c ≠ '\n' && c ≠ '\r')

end Base64
end DefTable
