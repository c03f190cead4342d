import DefTable.Data.Yaml.Character
import DefTable.Text.Basic

/-!
# The characters of a YAML text

A text may start with a byte order mark, which tells whether its characters are written in one to
four bytes or in units of two bytes.  Without a mark they are written in one to four bytes.
-/

namespace DefTable
namespace Yaml

def units? (lowFirst : Bool) : List UInt8 → Option (List Nat)
  | [] => some []
  | [_] => none
  | a :: b :: rest =>
    let unit := if lowFirst then a.toNat + 256 * b.toNat else 256 * a.toNat + b.toNat
    (units? lowFirst rest).map (unit :: ·)

def isHighUnit (n : Nat) : Bool :=
  0xD800 ≤ n && n < 0xDC00

def isLowUnit (n : Nat) : Bool :=
  0xDC00 ≤ n && n < 0xE000

/-- The characters of a sequence of units, where a high unit and a low unit make up one character.
-/
def ofUnits? : List Nat → Option (List Char)
  | [] => some []
  | a :: rest =>
    if isLowUnit a then none
    else if isHighUnit a then
      match rest with
      | [] => none
      | b :: rest =>
        if isLowUnit b then
          (ofUnits? rest).map (Char.ofNat (0x10000 + (a - 0xD800) * 1024 + (b - 0xDC00)) :: ·)
        else none
    else (ofUnits? rest).map (Char.ofNat a :: ·)

def decoded? : List UInt8 → Option (List Char)
  | 0xFF :: 0xFE :: rest => (units? true rest).bind ofUnits?
  | 0xFE :: 0xFF :: rest => (units? false rest).bind ofUnits?
  | 0xEF :: 0xBB :: 0xBF :: rest => (Text.string? rest).map String.toList
  | bytes => (Text.string? bytes).map String.toList

def normalizeBreaks : List Char → List Char
  | [] => []
  | '\r' :: '\n' :: cs => '\n' :: normalizeBreaks cs
  | c :: cs => (if c = '\r' then '\n' else c) :: normalizeBreaks cs

def characters? (bytes : List UInt8) : Option (List Char) := do
  let cs ← decoded? bytes
  if cs.all isReadable then some (normalizeBreaks cs) else none

end Yaml
end DefTable
