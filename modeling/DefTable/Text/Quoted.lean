import DefTable.Text.Printable

/-!
# Quoted text

Messages and listings show names and texts between quotes.  The quote and the backslash get a
backslash, the usual control characters have a letter each, any other character that is not
printable is written by its code point in hexadecimal, and a stray byte by its value.
-/

namespace DefTable
namespace Quoted

def hexDigit (n : Nat) : Char :=
  if n < 10 then Char.ofNat (48 + n) else Char.ofNat (87 + n)

def hex : (width : Nat) → Nat → List Char
  | 0, _ => []
  | width + 1, n => hex width (n / 16) ++ [hexDigit (n % 16)]

def control? (c : Char) : Option Char :=
  match c.toNat with
  | 0x07 => some 'a'
  | 0x08 => some 'b'
  | 0x0C => some 'f'
  | 0x0A => some 'n'
  | 0x0D => some 'r'
  | 0x09 => some 't'
  | 0x0B => some 'v'
  | _ => none

def char (quote c : Char) : List Char :=
  if c = quote || c = '\\' then ['\\', c]
  else if isPrintable c then [c]
  else match control? c with
    | some e => ['\\', e]
    | none =>
      if c.toNat < 0x80 then '\\' :: 'x' :: hex 2 c.toNat
      else if c.toNat < 0x10000 then '\\' :: 'u' :: hex 4 c.toNat
      else '\\' :: 'U' :: hex 8 c.toNat

def glyph : Glyph → List Char
  | .char c => char '"' c
  | .stray b => '\\' :: 'x' :: hex 2 b.toNat

def text (t : Text) : String :=
  String.ofList ('"' :: t.flatMap glyph ++ ['"'])

def string (s : String) : String :=
  text s

def byte (b : UInt8) : String :=
  String.ofList ('\'' :: char '\'' (Char.ofNat b.toNat) ++ ['\''])

end Quoted
end DefTable
