/-!
# Text that may hold undecodable bytes

Source files arrive as bytes.  They are read one character at a time, and a byte that belongs to no
well-formed character stands alone.  A `Glyph` is either of the two, and a `Text` is a sequence of
glyphs: decoding loses nothing, because a stray byte is kept and written back as it was.
-/

namespace DefTable

/-- A character, or one byte that is part of no character. -/
inductive Glyph where
  | char (c : Char)
  | stray (b : UInt8)
deriving DecidableEq, Repr, Inhabited

namespace Glyph

def toChar : Glyph → Char
  | char c => c
  | stray _ => '\uFFFD'

def bytes : Glyph → List UInt8
  | char c => String.utf8EncodeChar c
  | stray b => [b]

def lead (g : Glyph) : UInt8 :=
  g.bytes.headD 0

end Glyph

abbrev Text := List Glyph

namespace Text

def ofString (s : String) : Text :=
  s.toList.map .char

instance : Coe String Text := ⟨ofString⟩

def chars (t : Text) : List Char :=
  t.map Glyph.toChar

def toString (t : Text) : String :=
  String.ofList t.chars

def bytes (t : Text) : List UInt8 :=
  t.flatMap Glyph.bytes

def isValid (t : Text) : Bool :=
  t.all fun
    | .char _ => true
    | .stray _ => false

def toString? (t : Text) : Option String :=
  if t.isValid then some t.toString else none

/-! ## Decoding

A character takes one to four bytes.  The first byte decides how many follow it and which values the
second may have; all later ones lie between 0x80 and 0xBF.
-/

def continuation? (lo hi : UInt8) (b : UInt8) : Option Nat :=
  if lo ≤ b && b ≤ hi then some (b.toNat % 64) else none

def secondRange (a : UInt8) : UInt8 × UInt8 :=
  if a = 0xE0 then (0xA0, 0xBF)
  else if a = 0xED then (0x80, 0x9F)
  else if a = 0xF0 then (0x90, 0xBF)
  else if a = 0xF4 then (0x80, 0x8F)
  else (0x80, 0xBF)

/-- The character that starts with byte `a` and goes on in `rest`, with the number of bytes it takes
from `rest`. -/
def leadingChar? (a : UInt8) (rest : List UInt8) : Option (Char × Nat) := do
  let tail? := continuation? 0x80 0xBF
  let (lo, hi) := secondRange a
  if a < 0x80 then
    return (Char.ofNat a.toNat, 0)
  else if 0xC2 ≤ a && a ≤ 0xDF then
    let b ← rest[0]?.bind (continuation? lo hi)
    return (Char.ofNat (a.toNat % 32 * 64 + b), 1)
  else if 0xE0 ≤ a && a ≤ 0xEF then
    let b ← rest[0]?.bind (continuation? lo hi)
    let c ← rest[1]?.bind tail?
    return (Char.ofNat (a.toNat % 16 * 4096 + b * 64 + c), 2)
  else if 0xF0 ≤ a && a ≤ 0xF4 then
    let b ← rest[0]?.bind (continuation? lo hi)
    let c ← rest[1]?.bind tail?
    let d ← rest[2]?.bind tail?
    return (Char.ofNat (a.toNat % 8 * 262144 + b * 4096 + c * 64 + d), 3)
  else
    none

/-- Decode after passing over the first `skip` bytes, which belong to a character already read. -/
def decodeFrom : Nat → List UInt8 → Text
  | _, [] => []
  | skip + 1, _ :: rest => decodeFrom skip rest
  | 0, a :: rest =>
    match leadingChar? a rest with
    | some (c, extra) => .char c :: decodeFrom extra rest
    | none => .stray a :: decodeFrom 0 rest

def decode (bs : List UInt8) : Text :=
  decodeFrom 0 bs

def string? (bs : List UInt8) : Option String :=
  (decode bs).toString?

def join (sep : Text) (pieces : List Text) : Text :=
  (pieces.intersperse sep).flatten

end Text

def inRanges (ranges : List (Nat × Nat)) (n : Nat) : Bool :=
  ranges.any fun r => r.1 ≤ n && n ≤ r.2

end DefTable
