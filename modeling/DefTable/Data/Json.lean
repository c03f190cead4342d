import DefTable.Data.Basic
import DefTable.Parsed
import DefTable.Text.Quoted
import DefTable.Token.Numeral

/-!
# JSON

Data is written without blanks and with the keys in order; characters that could be mistaken for
markup are escaped.  An infinite number has no written form.  Reading takes the first value of a
text and leaves the rest alone.
-/

namespace DefTable
namespace Json

/-! ## Writing -/

/-- Numbers are written out from a millionth up to twenty-one digits. -/
def layout : Number.Layout where
  plainFrom := -6
  plainBelow := 21
  exponentWidth := 1
  positiveInfinity := "+Inf"
  negativeInfinity := "-Inf"
  undefined := "NaN"

structure Unwritable where
  number : Number
deriving DecidableEq, Repr

def Unwritable.message (u : Unwritable) : String :=
  s!"json: unsupported value: {u.number.text}"

def control? (c : Char) : Option Char :=
  match c.toNat with
  | 0x08 => some 'b'
  | 0x0C => some 'f'
  | 0x0A => some 'n'
  | 0x0D => some 'r'
  | 0x09 => some 't'
  | _ => none

def isMarkup (c : Char) : Bool :=
  c = '<' || c = '>' || c = '&' || c = '\u2028' || c = '\u2029'

def writeChar (c : Char) : List Char :=
  if c = '"' || c = '\\' then ['\\', c]
  else match control? c with
    | some e => ['\\', e]
    | none =>
      if c.toNat < 0x20 || isMarkup c then '\\' :: 'u' :: Quoted.hex 4 c.toNat else [c]

def writeString (s : String) : String :=
  String.ofList ('"' :: s.toList.flatMap writeChar ++ ['"'])

def writeNumber (x : Number) : Except Unwritable String :=
  if x.isFinite then .ok (layout.write x) else .error ⟨x⟩

mutual

def write : Data → Except Unwritable String
  | .null => .ok "null"
  | .bool b => .ok (toString b)
  | .number x => writeNumber x
  | .integer i => .ok (toString i)
  | .string s => .ok (writeString s)
  | .time s => .ok (writeString s)
  | .list ds => do return "[" ++ ",".intercalate (← writeItems ds) ++ "]"
  | .map es => do return "\x7b" ++ ",".intercalate (← writeEntries es) ++ "\x7d"
  | .mixedMap es => do return "\x7b" ++ ",".intercalate (← writeEntries es) ++ "\x7d"

def writeItems : List Data → Except Unwritable (List String)
  | [] => .ok []
  | d :: ds => do return (← write d) :: (← writeItems ds)

def writeEntries : List (String × Data) → Except Unwritable (List String)
  | [] => .ok []
  | (k, d) :: es => do return (writeString k ++ ":" ++ (← write d)) :: (← writeEntries es)

end

/-! ## Reading texts -/

abbrev Reader (α : Type) := (t : Text) → Option (Parsed α t)

def isHex (g : Glyph) : Bool :=
  (Numeral.digitValue? g.toChar).isSome

def hexValue (t : Text) : Nat :=
  t.foldl (fun n g => n * 16 + (Numeral.digitValue? g.toChar).getD 0) 0

def isSimpleEscape (c : Char) : Bool :=
  "\"\\/bfnrt".toList.contains c

def isUnit (t : Text) : Bool :=
  t.length = 4 && t.all isHex

/-- The length of a text up to and with its closing quote, if every escape in it is well formed and
no control character stands in it. -/
def closingQuote? : Text → Option Nat
  | [] => none
  | .char '"' :: _ => some 1
  | .char '\\' :: g :: rest =>
    if isSimpleEscape g.toChar || (g = .char 'u' && isUnit (rest.take 4)) then
      (closingQuote? rest).map (· + 2)
    else none
  | g :: rest =>
    if g.toChar.toNat < 0x20 || g = .char '\\' then none else (closingQuote? rest).map (· + 1)

def simpleEscape : Char → Char
  | 'b' => '\x08'
  | 'f' => '\x0c'
  | 'n' => '\n'
  | 'r' => '\r'
  | 't' => '\t'
  | c => c

def isHighHalf (n : Nat) : Bool :=
  0xD800 ≤ n && n < 0xDC00

def isLowHalf (n : Nat) : Bool :=
  0xDC00 ≤ n && n < 0xE000

def lowHalf? (t : Text) : Option Nat :=
  match t with
  | .char '\\' :: .char 'u' :: rest =>
    let n := hexValue (rest.take 4)
    if isUnit (rest.take 4) && isLowHalf n then some n else none
  | _ => none

/-- The character at `g`, and how many of the following glyphs belong to it.  Half of a pair alone
reads as U+FFFD. -/
def unescapeOne (g : Glyph) (rest : Text) : Char × Nat :=
  match g, rest with
  | .char '\\', .char 'u' :: more =>
    let n := hexValue (more.take 4)
    if isHighHalf n then
      match lowHalf? (more.drop 4) with
      | some low => (Char.ofNat (0x10000 + (n - 0xD800) * 0x400 + (low - 0xDC00)), 11)
      | none => ('\uFFFD', 5)
    else if isLowHalf n then ('\uFFFD', 5)
    else (Char.ofNat n, 5)
  | .char '\\', e :: _ => (simpleEscape e.toChar, 1)
  | g, _ => (g.toChar, 0)

def unescape : (skip : Nat) → Text → List Char
  | _, [] => []
  | skip + 1, _ :: rest => unescape skip rest
  | 0, g :: rest =>
    let (c, more) := unescapeOne g rest
    c :: unescape more rest

def string : Reader String
  | .char '"' :: rest =>
    (closingQuote? rest).map fun n =>
      .taking (String.ofList (unescape 0 (rest.take (n - 1)))) (.char '"') n rest
  | _ => none

/-! ## Reading numbers and words -/

def digitRun (t : Text) : Nat :=
  (t.takeWhile Numeral.isDigit).length

/-- The length of the digits before the point: a leading zero stands alone. -/
def wholeRun (t : Text) : Nat :=
  if t.head? = some (.char '0') then 1 else digitRun t

def fractionRun? (t : Text) : Option Nat :=
  match t with
  | .char '.' :: rest => if digitRun rest = 0 then none else some (digitRun rest + 1)
  | _ => some 0

def exponentRun? (t : Text) : Option Nat :=
  match t with
  | .char c :: rest =>
    if c = 'e' || c = 'E' then
      let sign := match rest with
        | .char '+' :: _ => 1
        | .char '-' :: _ => 1
        | _ => 0
      let digits := digitRun (rest.drop sign)
      if digits = 0 then none else some (digits + sign + 1)
    else some 0
  | _ => some 0

def numberLength? (t : Text) : Option Nat := do
  let sign := if t.head? = some (.char '-') then 1 else 0
  let whole := wholeRun (t.drop sign)
  if whole = 0 then none
  else
    let fraction ← fractionRun? (t.drop (sign + whole))
    let exponent ← exponentRun? (t.drop (sign + whole + fraction))
    return sign + whole + fraction + exponent

def number : Reader Data
  | [] => none
  | g :: rest => do
    let n ← numberLength? (g :: rest)
    let x ← (Numeral.read ((g :: rest).take n)).toOption
    if x.isFinite then some (.taking (.number x) g (n - 1) rest) else none

def words : List (String × Data) :=
  [("null", .null), ("true", .bool true), ("false", .bool false)]

def word : Reader Data
  | [] => none
  | g :: rest =>
    (words.find? fun w => (Text.ofString w.1).isPrefixOf (g :: rest)).map fun w =>
      .taking w.2 g (w.1.length - 1) rest

/-! ## Reading values -/

def isSpace (g : Glyph) : Bool :=
  g = .char ' ' || g = .char '\t' || g = .char '\r' || g = .char '\n'

def skipSpace (t : Text) : Text :=
  t.dropWhile isSpace

theorem length_skipSpace_le (t : Text) : (skipSpace t).length ≤ t.length :=
  (List.dropWhile_suffix isSpace).length_le

def spaced {α : Type} (read : Reader α) : Reader α := fun t =>
  (read (skipSpace t)).map (Parsed.widen (length_skipSpace_le t))

def symbol (c : Char) : Reader Unit := spaced fun
  | [] => none
  | g :: rest => if g = .char c then some (.taking () g 0 rest) else none

def items {α : Type} (close : Char) (item : Reader α) (t : Text) : Option (Parsed (List α) t) := do
  let first ← item t
  match symbol ',' first.rest with
  | some comma =>
    have hshorter : comma.rest.length < t.length := Nat.lt_trans comma.shorter first.shorter
    let more ← items close item comma.rest
    return ⟨first.value :: more.value, more.rest, Nat.lt_trans more.shorter hshorter⟩
  | none =>
    let closed ← symbol close first.rest
    return ⟨[first.value], closed.rest, Nat.lt_trans closed.shorter first.shorter⟩
termination_by t.length

def enclosed {α : Type} (opening close : Char) (item : Reader α) : Reader (List α) := fun t => do
  let start ← symbol opening t
  match symbol close start.rest with
  | some closed => return ⟨[], closed.rest, Nat.lt_trans closed.shorter start.shorter⟩
  | none =>
    let more ← items close item start.rest
    return ⟨more.value, more.rest, Nat.lt_trans more.shorter start.shorter⟩

def member (value : Reader Data) : Reader (String × Data) := fun t => do
  let key ← spaced string t
  let colon ← symbol ':' key.rest
  let v ← value colon.rest
  return ⟨(key.value, v.value), v.rest,
    Nat.lt_trans v.shorter (Nat.lt_trans colon.shorter key.shorter)⟩

def scalar : Reader Data := fun t =>
  (string t).map (Parsed.map .string) <|> word t <|> number t

/-- A value in which lists and maps nest at most as deep as the budget. -/
def value : (budget : Nat) → Reader Data
  | 0 => spaced scalar
  | budget + 1 => fun t =>
    spaced scalar t
      <|> (enclosed '[' ']' (value budget) t).map (Parsed.map .list)
      <|> (enclosed '\x7b' '\x7d' (member (value budget)) t).map
        (Parsed.map fun es => .map (Data.ofEntries es))

def maxDepth : Nat := 10000

def read (t : Text) : Option Data :=
  (value maxDepth t).map Parsed.value

end Json
end DefTable
