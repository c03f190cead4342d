import DefTable.Proofs.Machine.Basic
import DefTable.Token.Scan

/-!
# A scanner with a cursor

The scanner works on the bytes of a source text.  It looks at one character, knows where this and
the next one start, and takes the spelling of a token as a slice between two positions.  Behind the
last byte it sees a NUL, and a NUL ends the input.
-/

namespace DefTable
namespace Machine

open Token (Kind)

structure Cursor where
  input : List UInt8
  position : Nat
  following : Nat
  current : Char
  place : Position

abbrev Scanner := Action Cursor

def nul : Char := '\x00'

def slice (bytes : List UInt8) (lo hi : Nat) : Run (List UInt8) :=
  if lo ≤ hi ∧ hi ≤ bytes.length then return (bytes.take hi).drop lo
  else throw .sliceOutOfRange

def firstChar : List UInt8 -> Char × Nat
  | [] => ('\uFFFD', 0)
  | a :: rest =>
      match Text.leadingChar? a rest with
      | some (c, extra) => (c, extra + 1)
      | none => ('\uFFFD', 1)

def charAt (bytes : List UInt8) (i : Nat) : Run (Char × Nat) := do
  return firstChar (← slice bytes i bytes.length)

/-!
## Single steps
-/

def advance : Scanner Unit := do
  let l ← get
  let place : Position :=
    if l.current = '\n' then ⟨l.place.line + 1, 1⟩ else ⟨l.place.line, l.place.column + 1⟩
  if l.following < l.input.length then
    let (c, width) ← charAt l.input l.following
    set ({ l with
      position := l.following, following := l.following + width, current := c,
      place := place } : Cursor)
  else
    set ({ l with
      position := l.following, following := l.following + 1, current := nul,
      place := place } : Cursor)

def peek : Scanner Char := do
  let l ← get
  if l.following < l.input.length then
    let (c, _) ← charAt l.input l.following
    return c
  else
    return nul

def advanceWhile (p : Char -> Bool) : Scanner Unit :=
  letI advanceWhile : Scanner Unit := by apply advanceWhile; exact p
  do
    let l ← get
    if p l.current then
      advance
      advanceWhile
    else
      return ()
partial_fixpoint

def textSince (start : Nat) : Scanner Text := do
  let l ← get
  let bytes ← slice l.input start l.position
  return Text.decode bytes

/-!
## Blanks and comments
-/

def isBlankChar (c : Char) : Bool :=
  c = ' ' || c = '\t' || c = '\r' || c = '\n'

def isCommentChar (c : Char) : Bool :=
  c ≠ '\n' && c ≠ nul

def skipBlanks : Scanner Unit :=
  letI skipBlanks : Scanner Unit := by apply skipBlanks
  do
    advanceWhile isBlankChar
    let l ← get
    if l.current = '#' then
      advanceWhile isCommentChar
      skipBlanks
    else
      return ()
partial_fixpoint

/-!
## Strings, names between backticks and numerals
-/

/-- Go on to the quote that closes a string; false if the input ends before it. -/
def closeString (escaped : Bool) : Scanner Bool :=
  letI closeString : Bool -> Scanner Bool := by apply closeString
  do
    advance
    let l ← get
    if l.current = nul then return false
    else if escaped then closeString false
    else if l.current = '\\' then closeString true
    else if l.current = '"' then return true
    else closeString false
partial_fixpoint

def readString : Scanner Token := do
  let start ← get
  if ← closeString false then
    advance
    let lexeme ← textSince start.position
    match StringLiteral.read lexeme with
    | .ok value => return ⟨.string value, lexeme, start.place⟩
    | .error e => return ⟨.illegal (.string e), lexeme, start.place⟩
  else
    let bytes ← slice start.input start.position start.input.length
    return ⟨.illegal .unterminatedString, Text.decode bytes, start.place⟩

def readName : Scanner Unit := do
  let l ← get
  if l.current = '@' then
    advance
    advanceWhile isNameChar
  else
    advanceWhile isNameChar

def readQuotedName : Scanner Token := do
  let start ← get
  advance
  let first ← get
  if isNameStart first.current || first.current = '@' then
    readName
    let name ← textSince first.position
    let last ← get
    if last.current = '`' then
      advance
      return ⟨.quotedName name.toString, ← textSince start.position, start.place⟩
    else
      return ⟨.illegal .unterminatedName, ← textSince start.position, start.place⟩
  else
    return ⟨.illegal .missingName, [.char '`'], start.place⟩

def hasRadixMark (start : Nat) : Scanner Bool := do
  let l ← get
  return Token.isRadixMark (Text.decode (← slice l.input start l.input.length))

def atExponentSign (mark : Char) : Scanner Bool := do
  let l ← get
  if (mark = 'e' || mark = 'E') && (l.current = '+' || l.current = '-') then
    return (← peek).isDigit
  else
    return false

/-- Letters and digits with the signs of exponents, unless `marked` says that there are none. -/
def readDigits (marked : Scanner Bool) : Scanner Unit :=
  letI readDigits : Scanner Unit := by apply readDigits; exact marked
  do
    let l ← get
    if isNameChar l.current then
      advance
      if ← atExponentSign l.current then
        if ← marked then
          readDigits
        else
          advance
          readDigits
      else
        readDigits
    else
      return ()
partial_fixpoint

def readFraction : Scanner Unit := do
  let l ← get
  if l.current = '.' then
    if (← peek).isDigit then
      advance
      readDigits (return false)
    else
      return ()
  else
    return ()

def readNumeral : Scanner Token := do
  let start ← get
  readDigits (hasRadixMark start.position)
  readFraction
  let lexeme ← textSince start.position
  match Numeral.read lexeme with
  | .ok value => return ⟨.number value, lexeme, start.place⟩
  | .error e => return ⟨.illegal (.numeral e), lexeme, start.place⟩

/-!
## Tokens
-/

def isOperatorChar (c : Char) : Bool :=
  Token.operatorChars.contains c

def readGlobal : Scanner Token := do
  let start ← get
  if isNameStart (← peek) then
    advance
    advanceWhile isNameChar
    return ⟨.name, ← textSince start.position, start.place⟩
  else
    advance
    return ⟨.illegal .loneAt, [.char '@'], start.place⟩

def readWord : Scanner Token := do
  let start ← get
  advanceWhile isNameChar
  let lexeme ← textSince start.position
  return ⟨Kind.ofWord lexeme.toString, lexeme, start.place⟩

def readOperator : Scanner Token := do
  let start ← get
  advanceWhile isOperatorChar
  let lexeme ← textSince start.position
  return ⟨(Kind.punctuation? lexeme.toString).getD .operator, lexeme, start.place⟩

def readMark : Scanner Token := do
  let start ← get
  advance
  match Kind.punctuation? (String.singleton start.current) with
  | some kind => return ⟨kind, [.char start.current], start.place⟩
  | none => return ⟨.illegal (.unexpected start.current), [.char start.current], start.place⟩

def takeToken : Scanner Token := do
  let start ← get
  let c := start.current
  if c = nul then
    advance
    return .endAt start.place
  else if c = '"' then readString
  else if c = '`' then readQuotedName
  else if c = '@' then readGlobal
  else if isNameStart c then readWord
  else if c.isDigit then readNumeral
  else if isOperatorChar c then readOperator
  else readMark

def nextToken : Scanner Token := do
  skipBlanks
  takeToken

def remainingTokens : Scanner (List Token) :=
  letI remainingTokens : Scanner (List Token) := by apply remainingTokens
  do
    let t ← nextToken
    if t.kind = .endOfInput then
      return [t]
    else
      let more ← remainingTokens
      return t :: more
partial_fixpoint

def Cursor.start (input : List UInt8) : Cursor :=
  ⟨input, 0, 0, nul, ⟨1, 0⟩⟩

def tokenize (input : List UInt8) : Run (List Token) :=
  (do advance; remainingTokens : Scanner (List Token)).run' (.start input)

end Machine
end DefTable
