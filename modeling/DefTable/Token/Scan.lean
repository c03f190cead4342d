import DefTable.Text.Letter
import DefTable.Token.Basic

/-!
# From text to tokens

The scanner passes over blanks and comments and then takes one token, as long as it can be.  Each
token is described by its kind and by how many glyphs it takes after its first one, so that the
lexemes and the blanks between them make up the text again.  A NUL character ends the input.
-/

namespace DefTable
namespace Token

def isBlank (g : Glyph) : Bool :=
  g = .char ' ' || g = .char '\t' || g = .char '\r' || g = .char '\n'

/-- How many glyphs of blanks and comments a text starts with; `inComment` if it starts inside a
comment. -/
def blankLength (inComment : Bool) : Text → Nat
  | [] => 0
  | g :: rest =>
    if inComment then blankLength (g ≠ .char '\n') rest + 1
    else if isBlank g then blankLength false rest + 1
    else if g = .char '#' then blankLength true rest + 1
    else 0

def operatorChars : List Char :=
  "+-*/%^<>=!&|.~?:$".toList

def isOperatorGlyph (g : Glyph) : Bool :=
  operatorChars.contains g.toChar

def isWordGlyph (g : Glyph) : Bool :=
  isNameChar g.toChar

def startsName (t : Text) : Bool :=
  t.head?.any fun g => isNameStart g.toChar

def startsDigit (t : Text) : Bool :=
  t.head?.any Numeral.isDigit

def runLength (p : Glyph → Bool) (t : Text) : Nat :=
  (t.takeWhile p).length

/-! ## The extent of each class of token -/

def closingQuote? : Text → Option Nat
  | [] => none
  | .char '"' :: _ => some 1
  | .char '\\' :: _ :: rest => (closingQuote? rest).map (· + 2)
  | _ :: rest => (closingQuote? rest).map (· + 1)

/-- Letters and digits, and where `signed` also the sign between an exponent mark and a digit. -/
def numeralRun (signed : Bool) : Text → Nat
  | [] => 0
  | [g] => if isWordGlyph g then 1 else 0
  | g :: s :: rest =>
    if isWordGlyph g then
      if signed && (g = .char 'e' || g = .char 'E') && (s = .char '+' || s = .char '-') &&
          startsDigit rest then
        numeralRun signed rest + 2
      else
        numeralRun signed (s :: rest) + 1
    else 0

def isRadixMark : Text → Bool
  | .char '0' :: .char c :: _ => c = 'x' || c = 'b' || c = 'o'
  | _ => false

/-- A numeral takes letters as well as digits, so that a malformed one is a single token. -/
def numeralLength (t : Text) : Nat :=
  let whole := numeralRun (!isRadixMark t) t
  match t.drop whole with
  | .char '.' :: rest => if startsDigit rest then whole + 1 + numeralRun true rest else whole
  | _ => whole

/-- A kind and the number of glyphs after the first. -/
structure Extent where
  kind : Kind
  more : Nat

def quotedNameExtent (rest : Text) : Extent :=
  match rest with
  | [] => ⟨.illegal .missingName, 0⟩
  | g :: tail =>
    if isNameStart g.toChar || g = .char '@' then
      let taken := runLength isWordGlyph tail + 1
      if rest[taken]? = some (.char '`') then
        ⟨.quotedName (Text.toString (rest.take taken)), taken + 1⟩
      else
        ⟨.illegal .unterminatedName, taken⟩
    else
      ⟨.illegal .missingName, 0⟩

def stringExtent (rest : Text) : Extent :=
  match closingQuote? rest with
  | none => ⟨.illegal .unterminatedString, rest.length⟩
  | some n =>
    match StringLiteral.read (.char '"' :: rest.take n) with
    | .ok value => ⟨.string value, n⟩
    | .error e => ⟨.illegal (.string e), n⟩

def numeralExtent (g : Glyph) (rest : Text) : Extent :=
  let n := numeralLength (g :: rest)
  match Numeral.read ((g :: rest).take n) with
  | .ok value => ⟨.number value, n - 1⟩
  | .error e => ⟨.illegal (.numeral e), n - 1⟩

def extent (g : Glyph) (rest : Text) : Extent :=
  let c := g.toChar
  if c = '"' then stringExtent rest
  else if c = '`' then quotedNameExtent rest
  else if c = '@' then
    if startsName rest then ⟨.name, runLength isWordGlyph rest⟩
    else ⟨.illegal .loneAt, 0⟩
  else if isNameStart c then
    let n := runLength isWordGlyph rest
    ⟨Kind.ofWord (Text.toString (g :: rest.take n)), n⟩
  else if c.isDigit then numeralExtent g rest
  else if isOperatorGlyph g then
    let n := runLength isOperatorGlyph rest
    ⟨(Kind.punctuation? (Text.toString (g :: rest.take n))).getD .operator, n⟩
  else
    match Kind.punctuation? (String.singleton c) with
    | some kind => ⟨kind, 0⟩
    | none => ⟨.illegal (.unexpected c), 0⟩

/-! ## The whole text -/

/-- The lexeme of a token.  A character that is none is shown as it is read, and a string that is
never closed takes all text that is left, also what lies `beyond` the end of the input. -/
def lexemeOf (beyond : Text) (e : Extent) (g : Glyph) (rest : Text) : Text :=
  match e.kind with
  | .illegal .unterminatedString => g :: rest ++ beyond
  | .illegal (.unexpected c) => [.char c]
  | _ => g :: rest.take e.more

def scanFrom (beyond : Text) (p : Position) (t : Text) : List Token :=
  let blanks := blankLength false t
  let p := p.after (t.take blanks)
  match h : t.drop blanks with
  | [] => [endAt p]
  | g :: rest =>
    have hshorter : rest.length < t.length := by
      have hdrop := congrArg List.length h
      simp only [List.length_drop, List.length_cons] at hdrop
      omega
    let e := extent g rest
    ⟨e.kind, lexemeOf beyond e g rest, p⟩ ::
      scanFrom beyond (p.after (g :: rest.take e.more)) (rest.drop e.more)
termination_by t.length
decreasing_by
  simp only [List.length_drop]
  omega

def scan (t : Text) : List Token :=
  let body := t.takeWhile (· ≠ .char '\x00')
  scanFrom (t.drop body.length) .start body

end Token
end DefTable
