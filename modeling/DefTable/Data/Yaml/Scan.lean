import DefTable.Data.Yaml.BlockScalar
import DefTable.Data.Yaml.Inline
import DefTable.Data.Yaml.Mark

/-!
# From characters to tokens

The text is cut into tokens from left to right.  Most keys are only known as keys when the colon
after them is reached: the place of every token that may turn out to be one is kept, and the tokens
that announce it are put in front of it later.  A key that no question mark announces ends on the
line it starts on, within a limited length.  Outside of brackets the columns of the tokens tell
where block collections start and end.

Tokens are used as soon as they are settled: a place that may still turn out to be a key is not, and
neither are the last two tokens.  Where the text cannot be cut further, its settled tokens still
count.  A bracket is settled early if nothing between it and the closing one may have been a key;
a colon that comes too late for it announces the key where the colon stands.
-/

namespace DefTable
namespace Yaml

/-- The place of a token that may turn out to be a key. -/
structure Candidate where
  number : Nat
  line : Nat
  column : Nat
  required : Bool
  released : Bool
deriving DecidableEq, Repr

def Candidate.afterLevel (opening : Option Nat) (c : Candidate) : Candidate :=
  { c with released := c.released || opening = some c.number }

/-- What is known of the keys inside one bracket, or outside of brackets. -/
structure Level where
  candidate : Option Candidate
  opening : Option Nat
deriving DecidableEq, Repr

structure Scanner where
  cursor : Cursor
  tokens : List Token
  count : Nat
  indents : List Nat
  keyAllowed : Bool
  level : Level
  outer : List Level
  marked : Bool
deriving Repr

namespace Scanner

def start (cs : List Char) : Scanner :=
  ⟨⟨cs, 0, 0⟩, [], 0, [], true, ⟨none, none⟩, [], cs.head? = some byteOrderMark⟩

def inFlow (s : Scanner) : Bool :=
  !s.outer.isEmpty

def floor (s : Scanner) : Nat :=
  match s.indents with
  | [] => 0
  | column :: _ => column + 1

def maxNesting : Nat := 10000

def maxKeyLength : Nat := 1024

/-! ## Tokens -/

def push (t : Token) (s : Scanner) : Scanner :=
  { s with tokens := t :: s.tokens, count := s.count + 1 }

def take (t : Token) (length : Nat) (s : Scanner) : Scanner :=
  { s.push t with cursor := s.cursor.advance length }

def insert (number : Nat) (t : Token) (s : Scanner) : Scanner :=
  let later := s.count - number
  { s with
    tokens := s.tokens.take later ++ t :: s.tokens.drop later
    count := s.count + 1 }

/-! ## Keys -/

def isNear (s : Scanner) (c : Candidate) : Bool :=
  c.line = s.cursor.line && s.cursor.column ≤ c.column + maxKeyLength

def isOpen (s : Scanner) (c : Candidate) : Bool :=
  !c.released && (c.required || s.isNear c)

def isPast (s : Scanner) (c : Candidate) : Bool :=
  c.released && c.number + 2 < s.count && !(s.outer.any fun l => l.candidate.any s.isOpen)

def setCandidate (c : Option Candidate) (s : Scanner) : Scanner :=
  { s with level := { s.level with candidate := c } }

def dropCandidate (s : Scanner) : Option Scanner :=
  if s.level.candidate.any Candidate.required then none else some (s.setCandidate none)

/-- Keep the place of the cursor if a key may start there. -/
def keepCandidate (s : Scanner) : Option Scanner :=
  if !s.keyAllowed then some s
  else
    let c := s.cursor
    let required := !s.inFlow && s.indents.head? = some c.column
    s.dropCandidate.map fun s =>
      { s with level := ⟨some ⟨s.count, c.line, c.column, required, false⟩, none⟩ }

/-! ## Block collections -/

def endBlocks (ends : Nat → Bool) (s : Scanner) : Scanner :=
  if s.inFlow then s
  else
    let ended := s.indents.takeWhile ends
    ended.foldl (fun s _ => s.push .blockEnd) { s with indents := s.indents.drop ended.length }

/-- Start a block collection in the given column, unless it is open already; its first token is put
at the given number. -/
def startBlock (column number : Nat) (t : Token) (s : Scanner) : Option Scanner :=
  if s.inFlow || column < s.floor then some s
  else if maxNesting ≤ s.indents.length then none
  else some ({ s with indents := column :: s.indents }.insert number t)

/-! ## Single tokens -/

def separator (t : Token) (s : Scanner) : Option Scanner :=
  (s.endBlocks fun _ => true).dropCandidate.map fun s =>
    ({ s with keyAllowed := false }).take t 3

def finish (s : Scanner) : Option Scanner :=
  (s.endBlocks fun _ => true).dropCandidate.map fun s =>
    ({ s with keyAllowed := false }).push .streamEnd

def openBracket (t : Token) (s : Scanner) : Option Scanner :=
  s.keepCandidate.bind fun s =>
    if maxNesting ≤ s.outer.length then none
    else some (({ s with
      level := ⟨none, some s.count⟩, outer := s.level :: s.outer, keyAllowed := true }).take t 1)

def closeBracket (t : Token) (s : Scanner) : Option Scanner :=
  s.dropCandidate.map fun s =>
    let s := match s.outer with
      | [] => s
      | l :: outer => ({ s with level := l, outer := outer }).setCandidate
        (l.candidate.map (Candidate.afterLevel s.level.opening))
    ({ s with keyAllowed := false }).take t 1

def comma (s : Scanner) : Option Scanner :=
  s.dropCandidate.map fun s => ({ s with keyAllowed := true }).take .comma 1

def dash (s : Scanner) : Option Scanner :=
  if !s.inFlow && !s.keyAllowed then none
  else do
    let s ← s.startBlock s.cursor.column s.count .blockSequence
    let s ← s.dropCandidate
    return ({ s with keyAllowed := true }).take .item 1

def question (s : Scanner) : Option Scanner :=
  if !s.inFlow && !s.keyAllowed then none
  else do
    let s ← s.startBlock s.cursor.column s.count .blockMapping
    let s ← s.dropCandidate
    return ({ s with keyAllowed := !s.inFlow }).take .key 1

def looseColon (s : Scanner) : Option Scanner :=
  if !s.inFlow && !s.keyAllowed then none
  else do
    let s ← s.startBlock s.cursor.column s.count .blockMapping
    return ({ s with keyAllowed := !s.inFlow }).take .value 1

/-- Announce the candidate as a key: in front of it, or at the end if it has been used. -/
def announce (c : Candidate) (s : Scanner) : Option Scanner :=
  if s.isPast c then
    let s := s.push .key
    s.startBlock c.column s.count .blockMapping
  else (s.insert c.number .key).startBlock c.column c.number .blockMapping

/-- A colon makes the candidate a key if it is near; otherwise it stands for itself. -/
def colon (s : Scanner) : Option Scanner :=
  match s.level.candidate with
  | none => s.looseColon
  | some c =>
    if s.isNear c then
      (s.announce c).map fun s => (({ s with keyAllowed := false }).setCandidate none).take .value 1
    else if c.required then none
    else (s.setCandidate none).looseColon

def inlineToken (t : Token) (cursor : Cursor) (keyAllowed : Bool) (s : Scanner) : Option Scanner :=
  s.keepCandidate.map fun s => { s.push t with cursor := cursor, keyAllowed := keyAllowed }

def blockToken (t : Token) (cursor : Cursor) (s : Scanner) : Option Scanner :=
  s.dropCandidate.map fun s => { s.push t with cursor := cursor, keyAllowed := true }

def pastComment (s : Scanner) : Scanner :=
  { s with cursor := lineComment s.cursor }

def tokenAt (c : Char) (rest : List Char) (s : Scanner) : Option Scanner :=
  let ends := Cursor.endsWord rest
  if c = '[' then (s.openBracket .flowSequence).map pastComment
  else if c = '\x7b' then (s.openBracket .flowMapping).map pastComment
  else if c = ']' then (s.closeBracket .flowSequenceEnd).map pastComment
  else if c = '\x7d' then (s.closeBracket .flowMappingEnd).map pastComment
  else if c = ',' then s.comma.map pastComment
  else if c = '-' && ends then s.dash
  else if c = '?' && (s.inFlow || ends) then s.question.map pastComment
  else if c = ':' && (s.inFlow || ends) then s.colon.map pastComment
  else if c = '*' || c = '&' then do
    let (t, stop) ← anchorOrAlias s.cursor
    (s.inlineToken t stop false).map pastComment
  else if c = '!' then do
    let (t, stop) ← tag s.cursor
    (s.inlineToken t stop false).map pastComment
  else if (c = '|' || c = '>') && !s.inFlow then do
    let found ← blockScalar s.floor s.cursor
    s.blockToken (.scalar false found.text) found.cursor
  else if c = '\'' || c = '"' then do
    let found ← quoted s.cursor
    (s.inlineToken (.scalar false found.text) found.cursor false).map pastComment
  else if startsPlain s.inFlow c rest then do
    let found ← plain s.inFlow s.floor s.cursor
    let s ← s.inlineToken (.scalar true found.text) found.cursor found.crossed
    return if found.crossed then s else s.pastComment
  else none

def fetch (s : Scanner) : Option Scanner :=
  let c := s.cursor
  let gap := gapFrom ⟨s.inFlow, s.marked⟩ .space s.keyAllowed c.line c.column c.rest
  let s := { s with
    cursor := gap.cursor
    keyAllowed := gap.keyAllowed
    marked := s.marked && !(gap.cursor.rest.drop 3).isEmpty }
  let s := s.endBlocks fun column => gap.cursor.column < column
  match s.cursor.rest with
  | [] => s.finish
  | c :: rest =>
    if s.cursor.column = 0 && c = '%' then do
      let (t, stop) ← directive s.cursor
      let s ← (s.endBlocks fun _ => true).dropCandidate
      return { s.push t with cursor := stop, keyAllowed := false }
    else if s.cursor.atMarker then
      s.separator (if c = '-' then .documentStart else .documentEnd)
    else s.tokenAt c rest

/-! ## All tokens -/

/-- How many tokens no further text can change. -/
def settledCount (s : Scanner) : Nat :=
  let candidates := (s.level :: s.outer).filterMap Level.candidate
  (candidates.filter s.isOpen).foldl (fun n c => min n c.number) (s.count - 2)

/-- The tokens that follow, at most as many times as the fuel says. -/
def tokensFrom (fuel : Nat) (s : Scanner) : List Token :=
  match fuel with
  | 0 => []
  | fuel + 1 =>
    match s.fetch with
    | none => s.tokens.reverse.take s.settledCount
    | some next =>
      if next.tokens.head? = some .streamEnd then next.tokens.reverse else tokensFrom fuel next

end Scanner

def tokens (cs : List Char) : List Token :=
  (Scanner.start cs).tokensFrom (cs.length + 1)

end Yaml
end DefTable
