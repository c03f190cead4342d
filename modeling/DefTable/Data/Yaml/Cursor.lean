import DefTable.Data.Yaml.Character

/-!
# Moving through YAML

A `Cursor` is the text that is left with the place it starts at.  Between tokens it crosses gaps:
blanks, line breaks and comments.  Inside a scalar that spans lines, the breaks are folded.
-/

namespace DefTable
namespace Yaml

structure Cursor where
  rest : List Char
  line : Nat
  column : Nat
deriving DecidableEq, Repr, Inhabited

namespace Cursor

def advance (c : Cursor) (n : Nat) : Cursor :=
  ⟨c.rest.drop n, c.line, c.column + n⟩

def endsWord : List Char → Bool
  | [] => true
  | a :: _ => isBlank a || isBreak a

def atMarker (c : Cursor) : Bool :=
  c.column = 0 && startsLikeDocument c.rest && endsWord (c.rest.drop 3)

def lineEnd (c : Cursor) : Cursor :=
  c.advance (c.rest.takeWhile fun a => !isBreak a).length

end Cursor

/-! ## Comments -/

/-- How far ahead of a place comments are looked for. -/
def commentReach : Nat := 512

def lineComment (c : Cursor) : Cursor :=
  let blanks := (c.rest.takeWhile isBlank).length
  if blanks < commentReach && (c.rest.drop blanks).head? = some '#' then c.lineEnd else c

def leadsToComment (cs : List Char) : Bool :=
  let between := (cs.takeWhile fun c => isBlank c || c = '\n').length
  between < commentReach && (cs.drop between).head? = some '#'

/-! ## Gaps between tokens -/

inductive Filling where
  | space
  | comment
  | between
deriving DecidableEq, Repr

/-- A cursor at the next token, and whether a key may start there. -/
structure Gap where
  cursor : Cursor
  keyAllowed : Bool

/-- How lines are read: inside brackets, and whether the text starts with a second byte order mark,
which costs each line its first character. -/
structure LineRule where
  flow : Bool
  marked : Bool

/-- Pass over blanks, comments and line breaks.  A tab counts as a blank inside brackets and where
no key may start.  Outside of brackets a key may start on a new line. -/
def gapFrom (rule : LineRule) (filling : Filling) (keyAllowed : Bool) (line column : Nat) :
    List Char → Gap
  | [] => ⟨⟨[], line, column⟩, keyAllowed⟩
  | c :: rest =>
    match filling with
    | .comment =>
      if !isBreak c then gapFrom rule .comment keyAllowed line (column + 1) rest
      else if leadsToComment (c :: rest) then gapFrom rule .between keyAllowed (line + 1) 0 rest
      else gapFrom rule .space (keyAllowed || !rule.flow) (line + 1) 0 rest
    | .between =>
      if c = '#' then gapFrom rule .comment keyAllowed line (column + 1) rest
      else if isBreak c then gapFrom rule .between keyAllowed (line + 1) 0 rest
      else gapFrom rule .between keyAllowed line (column + 1) rest
    | .space =>
      if rule.marked && column = 0 then gapFrom rule .space keyAllowed line (column + 1) rest
      else if isBreak c then gapFrom rule .space (keyAllowed || !rule.flow) (line + 1) 0 rest
      else if c = ' ' || (c = '\t' && (rule.flow || !keyAllowed)) then
        gapFrom rule .space keyAllowed line (column + 1) rest
      else if c = '#' then gapFrom rule .comment keyAllowed line (column + 1) rest
      else ⟨⟨c :: rest, line, column⟩, keyAllowed⟩

/-! ## Folding

Line breaks inside a scalar are folded: a single one becomes a space, and of several the first is
dropped.
-/

/-- The character that a line break is read as: itself for the two separators, else a newline. -/
def readBreak (c : Char) : Char :=
  if c = '\u2028' || c = '\u2029' then c else '\n'

/-- Blanks and line breaks since the last character of a scalar. -/
structure Pending where
  blanks : List Char
  breaks : List Char

namespace Pending

def none : Pending := ⟨[], []⟩

def crossed (p : Pending) : Bool := !p.breaks.isEmpty

def isNone (p : Pending) : Bool := p.blanks.isEmpty && p.breaks.isEmpty

def push (p : Pending) (c : Char) : Pending :=
  if isBreak c then ⟨[], p.breaks ++ [readBreak c]⟩
  else if p.crossed then p
  else ⟨p.blanks ++ [c], []⟩

def folded (p : Pending) : List Char :=
  match p.breaks with
  | [] => p.blanks
  | ['\n'] => [' ']
  | '\n' :: more => more
  | breaks => breaks

end Pending

structure Scanned where
  text : String
  cursor : Cursor
  crossed : Bool

end Yaml
end DefTable
