import DefTable.Data.Yaml.Cursor

/-!
# Block scalars

A block scalar is announced by a header and takes the indented lines below it, as they are or
folded.  The header may give the indentation, and says what becomes of the line breaks at the end.
-/

namespace DefTable
namespace Yaml

inductive Chomp where
  | strip
  | clip
  | keep
deriving DecidableEq, Repr

structure BlockHeader where
  chomp : Chomp
  increment : Nat

def chomp? : Char → Option Chomp
  | '+' => some .keep
  | '-' => some .strip
  | _ => none

def increment? (c : Char) : Option Nat :=
  if c.isDigit then some (c.toNat - '0'.toNat) else none

/-- The signs after the indicator of a block scalar, in either order, and how many they are.  An
increment of zero is refused. -/
def blockHeader (cs : List Char) : Option (BlockHeader × Nat) :=
  let found : BlockHeader × Nat := match cs with
    | [] => (⟨.clip, 0⟩, 0)
    | a :: rest =>
      match chomp? a, increment? a with
      | some chomp, _ => match rest.head?.bind increment? with
        | some n => (⟨chomp, n⟩, 2)
        | none => (⟨chomp, 0⟩, 1)
      | none, some n => match rest.head?.bind chomp? with
        | some chomp => (⟨chomp, n⟩, 2)
        | none => (⟨.clip, n⟩, 1)
      | none, none => (⟨.clip, 0⟩, 0)
  if (cs.take found.2).contains '0' then none else some found

def nextLine? (c : Cursor) : Option Cursor :=
  let c := c.advance (c.rest.takeWhile isBlank).length
  let c := if c.rest.head? = some '#' then c.lineEnd else c
  match c.rest with
  | [] => some c
  | a :: rest => if isBreak a then some ⟨rest, c.line + 1, 0⟩ else none

/-- Empty lines, and the indentation before the next line that is not empty. -/
structure Margin where
  breaks : List Char
  widest : Nat
  cursor : Cursor

/-- Pass over empty lines and over at most `indent` blanks of indentation; zero is no limit.  A tab
among the indentation is refused. -/
def marginFrom (indent : Nat) (breaks : List Char) (widest line column : Nat) :
    List Char → Option Margin
  | [] => some ⟨breaks, max widest column, [], line, column⟩
  | c :: rest =>
    let inside := indent = 0 || column < indent
    if c = ' ' && inside then marginFrom indent breaks widest line (column + 1) rest
    else if c = '\t' && inside then none
    else if isBreak c then
      marginFrom indent (breaks ++ [readBreak c]) (max widest column) (line + 1) 0 rest
    else some ⟨breaks, max widest column, c :: rest, line, column⟩

/-- The text of a block scalar so far, the last character first, with the line break that ends its
last line. -/
structure BlockText where
  done : List Char
  ended : List Char
  startsBlank : Bool

namespace BlockText

def empty : BlockText := ⟨[], [], false⟩

/-- What stands between the last line and a further one that starts with `c`, after the empty lines
`breaks`.  A line break is folded between two lines that start with no blank. -/
def joint (t : BlockText) (folded : Bool) (breaks : List Char) (c : Char) : List Char :=
  let kept := if folded && !t.startsBlank && !isBlank c && t.ended = ['\n'] then
      if breaks.isEmpty then [' '] else []
    else t.ended
  kept ++ breaks

end BlockText

def blockLines (fuel : Nat) (folded : Bool) (indent : Nat) (text : BlockText) (m : Margin) :
    Option (BlockText × Margin) :=
  match fuel with
  | 0 => none
  | fuel + 1 =>
    match m.cursor.rest with
    | [] => some (text, m)
    | c :: rest =>
      if m.cursor.column ≠ indent then some (text, m)
      else
        let line := (c :: rest).takeWhile fun c => !isBreak c
        let done := line.reverse ++ (text.joint folded m.breaks c).reverse ++ text.done
        match (c :: rest).drop line.length with
        | [] =>
          some (⟨done, [], isBlank c⟩, ⟨[], 0, [], m.cursor.line, indent + line.length⟩)
        | b :: below =>
          match marginFrom indent [] 0 (m.cursor.line + 1) 0 below with
          | none => none
          | some next =>
            blockLines fuel folded indent ⟨done, [readBreak b], isBlank c⟩ next

/-- A block scalar from its indicator on, in a collection whose parts start at the column `floor` or
after it. -/
def blockScalar (floor : Nat) (c : Cursor) : Option Scanned := do
  let folded := c.rest.head? = some '>'
  let inside := c.advance 1
  let (header, signs) ← blockHeader inside.rest
  let first ← nextLine? (inside.advance signs)
  let fixed := if header.increment = 0 then 0 else floor - 1 + header.increment
  let m ← marginFrom fixed [] 0 first.line first.column first.rest
  let indent := if fixed = 0 then max (max m.widest floor) 1 else fixed
  let (text, m) ← blockLines (first.rest.length + 1) folded indent .empty m
  let tail := match header.chomp with
    | .strip => []
    | .clip => text.ended
    | .keep => text.ended ++ m.breaks
  return ⟨String.ofList (text.done.reverse ++ tail), m.cursor, true⟩

end Yaml
end DefTable
