import DefTable.Data.Yaml.Cursor
import DefTable.Data.Yaml.Scalar

/-!
# Plain and quoted scalars

A plain scalar ends where an indicator could start; a quoted one ends at its quote.  Both may span
lines.  While a scalar is read, what has been read of it is kept with the last character first.
-/

namespace DefTable
namespace Yaml

/-! ## Plain scalars -/

def endsPlain (flow : Bool) (c : Char) (rest : List Char) : Bool :=
  (c = ':' && Cursor.endsWord rest) ||
    (flow && (c = ',' || c = '?' || c = '[' || c = ']' || c = '\x7b' || c = '\x7d'))

/-- Scan on from inside a plain scalar.  Blanks and line breaks after it are passed over.  Outside
of brackets the scalar ends at a line that starts before the column `floor`, and a tab before that
column is refused. -/
def plainFrom (flow : Bool) (floor : Nat) (done : List Char) (pending : Pending)
    (line column : Nat) : List Char → Option Scanned
  | [] => some ⟨String.ofList done.reverse, ⟨[], line, column⟩, pending.crossed⟩
  | c :: rest =>
    if isBreak c then plainFrom flow floor done (pending.push c) (line + 1) 0 rest
    else if isBlank c then
      if pending.crossed && column < floor && c = '\t' then none
      else plainFrom flow floor done (pending.push c) line (column + 1) rest
    else if (pending.crossed && !flow && column < floor) || (!pending.isNone && c = '#') ||
        Cursor.atMarker ⟨c :: rest, line, column⟩ || endsPlain flow c rest then
      some ⟨String.ofList done.reverse, ⟨c :: rest, line, column⟩, pending.crossed⟩
    else
      plainFrom flow floor (c :: (pending.folded.reverse ++ done)) .none line (column + 1) rest

def plain (flow : Bool) (floor : Nat) (c : Cursor) : Option Scanned :=
  plainFrom flow floor [] .none c.line c.column c.rest

def startsPlain (flow : Bool) (c : Char) (rest : List Char) : Bool :=
  if isBlank c || isBreak c then false
  else if c = '-' then !Cursor.endsWord rest
  else if c = '?' || c = ':' then !flow && !Cursor.endsWord rest
  else !leadsBadly c

/-! ## Quoted scalars -/

def singleFrom (done : List Char) (pending : Pending) (line column : Nat) :
    List Char → Option Scanned
  | [] => none
  | '\'' :: '\'' :: rest =>
    singleFrom ('\'' :: (pending.folded.reverse ++ done)) .none line (column + 2) rest
  | '\'' :: rest =>
    some ⟨String.ofList (pending.folded.reverse ++ done).reverse, ⟨rest, line, column + 1⟩, false⟩
  | c :: rest =>
    if Cursor.atMarker ⟨c :: rest, line, column⟩ then none
    else if isBreak c then singleFrom done (pending.push c) (line + 1) 0 rest
    else if isBlank c then singleFrom done (pending.push c) line (column + 1) rest
    else singleFrom (c :: (pending.folded.reverse ++ done)) .none line (column + 1) rest

def simpleEscape? (c : Char) : Option Char :=
  match c with
  | '0' => some '\x00'
  | 'a' => some '\x07'
  | 'b' => some '\x08'
  | 't' => some '\t'
  | '\t' => some '\t'
  | 'n' => some '\n'
  | 'v' => some '\x0b'
  | 'f' => some '\x0c'
  | 'r' => some '\r'
  | 'e' => some '\x1b'
  | ' ' => some ' '
  | '"' => some '"'
  | '\'' => some '\''
  | '\\' => some '\\'
  | 'N' => some '\u0085'
  | '_' => some '\u00a0'
  | 'L' => some '\u2028'
  | 'P' => some '\u2029'
  | _ => none

def codeWidth? : Char → Option Nat
  | 'x' => some 2
  | 'u' => some 4
  | 'U' => some 8
  | _ => none

def escape? : List Char → Option (Char × Nat)
  | [] => none
  | e :: rest =>
    match codeWidth? e with
    | none => (simpleEscape? e).map fun c => (c, 1)
    | some width => do
      let n ← radixValue? 16 (rest.take width)
      if (rest.take width).length = width && n.isValidChar then some (Char.ofNat n, width + 1)
      else none

/-- The state of reading between double quotes.  After an escaped line break, blanks and further
breaks belong to the break. -/
structure Double where
  done : List Char
  pending : Pending
  joined : Bool

namespace Double

def settled (s : Double) : List Char :=
  (if s.joined then s.pending.breaks else s.pending.folded).reverse ++ s.done

def add (s : Double) (c : Char) : Double :=
  ⟨c :: s.settled, .none, false⟩

def push (s : Double) (c : Char) : Double :=
  if s.joined && !isBreak c then s else { s with pending := s.pending.push c }

def join (s : Double) : Double :=
  ⟨s.settled, .none, true⟩

end Double

/-- Scan on between double quotes after passing over the first `skip` characters, which belong to an
escape already read. -/
def doubleFrom (state : Double) (skip : Nat) (line column : Nat) : List Char → Option Scanned
  | [] => none
  | c :: rest =>
    match skip with
    | skip + 1 =>
      if isBreak c then doubleFrom state skip (line + 1) 0 rest
      else doubleFrom state skip line (column + 1) rest
    | 0 =>
      if c = '"' then
        some ⟨String.ofList state.settled.reverse, ⟨rest, line, column + 1⟩, false⟩
      else if Cursor.atMarker ⟨c :: rest, line, column⟩ then none
      else if c = '\\' then
        if rest.head?.any isBreak then doubleFrom state.join 1 line (column + 1) rest
        else
          match escape? rest with
          | none => none
          | some (e, taken) => doubleFrom (state.add e) taken line (column + 1) rest
      else if isBreak c then doubleFrom (state.push c) 0 (line + 1) 0 rest
      else if isBlank c then doubleFrom (state.push c) 0 line (column + 1) rest
      else doubleFrom (state.add c) 0 line (column + 1) rest

def quoted (c : Cursor) : Option Scanned :=
  let inside := c.advance 1
  if c.rest.head? = some '\'' then singleFrom [] .none inside.line inside.column inside.rest
  else doubleFrom ⟨[], .none, false⟩ 0 inside.line inside.column inside.rest

end Yaml
end DefTable
