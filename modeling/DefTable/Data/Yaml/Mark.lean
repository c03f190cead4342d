import DefTable.Data.Yaml.Cursor
import DefTable.Data.Yaml.Token
import DefTable.Token.Numeral

/-!
# Anchors, tags and directives

A node may be named by an anchor and meant again by an alias of that name.  A tag says what kind of
data it is.  Directives before a document give the version and shorten tags.
-/

namespace DefTable
namespace Yaml

abbrev Marked := Token × Cursor

/-! ## Anchors -/

def endsName (cs : List Char) : Bool :=
  Cursor.endsWord cs || cs.head?.any fun c => "?:,]\x7d%@`".toList.contains c

def anchorOrAlias (c : Cursor) : Option Marked :=
  let name := (c.rest.drop 1).takeWhile isNameLetter
  let stop := c.advance (name.length + 1)
  if name.isEmpty || !endsName stop.rest then none
  else
    let name := String.ofList name
    some (if c.rest.head? = some '&' then .anchor name else .alias name, stop)

/-! ## Tags -/

def isTagLetter (c : Char) : Bool :=
  isNameLetter c || ";/?:@&=+$,.!~*'()[]".toList.contains c

/-- The bytes of the letters at the front, where `%2F` stands for the byte of that value, and how
many characters they take. -/
def uriBytes : List Char → Option (List UInt8 × Nat)
  | '%' :: a :: b :: cs => do
    let high ← Numeral.digitValue? a
    let low ← Numeral.digitValue? b
    let (bytes, length) ← uriBytes cs
    return (UInt8.ofNat (16 * high + low) :: bytes, length + 3)
  | '%' :: _ => none
  | c :: cs =>
    if isTagLetter c then do
      let (bytes, length) ← uriBytes cs
      return (UInt8.ofNat c.toNat :: bytes, length + 1)
    else some ([], 0)
  | [] => some ([], 0)

def uri? (cs : List Char) : Option (String × Nat) := do
  let (bytes, length) ← uriBytes cs
  return (← Text.string? bytes, length)

def handleLength (cs : List Char) : Nat :=
  let letters := ((cs.drop 1).takeWhile isNameLetter).length
  if cs.head? = some '!' && (cs.drop (letters + 1)).head? = some '!' then letters + 2 else 0

def tag (c : Cursor) : Option Marked := do
  let (found, length) ←
    if (c.rest.drop 1).head? = some '<' then do
      let (uri, length) ← uri? (c.rest.drop 2)
      if length = 0 || (c.rest.drop (length + 2)).head? ≠ some '>' then none
      else some (Token.tag "" uri, length + 3)
    else
      let handle := handleLength c.rest
      if handle = 0 then do
        let (suffix, length) ← uri? (c.rest.drop 1)
        if length = 0 then some (Token.tag "" "!", 1)
        else some (Token.tag "!" suffix, length + 1)
      else do
        let (suffix, length) ← uri? (c.rest.drop handle)
        if length = 0 then none
        else some (Token.tag (String.ofList (c.rest.take handle)) suffix, handle + length)
  let stop := c.advance length
  if Cursor.endsWord stop.rest then some (found, stop) else none

/-! ## Directives -/

def versionPart? (cs : List Char) : Option (Nat × List Char) :=
  let ds := cs.takeWhile Char.isDigit
  if ds.isEmpty || 2 < ds.length then none
  else some (Numeral.natValue (ds.map .char), cs.drop ds.length)

def versionToken? (cs : List Char) : Option (Token × List Char) := do
  let (major, cs) ← versionPart? (cs.dropWhile isBlank)
  match cs with
  | '.' :: cs =>
    let (minor, cs) ← versionPart? cs
    return (.version major minor, cs)
  | _ => none

def handleToken? (cs : List Char) : Option (Token × List Char) := do
  let cs := cs.dropWhile isBlank
  let length := if handleLength cs = 0 && cs.head? = some '!' then 1 else handleLength cs
  let rest := cs.drop length
  let target := rest.dropWhile isBlank
  let (uri, uriLength) ← uri? target
  let after := target.drop uriLength
  if length = 0 || !rest.head?.any isBlank || uriLength = 0 || !Cursor.endsWord after then none
  else some (.handle (String.ofList (cs.take length)) uri, after)

def directive (c : Cursor) : Option Marked := do
  let inside := c.rest.drop 1
  let name := inside.takeWhile isNameLetter
  let rest := inside.drop name.length
  if !Cursor.endsWord rest then none
  else
    let (found, rest) ← match String.ofList name with
      | "YAML" => versionToken? rest
      | "TAG" => handleToken? rest
      | _ => none
    let rest := rest.dropWhile isBlank
    let rest := if rest.head? = some '#' then rest.dropWhile fun c => !isBreak c else rest
    match rest with
    | [] => return (found, ⟨[], c.line, c.column + 1⟩)
    | a :: below => if isBreak a then return (found, ⟨below, c.line + 1, 0⟩) else none

end Yaml
end DefTable
