/-!
# Characters of YAML

The classes of characters that both reading and writing rely on.
-/

namespace DefTable
namespace Yaml

def isBlank (c : Char) : Bool :=
  c = ' ' || c = '\t'

def isBreak (c : Char) : Bool :=
  c = '\n' || c = '\r' || c = '\u0085' || c = '\u2028' || c = '\u2029'

def byteOrderMark : Char := '\uFEFF'

/-- Characters that can stand as they are; those beyond U+FFFF cannot. -/
def isWritable (c : Char) : Bool :=
  let n := c.toNat
  n = 0x0A || (0x20 ≤ n && n ≤ 0x7E) || (0xA0 ≤ n && n ≤ 0xFFFD && c ≠ byteOrderMark)

def isReadable (c : Char) : Bool :=
  let n := c.toNat
  n = 0x09 || n = 0x0A || n = 0x0D || (0x20 ≤ n && n ≤ 0x7E) || n = 0x85 ||
    (0xA0 ≤ n && n ≤ 0xFFFD) || 0x10000 ≤ n

def leadsBadly (c : Char) : Bool :=
  "#,[]\x7b\x7d&*!|>'\"%@`".toList.contains c

def isNameLetter (c : Char) : Bool :=
  c.isAlphanum || c = '_' || c = '-'

def startsLikeDocument (cs : List Char) : Bool :=
  ['-', '-', '-'].isPrefixOf cs || ['.', '.', '.'].isPrefixOf cs

end Yaml
end DefTable
