/-!
# Tokens of YAML

Brackets, indicators and scalars are tokens.  So are the ends of the block collections, which the
text only shows by its indentation.
-/

namespace DefTable
namespace Yaml

inductive Token where
  | blockSequence
  | blockMapping
  | blockEnd
  | flowSequence
  | flowSequenceEnd
  | flowMapping
  | flowMappingEnd
  | item
  | comma
  /-- A key comes next; for most keys nothing is written. -/
  | key
  | value
  | scalar (plain : Bool) (text : String)
  | anchor (name : String)
  | alias (name : String)
  | tag (handle suffix : String)
  | version (major minor : Nat)
  | handle (name uri : String)
  | documentStart
  | documentEnd
  | streamEnd
deriving DecidableEq, Repr, Inhabited

end Yaml
end DefTable
