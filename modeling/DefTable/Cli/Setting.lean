import DefTable.Cache.Basic
import DefTable.Compile
import DefTable.Path

/-!
# Compiling one source on the command line

A source is compiled to output bytes.  With a cache it is looked up there first, and what is
compiled is put there.
-/

namespace DefTable
namespace Cli

/-- What all sources of one run are compiled with. -/
structure Setting where
  format : Format
  builtins : List String
deriving DecidableEq, Repr

def Setting.compile (s : Setting) (path : String) (source : List UInt8) :
    Except (List Report) (Table × List UInt8) :=
  let c := DefTable.compile (some s.format) path (Text.decode source) s.builtins
  match c.errors, c.table, c.output with
  | [], some table, some output => .ok (table, output)
  | errors, _, _ => .error (errors.map .diagnostic)

def Setting.emit (s : Setting) (t : Table) : Except (List Report) (List UInt8) :=
  (s.format.emit t).mapError fun u => [.plain u.message]

/-- Compile a source with a cache; the cache comes back with what was put into it. -/
def Setting.compileCached (s : Setting) (c : Cache) (path : String) (source : List UInt8) :
    Except (List Report) (List UInt8) × Cache :=
  match c.get source s.builtins with
  | .error fault => (.error [.plain fault.message], c)
  | .ok (some found) => (s.emit found.table, c)
  | .ok none =>
    match s.compile path source with
    | .error reports => (.error reports, c)
    | .ok (table, output) =>
      match c.put c.store.freshBuild source s.builtins table with
      | .error fault => (.error [.plain fault.message], c)
      | .ok (_, c) => (.ok output, c)

def Setting.compileUnit (s : Setting) (cache : Option Cache) (path : String)
    (source : List UInt8) : Except (List Report) (List UInt8) × Option Cache :=
  match cache with
  | none => ((s.compile path source).map Prod.snd, none)
  | some c =>
    let (result, c) := s.compileCached c path source
    (result, some c)

/-- Where the output for a source file goes in a batch. -/
def outputPath (source : String) (format : Format) : String :=
  Path.replaceExtension source format.extension

end Cli
end DefTable
