import DefTable.Workspace

/-!
# The surroundings of a run

A run reads and writes files through its host.  A workspace is a host by itself, so that a whole run
is a function of the files it starts with.
-/

namespace DefTable
namespace Cli

class Host (m : Type → Type) where
  workingDirectory : m String
  read (path : String) : m (Except FileFailure (List UInt8))
  write (path : String) (bytes : List UInt8) : m (Except FileFailure Unit)
  absence? (path : String) : m (Option FileError)

def writeFile (path : String) (bytes : List UInt8) :
    StateM Workspace (Except FileFailure Unit) := do
  match (← get).write path bytes with
  | .ok w => set w; return .ok ()
  | .error f => return .error f

instance : Host (StateM Workspace) where
  workingDirectory := do return (← get).root
  read path := do return (← get).read path
  write := writeFile
  absence? path := do return (← get).absence? path

end Cli
end DefTable
