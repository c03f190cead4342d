import DefTable.Workspace

/-!
# Watching a file

A watched file is handled once at the start and again whenever it is replaced.  The directory of the
file is what is watched, so it has to exist, while the file itself may come and go.
-/

namespace DefTable
namespace Watch

structure Failure where
  directory : String
  error : FileError
deriving DecidableEq, Repr

def Failure.message (f : Failure) : String :=
  s!"watching {f.directory}: {f.error.message}"

def directory (root path : String) : String :=
  Path.parent (Path.absolute root path)

inductive Change where
  | replace (file : String) (content : List UInt8)
  | remove (file : String)
deriving DecidableEq, Repr

namespace Change

def apply (w : Workspace) : Change → Workspace
  | replace file content => (w.write file content).toOption.getD w
  | remove file => w.remove file

def concerns (root path : String) : Change → Bool
  | replace file _ => Path.absolute root file = Path.absolute root path
  | remove _ => false

end Change

def handled (w : Workspace) (path : String) : Option (List UInt8) :=
  (w.read path).toOption

def follow (path : String) (w : Workspace) : List Change → List (Option (List UInt8))
  | [] => []
  | c :: cs =>
    let w := c.apply w
    if c.concerns w.root path then handled w path :: follow path w cs else follow path w cs

def run (w : Workspace) (path : String) (changes : List Change) :
    Except Failure (List (Option (List UInt8))) :=
  let dir := directory w.root path
  match w.absence? dir with
  | some e => .error ⟨dir, e⟩
  | none => .ok (handled w path :: follow path w changes)

end Watch
end DefTable
