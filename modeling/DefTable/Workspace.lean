import DefTable.Path

/-!
# Workspaces

A workspace is a working directory with the files below it.  Directories exist as far as files are
in them, or on their own.  What lies outside the workspace cannot be seen, except that the
directories around it exist.
-/

namespace DefTable

inductive FileError where
  | missing
  | notDirectory
  | isDirectory
  | nameTooLong
  | badName
deriving DecidableEq, Repr

def FileError.message : FileError → String
  | missing => "no such file or directory"
  | notDirectory => "not a directory"
  | isDirectory => "is a directory"
  | nameTooLong => "file name too long"
  | badName => "invalid argument"

structure FileFailure where
  action : String
  path : String
  error : FileError
deriving DecidableEq, Repr

def FileFailure.message (f : FileFailure) : String :=
  s!"{f.action} {f.path}: {f.error.message}"

structure Workspace where
  root : String
  /-- Directories without files that exist all the same. -/
  directories : List (List String)
  files : List (List String × List UInt8)
deriving DecidableEq, Repr, Inhabited

namespace Workspace

/-- A place in or around the workspace. -/
inductive Place where
  | inside (steps : List String)
  | around
deriving DecidableEq, Repr

def file? (w : Workspace) (steps : List String) : Option (List UInt8) :=
  w.files.lookup steps

def isDirectory (w : Workspace) (steps : List String) : Bool :=
  steps.isEmpty || w.directories.any (fun d => steps.isPrefixOf d) ||
    w.files.any fun f => steps.isPrefixOf f.1 && steps ≠ f.1

def maxNameLength : Nat := 255

/-- Follow the parts of a path.  Every part but the last has to be a directory. -/
def follow (w : Workspace) : Place → List String → Except FileError Place
  | at_, [] => .ok at_
  | .around, part :: rest =>
    if part = "" || part = "." || part = ".." then w.follow .around rest else .error .missing
  | .inside steps, part :: rest =>
    if part = "" || part = "." then w.follow (.inside steps) rest
    else if part = ".." then
      w.follow (if steps.isEmpty then .around else .inside steps.dropLast) rest
    else if part.utf8ByteSize > maxNameLength then .error .nameTooLong
    else
      let next := steps ++ [part]
      if rest.isEmpty || w.isDirectory next then w.follow (.inside next) rest
      else if (w.file? next).isSome then .error .notDirectory
      else .error .missing

def locate (w : Workspace) (path : String) : Except FileError Place :=
  if path = "" then .error .missing
  else if path.toList.contains '\x00' then .error .badName
  else if Path.isAbsolute path then
    let rootSteps := Path.steps w.root
    let steps := Path.steps path
    if rootSteps.isPrefixOf steps then w.follow (.inside []) (steps.drop rootSteps.length)
    else if steps.isPrefixOf rootSteps then .ok .around
    else .error .missing
  else w.follow (.inside []) (Path.parts path)

def read (w : Workspace) (path : String) : Except FileFailure (List UInt8) :=
  match w.locate path with
  | .error e => .error ⟨"open", path, e⟩
  | .ok .around => .error ⟨"read", path, .isDirectory⟩
  | .ok (.inside steps) =>
    match w.file? steps with
    | some bytes => .ok bytes
    | none =>
      if w.isDirectory steps then .error ⟨"read", path, .isDirectory⟩
      else .error ⟨"open", path, .missing⟩

def putFile (w : Workspace) (steps : List String) (bytes : List UInt8) : Workspace :=
  if (w.file? steps).isSome then
    { w with files := w.files.map fun f => if f.1 = steps then (steps, bytes) else f }
  else { w with files := w.files ++ [(steps, bytes)] }

def write (w : Workspace) (path : String) (bytes : List UInt8) : Except FileFailure Workspace :=
  match w.locate path with
  | .error e => .error ⟨"open", path, e⟩
  | .ok .around => .error ⟨"open", path, .isDirectory⟩
  | .ok (.inside steps) =>
    if w.isDirectory steps then .error ⟨"open", path, .isDirectory⟩
    else .ok (w.putFile steps bytes)

def remove (w : Workspace) (path : String) : Workspace :=
  match w.locate path with
  | .ok (.inside steps) => { w with files := w.files.filter fun f => f.1 ≠ steps }
  | _ => w

def absence? (w : Workspace) (path : String) : Option FileError :=
  match w.locate path with
  | .error e => some e
  | .ok .around => none
  | .ok (.inside steps) =>
    if (w.file? steps).isSome || w.isDirectory steps then none else some .missing

def ofFiles (root : String) (files : List (String × List UInt8)) : Workspace :=
  ⟨root, [], files.map fun f => (Path.steps f.1, f.2)⟩

end Workspace
end DefTable
