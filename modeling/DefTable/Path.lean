/-!
# Paths

Paths name files by the directories on the way, with slashes between them.  All operations here work
on the spelling alone; none looks at files.
-/

namespace DefTable
namespace Path

def split : List Char → List (List Char)
  | [] => [[]]
  | '/' :: cs => [] :: split cs
  | c :: cs =>
    match split cs with
    | [] => [[c]]
    | part :: parts => (c :: part) :: parts

def parts (path : String) : List String :=
  (split path.toList).map String.ofList

def isAbsolute (path : String) : Bool :=
  path.toList.head? = some '/'

/-- Take out what is empty or means the directory itself, and each step down that is taken back.
`done` holds the parts so far, the last one first. -/
def simplify (absolute : Bool) (done : List String) : List String → List String
  | [] => done.reverse
  | part :: rest =>
    if part = "" || part = "." then simplify absolute done rest
    else if part = ".." then
      match done with
      | [] => simplify absolute (if absolute then [] else [".."]) rest
      | last :: before =>
        if last = ".." then simplify absolute (".." :: done) rest
        else simplify absolute before rest
    else simplify absolute (part :: done) rest

def steps (path : String) : List String :=
  simplify (isAbsolute path) [] (parts path)

def ofSteps (absolute : Bool) (steps : List String) : String :=
  let joined := "/".intercalate steps
  if absolute then "/" ++ joined else if steps.isEmpty then "." else joined

def clean (path : String) : String :=
  ofSteps (isAbsolute path) (steps path)

def join (directory path : String) : String :=
  clean (directory ++ "/" ++ path)

def parent (path : String) : String :=
  match (parts path).dropLast with
  | [] => "."
  | before => clean ("/".intercalate before ++ "/")

def absolute (directory path : String) : String :=
  if isAbsolute path then clean path else join directory path

def ancestors (directory : String) : List String :=
  let all := steps directory
  (List.range (all.length + 1)).map fun n => ofSteps true (all.take (all.length - n))

/-- From the last dot on, within the last part, the last character first. -/
def reversedExtension (done : List Char) : List Char → Option (List Char)
  | [] => none
  | c :: cs =>
    if c = '/' then none
    else if c = '.' then some (c :: done)
    else reversedExtension (c :: done) cs

def extension (path : String) : String :=
  String.ofList ((reversedExtension [] path.toList.reverse).getD [])

def replaceExtension (path ext : String) : String :=
  let kept := path.toList.length - (extension path).toList.length
  String.ofList (path.toList.take kept) ++ ext

def sourceExtension : String := ".asc"

def isSource (path : String) : Bool :=
  path ≠ sourceExtension && sourceExtension.toList.isSuffixOf path.toList

end Path
end DefTable
