import DefTable.Builtin
import DefTable.Data.Yaml.Read
import DefTable.Format
import DefTable.Path
import DefTable.Version.Constraint

/-!
# Configuration

A project may have a configuration file: the compiler versions it works with, names known besides
the builtins, the output format, the cache and the address to serve at.  Fields that are not known
are left alone.
-/

namespace DefTable
namespace Config

def compilerVersion : String := "1.0.0"

def defaultListen : String := "127.0.0.1:7077"

def fileNames : List String := ["asc.yaml", "asc.yml"]

def formatNames : List String :=
  Format.all.map Format.name

/-! ## What is written

A field holds the text that is written for it, whatever kind of scalar it is; null leaves it empty.
-/

structure Written where
  requires : String
  builtins : List String
  format : String
  cache : String
  listen : String
deriving DecidableEq, Repr, Inhabited

namespace Written

def empty : Written := ⟨"", [], "", "", ""⟩

def text? (n : Yaml.Node) : Option (Option String) := do
  match ← n.target? with
  | .scalar plain tag text => Yaml.Node.scalarText plain tag text
  | _ => none

/-- The texts of a list; a null in it is dropped, and a null in its place is the empty list. -/
def texts? (n : Yaml.Node) : Option (List String) := do
  match ← n.target? with
  | .sequence items => return (← items.mapM text?).filterMap id
  | n => match ← text? n with
    | none => return []
    | some _ => none

def fieldNames : List String :=
  ["requires", "builtins", "format", "cache", "listen"]

def set (w : Written) (e : String × Yaml.Node) : Option Written := do
  match e.1 with
  | "requires" => return { w with requires := (← text? e.2).getD "" }
  | "builtins" => return { w with builtins := ← texts? e.2 }
  | "format" => return { w with format := (← text? e.2).getD "" }
  | "cache" => return { w with cache := (← text? e.2).getD "" }
  | "listen" => return { w with listen := (← text? e.2).getD "" }
  | _ => return w

def ofDocument (d : Yaml.Document) : Yaml.Reading Written := do
  Yaml.Reading.need ((← d.fields fieldNames pure).foldlM set empty)

end Written

/-! ## Faults -/

inductive NameFault where
  | empty
  | global (name : String)
  | repeated (name : String) (first : Nat)
  | standard (name : String)
deriving DecidableEq, Repr

def NameFault.message : NameFault → String
  | empty => "empty name"
  | global name => s!"{Quoted.string name} already resolves globally, drop the @ prefix"
  | repeated name first => s!"{Quoted.string name} is also listed as builtins[{first}]"
  | standard name => s!"{Quoted.string name} is a standard builtin"

inductive Fault where
  | unreadable
  /-- A list or a map, of the kind that is named, would have to be found among merged keys. -/
  | collectionKey (kind : String)
  | requires (text : String) (fault : Constraint.Fault)
  | format (name : String)
  | builtin (index : Nat) (fault : NameFault)
deriving DecidableEq, Repr

def Fault.message (path : String) : Fault → String
  | unreadable => s!"parsing {path}"
  | collectionKey kind => (Format.DecodeError.collectionKey kind).message
  | requires text fault =>
    s!"{path}: requires: invalid constraint {Quoted.string text}: {fault.message}"
  | format name =>
    s!"{path}: format: unknown output format {Quoted.string name} (want one of " ++
      ", ".intercalate formatNames ++ ")"
  | builtin index fault => s!"{path}: builtins[{index}]: {fault.message}"

/-! ## Checks -/

def nameFault? (before : List String) (name : String) : Option NameFault :=
  if name = "" then some .empty
  else if isGlobal name then some (.global name)
  else match before.findIdx? (· = name) with
    | some first => some (.repeated name first)
    | none => if Builtin.contains name then some (.standard name) else none

def checkNames (before : List String) : List String → Except Fault Unit
  | [] => .ok ()
  | name :: names =>
    match nameFault? before name with
    | some fault => .error (.builtin before.length fault)
    | none => checkNames (before ++ [name]) names

/-- The compiler versions that a project works with. -/
structure Requirement where
  text : String
  constraint : Constraint

def requirement (text : String) : Except Fault (Option Requirement) :=
  if text = "" then .ok none
  else match Constraint.ofString text with
    | .ok c => .ok (some ⟨text, c⟩)
    | .error fault => .error (.requires text fault)

def formatNamed (name : String) : Except Fault Format :=
  match Format.ofName name with
  | .ok f => .ok f
  | .error _ => .error (.format name)

end Config

structure Config where
  requires : Option Config.Requirement
  builtins : List String
  format : Format
  cache : String
  listen : String

namespace Config

def default : Config := ⟨none, [], .json, "", defaultListen⟩

/-- Check what is written: the requirement first, then the format, then the names. -/
def ofWritten (w : Written) : Except Fault Config := do
  let requires ← requirement w.requires
  let format ← formatNamed w.format
  checkNames [] w.builtins
  return ⟨requires, w.builtins, format, w.cache, if w.listen = "" then defaultListen else w.listen⟩

def Fault.ofYaml : Yaml.Fault → Fault
  | .unreadable => unreadable
  | .collectionKey kind => collectionKey kind

def read (t : Text) : Except Fault Config := do
  let written := do Written.ofDocument (← Yaml.Reading.need (Yaml.document t.bytes))
  ofWritten (← written.result.mapError .ofYaml)

/-- A relative cache path is taken from the directory of the configuration. -/
def located (path : String) (c : Config) : Config :=
  if c.cache = "" || Path.isAbsolute c.cache then c
  else { c with cache := Path.join (Path.parent path) c.cache }

/-! ## Compiler versions -/

inductive Misfit where
  | badVersion (fault : Version.Fault)
  | refused (requirement : String) (complaints : List String)
deriving DecidableEq, Repr

def Misfit.message (version : String) : Misfit → String
  | badVersion fault => s!"invalid compiler version {Quoted.string version}: {fault.message}"
  | refused requirement complaints =>
    s!"compiler {version} does not satisfy {Quoted.string requirement}: " ++
      "; ".intercalate complaints

def misfit? (c : Config) (version : String) : Option Misfit :=
  match c.requires with
  | none => none
  | some r =>
    match Version.ofString version with
    | .error fault => some (.badVersion fault)
    | .ok v =>
      if r.constraint.admits v then none
      else some (.refused r.text (r.constraint.complaints v))

end Config
end DefTable
