/-!
# Command line options

An argument that starts with a dash is a flag, except for the dash alone, which stands for standard
input.  A flag may have any number of dashes, and its value follows it or an equals sign.
-/

namespace DefTable
namespace Cli

structure Options where
  format : String
  config : String
  cache : String
  listen : String
  explicit : Bool
  files : List String
deriving DecidableEq, Repr, Inhabited

namespace Options

def none : Options := ⟨"", "", "", "", false, []⟩

inductive Fault where
  | unknownFlag (arg : String)
  | missingValue (arg : String)
deriving DecidableEq, Repr

def Fault.message : Fault → String
  | unknownFlag arg => s!"unknown flag {arg}"
  | missingValue arg => s!"flag {arg} needs a value"

def standardInput : String := "-"

def isFlag (arg : String) : Bool :=
  arg ≠ standardInput && arg.toList.head? = some '-'

def flagParts (arg : String) : String × Option String :=
  let bare := arg.toList.dropWhile (· = '-')
  let name := bare.takeWhile (· ≠ '=')
  let value := match bare.drop name.length with
    | [] => Option.none
    | _ :: value => some (String.ofList value)
  (String.ofList name, value)

def set? (o : Options) (name value : String) : Option Options :=
  match name with
  | "format" => some { o with format := value }
  | "config" => some { o with config := value }
  | "cache" => some { o with cache := value }
  | "listen" => some { o with listen := value }
  | _ => Option.none

def readFrom (o : Options) : List String → Except Fault Options
  | [] => .ok o
  | arg :: rest =>
    if !isFlag arg then readFrom { o with files := o.files ++ [arg] } rest
    else
      let (name, value) := flagParts arg
      if name = "explicit" && value.isNone then readFrom { o with explicit := true } rest
      else if (o.set? name "").isNone then .error (.unknownFlag arg)
      else match value, rest with
        | some v, rest => readFrom ((o.set? name v).getD o) rest
        | Option.none, v :: rest => readFrom ((o.set? name v).getD o) rest
        | Option.none, [] => .error (.missingValue arg)

def read (args : List String) : Except Fault Options :=
  readFrom none args

end Options
end Cli
end DefTable
