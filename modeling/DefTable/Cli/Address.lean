/-!
# Addresses to serve at

An address is a host and a port with a colon between them.
-/

namespace DefTable
namespace Cli

structure Address where
  host : String
  port : Nat
deriving DecidableEq, Repr

namespace Address

inductive Fault where
  | missingPort (address : String)
  | tooManyColons (address : String)
  | unknownPort (port : String)
  | badPort (port : String)
deriving DecidableEq, Repr

def Fault.message : Fault → String
  | missingPort address => s!"listen tcp: address {address}: missing port in address"
  | tooManyColons address => s!"listen tcp: address {address}: too many colons in address"
  | unknownPort port => s!"listen tcp: lookup tcp/{port}: unknown port"
  | badPort port => s!"listen tcp: address {port}: invalid port"

def portLimit : Nat := 65535

def portNumber (text : String) : Except Fault Nat :=
  if !text.toList.all Char.isDigit then .error (.unknownPort text)
  else
    let n := text.toList.foldl (fun n c => n * 10 + (c.toNat - '0'.toNat)) 0
    if n ≤ portLimit then .ok n else .error (.badPort text)

def ofString (s : String) : Except Fault Address :=
  let colons := (s.toList.filter (· = ':')).length
  if colons = 0 then .error (.missingPort s)
  else if colons > 1 then .error (.tooManyColons s)
  else
    let host := s.toList.takeWhile (· ≠ ':')
    let port := s.toList.drop (host.length + 1)
    (portNumber (String.ofList port)).map fun n => ⟨String.ofList host, n⟩

def shown (a : Address) : String :=
  let host := match a.host with
    | "localhost" => "127.0.0.1"
    | "" => "[::]"
    | host => host
  s!"{host}:{a.port}"

end Address
end Cli
end DefTable
