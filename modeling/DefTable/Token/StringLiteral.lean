import DefTable.Text.Quoted

/-!
# String literals

A string literal stands between double quotes.  A backslash makes `n`, `t` and `r` into a newline, a
tab and a carriage return, and any other character into itself.  Stray bytes become U+FFFD in the
value.
-/

namespace DefTable
namespace StringLiteral

inductive Fault where
  | missingQuotes
  | danglingEscape
deriving DecidableEq, Repr

structure Error where
  literal : Text
  fault : Fault
deriving DecidableEq, Repr

def Fault.message : Fault → String
  | missingQuotes => "missing quotes"
  | danglingEscape => "dangling escape"

def Error.message (e : Error) : String :=
  s!"string {Quoted.text e.literal}: {e.fault.message}"

def escaped : Char → Char
  | 'n' => '\n'
  | 't' => '\t'
  | 'r' => '\r'
  | c => c

def unescape : Text → Option (List Char)
  | [] => some []
  | .char '\\' :: [] => none
  | .char '\\' :: g :: rest => (unescape rest).map (escaped g.toChar :: ·)
  | g :: rest => (unescape rest).map (g.toChar :: ·)

def content? : Text → Option Text
  | .char '"' :: rest => if rest.getLast? = some (.char '"') then some rest.dropLast else none
  | _ => none

def read (literal : Text) : Except Error String :=
  match content? literal with
  | none => .error ⟨literal, .missingQuotes⟩
  | some body =>
    match unescape body with
    | none => .error ⟨literal, .danglingEscape⟩
    | some cs => .ok (String.ofList cs)

def writeChar : Char → List Char
  | '"' => ['\\', '"']
  | '\\' => ['\\', '\\']
  | '\n' => ['\\', 'n']
  | '\t' => ['\\', 't']
  | '\r' => ['\\', 'r']
  | c => [c]

def write (s : String) : String :=
  String.ofList ('"' :: s.toList.flatMap writeChar ++ ['"'])

end StringLiteral
end DefTable
