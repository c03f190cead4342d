import DefTable.Token.Basic

/-!
# Diagnostics

A diagnostic is one reportable problem: a code, the token it is reported at, a message and the file.
-/

namespace DefTable
namespace Diagnostic

inductive Code where
  | unexpectedToken
  | malformedLiteral
  | illegalCharacter
  | unterminated
  | missingTerminator
  | duplicateName
  | unresolvedName
  | otherLowering
  | output
  /-- A code that the compiler itself does not use. -/
  | foreign (label : String)
deriving DecidableEq, Repr, Inhabited

namespace Code

def label : Code → String
  | unexpectedToken => "P001"
  | malformedLiteral => "P002"
  | illegalCharacter => "P003"
  | unterminated => "P004"
  | missingTerminator => "P005"
  | duplicateName => "C001"
  | unresolvedName => "C002"
  | otherLowering => "C003"
  | output => "D001"
  | foreign label => label

def title : Code → String
  | unexpectedToken => "syntax error"
  | malformedLiteral => "invalid literal"
  | illegalCharacter => "illegal character"
  | unterminated => "unterminated input"
  | missingTerminator => "syntax error"
  | duplicateName => "duplicate identifier"
  | unresolvedName => "unresolved identifier"
  | otherLowering => "compile error"
  | output => "i/o error"
  | foreign _ => "error"

def all : List Code :=
  [unexpectedToken, malformedLiteral, illegalCharacter, unterminated, missingTerminator,
   duplicateName, unresolvedName, otherLowering, output]

def ofLabel (label : String) : Code :=
  (all.find? fun c => c.label = label).getD (foreign label)

end Code
end Diagnostic

structure Diagnostic where
  code : Diagnostic.Code
  token : Token
  message : Text
  file : String
deriving DecidableEq, Repr, Inhabited

namespace Diagnostic

def within (path : String) (d : Diagnostic) : Diagnostic :=
  if d.file = "" then { d with file := path } else d

/-- The file and, for a token of a source text, its line and column. -/
def place (d : Diagnostic) : List String :=
  (if d.file = "" then [] else [d.file]) ++
    (if d.token.position.line = 0 then []
     else [toString d.token.position.line, toString d.token.position.column])

def text (d : Diagnostic) : Text :=
  let place := String.join (d.place.map (· ++ ":"))
  let gap := if place = "" then "" else " "
  Text.ofString (place ++ gap ++ d.code.title ++ " [" ++ d.code.label ++ "]: ") ++ d.message

end Diagnostic

inductive Report where
  | diagnostic (d : Diagnostic)
  | plain (message : Text)
deriving Repr, Inhabited

namespace Report

def text : Report → Text
  | diagnostic d => d.text
  | plain message => message

def isDiagnostic : Report → Bool
  | diagnostic _ => true
  | plain _ => false

def line : Report → Text
  | diagnostic d => d.text ++ [.char '\n']
  | plain message => Text.ofString "error: " ++ message ++ [.char '\n']

end Report

/-! ## Message templates -/

namespace Diagnostic

/-- Fill a template: each `%s` takes the next argument and `%%` is a percent sign.  Missing and left
over arguments are shown in the message. -/
def fill : List Char → List String → List Char
  | [], [] => []
  | [], args =>
    "%!(EXTRA ".toList ++ (", ".intercalate (args.map ("string=" ++ ·))).toList ++ [')']
  | '%' :: 's' :: rest, arg :: args => arg.toList ++ fill rest args
  | '%' :: 's' :: rest, [] => "%!s(MISSING)".toList ++ fill rest []
  | '%' :: '%' :: rest, args => '%' :: fill rest args
  | c :: rest, args => c :: fill rest args

def fillTemplate (template : String) (args : List String) : String :=
  if args.isEmpty then template else String.ofList (fill template.toList args)

end Diagnostic
end DefTable
