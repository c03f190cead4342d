import DefTable.Diagnostic

/-!
# Faults of the source text

Each way in which tokens fail to be a declaration, with the code, the place and the wording it is
reported with.
-/

namespace DefTable
namespace Parse

inductive Expectation where
  | name
  | expression
  | token (kind : Token.Kind)
deriving DecidableEq, Repr

def Expectation.text : Expectation → String
  | name => "a name"
  | expression => "an expression"
  | token .keyIn => "'in'"
  | token .keyThen => "'then'"
  | token .keyElse => "'else'"
  | token kind => "'" ++ kind.label ++ "'"

inductive Fault where
  | noTokens
  | expected (what : Expectation) (found : Token)
  | globalName (name : Token)
  | tooDeep (place : Token)
  | noParameter (place : Token)
  | unclosed (bracket : Token)
  | illegal (token : Token) (fault : Token.Fault)
deriving DecidableEq, Repr

def describe (t : Token) : Text :=
  match t.kind with
  | .endOfInput => "end of input"
  | .illegal _ => "invalid token"
  | _ => .char '\'' :: t.lexeme ++ [.char '\'']

def looksLikeLiteral (t : Token) : Bool :=
  t.lexeme.head?.any fun g => g = .char '"' || g.toChar.isDigit

namespace Fault

def token : Fault → Token
  | noTokens => .absent
  | expected _ found => found
  | globalName name => name
  | tooDeep place => place
  | noParameter place => place
  | unclosed bracket => bracket
  | illegal token _ => token

def code : Fault → Diagnostic.Code
  | expected (.token .semicolon) _ => .missingTerminator
  | unclosed _ => .unterminated
  | illegal token fault =>
    if "unterminated".isPrefixOf fault.message then .unterminated
    else if looksLikeLiteral token then .malformedLiteral
    else .illegalCharacter
  | _ => .unexpectedToken

def message (f : Fault) : Text :=
  match f with
  | noTokens => "no tokens to parse"
  | expected what found => Text.ofString ("expected " ++ what.text ++ ", got ") ++ describe found
  | globalName name => Text.ofString "cannot declare global name " ++ name.lexeme
  | tooDeep _ => "expression nested too deeply"
  | noParameter _ => "lambda needs at least one parameter"
  | unclosed bracket => Text.ofString "unclosed " ++ bracket.lexeme
  | illegal token fault =>
    if f.code = .malformedLiteral then token.lexeme ++ Text.ofString (": " ++ fault.message)
    else fault.message

def diagnostic (f : Fault) : Diagnostic :=
  ⟨f.code, f.token, f.message, ""⟩

end Fault
end Parse
end DefTable
