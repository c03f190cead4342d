import DefTable.Token.Numeral
import DefTable.Token.StringLiteral

/-!
# Tokens

A token is a stretch of source text with its kind and the place where it starts.  Lines and columns
count from one, a column being a character and not a byte.
-/

namespace DefTable

structure Position where
  line : Nat
  column : Nat
deriving DecidableEq, Repr, Inhabited

namespace Position

def start : Position := ⟨1, 1⟩

def nowhere : Position := ⟨0, 0⟩

def step (p : Position) (g : Glyph) : Position :=
  if g.toChar = '\n' then ⟨p.line + 1, 1⟩ else ⟨p.line, p.column + 1⟩

def after (p : Position) (t : Text) : Position :=
  t.foldl step p

end Position

namespace Token

inductive Fault where
  | unterminatedString
  | unterminatedName
  | missingName
  | loneAt
  | unexpected (c : Char)
  | numeral (error : Numeral.Error)
  | string (error : StringLiteral.Error)
  | stated (reason : String)
deriving DecidableEq, Repr

def Fault.message : Fault → String
  | unterminatedString => "unterminated string"
  | unterminatedName => "unterminated infix name, expected '`'"
  | missingName => "expected a name after '`'"
  | loneAt => "'@' must be followed by a name"
  | unexpected c => String.append "unexpected character " (String.singleton c)
  | numeral error => error.message
  | string error => error.message
  | stated reason => reason

inductive Kind where
  | illegal (fault : Fault)
  | endOfInput
  | name
  | number (value : Number)
  | string (value : String)
  | operator
  | quotedName (name : String)
  | assign
  | arrow
  | backslash
  | comma
  | semicolon
  | openParen
  | closeParen
  | openBracket
  | closeBracket
  | keyLet
  | keyIn
  | keyIf
  | keyThen
  | keyElse
  | keyTrue
  | keyFalse
  | keyNull
  | unknown (label : String)
deriving DecidableEq, Repr, Inhabited

namespace Kind

def label : Kind → String
  | illegal _ => "ILLEGAL"
  | endOfInput => "EOF"
  | name => "IDENT"
  | number _ => "NUMBER"
  | string _ => "STRING"
  | operator => "OPERATOR"
  | quotedName _ => "INFIX"
  | assign => "="
  | arrow => "->"
  | backslash => "\\"
  | comma => ","
  | semicolon => ";"
  | openParen => "("
  | closeParen => ")"
  | openBracket => "["
  | closeBracket => "]"
  | keyLet => "LET"
  | keyIn => "IN"
  | keyIf => "IF"
  | keyThen => "THEN"
  | keyElse => "ELSE"
  | keyTrue => "TRUE"
  | keyFalse => "FALSE"
  | keyNull => "NULL"
  | unknown label => label

def keywords : List (String × Kind) :=
  [("let", keyLet), ("in", keyIn), ("if", keyIf), ("then", keyThen), ("else", keyElse),
   ("true", keyTrue), ("false", keyFalse), ("null", keyNull)]

def ofWord (word : String) : Kind :=
  (keywords.lookup word).getD name

def punctuation : List Kind :=
  [assign, arrow, backslash, comma, semicolon, openParen, closeParen, openBracket, closeBracket]

def punctuation? (spelling : String) : Option Kind :=
  punctuation.find? fun k => k.label = spelling

end Kind

end Token

structure Token where
  kind : Token.Kind
  lexeme : Text
  position : Position
deriving DecidableEq, Repr, Inhabited

namespace Token

def spelling (t : Token) : String :=
  t.lexeme.toString

def synthetic (kind : Kind) (lexeme : String) (position : Position) : Token :=
  ⟨kind, lexeme, position⟩

def endAt (p : Position) : Token :=
  ⟨.endOfInput, [], p⟩

def absent : Token :=
  ⟨.unknown "", [], .nowhere⟩

def describe (t : Token) : String :=
  s!"{t.kind.label}({Quoted.text t.lexeme}) at {t.position.line}:{t.position.column}"

end Token
end DefTable
