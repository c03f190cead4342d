import DefTable.Expr.Precedence

/-!
# Writing source text

An expression is written with the parentheses that its shape needs: around an application that binds
looser than the place it stands in, around an equally loose one on the right, and around `let`, `if`
and functions wherever they are an operand.  In explicit style every application is parenthesised.
-/

namespace DefTable
namespace Source

inductive Style where
  | minimal
  | explicit
deriving DecidableEq, Repr

def isWordChar (c : Char) : Bool :=
  c.isAlphanum || c == '_'

def isWord (name : String) : Bool :=
  let body := match name.toList with
    | '@' :: rest => rest
    | cs => cs
  !body.isEmpty && body.all isWordChar

def parenthesised (needed : Bool) (s : String) : String :=
  if needed then "(" ++ s ++ ")" else s

def reference (name : String) : String :=
  parenthesised (!isWord name) name

def operator : Operator → String
  | .apply => " "
  | .named i => if isWord i.name then " `" ++ i.name ++ "` " else " " ++ i.name ++ " "

def topLevel : Nat := Operator.maxLevel + 1

def header (name : Ident) (params : List Ident) : String :=
  name.name ++ String.join (params.map fun p => " " ++ p.name) ++ " = "

def parameters (params : List Ident) : String :=
  " ".intercalate (params.map Ident.name)

mutual

/-- An expression at a place of the given level, on the right of an operator or not. -/
def expr (style : Style) (level : Nat) (onRight : Bool) : Expr → String
  | .hole => "<???>"
  | .ident i => reference i.name
  | .number _ v => v.text
  | .string _ v => StringLiteral.write v
  | .bool _ v => if v then "true" else "false"
  | .null _ => "null"
  | .group _ e => "(" ++ expr style topLevel false e ++ ")"
  | .list _ es => "[" ++ elements style es ++ "]"
  | .letIn _ name params value body =>
    parenthesised (level ≤ Operator.maxLevel)
      ("let " ++ header name params ++ expr style topLevel false value ++ " in " ++
        expr style topLevel false body)
  | .cond _ test yes no =>
    parenthesised (level ≤ Operator.maxLevel)
      ("if " ++ expr style topLevel false test ++ " then " ++ expr style topLevel false yes ++
        " else " ++ expr style topLevel false no)
  | .lambda _ params body =>
    parenthesised (level ≤ Operator.maxLevel)
      ("\\" ++ parameters params ++ " -> " ++ expr style topLevel false body)
  | .binary _ left op right =>
    parenthesised (style = .explicit || level < op.level || (level = op.level && onRight))
      (expr style op.level false left ++ operator op ++ expr style op.level true right)

def elements (style : Style) : List Expr → String
  | [] => ""
  | [e] => expr style topLevel false e
  | e :: es => expr style topLevel false e ++ ", " ++ elements style es

end

def print (style : Style) (e : Expr) : String :=
  expr style topLevel false e

def decl (style : Style) (d : Decl) : String :=
  header d.name d.params ++ print style d.body

def program (style : Style) (p : Program) : String :=
  "\n".intercalate (p.decls.map fun d => decl style d ++ ";")

end Source
end DefTable
