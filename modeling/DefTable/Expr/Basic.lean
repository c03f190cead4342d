import DefTable.Token.Basic

/-!
# Expressions and programs

Every node keeps the token it is reported at.  A `hole` stands where an expression is missing; the
parser never leaves one.  Parentheses of the source are kept as `group` nodes, which the rules of
precedence do not look into.
-/

namespace DefTable

structure Ident where
  token : Token
  name : String
deriving DecidableEq, Repr, Inhabited

/-- How two expressions are joined: side by side, or by a named operator. -/
inductive Operator where
  | apply
  | named (ident : Ident)
deriving DecidableEq, Repr, Inhabited

inductive Expr where
  | hole
  | ident (ident : Ident)
  | number (token : Token) (value : Number)
  | string (token : Token) (value : String)
  | bool (token : Token) (value : Bool)
  | null (token : Token)
  | group (token : Token) (inner : Expr)
  | letIn (token : Token) (name : Ident) (params : List Ident) (value body : Expr)
  | binary (token : Token) (left : Expr) (op : Operator) (right : Expr)
  | list (token : Token) (elements : List Expr)
  | cond (token : Token) (test yes no : Expr)
  | lambda (token : Token) (params : List Ident) (body : Expr)
deriving Repr, Inhabited

structure Decl where
  name : Ident
  params : List Ident
  body : Expr
deriving Repr, Inhabited

structure Program where
  file : String
  decls : List Decl
deriving Repr, Inhabited

namespace Expr

def token : Expr → Token
  | hole => .absent
  | ident i => i.token
  | number t _ => t
  | string t _ => t
  | bool t _ => t
  | null t => t
  | group t _ => t
  | letIn t .. => t
  | binary t .. => t
  | list t _ => t
  | cond t .. => t
  | lambda t .. => t

def isHole : Expr → Bool
  | hole => true
  | _ => false

def isOpenEnded : Expr → Bool
  | letIn .. => true
  | cond .. => true
  | lambda .. => true
  | _ => false

end Expr

namespace Decl

def isFunction (d : Decl) : Bool :=
  !d.params.isEmpty

end Decl

namespace Program

def firstSpelling (p : Program) : String :=
  (p.decls.head?.map fun d => d.name.token.spelling).getD ""

end Program
end DefTable
