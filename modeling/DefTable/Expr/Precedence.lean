import DefTable.Expr.Basic

/-!
# Precedence

Operators bind by level: juxtaposition binds tightest, an operator without a level of its own comes
next, and the loosest level is twelve.  Within a level everything associates to the left.  A chain
of operands and operators is resolved level by level, the tightest first, each time joining from the
left the neighbours of every operator of that level.
-/

namespace DefTable
namespace Operator

def applyLevel : Nat := 1

def unlistedLevel : Nat := 2

def maxLevel : Nat := 12

def levels : List (String × Nat) :=
  [("^", 3), ("*", 4), ("/", 4), ("%", 4), ("+", 5), ("-", 5), ("<<", 6), (">>", 6), ("&", 7),
   ("|", 8), (">=", 9), ("<=", 9), (">", 9), ("<", 9), ("==", 10), ("!=", 10), ("&&", 11),
   ("||", 12)]

def nameLevel (name : String) : Nat :=
  (levels.lookup name).getD unlistedLevel

def level : Operator → Nat
  | apply => applyLevel
  | named i => nameLevel i.name

end Operator

/-- Operands joined by operators, not yet grouped. -/
structure Chain where
  first : Expr
  rest : List (Operator × Expr)
deriving Inhabited

namespace Chain

def join (a : Chain) (op : Operator) (b : Chain) : Chain :=
  ⟨a.first, a.rest ++ (op, b.first) :: b.rest⟩

def operands (c : Chain) : List Expr :=
  c.first :: c.rest.map Prod.snd

/-- Join the operands of every operator of one level, from the left. -/
def pass (level : Nat) : Expr → List (Operator × Expr) → Chain
  | e, [] => ⟨e, []⟩
  | e, (op, right) :: rest =>
    if op.level = level then
      pass level (.binary e.token e op right) rest
    else
      let tail := pass level right rest
      ⟨e, (op, tail.first) :: tail.rest⟩

def resolve (c : Chain) : Expr :=
  ((List.range (Operator.maxLevel + 1)).foldl (fun c level => pass level c.first c.rest) c).first

end Chain

namespace Expr

/-- The operands and operators of an expression from left to right.  Anything but a binary
application is a single operand. -/
def chain : Expr → Chain
  | binary _ left op right => left.chain.join op right.chain
  | e => ⟨e, []⟩

inductive ChainFault where
  | missingOperand
deriving DecidableEq, Repr

def ChainFault.message : ChainFault → String
  | missingOperand => "binary operation does not have expression on either side"

/-- Regroup a chain of binary applications by precedence.  A chain with a missing operand has no
regrouped form. -/
def regroup (e : Expr) : Except ChainFault Expr :=
  let c := e.chain
  if !c.rest.isEmpty && c.operands.any isHole then .error .missingOperand
  else .ok c.resolve

end Expr
end DefTable
