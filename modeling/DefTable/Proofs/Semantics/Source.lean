import DefTable.Expr.Basic
import DefTable.Proofs.Semantics.Value

/-!
# The meaning of programs

Names are bound lexically.  Declarations are evaluated on demand, in the scope that holds them, so
that they may refer to each other and to themselves; arguments and elements of lists are evaluated
at once, and of the branches of an `if` only the one that is taken.  Applications side by side are
one application to all the arguments.  An evaluation that gets stuck or does not end has no value.
-/

namespace DefTable
namespace Semantics
namespace Source

mutual

/-- One scope: declarations, which see each other, or the arguments of a function. -/
inductive Binding where
  | decls (ds : List Decl)
  | args (bound : List (String × Value Closure))

inductive Closure where
  | mk (params : List Ident) (body : Expr) (env : List Binding)

end

abbrev Env := List Binding

/-- What a name is bound to: a value, or a declaration with the scopes that hold it. -/
inductive Bound where
  | value (v : Value Closure)
  | decl (d : Decl) (env : Env)

def declared? (ds : List Decl) (name : String) : Option Decl :=
  ds.find? fun d => d.name.name = name

def find? : Env -> String -> Option Bound
  | [], _ => none
  | .decls ds :: outer, name =>
    match declared? ds name with
    | some d => some (.decl d (.decls ds :: outer))
    | none => find? outer name
  | .args bound :: outer, name =>
    match bound.lookup name with
    | some v => some (.value v)
    | none => find? outer name

/-- The binding that a name of the source denotes; names that start with `@` have none. -/
def binding? (env : Env) (name : String) : Option Bound :=
  if isGlobal name then none else find? env name

/-- The function of applications side by side, and its arguments. -/
def spine : Expr -> Expr × List Expr
  | .binary _ left .apply right => ((spine left).1, (spine left).2 ++ [right])
  | e => (e, [])

-- What evaluation calls again it calls under the same names from outside, so each function takes
-- the others at its own interpretation first.
mutual

def refer (I : Interpretation) (env : Env) (name : String) : Option (Value Closure) :=
  letI evalBody : Env -> List Ident -> Expr -> Option (Value Closure) := by apply evalBody; exact I
  match binding? env name with
  | some (.value v) => some v
  | some (.decl d outer) => evalBody outer d.params d.body
  | none => (I name).map .builtin
partial_fixpoint

def evalBody (I : Interpretation) (env : Env) (params : List Ident) (body : Expr) :
    Option (Value Closure) :=
  letI eval : Env -> Expr -> Option (Value Closure) := by apply eval; exact I
  if params.isEmpty then eval env body else some (.closure (.mk params body env))
partial_fixpoint

def eval (I : Interpretation) (env : Env) (e : Expr) : Option (Value Closure) :=
  letI refer : Env -> String -> Option (Value Closure) := by apply refer; exact I
  letI eval : Env -> Expr -> Option (Value Closure) := by apply eval; exact I
  letI apply : Value Closure -> List (Value Closure) -> Option (Value Closure) := by
    apply apply; exact I
  match e with
  | .hole => none
  | .ident i => refer env i.name
  | .number _ v => some (.number v)
  | .string _ v => some (.string v)
  | .bool _ v => some (.bool v)
  | .null _ => some .null
  | .group _ inner => eval env inner
  | .letIn _ name params value body => eval (.decls [⟨name, params, value⟩] :: env) body
  | .binary t left .apply right => do
    let (function, args) := spine (.binary t left .apply right)
    let f <- eval env function
    let vs <- args.mapM fun a => eval env a
    apply f vs
  | .binary _ left (.named op) right => do
    let f <- refer env op.name
    let a <- eval env left
    let b <- eval env right
    apply f [a, b]
  | .list _ es => do
    let vs <- es.mapM fun e => eval env e
    return .list vs
  | .cond _ test yes no => do
    match <- eval env test with
    | .bool true => eval env yes
    | .bool false => eval env no
    | _ => none
  | .lambda _ params body => some (.closure (.mk params body env))
partial_fixpoint

/-- Apply a function to at least as many arguments as it has parameters; the others are passed on to
what it returns. -/
def apply (I : Interpretation) (f : Value Closure) (args : List (Value Closure)) :
    Option (Value Closure) :=
  letI eval : Env -> Expr -> Option (Value Closure) := by apply eval; exact I
  letI apply : Value Closure -> List (Value Closure) -> Option (Value Closure) := by
    apply apply; exact I
  match f with
  | .builtin f => Value.applyBuiltin f args
  | .closure (.mk params body env) =>
    if args.length < params.length then none
    else do
      let result <- eval (.args ((params.map Ident.name).zip args) :: env) body
      let rest := args.drop params.length
      if rest.isEmpty then return result else apply result rest
  | _ => none
partial_fixpoint

end

def value? (I : Interpretation) (p : Program) (name : String) : Option (Value Closure) :=
  refer I [.decls p.decls] name

end Source
end Semantics
end DefTable
