import DefTable.Proofs.Expr.Erased
import Mathlib.Data.List.Forall2

/-!
# Expressions that differ only in how they are written

Two expressions are alike if they are the same up to tokens, and up to parentheses that make no
difference to what the expression is lowered to: those around a `let`, an `if` or a function,
because these forms are defined under an identifier of their own in any case.
-/

namespace DefTable

def Operator.name? : Operator -> Option String
  | .apply => none
  | .named i => some i.name

theorem name?_erased (op : Operator) : op.erased.name? = op.name? := by
  cases op <;> rfl

theorem map_name_erased (params : List Ident) :
    (params.map Ident.erased).map Ident.name = params.map Ident.name := by
  rw [List.map_map]
  rfl

namespace Expr

mutual

/-- The second expression is the first one with other tokens and perhaps with more parentheses. -/
inductive Alike : Expr -> Expr -> Prop where
  | hole : Alike .hole .hole
  | ident {i i'} : i.name = i'.name -> Alike (.ident i) (.ident i')
  | number {t t' v} : Alike (.number t v) (.number t' v)
  | string {t t' v} : Alike (.string t v) (.string t' v)
  | bool {t t' v} : Alike (.bool t v) (.bool t' v)
  | null {t t'} : Alike (.null t) (.null t')
  | group {t t' e e'} : Alike e e' -> Alike (.group t e) (.group t' e')
  | letIn {t t' name name' params params' value value' body body'} :
      name.name = name'.name -> params.map Ident.name = params'.map Ident.name ->
      Alike value value' -> Alike body body' ->
      Alike (.letIn t name params value body) (.letIn t' name' params' value' body')
  | binary {t t' left left' op op' right right'} :
      Alike left left' -> op.name? = op'.name? -> Alike right right' ->
      Alike (.binary t left op right) (.binary t' left' op' right')
  | list {t t' es es'} : AllAlike es es' -> Alike (.list t es) (.list t' es')
  | cond {t t' test test' yes yes' no no'} :
      Alike test test' -> Alike yes yes' -> Alike no no' ->
      Alike (.cond t test yes no) (.cond t' test' yes' no')
  | lambda {t t' params params' body body'} :
      params.map Ident.name = params'.map Ident.name -> Alike body body' ->
      Alike (.lambda t params body) (.lambda t' params' body')
  | enclosed {t e e'} : e.isOpenEnded = true -> Alike e e' -> Alike e (.group t e')

inductive AllAlike : List Expr -> List Expr -> Prop where
  | nil : AllAlike [] []
  | cons {e e' es es'} : Alike e e' -> AllAlike es es' -> AllAlike (e :: es) (e' :: es')

end

mutual

theorem alike_erased : (e : Expr) -> e.erased.Alike e
  | .hole => .hole
  | .ident _ => .ident rfl
  | .number _ _ => .number
  | .string _ _ => .string
  | .bool _ _ => .bool
  | .null _ => .null
  | .group _ e => .group (alike_erased e)
  | .letIn _ _ params value body =>
      .letIn rfl (map_name_erased params) (alike_erased value) (alike_erased body)
  | .binary _ left op right =>
      .binary (alike_erased left) (name?_erased op) (alike_erased right)
  | .list _ es => .list (allAlike_erased es)
  | .cond _ test yes no => .cond (alike_erased test) (alike_erased yes) (alike_erased no)
  | .lambda _ params body => .lambda (map_name_erased params) (alike_erased body)

theorem allAlike_erased : (es : List Expr) -> AllAlike (allErased es) es
  | [] => .nil
  | e :: es => .cons (alike_erased e) (allAlike_erased es)

end

end Expr

structure Decl.Alike (d d' : Decl) : Prop where
  name : d.name.name = d'.name.name
  params : d.params.map Ident.name = d'.params.map Ident.name
  body : d.body.Alike d'.body

theorem Decl.alike_erased (d : Decl) : d.erased.Alike d :=
  ⟨rfl, map_name_erased d.params, d.body.alike_erased⟩

end DefTable
