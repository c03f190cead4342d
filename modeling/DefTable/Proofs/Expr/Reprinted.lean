import DefTable.Proofs.Expr.Written

/-!
# Printing what is written

The text of an expression does not depend on its tokens.  The parentheses that minimal printing adds
are written like those that were there before, and they leave nothing to be added: what is written
has the text of the expression itself.
-/

namespace DefTable
namespace Source

/-!
## Tokens
-/

theorem operator_erased (op : Operator) : operator op.erased = operator op := by
  cases op <;> rfl

theorem header_erased (name : Ident) (params : List Ident) :
    header name.erased (params.map Ident.erased) = header name params := by
  rw [header, header, List.map_map]
  rfl

theorem parameters_erased (params : List Ident) :
    parameters (params.map Ident.erased) = parameters params := by
  rw [parameters, parameters, List.map_map]
  rfl

mutual

theorem expr_erased (style : Style) (level : Nat) (onRight : Bool) :
    (e : Expr) -> expr style level onRight e.erased = expr style level onRight e
  | .hole => rfl
  | .ident _ => rfl
  | .number _ _ => rfl
  | .string _ _ => rfl
  | .bool _ _ => rfl
  | .null _ => rfl
  | .group _ e => by rw [Expr.erased, expr, expr, expr_erased style topLevel false e]
  | .list _ es => by rw [Expr.erased, expr, expr, elements_erased style es]
  | .letIn _ name params value body => by
      rw [Expr.erased, expr, expr, header_erased, expr_erased style topLevel false value,
        expr_erased style topLevel false body]
  | .cond _ test yes no => by
      rw [Expr.erased, expr, expr, expr_erased style topLevel false test,
        expr_erased style topLevel false yes, expr_erased style topLevel false no]
  | .lambda _ params body => by
      rw [Expr.erased, expr, expr, parameters_erased, expr_erased style topLevel false body]
  | .binary _ left op right => by
      rw [Expr.erased, expr, expr, operator_erased, op.erased_level,
        expr_erased style op.level false left, expr_erased style op.level true right]

theorem elements_erased (style : Style) :
    (es : List Expr) -> elements style (Expr.allErased es) = elements style es
  | [] => rfl
  | [e] => expr_erased style topLevel false e
  | e :: e' :: es => by
      show expr style topLevel false e.erased ++ ", " ++
          elements style (Expr.allErased (e' :: es)) =
        expr style topLevel false e ++ ", " ++ elements style (e' :: es)
      rw [expr_erased style topLevel false e, elements_erased style (e' :: es)]

end

/-!
## Parentheses
-/

theorem expr_enclosed
    {needed : Bool} {level : Nat} {onRight : Bool} {e : Expr} {s : String}
    (hwhole : expr .minimal topLevel false e = s)
    (hbare : needed = false -> expr .minimal level onRight e = s) :
    expr .minimal level onRight (enclosed needed e) = parenthesised needed s := by
  cases needed with
  | true =>
      show "(" ++ expr .minimal topLevel false e ++ ")" = "(" ++ s ++ ")"
      rw [hwhole]
  | false => exact hbare rfl

theorem expr_binary
    {level : Nat} {onRight : Bool} {t : Token} {left right : Expr} {op : Operator}
    (hbare : isEnclosed .minimal level onRight op = false) :
    expr .minimal level onRight (.binary t left op right) =
      expr .minimal op.level false left ++ operator op ++ expr .minimal op.level true right := by
  rw [expr]
  change parenthesised (isEnclosed .minimal level onRight op) _ = _
  rw [hbare]
  rfl

theorem not_isEnclosed_top (op : Operator) : isEnclosed .minimal topLevel false op = false :=
  not_isEnclosed (Nat.le_succ_of_le op.level_le) fun h => absurd h Bool.false_ne_true

mutual

theorem expr_written (level : Nat) (onRight : Bool) :
    (e : Expr) -> expr .minimal level onRight (written .minimal level onRight e) =
      expr .minimal level onRight e
  | .hole => rfl
  | .ident _ => rfl
  | .number _ _ => rfl
  | .string _ _ => rfl
  | .bool _ _ => rfl
  | .null _ => rfl
  | .group _ e => by rw [written, expr, expr, expr_written topLevel false e]
  | .list _ es => by rw [written, expr, expr, elements_written es]
  | .letIn _ name params value body => by
      have htext : "let " ++ header name.erased (params.map Ident.erased) ++
            expr .minimal topLevel false (written .minimal topLevel false value) ++ " in " ++
            expr .minimal topLevel false (written .minimal topLevel false body) =
          "let " ++ header name params ++ expr .minimal topLevel false value ++ " in " ++
            expr .minimal topLevel false body := by
        rw [header_erased, expr_written topLevel false value, expr_written topLevel false body]
      rw [written, expr]
      refine expr_enclosed htext fun hbare => ?_
      rw [expr, hbare]
      exact htext
  | .cond _ test yes no => by
      have htext : "if " ++ expr .minimal topLevel false (written .minimal topLevel false test) ++
            " then " ++ expr .minimal topLevel false (written .minimal topLevel false yes) ++
            " else " ++ expr .minimal topLevel false (written .minimal topLevel false no) =
          "if " ++ expr .minimal topLevel false test ++ " then " ++
            expr .minimal topLevel false yes ++ " else " ++ expr .minimal topLevel false no := by
        rw [expr_written topLevel false test, expr_written topLevel false yes,
          expr_written topLevel false no]
      rw [written, expr]
      refine expr_enclosed htext fun hbare => ?_
      rw [expr, hbare]
      exact htext
  | .lambda _ params body => by
      have htext : "\\" ++ parameters (params.map Ident.erased) ++ " -> " ++
            expr .minimal topLevel false (written .minimal topLevel false body) =
          "\\" ++ parameters params ++ " -> " ++ expr .minimal topLevel false body := by
        rw [parameters_erased, expr_written topLevel false body]
      rw [written, expr]
      refine expr_enclosed htext fun hbare => ?_
      rw [expr, hbare]
      exact htext
  | .binary _ left op right => by
      have htext : expr .minimal op.level false (written .minimal op.level false left) ++
            operator op ++ expr .minimal op.level true (written .minimal op.level true right) =
          expr .minimal op.level false left ++ operator op ++
            expr .minimal op.level true right := by
        rw [expr_written op.level false left, expr_written op.level true right]
      have hjoined : forall level' onRight', isEnclosed .minimal level' onRight' op = false ->
          expr .minimal level' onRight' (.binary .absent (written .minimal op.level false left)
            op.erased (written .minimal op.level true right)) =
          expr .minimal op.level false left ++ operator op ++
            expr .minimal op.level true right := by
        intro level' onRight' hbare
        have herased : isEnclosed .minimal level' onRight' op.erased = false := by
          rw [isEnclosed, op.erased_level]
          exact hbare
        rw [expr_binary herased, op.erased_level, operator_erased]
        exact htext
      rw [written, expr]
      exact expr_enclosed (hjoined _ _ (not_isEnclosed_top op)) (hjoined _ _)

theorem elements_written :
    (es : List Expr) -> elements .minimal (allWritten .minimal es) = elements .minimal es
  | [] => rfl
  | [e] => expr_written topLevel false e
  | e :: e' :: es => by
      show expr .minimal topLevel false (written .minimal topLevel false e) ++ ", " ++
          elements .minimal (allWritten .minimal (e' :: es)) =
        expr .minimal topLevel false e ++ ", " ++ elements .minimal (e' :: es)
      rw [expr_written topLevel false e, elements_written (e' :: es)]

end

end Source
end DefTable
