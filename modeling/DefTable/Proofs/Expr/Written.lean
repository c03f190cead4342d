import DefTable.Expr.Source
import DefTable.Proofs.Expr.Erased

/-!
# What printing writes

Printing an expression adds parentheses where the place asks for them.  The expression with these
parentheses, and without tokens, is what reading the text has to give back.  It is ordered, whatever
the expression was: where an operator stands in a place that is too tight for it, there are
parentheses around it.
-/

namespace DefTable
namespace Source

def enclosed (needed : Bool) (e : Expr) : Expr :=
  if needed then .group .absent e else e

def isEnclosed (style : Style) (level : Nat) (onRight : Bool) (op : Operator) : Bool :=
  style = .explicit || level < op.level || (level = op.level && onRight)

theorem not_isEnclosed
    {op : Operator} {level : Nat} {onRight : Bool} (hlevel : op.level ≤ level)
    (hright : onRight = true -> op.level < level) :
    isEnclosed .minimal level onRight op = false := by
  unfold isEnclosed
  rw [decide_eq_false (Nat.not_lt.mpr hlevel)]
  cases onRight with
  | false => rw [Bool.and_false]; rfl
  | true => rw [decide_eq_false (Nat.ne_of_gt (hright rfl))]; rfl

mutual

/-- The expression as it is written at a place of the given level, on the right of an operator or
not, without tokens. -/
def written (style : Style) (level : Nat) (onRight : Bool) : Expr -> Expr
  | .hole => .hole
  | .ident i => .ident i.erased
  | .number _ v => .number .absent v
  | .string _ v => .string .absent v
  | .bool _ v => .bool .absent v
  | .null _ => .null .absent
  | .group _ e => .group .absent (written style topLevel false e)
  | .list _ es => .list .absent (allWritten style es)
  | .letIn _ name params value body =>
      enclosed (level ≤ Operator.maxLevel)
        (.letIn .absent name.erased (params.map Ident.erased) (written style topLevel false value)
          (written style topLevel false body))
  | .cond _ test yes no =>
      enclosed (level ≤ Operator.maxLevel)
        (.cond .absent (written style topLevel false test) (written style topLevel false yes)
          (written style topLevel false no))
  | .lambda _ params body =>
      enclosed (level ≤ Operator.maxLevel)
        (.lambda .absent (params.map Ident.erased) (written style topLevel false body))
  | .binary _ left op right =>
      enclosed (isEnclosed style level onRight op)
        (.binary .absent (written style op.level false left) op.erased
          (written style op.level true right))

def allWritten (style : Style) : List Expr -> List Expr
  | [] => []
  | e :: es => written style topLevel false e :: allWritten style es

end

/-!
## Nesting of what is written
-/

def deeper (needed : Bool) (n : Nat) : Nat :=
  if needed then n + 1 else n

mutual

/-- How deep the expressions inside of a written expression nest. -/
def nesting (style : Style) (level : Nat) (onRight : Bool) : Expr -> Nat
  | .group _ e => nesting style topLevel false e + 1
  | .list _ es => nestingOfAll style es
  | .letIn _ _ _ value body =>
      deeper (level ≤ Operator.maxLevel)
        (max (nesting style topLevel false value) (nesting style topLevel false body) + 1)
  | .cond _ test yes no =>
      deeper (level ≤ Operator.maxLevel)
        (max (nesting style topLevel false test)
          (max (nesting style topLevel false yes) (nesting style topLevel false no)) + 1)
  | .lambda _ _ body =>
      deeper (level ≤ Operator.maxLevel) (nesting style topLevel false body + 1)
  | .binary _ left op right =>
      deeper (isEnclosed style level onRight op)
        (max (nesting style op.level false left) (nesting style op.level true right))
  | _ => 0

def nestingOfAll (style : Style) : List Expr -> Nat
  | [] => 0
  | e :: es => max (nesting style topLevel false e + 1) (nestingOfAll style es)

end

/-!
## What is written is ordered
-/

theorem looseness_enclosed (needed : Bool) (e : Expr) :
    (enclosed needed e).looseness = if needed then 0 else e.looseness := by
  cases needed <;> rfl

theorem looseness_enclosed_zero {needed : Bool} {e : Expr} (h : e.looseness = 0) :
    (enclosed needed e).looseness = 0 := by
  rw [looseness_enclosed, h, ite_self]

theorem token_enclosed {needed : Bool} {e : Expr} (h : e.token = .absent) :
    (enclosed needed e).token = .absent := by
  cases needed with
  | true => rfl
  | false => exact h

theorem ordered_enclosed {needed : Bool} {e : Expr} (h : e.Ordered) :
    (enclosed needed e).Ordered := by
  cases needed with
  | true => trivial
  | false => exact h

theorem leftmost_enclosed {needed : Bool} {e : Expr} (h : e.Leftmost) :
    (enclosed needed e).Leftmost := by
  cases needed with
  | true => trivial
  | false => exact h

theorem looseness_written
    (style : Style) {level : Nat} (hlevel : 0 < level) (e : Expr) :
    (written style level false e).looseness ≤ level ∧
      (written style level true e).looseness < level := by
  cases e with
  | binary t left op right =>
      rw [written, written, looseness_enclosed, looseness_enclosed, Expr.looseness, op.erased_level]
      simp only [isEnclosed, Bool.and_false, Bool.or_false, Bool.and_true]
      constructor
      · split
        · exact Nat.zero_le level
        · rename_i hneeded
          simp only [Bool.or_eq_true, decide_eq_true_eq, not_or, Nat.not_lt] at hneeded
          exact hneeded.2
      · split
        · exact hlevel
        · rename_i hneeded
          simp only [Bool.or_eq_true, decide_eq_true_eq, not_or, Nat.not_lt] at hneeded
          omega
  | letIn t name params value body =>
      rw [written, written, looseness_enclosed_zero rfl]
      exact ⟨Nat.zero_le _, hlevel⟩
  | cond t test yes no =>
      rw [written, written, looseness_enclosed_zero rfl]
      exact ⟨Nat.zero_le _, hlevel⟩
  | lambda t params body =>
      rw [written, written, looseness_enclosed_zero rfl]
      exact ⟨Nat.zero_le _, hlevel⟩
  | _ => exact ⟨Nat.zero_le _, hlevel⟩

theorem token_written (style : Style) (level : Nat) (onRight : Bool) (e : Expr) :
    (written style level onRight e).token = .absent := by
  cases e with
  | letIn t name params value body => exact token_enclosed rfl
  | cond t test yes no => exact token_enclosed rfl
  | lambda t params body => exact token_enclosed rfl
  | binary t left op right => exact token_enclosed rfl
  | _ => rfl

theorem ordered_joined
    (style : Style) {left right : Expr} (op : Operator)
    (hleft : (written style op.level false left).Ordered)
    (hright : (written style op.level true right).Ordered) :
    (Expr.binary .absent (written style op.level false left) op.erased
      (written style op.level true right)).Ordered := by
  refine ⟨hleft, hright, ?_, ?_⟩
  · rw [op.erased_level]
    exact (looseness_written style op.level_pos left).1
  · rw [op.erased_level]
    exact (looseness_written style op.level_pos right).2

theorem ordered_written (style : Style) (level : Nat) (onRight : Bool) (e : Expr) :
    (written style level onRight e).Ordered := by
  induction e using Expr.chainInduction generalizing level onRight with
  | atomic e he =>
      cases e with
      | binary t left op right =>
          exact absurd (congrArg Chain.rest he) (Expr.chain_rest_ne_nil t left op right)
      | letIn t name params value body => exact ordered_enclosed trivial
      | cond t test yes no => exact ordered_enclosed trivial
      | lambda t params body => exact ordered_enclosed trivial
      | _ => trivial
  | binary t left op right ihleft ihright =>
      exact ordered_enclosed (ordered_joined style op (ihleft _ _) (ihright _ _))

theorem leftmost_written (style : Style) (level : Nat) (onRight : Bool) (e : Expr) :
    (written style level onRight e).Leftmost := by
  induction e using Expr.chainInduction generalizing level onRight with
  | atomic e he =>
      cases e with
      | binary t left op right =>
          exact absurd (congrArg Chain.rest he) (Expr.chain_rest_ne_nil t left op right)
      | letIn t name params value body => exact leftmost_enclosed trivial
      | cond t test yes no => exact leftmost_enclosed trivial
      | lambda t params body => exact leftmost_enclosed trivial
      | _ => trivial
  | binary t left op right ihleft ihright =>
      exact leftmost_enclosed ⟨(token_written style _ _ left).symm, ihleft _ _, ihright _ _⟩

/-!
## Apart from parentheses, what is written is the expression
-/

theorem ungrouped_enclosed (needed : Bool) (e : Expr) :
    (enclosed needed e).ungrouped = e.ungrouped := by
  cases needed <;> rfl

mutual

theorem ungrouped_written (style : Style) (level : Nat) (onRight : Bool) :
    (e : Expr) -> (written style level onRight e).ungrouped = e.erased.ungrouped
  | .hole => rfl
  | .ident _ => rfl
  | .number _ _ => rfl
  | .string _ _ => rfl
  | .bool _ _ => rfl
  | .null _ => rfl
  | .group _ e => ungrouped_written style topLevel false e
  | .list _ es => by
      rw [written, Expr.erased, Expr.ungrouped, Expr.ungrouped, allUngrouped_allWritten style es]
  | .letIn _ name params value body => by
      rw [written, ungrouped_enclosed, Expr.erased, Expr.ungrouped, Expr.ungrouped,
        ungrouped_written style topLevel false value, ungrouped_written style topLevel false body]
  | .cond _ test yes no => by
      rw [written, ungrouped_enclosed, Expr.erased, Expr.ungrouped, Expr.ungrouped,
        ungrouped_written style topLevel false test, ungrouped_written style topLevel false yes,
        ungrouped_written style topLevel false no]
  | .lambda _ params body => by
      rw [written, ungrouped_enclosed, Expr.erased, Expr.ungrouped, Expr.ungrouped,
        ungrouped_written style topLevel false body]
  | .binary _ left op right => by
      rw [written, ungrouped_enclosed, Expr.erased, Expr.ungrouped, Expr.ungrouped,
        ungrouped_written style op.level false left, ungrouped_written style op.level true right]

theorem allUngrouped_allWritten (style : Style) :
    (es : List Expr) ->
      Expr.allUngrouped (allWritten style es) = Expr.allUngrouped (Expr.allErased es)
  | [] => rfl
  | e :: es => by
      rw [allWritten, Expr.allErased, Expr.allUngrouped, Expr.allUngrouped,
        ungrouped_written style topLevel false e, allUngrouped_allWritten style es]

end

end Source
end DefTable
