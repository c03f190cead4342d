import DefTable.Proofs.Expr.Plain
import DefTable.Proofs.Grammar.Acceptance

/-!
# Programs are resolved

Every chain of operands is resolved when it is read, and the forms that stand as operands were read
before.  So all applications in an expression that was read are ordered, at any depth.
-/

namespace DefTable
namespace Grammar

open DefTable.Expr (Resolved AllResolved)

attribute [local irreducible] Chain.resolve

section

variable {n : Nat} (hE : forall ts e, Derives n ts e -> e.Resolved)
include hE

theorem elements_resolved
    {ts : List Token} {es : List Expr} (h : Elements (Derives n) ts es) : AllResolved es := by
  induction h with
  | last he => exact ⟨hE _ _ he, trivial⟩
  | cons he _ _ ih => exact ⟨hE _ _ he, ih⟩

theorem atom_resolved {ts : List Token} {e : Expr} (h : Atom (Derives n) ts e) : e.Resolved := by
  cases h with
  | group _ he _ =>
      have hinner := hE _ _ he
      exact hinner
  | list _ hes _ => exact elements_resolved hE hes
  | _ => trivial

theorem form_resolved {ts : List Token} {e : Expr} (h : Form (Derives n) ts e) : e.Resolved := by
  cases h with
  | letIn _ hdeclares _ hbody =>
      cases hdeclares with
      | intro _ _ _ hvalue => exact ⟨hE _ _ hvalue, hE _ _ hbody⟩
  | cond _ htest _ hyes _ hno => exact ⟨hE _ _ htest, hE _ _ hyes, hE _ _ hno⟩
  | lambda _ _ _ _ hbody =>
      have hinner := hE _ _ hbody
      exact hinner
  | @chain us first rest more hatom hmore =>
      have hoperands := more_isOperand hmore
      rcases Chain.resolve_spec (c := ⟨first, more⟩) (atom_isOperand hatom).1
        fun p hp => (hoperands p hp).1 with ⟨hordered, hchain⟩
      apply Expr.resolved_of_ordered hordered
      · rw [hchain]
        exact atom_resolved hE hatom
      · rw [hchain]
        exact hmore.forall_operand (fun _ _ => atom_resolved hE) fun _ _ _ _ => hE _ _

end

theorem derives_resolved {n : Nat} {ts : List Token} {e : Expr} (h : Derives n ts e) :
    e.Resolved := by
  induction n generalizing ts e with
  | zero => exact h.elim
  | succ n ih => exact form_resolved (fun ts e he => ih he) h

end Grammar
end DefTable
