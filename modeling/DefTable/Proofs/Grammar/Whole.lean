import DefTable.Proofs.Expr.Chain
import DefTable.Proofs.Grammar.Sound

/-!
# Programs without holes

A hole stands where an expression is missing.  No rule of the grammar leaves one, so the programs
that are read have none, also those that are read in part.
-/

namespace DefTable
namespace Expr

mutual

/-- Nothing is missing anywhere in the expression. -/
def Whole : Expr -> Prop
  | .hole => False
  | .ident _ => True
  | .number _ _ => True
  | .string _ _ => True
  | .bool _ _ => True
  | .null _ => True
  | .group _ e => e.Whole
  | .letIn _ _ _ value body => value.Whole ∧ body.Whole
  | .binary _ left _ right => left.Whole ∧ right.Whole
  | .list _ es => AllWhole es
  | .cond _ test yes no => test.Whole ∧ yes.Whole ∧ no.Whole
  | .lambda _ _ body => body.Whole

def AllWhole : List Expr -> Prop
  | [] => True
  | e :: es => e.Whole ∧ AllWhole es

end

end Expr

namespace Program

def Whole (p : Program) : Prop :=
  forall d, d ∈ p.decls -> d.body.Whole

end Program

namespace Grammar

attribute [local irreducible] Chain.resolve

section

variable {E : Reading} (hE : forall ts e, E ts e -> e.Whole)

include hE

theorem declares_whole {ts : List Token} {d : Decl} (h : Declares E ts d) : d.body.Whole := by
  cases h with
  | intro _ _ _ hbody => exact hE _ _ hbody

theorem elements_whole {ts : List Token} {es : List Expr} (h : Elements E ts es) :
    Expr.AllWhole es := by
  induction h with
  | last he => exact ⟨hE _ _ he, trivial⟩
  | cons he _ _ ih => exact ⟨hE _ _ he, ih⟩

theorem atom_whole {ts : List Token} {e : Expr} (h : Atom E ts e) : e.Whole := by
  cases h with
  | group _ he _ =>
      have hinner := hE _ _ he
      exact hinner
  | list _ hes _ => exact elements_whole hE hes
  | _ => trivial

theorem form_whole {ts : List Token} {e : Expr} (h : Form E ts e) : e.Whole := by
  cases h with
  | letIn _ hdeclares _ hbody => exact ⟨declares_whole hE hdeclares, hE _ _ hbody⟩
  | cond _ htest _ hyes _ hno => exact ⟨hE _ _ htest, hE _ _ hyes, hE _ _ hno⟩
  | lambda _ _ _ _ hbody =>
      have hinner := hE _ _ hbody
      exact hinner
  | chain hfirst hmore =>
      have hoperands := hmore.forall_operand (fun _ _ => atom_whole hE) fun _ _ _ _ => hE _ _
      have hall : Chain.All (fun _ => True) Expr.Whole ⟨_, _⟩ :=
        ⟨atom_whole hE hfirst, fun p hp => ⟨trivial, hoperands p hp⟩⟩
      exact hall.resolve fun _ _ _ _ hleft _ hright => ⟨hleft, hright⟩

end

theorem derives_whole {n : Nat} {ts : List Token} {e : Expr} (h : Derives n ts e) : e.Whole := by
  induction n generalizing ts e with
  | zero => exact h.elim
  | succ n ih => exact form_whole (fun ts e he => ih he) h

theorem program_whole (file : String) (ts : List Token) :
    Program.Whole ⟨file, Parse.decls (Parse.outcomes ts)⟩ := by
  intro d hd
  rcases declares_of_mem_decls hd with ⟨used, _, hdeclares⟩
  exact declares_whole (fun ts e he => derives_whole he) hdeclares

end Grammar
end DefTable
