import DefTable.Proofs.Expr.Chain

/-!
# Expressions without their tokens

Two texts of one expression differ in the tokens only, and in the parentheses where these are not
needed.  So expressions from different texts are compared without tokens, and where parentheses are
not to count, without the nodes that stand for them.
-/

namespace DefTable

def Ident.erased (i : Ident) : Ident :=
  ⟨.absent, i.name⟩

def Operator.erased : Operator -> Operator
  | .apply => .apply
  | .named i => .named i.erased

namespace Expr

mutual

def erased : Expr -> Expr
  | .hole => .hole
  | .ident i => .ident i.erased
  | .number _ v => .number .absent v
  | .string _ v => .string .absent v
  | .bool _ v => .bool .absent v
  | .null _ => .null .absent
  | .group _ e => .group .absent e.erased
  | .letIn _ name params value body =>
      .letIn .absent name.erased (params.map Ident.erased) value.erased body.erased
  | .binary _ left op right => .binary .absent left.erased op.erased right.erased
  | .list _ es => .list .absent (allErased es)
  | .cond _ test yes no => .cond .absent test.erased yes.erased no.erased
  | .lambda _ params body => .lambda .absent (params.map Ident.erased) body.erased

def allErased : List Expr -> List Expr
  | [] => []
  | e :: es => e.erased :: allErased es

end

mutual

def ungrouped : Expr -> Expr
  | .group _ e => e.ungrouped
  | .letIn t name params value body => .letIn t name params value.ungrouped body.ungrouped
  | .binary t left op right => .binary t left.ungrouped op right.ungrouped
  | .list t es => .list t (allUngrouped es)
  | .cond t test yes no => .cond t test.ungrouped yes.ungrouped no.ungrouped
  | .lambda t params body => .lambda t params body.ungrouped
  | e => e

def allUngrouped : List Expr -> List Expr
  | [] => []
  | e :: es => e.ungrouped :: allUngrouped es

end

end Expr

def Decl.erased (d : Decl) : Decl :=
  ⟨d.name.erased, d.params.map Ident.erased, d.body.erased⟩

/-!
## Chains without tokens
-/

def Chain.erased (c : Chain) : Chain :=
  ⟨c.first.erased, c.rest.map fun p => (p.1.erased, p.2.erased)⟩

theorem Chain.erased_join (a : Chain) (op : Operator) (b : Chain) :
    (a.join op b).erased = a.erased.join op.erased b.erased := by
  simp [Chain.erased, Chain.join]

theorem Operator.erased_level (op : Operator) : op.erased.level = op.level := by
  cases op with
  | apply => rfl
  | named i => rfl

namespace Expr

theorem token_erased (e : Expr) : e.erased.token = .absent := by
  cases e <;> rfl

theorem chain_erased (e : Expr) : e.erased.chain = e.chain.erased := by
  induction e using chainInduction with
  | atomic e he =>
      rw [he]
      cases e with
      | binary t left op right =>
          exact absurd (congrArg Chain.rest he) (chain_rest_ne_nil t left op right)
      | _ => rfl
  | binary t left op right ihleft ihright =>
      rw [chain, Chain.erased_join, ← ihleft, ← ihright, erased, chain]

theorem looseness_erased (e : Expr) : e.erased.looseness = e.looseness := by
  cases e with
  | binary t left op right => exact op.erased_level
  | _ => rfl

theorem Ordered.erased {e : Expr} (h : e.Ordered) : e.erased.Ordered := by
  induction e using chainInduction with
  | atomic e he =>
      cases e with
      | binary t left op right =>
          exact absurd (congrArg Chain.rest he) (chain_rest_ne_nil t left op right)
      | _ => trivial
  | binary t left op right ihleft ihright =>
      rcases h with ⟨hleft, hright, hlooseLeft, hlooseRight⟩
      refine ⟨ihleft hleft, ihright hright, ?_, ?_⟩
      · rw [looseness_erased, op.erased_level]
        exact hlooseLeft
      · rw [looseness_erased, op.erased_level]
        exact hlooseRight

theorem leftmost_erased (e : Expr) : e.erased.Leftmost := by
  induction e using chainInduction with
  | atomic e he =>
      cases e with
      | binary t left op right =>
          exact absurd (congrArg Chain.rest he) (chain_rest_ne_nil t left op right)
      | _ => trivial
  | binary t left op right ihleft ihright => exact ⟨left.token_erased.symm, ihleft, ihright⟩

end Expr

-- Otherwise unification tries to run the resolution of a chain that is not given.
attribute [local irreducible] Chain.resolve

theorem Chain.erased_resolve
    {c : Chain} (hfirst : c.first.chain = ⟨c.first, []⟩)
    (hrest : forall p, p ∈ c.rest -> p.2.chain = ⟨p.2, []⟩) {e : Expr} (hordered : e.Ordered)
    (hleftmost : e.Leftmost) (h : c.erased = e.chain) : c.resolve.erased = e := by
  rcases Chain.resolve_spec hfirst hrest with ⟨hresolved, hchain⟩
  refine Expr.eq_of_chain_eq hresolved.erased hordered c.resolve.leftmost_erased hleftmost ?_
  rw [Expr.chain_erased, hchain, h]

end DefTable
