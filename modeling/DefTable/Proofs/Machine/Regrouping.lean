import DefTable.Proofs.Machine.Precedence
import Mathlib.Logic.ExistsUnique

/-!
# Regrouping and the chains it crashes on

Of all trees with the operands and operators of an expression there is exactly one in which every
application binds by level and to the left, and the resolver in place finds it.  It crashes if an
operand of an application is missing, and only then: a missing operand stands beside an operator,
and the pass of that operator's level gets to it unless an earlier pass has crashed.
-/

namespace DefTable
namespace Expr

/-- An application with a missing operand somewhere in its chain. -/
def LacksOperand (e : Expr) : Prop :=
  e.chain.rest ≠ [] ∧ exists operand, operand ∈ e.chain.operands ∧ operand.isHole = true

theorem lacksOperand_iff (e : Expr) :
    (!e.chain.rest.isEmpty && e.chain.operands.any isHole) = true <-> e.LacksOperand := by
  simp [LacksOperand, List.any_eq_true]

instance (e : Expr) : Decidable e.LacksOperand :=
  decidable_of_iff _ e.lacksOperand_iff

/-- The tree has the operands and operators of `e` in their order, every application in it binds by
level and to the left, and carries the token of its leftmost operand. -/
structure Regroups (e tree : Expr) : Prop where
  chain : tree.chain = e.chain
  ordered : tree.Ordered
  leftmost : tree.Leftmost

theorem regroup_eq (e : Expr) :
    e.regroup = if e.LacksOperand then .error .missingOperand else .ok e.chain.resolve := by
  unfold regroup
  by_cases h : e.LacksOperand
  · rw [if_pos h, if_pos (e.lacksOperand_iff.mpr h)]
  · rw [if_neg h, if_neg fun hfault => h (e.lacksOperand_iff.mp hfault)]

end Expr

namespace Chain

/-!
## Tokens of the resolved chain
-/

theorem leftmost_of_atomic {e : Expr} (h : e.chain = ⟨e, []⟩) : e.Leftmost := by
  cases e with
  | binary t left op right =>
      exact absurd (congrArg Chain.rest h) (Expr.chain_rest_ne_nil t left op right)
  | _ => trivial

theorem leftmost_pass
    (level : Nat) {e : Expr} {rest : List (Operator × Expr)} (he : e.Leftmost)
    (hrest : forall p, p ∈ rest -> p.2.Leftmost) :
    (pass level e rest).first.Leftmost ∧
      forall p, p ∈ (pass level e rest).rest -> p.2.Leftmost := by
  induction rest generalizing e with
  | nil => exact ⟨he, fun p hp => absurd hp List.not_mem_nil⟩
  | cons p rest ih =>
      rcases p with ⟨op, right⟩
      rw [List.forall_mem_cons] at hrest
      rw [pass]
      split
      · exact ih ⟨rfl, he, hrest.1⟩ hrest.2
      · rcases ih hrest.1 hrest.2 with ⟨hfirst, hlater⟩
        exact ⟨he, List.forall_mem_cons.mpr ⟨hfirst, hlater⟩⟩

theorem leftmost_passes
    (levels : List Nat) {c : Chain} (hfirst : c.first.Leftmost)
    (hrest : forall p, p ∈ c.rest -> p.2.Leftmost) :
    (levels.foldl (fun c level => pass level c.first c.rest) c).first.Leftmost := by
  induction levels generalizing c with
  | nil => exact hfirst
  | cons level levels ih =>
      rcases leftmost_pass level hfirst hrest with ⟨hfirst', hrest'⟩
      exact ih hfirst' hrest'

theorem leftmost_of_resolve
    {c : Chain} {tree : Expr} (h : tree = c.resolve) (hfirst : c.first.Leftmost)
    (hrest : forall p, p ∈ c.rest -> p.2.Leftmost) : tree.Leftmost := by
  unfold resolve at h
  generalize List.range (Operator.maxLevel + 1) = levels at h
  rw [h]
  exact leftmost_passes levels hfirst hrest

theorem passes_single (levels : List Nat) (e : Expr) :
    levels.foldl (fun c level => pass level c.first c.rest) ⟨e, []⟩ = ⟨e, []⟩ := by
  induction levels with
  | nil => rfl
  | cons level levels ih => exact ih

theorem resolve_single (e : Expr) : resolve ⟨e, []⟩ = e := by
  rw [resolve, passes_single]

end Chain

namespace Expr

theorem regroups_of_resolve {e tree : Expr} (h : tree = e.chain.resolve) : e.Regroups tree := by
  rcases Machine.chain_atomic e with ⟨hfirst, hrest⟩
  have hspec := Chain.resolve_spec hfirst hrest
  have hleftmost := Chain.leftmost_of_resolve h (Chain.leftmost_of_atomic hfirst)
    fun p hp => Chain.leftmost_of_atomic (hrest p hp)
  rw [← h] at hspec
  exact ⟨hspec.2, hspec.1, hleftmost⟩

theorem Regroups.unique {e tree tree' : Expr} (h : e.Regroups tree) (h' : e.Regroups tree') :
    tree = tree' :=
  eq_of_chain_eq h.ordered h'.ordered h.leftmost h'.leftmost (h.chain.trans h'.chain.symm)

theorem regroups_iff (e tree : Expr) : e.Regroups tree <-> tree = e.chain.resolve :=
  ⟨fun h => h.unique (regroups_of_resolve rfl), regroups_of_resolve⟩

end Expr

namespace Machine

theorem not_complete_iff (c : Chain) :
    ¬ Complete c <-> exists operand, operand ∈ c.operands ∧ operand.isHole = true := by
  have hcomplete : Complete c <->
      forall operand, operand ∈ c.operands -> operand.isHole = false := by
    rw [Chain.operands, List.forall_mem_cons]
    constructor
    · intro h
      refine ⟨h.first, ?_⟩
      intro operand hoperand
      rcases List.mem_map.mp hoperand with ⟨p, hp, rfl⟩
      exact (h.rest p hp).2
    · rintro ⟨hfirst, hrest⟩
      exact ⟨hfirst, fun p hp => ⟨trivial, hrest _ (List.mem_map_of_mem hp)⟩⟩
  rw [hcomplete]
  simp

/-!
## One level
-/

theorem operandAt_hole (before after : List Item) {e : Expr} (he : e.isHole = true) :
    operandAt? (before ++ .operand e :: after) before.length = none := by
  rw [operandAt?, item_at]
  dsimp only
  rw [if_pos he]

theorem resolveLevel_missing
    {level : Nat} (before after : List Item) {e right : Expr} {op : Operator}
    (h : op.level = level) (hhole : e.isHole = true ∨ right.isHole = true) :
    resolveLevel level (before ++ .operand e :: .operator op :: .operand right :: after)
      (before.length + 1) = throw .missingOperand := by
  have hop := item_at (before ++ [.operand e]) (.operator op) (.operand right :: after)
  have hright := item_at (before ++ [.operand e, .operator op]) (.operand right) after
  rw [List.append_assoc, List.length_append] at hop hright
  simp only [List.cons_append, List.nil_append, List.length_cons, List.length_nil] at hop hright
  rw [resolveLevel]
  simp only [hop, h, ne_eq, not_true_eq_false, if_false]
  rcases hhole with hleft | hhole
  · rw [operandAt_hole before _ hleft]
  · have hnone := operandAt_hole (before ++ [.operand e, .operator op]) after hhole
    rw [List.append_assoc, List.length_append] at hnone
    simp only [List.cons_append, List.nil_append, List.length_cons, List.length_nil] at hnone
    rw [hnone]
    cases operandAt? (before ++ .operand e :: .operator op :: .operand right :: after)
      before.length <;> rfl

theorem resolveLevel_of_not_complete
    (level : Nat) (before : List Item) {e : Expr} {rest : List (Operator × Expr)}
    (h : ¬ Complete ⟨e, rest⟩) :
    resolveLevel level (before ++ chainItems ⟨e, rest⟩) before.length = throw .missingOperand ∨
      resolveLevel level (before ++ chainItems ⟨e, rest⟩) before.length =
          pure (before ++ chainItems (Chain.pass level e rest)) ∧
        ¬ Complete (Chain.pass level e rest) := by
  induction rest generalizing before e with
  | nil => exact Or.inr ⟨resolveLevel_single level before e, h⟩
  | cons p rest ih =>
      rcases p with ⟨op, right⟩
      rw [Chain.pass]
      by_cases hlevel : op.level = level
      · rw [if_pos hlevel]
        by_cases hhole : e.isHole = true ∨ right.isHole = true
        · rw [chainItems_cons, resolveLevel_operand]
          exact Or.inl (resolveLevel_missing before _ hlevel hhole)
        · rw [not_or, Bool.not_eq_true, Bool.not_eq_true] at hhole
          have hjoined : ¬ Complete ⟨.binary e.token e op right, rest⟩ := by
            intro hrest
            apply h
            refine ⟨hhole.1, List.forall_mem_cons.mpr ⟨⟨trivial, hhole.2⟩, hrest.rest⟩⟩
          rw [resolveLevel_joined before rest hlevel hhole.1 hhole.2]
          exact ih before hjoined
      · rw [if_neg hlevel, append_chainItems_cons,
          resolveLevel_passed before e ⟨right, rest⟩ hlevel]
        by_cases hrest : Complete ⟨right, rest⟩
        · -- The only missing operand is the first one, which the pass does not touch.
          refine Or.inr ⟨resolveLevel_eq level _ hrest, ?_⟩
          intro hpassed
          exact h ⟨hpassed.first, List.forall_mem_cons.mpr ⟨⟨trivial, hrest.first⟩, hrest.rest⟩⟩
        · rcases ih (before ++ [.operand e, .operator op]) hrest with hcrash | ⟨hpure, hpassed⟩
          · exact Or.inl hcrash
          · exact Or.inr ⟨hpure, fun hall => hpassed hall.tail⟩

/-!
## All levels
-/

theorem resolveLevels_of_not_complete (levels : List Nat) {c : Chain} (h : ¬ Complete c) :
    resolveLevels levels (chainItems c) = throw .missingOperand ∨
      ¬ Complete (levels.foldl (fun c level => Chain.pass level c.first c.rest) c) := by
  induction levels generalizing c with
  | nil => exact Or.inr h
  | cons level levels ih =>
      rw [resolveLevels, List.foldl_cons]
      rcases resolveLevel_of_not_complete level [] h with hcrash | ⟨hpure, hpassed⟩
      · exact Or.inl (congrArg (· >>= resolveLevels levels) hcrash)
      · rcases ih hpassed with hcrash | hlast
        · exact Or.inl ((congrArg (· >>= resolveLevels levels) hpure).trans hcrash)
        · exact Or.inr hlast

theorem resolveLevels_of_lacking
    {e : Expr} (hrest : e.chain.rest ≠ []) (h : ¬ Complete e.chain) :
    resolveLevels (List.range (Operator.maxLevel + 1)) (chainItems e.chain) =
      throw .missingOperand := by
  rcases resolveLevels_of_not_complete (List.range (Operator.maxLevel + 1)) h with hcrash | hlast
  · exact hcrash
  · exfalso
    rcases chain_atomic e with ⟨hfirst, hlater⟩
    have hchain := (Chain.resolve_spec hfirst hlater).2
    have hpassed := (Chain.passes_spec hfirst hlater).1
    generalize e.chain.resolve = tree at hchain hpassed
    rw [hpassed, not_complete_iff] at hlast
    rcases hlast with ⟨operand, hoperand, hhole⟩
    rcases List.mem_singleton.mp hoperand with rfl
    cases operand <;> cases hhole
    exact hrest (congrArg Chain.rest hchain).symm

theorem resolveLevels_single (levels : List Nat) (e : Expr) :
    resolveLevels levels [.operand e] = pure [.operand e] := by
  induction levels with
  | nil => rfl
  | cons level levels ih =>
      have hpass : resolveLevel level [.operand e] 0 = pure [.operand e] :=
        resolveLevel_single level [] e
      rw [resolveLevels, hpass, pure_bind, ih]

theorem fixPrecedence_of_single {e : Expr} (h : e.chain = ⟨e, []⟩) : fixPrecedence e = pure e := by
  have hitems : flatten e [] = [.operand e] := by
    rw [flatten_eq, h]
    rfl
  rw [fixPrecedence, hitems, resolveLevels_single, pure_bind]

theorem fixPrecedence_eq_ite (e : Expr) :
    fixPrecedence e =
      if e.LacksOperand then throw .missingOperand else pure e.chain.resolve := by
  by_cases hcomplete : Complete e.chain
  · have hlacks : ¬ e.LacksOperand := fun h => (not_complete_iff _).mpr h.2 hcomplete
    rw [if_neg hlacks, fixPrecedence_eq hcomplete]
  · by_cases hlone : e.chain.rest = []
    · have hlacks : ¬ e.LacksOperand := fun h => h.1 hlone
      have hself : e.chain = ⟨e, []⟩ := by
        cases e with
        | binary t left op right => exact absurd hlone (Expr.chain_rest_ne_nil t left op right)
        | _ => rfl
      rw [if_neg hlacks, fixPrecedence_of_single hself, hself, Chain.resolve_single]
    · have hlacks : e.LacksOperand := ⟨hlone, (not_complete_iff _).mp hcomplete⟩
      rw [if_pos hlacks, fixPrecedence, flatten_eq, List.nil_append,
        resolveLevels_of_lacking hlone hcomplete]
      rfl

/-!
## What the resolver gives
-/

theorem fixPrecedence_congr {e e' : Expr} (h : e.chain = e'.chain) :
    fixPrecedence e = fixPrecedence e' := by
  have hlacks : e.LacksOperand <-> e'.LacksOperand := by
    rw [Expr.LacksOperand, Expr.LacksOperand, h]
  rw [fixPrecedence_eq_ite, fixPrecedence_eq_ite, h]
  simp only [hlacks]

theorem fixPrecedence_of_lacksOperand {e : Expr} (h : e.LacksOperand) :
    fixPrecedence e = throw .missingOperand := by
  rw [fixPrecedence_eq_ite, if_pos h]

theorem fixPrecedence_of_regroups
    {e tree : Expr} (h : ¬ e.LacksOperand) (htree : e.Regroups tree) :
    fixPrecedence e = pure tree := by
  rw [fixPrecedence_eq_ite, if_neg h, ← (e.regroups_iff tree).mp htree]

theorem regroups_of_fixPrecedence {e tree : Expr} (h : fixPrecedence e = pure tree) :
    ¬ e.LacksOperand ∧ e.Regroups tree := by
  have hlacks : ¬ e.LacksOperand := by
    intro hlacks
    cases (fixPrecedence_of_lacksOperand hlacks).symm.trans h
  rw [fixPrecedence_eq_ite, if_neg hlacks] at h
  have htree : e.chain.resolve = tree := Except.ok.inj (Option.some.inj h)
  exact ⟨hlacks, Expr.regroups_of_resolve htree.symm⟩

theorem fixPrecedence_twice (e : Expr) : (fixPrecedence e >>= fixPrecedence) = fixPrecedence e := by
  by_cases hlacks : e.LacksOperand
  · rw [fixPrecedence_of_lacksOperand hlacks]
    rfl
  · have hexists : exists tree, tree = e.chain.resolve := ⟨_, rfl⟩
    rcases hexists with ⟨tree, htree⟩
    have hregroups := Expr.regroups_of_resolve htree
    rw [fixPrecedence_of_regroups hlacks hregroups, pure_bind, fixPrecedence_congr hregroups.chain,
      fixPrecedence_of_regroups hlacks hregroups]

/-- The resolver crashes exactly on applications with a missing operand.  On every other expression
it ends with the one tree that regroups it, which is what `regroup` gives.  The result depends on the
chain only, and resolving it again changes nothing. -/
theorem fixPrecedence_regroups (e : Expr) :
    (fixPrecedence e = throw .missingOperand <-> e.LacksOperand) ∧
      (forall tree, fixPrecedence e = pure tree <-> ¬ e.LacksOperand ∧ e.Regroups tree) ∧
      (∃! tree, e.Regroups tree) ∧
      (forall tree, fixPrecedence e = pure tree <-> e.regroup = .ok tree) ∧
      (forall e', e'.chain = e.chain -> fixPrecedence e' = fixPrecedence e) ∧
      (fixPrecedence e >>= fixPrecedence) = fixPrecedence e := by
  refine ⟨⟨?_, fixPrecedence_of_lacksOperand⟩, ?_, ?_, ?_, ?_, fixPrecedence_twice e⟩
  · intro hcrash
    refine Decidable.byContradiction fun hlacks => ?_
    rw [fixPrecedence_eq_ite, if_neg hlacks] at hcrash
    cases hcrash
  · exact fun tree => ⟨regroups_of_fixPrecedence, fun h => fixPrecedence_of_regroups h.1 h.2⟩
  · exact ⟨_, Expr.regroups_of_resolve rfl, fun tree htree => (e.regroups_iff tree).mp htree⟩
  · intro tree
    rw [fixPrecedence_eq_ite, e.regroup_eq]
    by_cases hlacks : e.LacksOperand
    · rw [if_pos hlacks, if_pos hlacks]
      exact iff_of_false nofun nofun
    · rw [if_neg hlacks, if_neg hlacks]
      constructor
      · exact fun h => congrArg Except.ok (Except.ok.inj (Option.some.inj h))
      · exact fun h => congrArg pure (Except.ok.inj h)
  · exact fun e' h => fixPrecedence_congr h

end Machine
end DefTable
