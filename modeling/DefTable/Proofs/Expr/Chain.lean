import DefTable.Expr.Precedence

/-!
# Resolving a chain

Resolution only puts operands together.  So whatever holds of the operands and passes from two
expressions to their application holds of the resolved chain, and the operands and operators stand
in it in their old order.  Each pass leaves only looser operators between the operands, which
therefore bind at most as loosely as the operators that were resolved.  An ordered expression is
determined by its chain: at its root stands the last of the loosest operators.
-/

namespace DefTable
namespace Chain

structure All (O : Operator -> Prop) (Q : Expr -> Prop) (c : Chain) : Prop where
  first : Q c.first
  rest : forall p, p ∈ c.rest -> O p.1 ∧ Q p.2

section

variable {O : Operator -> Prop} {Q : Expr -> Prop}

theorem All.tail
    {e right : Expr} {op : Operator} {rest : List (Operator × Expr)}
    (h : All O Q ⟨e, (op, right) :: rest⟩) : All O Q ⟨right, rest⟩ where
  first := (h.rest (op, right) List.mem_cons_self).2
  rest p hp := h.rest p (List.mem_cons_of_mem _ hp)

theorem All.pass
    (hbinary : forall t left op right, Q left -> O op -> Q right -> Q (.binary t left op right))
    (level : Nat) {e : Expr} {rest : List (Operator × Expr)} (h : All O Q ⟨e, rest⟩) :
    All O Q (Chain.pass level e rest) := by
  induction rest generalizing e with
  | nil => exact h
  | cons p rest ih =>
      rcases p with ⟨op, right⟩
      have hjoint := h.rest (op, right) List.mem_cons_self
      rw [Chain.pass]
      by_cases hlevel : op.level = level
      · rw [if_pos hlevel]
        refine ih ⟨hbinary _ _ _ _ h.first hjoint.1 hjoint.2, ?_⟩
        exact fun p hp => h.rest p (List.mem_cons_of_mem _ hp)
      · rw [if_neg hlevel]
        have htail := ih h.tail
        refine ⟨h.first, ?_⟩
        intro p hp
        rcases List.mem_cons.mp hp with rfl | hlater
        · exact ⟨hjoint.1, htail.first⟩
        · exact htail.rest p hlater

theorem All.passes
    (hbinary : forall t left op right, Q left -> O op -> Q right -> Q (.binary t left op right))
    (levels : List Nat) {c : Chain} (h : All O Q c) :
    All O Q (levels.foldl (fun c level => Chain.pass level c.first c.rest) c) := by
  induction levels generalizing c with
  | nil => exact h
  | cons level levels ih => exact ih (h.pass hbinary level)

theorem All.resolve
    (hbinary : forall t left op right, Q left -> O op -> Q right -> Q (.binary t left op right))
    {c : Chain} (h : All O Q c) : Q c.resolve :=
  (h.passes hbinary _).first

end

/-!
## The order of operands
-/

theorem eq_of_parts {a b : Chain} (hfirst : a.first = b.first) (hrest : a.rest = b.rest) :
    a = b := by
  cases a
  cases b
  exact congr (congrArg Chain.mk hfirst) hrest

theorem join_assoc (a : Chain) (op : Operator) (b : Chain) (op' : Operator) (c : Chain) :
    (a.join op b).join op' c = a.join op (b.join op' c) := by
  simp [join]

/-- All operands and operators, also those inside of operands that are binary applications. -/
def flat : Expr -> List (Operator × Expr) -> Chain
  | e, [] => e.chain
  | e, (op, right) :: rest => e.chain.join op (flat right rest)

theorem flat_binary (t : Token) (e : Expr) (op : Operator) (right : Expr)
    (rest : List (Operator × Expr)) :
    flat (.binary t e op right) rest = e.chain.join op (flat right rest) := by
  cases rest with
  | nil => rfl
  | cons p rest => exact join_assoc _ _ _ _ _

theorem flat_pass (level : Nat) (e : Expr) (rest : List (Operator × Expr)) :
    flat (pass level e rest).first (pass level e rest).rest = flat e rest := by
  induction rest generalizing e with
  | nil => rfl
  | cons p rest ih =>
      rcases p with ⟨op, right⟩
      rw [pass]
      split
      · rw [ih, flat_binary]
        rfl
      · dsimp only
        rw [flat, flat, ih]

theorem flat_passes (levels : List Nat) (c : Chain) :
    let passed := levels.foldl (fun c level => pass level c.first c.rest) c
    flat passed.first passed.rest = flat c.first c.rest := by
  induction levels generalizing c with
  | nil => rfl
  | cons level levels ih =>
      dsimp only at ih ⊢
      rw [List.foldl_cons, ih, flat_pass]

theorem flat_of_atomic
    {e : Expr} {rest : List (Operator × Expr)} (he : e.chain = ⟨e, []⟩)
    (hrest : forall p, p ∈ rest -> p.2.chain = ⟨p.2, []⟩) : flat e rest = ⟨e, rest⟩ := by
  induction rest generalizing e with
  | nil => exact he
  | cons p rest ih =>
      rw [List.forall_mem_cons] at hrest
      rw [flat, ih hrest.1 hrest.2, he]
      rfl

/-!
## Levels
-/

end Chain

theorem Operator.level_mem (op : Operator) :
    op.level ∈ applyLevel :: unlistedLevel :: levels.map Prod.snd := by
  cases op with
  | apply => exact List.mem_cons_self
  | named i =>
      apply List.mem_cons_of_mem
      show Operator.nameLevel i.name ∈ _
      unfold Operator.nameLevel
      cases hlookup : Operator.levels.lookup i.name with
      | none => exact List.mem_cons_self
      | some level =>
          rcases List.lookup_eq_some_iff.mp hlookup with ⟨before, after, hsplit, _⟩
          apply List.mem_cons_of_mem
          rw [hsplit, List.map_append]
          exact List.mem_append_right _ List.mem_cons_self

theorem Operator.level_pos (op : Operator) : 0 < op.level := by
  have hall : forall n, n ∈ applyLevel :: unlistedLevel :: levels.map Prod.snd -> 0 < n := by decide
  exact hall op.level op.level_mem

theorem Operator.level_le (op : Operator) : op.level ≤ Operator.maxLevel := by
  have hall : forall n, n ∈ applyLevel :: unlistedLevel :: levels.map Prod.snd -> n ≤ maxLevel := by
    decide
  exact hall op.level op.level_mem

namespace Expr

def looseness : Expr -> Nat
  | .binary _ _ op _ => op.level
  | _ => 0

/-- In every binary application of the chain the left operand binds at most as loosely as the
operator, and the right one tighter. -/
def Ordered : Expr -> Prop
  | .binary _ left op right =>
      left.Ordered ∧ right.Ordered ∧ left.looseness ≤ op.level ∧ right.looseness < op.level
  | _ => True

end Expr

namespace Chain

/-- The operands are ordered and bind at most as loosely as `level`, and the operators between
them are looser. -/
structure Levelled (level : Nat) (c : Chain) : Prop where
  first : c.first.Ordered ∧ c.first.looseness ≤ level
  rest : forall p, p ∈ c.rest -> level < p.1.level ∧ p.2.Ordered ∧ p.2.looseness ≤ level

theorem levelled_pass
    {level : Nat} {e : Expr} {rest : List (Operator × Expr)}
    (he : e.Ordered ∧ e.looseness ≤ level)
    (hrest : forall p, p ∈ rest -> level ≤ p.1.level ∧ p.2.Ordered ∧ p.2.looseness < level) :
    Levelled level (pass level e rest) := by
  induction rest generalizing e with
  | nil => exact ⟨he, fun p hp => absurd hp List.not_mem_nil⟩
  | cons p rest ih =>
      rcases p with ⟨op, right⟩
      rw [List.forall_mem_cons] at hrest
      rcases hrest with ⟨⟨hlevel, hright, hloose⟩, hrest⟩
      rw [pass]
      split
      · rename_i heq
        apply ih _ hrest
        dsimp only at hlevel hright hloose
        exact ⟨⟨he.1, hright, heq ▸ he.2, heq ▸ hloose⟩, Nat.le_of_eq heq⟩
      · rename_i hne
        have htail := ih ⟨hright, Nat.le_of_lt hloose⟩ hrest
        refine ⟨he, ?_⟩
        rw [List.forall_mem_cons]
        exact ⟨⟨Nat.lt_of_le_of_ne hlevel fun heq => hne heq.symm, htail.first⟩, htail.rest⟩

theorem pass_zero (e : Expr) (rest : List (Operator × Expr)) : pass 0 e rest = ⟨e, rest⟩ := by
  induction rest generalizing e with
  | nil => rfl
  | cons p rest ih =>
      rcases p with ⟨op, right⟩
      rw [pass, if_neg (Nat.ne_of_gt op.level_pos), ih]

theorem levelled_passes
    {c : Chain} (hfirst : c.first.Ordered ∧ c.first.looseness = 0)
    (hrest : forall p, p ∈ c.rest -> p.2.Ordered ∧ p.2.looseness = 0) (n : Nat) :
    Levelled n ((List.range (n + 1)).foldl (fun c level => pass level c.first c.rest) c) := by
  induction n with
  | zero =>
      show Levelled 0 (pass 0 c.first c.rest)
      rw [pass_zero]
      refine ⟨⟨hfirst.1, Nat.le_of_eq hfirst.2⟩, ?_⟩
      intro p hp
      exact ⟨p.1.level_pos, (hrest p hp).1, Nat.le_of_eq (hrest p hp).2⟩
  | succ n ih =>
      rw [List.range_succ, List.foldl_append]
      apply levelled_pass
      · exact ⟨ih.first.1, Nat.le_succ_of_le ih.first.2⟩
      · intro p hp
        rcases ih.rest p hp with ⟨hlevel, hordered, hloose⟩
        exact ⟨hlevel, hordered, Nat.lt_succ_of_le hloose⟩

theorem ordered_of_atomic {e : Expr} (he : e.chain = ⟨e, []⟩) :
    e.Ordered ∧ e.looseness = 0 := by
  cases e with
  | binary t left op right =>
      have hlength := congrArg (fun c => c.rest.length) he
      simp [Expr.chain, join] at hlength
  | _ => exact ⟨trivial, rfl⟩

/-- After the last pass a single ordered operand is left. -/
theorem passes_spec
    {c : Chain} (hfirst : c.first.chain = ⟨c.first, []⟩)
    (hrest : forall p, p ∈ c.rest -> p.2.chain = ⟨p.2, []⟩) :
    (List.range (Operator.maxLevel + 1)).foldl (fun c level => pass level c.first c.rest) c =
      ⟨c.resolve, []⟩ ∧ c.resolve.Ordered := by
  have hlevelled := levelled_passes (ordered_of_atomic hfirst)
    (fun p hp => ordered_of_atomic (hrest p hp)) Operator.maxLevel
  unfold resolve
  generalize (List.range (Operator.maxLevel + 1)).foldl
    (fun c level => pass level c.first c.rest) c = passed at hlevelled ⊢
  have hnone : passed.rest = [] := by
    apply List.eq_nil_iff_forall_not_mem.mpr
    intro p hp
    exact absurd p.1.level_le (Nat.not_le.mpr (hlevelled.rest p hp).1)
  exact ⟨eq_of_parts rfl hnone, hlevelled.first.1⟩

/-- A resolved chain is ordered, and its operands and operators are those of the chain. -/
theorem resolve_spec
    {c : Chain} (hfirst : c.first.chain = ⟨c.first, []⟩)
    (hrest : forall p, p ∈ c.rest -> p.2.chain = ⟨p.2, []⟩) :
    c.resolve.Ordered ∧ c.resolve.chain = c := by
  have hflat := flat_passes (List.range (Operator.maxLevel + 1)) c
  have hpassed := passes_spec hfirst hrest
  dsimp only at hflat
  rw [flat_of_atomic hfirst hrest, hpassed.1] at hflat
  generalize c.resolve = e at hflat hpassed ⊢
  exact ⟨hpassed.2, hflat⟩

end Chain

/-!
## Ordered expressions are determined by their chains
-/

namespace Expr

@[elab_as_elim]
theorem chainInduction
    {motive : Expr -> Prop} (atomic : forall e, e.chain = ⟨e, []⟩ -> motive e)
    (binary : forall t left op right, motive left -> motive right ->
      motive (.binary t left op right)) :
    (e : Expr) -> motive e
  | .binary t left op right =>
      binary t left op right (chainInduction atomic binary left) (chainInduction atomic binary right)
  | .hole => atomic _ rfl
  | .ident _ => atomic _ rfl
  | .number _ _ => atomic _ rfl
  | .string _ _ => atomic _ rfl
  | .bool _ _ => atomic _ rfl
  | .null _ => atomic _ rfl
  | .group _ _ => atomic _ rfl
  | .letIn _ _ _ _ _ => atomic _ rfl
  | .list _ _ => atomic _ rfl
  | .cond _ _ _ _ => atomic _ rfl
  | .lambda _ _ _ => atomic _ rfl

/-- Every binary application carries the token of its leftmost operand. -/
def Leftmost : Expr -> Prop
  | .binary t left _ right => t = left.token ∧ left.Leftmost ∧ right.Leftmost
  | _ => True

theorem chain_rest_ne_nil (t : Token) (left : Expr) (op : Operator) (right : Expr) :
    (Expr.binary t left op right).chain.rest ≠ [] :=
  List.append_ne_nil_of_right_ne_nil _ (List.cons_ne_nil _ _)

theorem looseness_le (e : Expr) : e.looseness ≤ Operator.maxLevel := by
  cases e with
  | binary t left op right => exact op.level_le
  | _ => exact Nat.zero_le _

theorem level_le_looseness {e : Expr} (h : e.Ordered) :
    forall p, p ∈ e.chain.rest -> p.1.level ≤ e.looseness := by
  induction e using chainInduction with
  | atomic e he =>
      rw [he]
      exact fun p hp => absurd hp List.not_mem_nil
  | binary t left op right ihleft ihright =>
      rcases h with ⟨hleft, hright, hlooseLeft, hlooseRight⟩
      change forall p, p ∈ left.chain.rest ++ (op, right.chain.first) :: right.chain.rest ->
        p.1.level ≤ op.level
      rw [List.forall_mem_append, List.forall_mem_cons]
      refine ⟨?_, Nat.le_refl _, ?_⟩
      · exact fun p hp => Nat.le_trans (ihleft hleft p hp) hlooseLeft
      · exact fun p hp => Nat.le_of_lt (Nat.lt_of_le_of_lt (ihright hright p hp) hlooseRight)

theorem split_unique
    {α : Type} {f : α -> Nat} {xs ys xs' ys' : List α} {x x' : α}
    (hxs : forall p, p ∈ xs -> f p ≤ f x) (hys : forall p, p ∈ ys -> f p < f x)
    (hxs' : forall p, p ∈ xs' -> f p ≤ f x') (hys' : forall p, p ∈ ys' -> f p < f x')
    (h : xs ++ x :: ys = xs' ++ x' :: ys') : xs = xs' ∧ x = x' ∧ ys = ys' := by
  rcases List.append_eq_append_iff.mp h with ⟨mid, rfl, hmid⟩ | ⟨mid, rfl, hmid⟩
  · cases mid with
    | nil =>
        rcases List.cons.inj hmid with ⟨hx, hy⟩
        exact ⟨(List.append_nil xs).symm, hx, hy⟩
    | cons m mid =>
        rcases List.cons.inj hmid with ⟨rfl, rfl⟩
        have hle := hxs' x (List.mem_append_right _ List.mem_cons_self)
        have hlt := hys x' (List.mem_append_right _ List.mem_cons_self)
        omega
  · cases mid with
    | nil =>
        rcases List.cons.inj hmid with ⟨hx, hy⟩
        exact ⟨List.append_nil xs', hx.symm, hy.symm⟩
    | cons m mid =>
        rcases List.cons.inj hmid with ⟨rfl, rfl⟩
        have hle := hxs x' (List.mem_append_right _ List.mem_cons_self)
        have hlt := hys' x (List.mem_append_right _ List.mem_cons_self)
        omega

theorem eq_of_chain_eq
    {a b : Expr} (ha : a.Ordered) (hb : b.Ordered) (hla : a.Leftmost) (hlb : b.Leftmost)
    (h : a.chain = b.chain) : a = b := by
  induction a using chainInduction generalizing b with
  | atomic a hatomic =>
      rw [hatomic] at h
      cases b with
      | binary t left op right =>
          exact absurd (congrArg Chain.rest h).symm (chain_rest_ne_nil t left op right)
      | _ => exact congrArg Chain.first h
  | binary t left op right ihleft ihright =>
      cases b with
      | binary t' left' op' right' =>
          rcases ha with ⟨hleft, hright, hlooseLeft, hlooseRight⟩
          rcases hb with ⟨hleft', hright', hlooseLeft', hlooseRight'⟩
          have hjoin : left.chain.join op right.chain = left'.chain.join op' right'.chain := h
          rcases Chain.mk.inj hjoin with ⟨hfirst, hrest⟩
          -- The root is the last of the loosest operators.
          have hsplit := split_unique (f := fun p : Operator × Expr => p.1.level)
            (fun p hp => Nat.le_trans (level_le_looseness hleft p hp) hlooseLeft)
            (fun p hp => Nat.lt_of_le_of_lt (level_le_looseness hright p hp) hlooseRight)
            (fun p hp => Nat.le_trans (level_le_looseness hleft' p hp) hlooseLeft')
            (fun p hp => Nat.lt_of_le_of_lt (level_le_looseness hright' p hp) hlooseRight')
            hrest
          rcases hsplit with ⟨hbefore, hroot, hafter⟩
          rcases Prod.mk.inj hroot with ⟨hop, hnext⟩
          have heqLeft : left = left' := by
            apply ihleft hleft hleft' hla.2.1 hlb.2.1
            exact Chain.eq_of_parts hfirst hbefore
          have heqRight : right = right' := by
            apply ihright hright hright' hla.2.2 hlb.2.2
            exact Chain.eq_of_parts hnext hafter
          rw [hla.1, hlb.1, heqLeft, heqRight, hop]
      | _ => exact absurd (congrArg Chain.rest h) (chain_rest_ne_nil t left op right)

end Expr
end DefTable
