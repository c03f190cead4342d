import DefTable.Proofs.Expr.Chain
import DefTable.Proofs.Machine.Basic

/-!
# Resolving a chain in place

The resolver works on one array of operands and operators.  For every level it goes through the
array with an index, and an operator of the level is put together with its two neighbours, which
makes the array shorter.  It crashes where an operator has no operand beside it, and at the end if
anything but one operand is left.  This never happens to a chain without a missing operand.
-/

namespace DefTable
namespace Machine

inductive Item where
  | operand (e : Expr)
  | operator (op : Operator)

def flatten : Expr -> List Item -> List Item
  | .binary _ left op right, items => flatten right (flatten left items ++ [.operator op])
  | e, items => items ++ [.operand e]

def operandAt? (items : List Item) (i : Nat) : Option Expr :=
  match items[i]? with
  | some (.operand e) => if e.isHole then none else some e
  | _ => none

/-- Put the operators of one level together with their neighbours, from index `i` on. -/
def resolveLevel (level : Nat) (items : List Item) (i : Nat) : Run (List Item) :=
  letI resolveLevel : List Item -> Nat -> Run (List Item) := by apply resolveLevel; exact level
  match items[i]? with
  | none => return items
  | some (.operand _) => resolveLevel items (i + 1)
  | some (.operator op) =>
      if op.level ≠ level then resolveLevel items (i + 1)
      else
        match i with
        | 0 => throw .missingOperand
        | k + 1 =>
            match operandAt? items k, operandAt? items (k + 2) with
            | some left, some right =>
                let joined := Item.operand (.binary left.token left op right)
                resolveLevel (items.take k ++ joined :: items.drop (k + 3)) (k + 1)
            | _, _ => throw .missingOperand
partial_fixpoint

def resolveLevels : List Nat -> List Item -> Run (List Item)
  | [], items => return items
  | level :: levels, items => do
      let items ← resolveLevel level items 0
      resolveLevels levels items

def fixPrecedence (e : Expr) : Run Expr := do
  let items ← resolveLevels (List.range (Operator.maxLevel + 1)) (flatten e [])
  match items with
  | [.operand e] => return e
  | [.operator _] => throw .reducedToOperator
  | _ => throw .notReduced

/-!
## The array of a chain
-/

def chainItems (c : Chain) : List Item :=
  .operand c.first :: c.rest.flatMap fun p => [.operator p.1, .operand p.2]

theorem chainItems_cons (e : Expr) (op : Operator) (right : Expr) (rest : List (Operator × Expr)) :
    chainItems ⟨e, (op, right) :: rest⟩ =
      .operand e :: .operator op :: chainItems ⟨right, rest⟩ :=
  rfl

theorem chainItems_join (a : Chain) (op : Operator) (b : Chain) :
    chainItems (a.join op b) = chainItems a ++ .operator op :: chainItems b := by
  simp [chainItems, Chain.join]

theorem flatten_eq (e : Expr) (items : List Item) :
    flatten e items = items ++ chainItems e.chain := by
  induction e using Expr.chainInduction generalizing items with
  | atomic e he =>
      rw [he]
      cases e with
      | binary t left op right =>
          exact absurd (congrArg Chain.rest he) (Expr.chain_rest_ne_nil t left op right)
      | _ => rfl
  | binary t left op right ihleft ihright =>
      rw [flatten, ihleft, ihright, Expr.chain, chainItems_join]
      simp

/-- No operand of the chain is missing. -/
def Complete (c : Chain) : Prop :=
  c.All (fun _ => True) (fun e => e.isHole = false)

/-!
## One level
-/

section

variable {level : Nat} {before after : List Item} {e : Expr} {op : Operator}

theorem item_at (before : List Item) (item : Item) (after : List Item) :
    (before ++ item :: after)[before.length]? = some item := by
  rw [List.getElem?_append_right (Nat.le_refl _), Nat.sub_self]
  rfl

theorem operandAt_operand (before : List Item) (after : List Item) (he : e.isHole = false) :
    operandAt? (before ++ .operand e :: after) before.length = some e := by
  rw [operandAt?, item_at]
  dsimp only
  rw [he, if_neg Bool.false_ne_true]

theorem resolveLevel_operand (level : Nat) (before : List Item) (e : Expr) (after : List Item) :
    resolveLevel level (before ++ .operand e :: after) before.length =
      resolveLevel level (before ++ .operand e :: after) (before.length + 1) := by
  rw [resolveLevel, item_at]

theorem resolveLevel_end (level : Nat) (items : List Item) :
    resolveLevel level items items.length = pure items := by
  rw [resolveLevel, List.getElem?_eq_none (Nat.le_refl _)]

theorem resolveLevel_other (before after : List Item) (h : op.level ≠ level) :
    resolveLevel level (before ++ .operator op :: after) before.length =
      resolveLevel level (before ++ .operator op :: after) (before.length + 1) := by
  rw [resolveLevel, item_at]
  exact if_pos h

theorem resolveLevel_join
    (before after : List Item) {right : Expr} (h : op.level = level) (he : e.isHole = false)
    (hright : right.isHole = false) :
    resolveLevel level (before ++ .operand e :: .operator op :: .operand right :: after)
        (before.length + 1) =
      resolveLevel level (before ++ .operand (.binary e.token e op right) :: after)
        (before.length + 1) := by
  have hop := item_at (before ++ [.operand e]) (.operator op) (.operand right :: after)
  have hleft := operandAt_operand before (.operator op :: .operand right :: after) he
  have hafter := operandAt_operand (before ++ [.operand e, .operator op]) after hright
  rw [List.append_assoc, List.length_append] at hop hafter
  have hdrop : (before ++ .operand e :: .operator op :: .operand right :: after).drop
      (before.length + 3) = after := by
    rw [List.drop_append]
    simp
  rw [resolveLevel]
  simp only [List.cons_append, List.nil_append, List.length_cons, List.length_nil] at hop hafter
  simp only [hop, h, ne_eq, not_true_eq_false, if_false, hleft, hafter, List.take_left, hdrop]

theorem resolveLevel_single (level : Nat) (before : List Item) (e : Expr) :
    resolveLevel level (before ++ chainItems ⟨e, []⟩) before.length =
      pure (before ++ chainItems ⟨e, []⟩) := by
  have hend := resolveLevel_end level (before ++ [.operand e])
  rw [List.length_append] at hend
  exact (resolveLevel_operand level before e []).trans hend

theorem resolveLevel_joined
    (before : List Item) {right : Expr} (rest : List (Operator × Expr)) (h : op.level = level)
    (he : e.isHole = false) (hright : right.isHole = false) :
    resolveLevel level (before ++ chainItems ⟨e, (op, right) :: rest⟩) before.length =
      resolveLevel level (before ++ chainItems ⟨.binary e.token e op right, rest⟩)
        before.length := by
  rw [chainItems_cons, resolveLevel_operand]
  exact (resolveLevel_join before _ h he hright).trans (resolveLevel_operand level before _ _).symm

theorem append_chainItems_cons (before : List Item) (e : Expr) (op : Operator) (c : Chain) :
    before ++ chainItems ⟨e, (op, c.first) :: c.rest⟩ =
      (before ++ [.operand e, .operator op]) ++ chainItems c := by
  rw [List.append_assoc]
  rfl

theorem resolveLevel_passed (before : List Item) (e : Expr) (c : Chain) (h : op.level ≠ level) :
    resolveLevel level (before ++ chainItems ⟨e, (op, c.first) :: c.rest⟩) before.length =
      resolveLevel level ((before ++ [.operand e, .operator op]) ++ chainItems c)
        (before ++ [Item.operand e, .operator op]).length := by
  have hother := resolveLevel_other (before ++ [.operand e]) (chainItems c) h
  rw [List.append_assoc, List.length_append] at hother
  rw [← append_chainItems_cons, chainItems_cons, resolveLevel_operand, List.length_append]
  exact hother

end

theorem resolveLevel_eq
    (level : Nat) (before : List Item) {e : Expr} {rest : List (Operator × Expr)}
    (h : Complete ⟨e, rest⟩) :
    resolveLevel level (before ++ chainItems ⟨e, rest⟩) before.length =
      pure (before ++ chainItems (Chain.pass level e rest)) := by
  induction rest generalizing before e with
  | nil => exact resolveLevel_single level before e
  | cons p rest ih =>
      rcases p with ⟨op, right⟩
      rw [Chain.pass]
      by_cases hlevel : op.level = level
      · have hjoined : Complete ⟨.binary e.token e op right, rest⟩ :=
          ⟨rfl, fun p hp => h.rest p (List.mem_cons_of_mem _ hp)⟩
        rw [if_pos hlevel, resolveLevel_joined before rest hlevel h.first h.tail.first]
        exact ih before hjoined
      · rw [if_neg hlevel, append_chainItems_cons]
        exact (resolveLevel_passed before e ⟨right, rest⟩ hlevel).trans (ih _ h.tail)

theorem resolveLevels_eq (levels : List Nat) {c : Chain} (h : Complete c) :
    resolveLevels levels (chainItems c) =
      pure (chainItems (levels.foldl (fun c level => Chain.pass level c.first c.rest) c)) := by
  induction levels generalizing c with
  | nil => rfl
  | cons level levels ih =>
      have hpass := resolveLevel_eq level [] h
      have hcomplete : Complete (Chain.pass level c.first c.rest) :=
        h.pass (fun _ _ _ _ _ _ _ => rfl) level
      rw [resolveLevels, List.foldl_cons, ← ih hcomplete]
      exact (congrArg (· >>= resolveLevels levels) hpass).trans (pure_bind _ _)

theorem chain_atomic (e : Expr) :
    e.chain.first.chain = ⟨e.chain.first, []⟩ ∧
      forall p, p ∈ e.chain.rest -> p.2.chain = ⟨p.2, []⟩ := by
  induction e using Expr.chainInduction with
  | atomic e he =>
      rw [he]
      exact ⟨he, fun p hp => absurd hp List.not_mem_nil⟩
  | binary t left op right ihleft ihright =>
      refine ⟨ihleft.1, ?_⟩
      change forall p, p ∈ left.chain.rest ++ (op, right.chain.first) :: right.chain.rest -> _
      rw [List.forall_mem_append, List.forall_mem_cons]
      exact ⟨ihleft.2, ihright.1, ihright.2⟩

theorem fixPrecedence_eq {e : Expr} (h : Complete e.chain) :
    fixPrecedence e = pure e.chain.resolve := by
  have hatomic := chain_atomic e
  rw [fixPrecedence, flatten_eq, List.nil_append, resolveLevels_eq _ h,
    (Chain.passes_spec hatomic.1 hatomic.2).1]
  generalize e.chain.resolve = resolved
  exact pure_bind _ _

end Machine
end DefTable
