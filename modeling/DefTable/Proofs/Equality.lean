import DefTable.Expr.Basic
import DefTable.Table.Basic

/-!
# Deciding equality

Expressions hold lists of expressions and definitions hold tables of definitions.  Equality is
decided by walking both sides together.
-/

namespace DefTable
namespace Expr

mutual

def same : Expr -> Expr -> Bool
  | .hole, .hole => true
  | .ident i, .ident j => i = j
  | .number t v, .number u w => t = u && v = w
  | .string t v, .string u w => t = u && v = w
  | .bool t v, .bool u w => t = u && v = w
  | .null t, .null u => t = u
  | .group t e, .group u f => t = u && same e f
  | .letIn t i ps v b, .letIn u j qs w c => (t = u && i = j && ps = qs) && (same v w && same b c)
  | .binary t l op r, .binary u l' op' r' => t = u && (same l l' && (op = op' && same r r'))
  | .list t es, .list u fs => t = u && sameAll es fs
  | .cond t c y n, .cond u c' y' n' => t = u && (same c c' && (same y y' && same n n'))
  | .lambda t ps b, .lambda u qs c => (t = u && ps = qs) && same b c
  | _, _ => false

def sameAll : List Expr -> List Expr -> Bool
  | [], [] => true
  | e :: es, f :: fs => same e f && sameAll es fs
  | _, _ => false

end

mutual

theorem same_iff : (a b : Expr) -> (same a b = true <-> a = b)
  | .hole, b => by cases b <;> simp [same]
  | .ident _, b => by cases b <;> simp [same]
  | .number _ _, b => by cases b <;> simp [same]
  | .string _ _, b => by cases b <;> simp [same]
  | .bool _ _, b => by cases b <;> simp [same]
  | .null _, b => by cases b <;> simp [same]
  | .group _ e, b => by cases b <;> simp [same, same_iff e]
  | .letIn _ _ _ v e, b => by cases b <;> simp [same, same_iff v, same_iff e, and_assoc]
  | .binary _ l _ r, b => by cases b <;> simp [same, same_iff l, same_iff r]
  | .list _ es, b => by cases b <;> simp [same, sameAll_iff es]
  | .cond _ c y n, b => by cases b <;> simp [same, same_iff c, same_iff y, same_iff n]
  | .lambda _ _ e, b => by cases b <;> simp [same, same_iff e, and_assoc]

theorem sameAll_iff : (as bs : List Expr) -> (sameAll as bs = true <-> as = bs)
  | [], bs => by cases bs <;> simp [sameAll]
  | a :: as, bs => by cases bs <;> simp [sameAll, same_iff a, sameAll_iff as]

end

instance : DecidableEq Expr :=
  fun a b => decidable_of_iff (same a b = true) (same_iff a b)

end Expr

deriving instance DecidableEq for Decl
deriving instance DecidableEq for Program

instance decidableEqResult {α β : Type} [DecidableEq α] [DecidableEq β] : DecidableEq (Except α β)
  | .error a, .error b => decidable_of_iff (a = b) ⟨congrArg _, Except.error.inj⟩
  | .error _, .ok _ => isFalse (by simp)
  | .ok _, .error _ => isFalse (by simp)
  | .ok a, .ok b => decidable_of_iff (a = b) ⟨congrArg _, Except.ok.inj⟩

namespace Def

mutual

def same : Def -> Def -> Bool
  | .number v, .number w => v = w
  | .string v, .string w => v = w
  | .matrix cells, .matrix cells' => cells = cells'
  | .bool v, .bool w => v = w
  | .null, .null => true
  | .list items, .list items' => items = items'
  | .call target args, .call target' args' => target = target' && args = args'
  | .func params body, .func params' body' => params = params' && sameTable body body'
  | .switch cases, .switch cases' => cases = cases'
  | _, _ => false

def sameTable : List (String × Def) -> List (String × Def) -> Bool
  | [], [] => true
  | (id, d) :: rest, (id', d') :: rest' => (id = id' && same d d') && sameTable rest rest'
  | _, _ => false

end

mutual

theorem same_iff : (a b : Def) -> (same a b = true <-> a = b)
  | .number _, b => by cases b <;> simp [same]
  | .string _, b => by cases b <;> simp [same]
  | .matrix _, b => by cases b <;> simp [same]
  | .bool _, b => by cases b <;> simp [same]
  | .null, b => by cases b <;> simp [same]
  | .list _, b => by cases b <;> simp [same]
  | .call _ _, b => by cases b <;> simp [same]
  | .func _ body, b => by cases b <;> simp [same, sameTable_iff body]
  | .switch _, b => by cases b <;> simp [same]

theorem sameTable_iff : (as bs : List (String × Def)) -> (sameTable as bs = true <-> as = bs)
  | [], bs => by cases bs <;> simp [sameTable]
  | (id, d) :: rest, bs => by
      cases bs with
      | nil => simp [sameTable]
      | cons entry rest' =>
          rcases entry with ⟨id', d'⟩
          simp [sameTable, same_iff d, sameTable_iff rest]

end

instance : DecidableEq Def :=
  fun a b => decidable_of_iff (same a b = true) (same_iff a b)

end Def
end DefTable
