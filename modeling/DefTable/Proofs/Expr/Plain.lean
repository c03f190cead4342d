import DefTable.Proofs.Expr.Writable
import DefTable.Proofs.Expr.Written

/-!
# Texts without parentheses around applications

If every application in an expression is ordered by precedence, printing has to put none into
parentheses.  The text is then the one that looks at no level at all: it has parentheses for the
groups of the expression, around open forms that are an operand, and around references to operators.
-/

namespace DefTable
namespace Expr

/-!
## Expressions with all applications ordered
-/

mutual

/-- Every application in the expression is ordered, also those inside of other forms. -/
def Resolved : Expr -> Prop
  | .hole => True
  | .ident _ => True
  | .number _ _ => True
  | .string _ _ => True
  | .bool _ _ => True
  | .null _ => True
  | .group _ e => e.Resolved
  | .letIn _ _ _ value body => value.Resolved ∧ body.Resolved
  | .binary _ left op right =>
      left.Resolved ∧ right.Resolved ∧ left.looseness ≤ op.level ∧ right.looseness < op.level
  | .list _ es => AllResolved es
  | .cond _ test yes no => test.Resolved ∧ yes.Resolved ∧ no.Resolved
  | .lambda _ _ body => body.Resolved

def AllResolved : List Expr -> Prop
  | [] => True
  | e :: es => e.Resolved ∧ AllResolved es

end

theorem resolved_of_ordered
    {e : Expr} (hordered : e.Ordered) (hfirst : e.chain.first.Resolved)
    (hrest : forall p, p ∈ e.chain.rest -> p.2.Resolved) : e.Resolved := by
  induction e using Expr.chainInduction with
  | atomic e he =>
      rw [he] at hfirst
      exact hfirst
  | binary t left op right ihleft ihright =>
      rcases hordered with ⟨hleftOrdered, hrightOrdered, hleftLoose, hrightLoose⟩
      rw [Expr.chain, Chain.join, List.forall_mem_append, List.forall_mem_cons] at hrest
      have hleft := ihleft hleftOrdered hfirst hrest.1
      have hright := ihright hrightOrdered hrest.2.1 hrest.2.2
      exact ⟨hleft, hright, hleftLoose, hrightLoose⟩

end Expr

namespace Source

/-!
## The text without levels
-/

def isSymbolic (name : String) : Bool :=
  name.toList.all Token.operatorChars.contains

mutual

def plain (operand : Bool) : Expr -> String
  | .hole => "<???>"
  | .ident i => parenthesised (isSymbolic i.name) i.name
  | .number _ v => v.text
  | .string _ v => StringLiteral.write v
  | .bool _ v => if v then "true" else "false"
  | .null _ => "null"
  | .group _ e => "(" ++ plain false e ++ ")"
  | .list _ es => "[" ++ plainElements es ++ "]"
  | .letIn _ name params value body =>
      parenthesised operand
        ("let " ++ header name params ++ plain false value ++ " in " ++ plain false body)
  | .cond _ test yes no =>
      parenthesised operand
        ("if " ++ plain false test ++ " then " ++ plain false yes ++ " else " ++ plain false no)
  | .lambda _ params body =>
      parenthesised operand ("\\" ++ parameters params ++ " -> " ++ plain false body)
  | .binary _ left op right => plain true left ++ operator op ++ plain true right

def plainElements : List Expr -> String
  | [] => ""
  | [e] => plain false e
  | e :: es => plain false e ++ ", " ++ plainElements es

end

def plainDecl (d : Decl) : String :=
  header d.name d.params ++ plain false d.body

def plainProgram (p : Program) : String :=
  "\n".intercalate (p.decls.map fun d => plainDecl d ++ ";")

/-!
## Printing a resolved expression
-/

theorem isSymbolic_of_isOperatorName {s : String} (h : IsOperatorName s) : isSymbolic s = true :=
  h.2.1

theorem not_isSymbolic_of_head
    {s : String} {c : Char} {cs : List Char} (hs : s.toList = c :: cs)
    (hc : Token.operatorChars.contains c = false) : isSymbolic s = false := by
  rw [isSymbolic, hs, List.all_cons, hc, Bool.false_and]

theorem not_operatorChar_of_isWordChar {c : Char} (h : isWordChar c = true) :
    Token.operatorChars.contains c = false := by
  have hchars : Token.operatorChars.all (fun c => isWordChar c = false) = true := by decide
  rw [Bool.eq_false_iff]
  intro hc
  rw [of_decide_eq_true (List.all_eq_true.mp hchars c (List.contains_iff_mem.mp hc))] at h
  cases h

theorem reference_eq_plain {s : String} (h : writableNames.reference s) :
    reference s = parenthesised (isSymbolic s) s := by
  unfold reference
  rcases h with ⟨hword, _⟩ | hglobal | hoperator
  · have hall := hword.all
    have hisWord := isWord_of_isAsciiWord hword
    rcases hword with ⟨c, cs, hs, _, _⟩
    rw [hs, List.all_cons, Bool.and_eq_true] at hall
    rw [hisWord, not_isSymbolic_of_head hs (not_operatorChar_of_isWordChar hall.1)]
    rfl
  · have hisWord := isWord_of_isQuotableName hglobal.isQuotableName
    rcases hglobal with ⟨cs, hs, _⟩
    rw [hisWord, not_isSymbolic_of_head hs (by decide)]
    rfl
  · rw [not_isWord_of_isOperatorName hoperator, isSymbolic_of_isOperatorName hoperator]
    rfl

/-- Wherever it binds tightly enough, the expression is written without regard to levels. -/
def Plainly (e : Expr) : Prop :=
  forall level onRight, e.looseness ≤ level -> (onRight = true -> e.looseness < level) ->
    expr .minimal level onRight e = plain (level ≤ Operator.maxLevel) e

theorem Plainly.whole {e : Expr} (h : Plainly e) : expr .minimal topLevel false e = plain false e :=
  h topLevel false (Nat.le_succ_of_le e.looseness_le) fun h => absurd h Bool.false_ne_true

theorem plainly_binary
    {t : Token} {left right : Expr} {op : Operator} (hleft : Plainly left) (hright : Plainly right)
    (hleftLoose : left.looseness ≤ op.level) (hrightLoose : right.looseness < op.level) :
    Plainly (.binary t left op right) := by
  intro level onRight hlevel honRight
  have hoperand : decide (op.level ≤ Operator.maxLevel) = true := decide_eq_true op.level_le
  have hl := hleft op.level false hleftLoose fun h => absurd h Bool.false_ne_true
  have hr := hright op.level true (Nat.le_of_lt hrightLoose) fun _ => hrightLoose
  rw [expr, plain, hl, hr, hoperand]
  change parenthesised (isEnclosed .minimal level onRight op) _ = _
  rw [not_isEnclosed hlevel honRight]
  rfl

mutual

theorem plainly : (e : Expr) -> e.Named writableNames -> e.Resolved -> Plainly e
  | .hole, _, _ => fun _ _ _ _ => rfl
  | .ident _, hnamed, _ => fun _ _ _ _ => reference_eq_plain hnamed
  | .number _ _, _, _ => fun _ _ _ _ => rfl
  | .string _ _, _, _ => fun _ _ _ _ => rfl
  | .bool _ _, _, _ => fun _ _ _ _ => rfl
  | .null _, _, _ => fun _ _ _ _ => rfl
  | .group _ e, hnamed, h => fun _ _ _ _ => by
      rw [expr, plain, (plainly e hnamed h).whole]
  | .list _ es, hnamed, h => fun _ _ _ _ => by
      rw [expr, plain, elements_eq_plain es hnamed h]
  | .letIn _ _ _ value body, hnamed, h => fun _ _ _ _ => by
      rw [expr, plain, (plainly value hnamed.2.2.1 h.1).whole,
        (plainly body hnamed.2.2.2 h.2).whole]
  | .binary _ left _ right, hnamed, h =>
      plainly_binary (plainly left hnamed.1 h.1) (plainly right hnamed.2.2 h.2.1) h.2.2.1 h.2.2.2
  | .cond _ test yes no, hnamed, h => fun _ _ _ _ => by
      rw [expr, plain, (plainly test hnamed.1 h.1).whole, (plainly yes hnamed.2.1 h.2.1).whole,
        (plainly no hnamed.2.2 h.2.2).whole]
  | .lambda _ _ body, hnamed, h => fun _ _ _ _ => by
      rw [expr, plain, (plainly body hnamed.2 h).whole]

theorem elements_eq_plain :
    (es : List Expr) -> Expr.AllNamed writableNames es -> Expr.AllResolved es ->
      elements .minimal es = plainElements es
  | [], _, _ => rfl
  | [e], hnamed, h => (plainly e hnamed.1 h.1).whole
  | e :: e' :: es, hnamed, h => by
      show expr .minimal topLevel false e ++ ", " ++ elements .minimal (e' :: es) =
        plain false e ++ ", " ++ plainElements (e' :: es)
      rw [(plainly e hnamed.1 h.1).whole, elements_eq_plain (e' :: es) hnamed.2 h.2]

end

theorem program_eq_plain
    {p : Program} (hnamed : p.Named writableNames)
    (hresolved : forall d, d ∈ p.decls -> d.body.Resolved) :
    program .minimal p = plainProgram p := by
  have hdecls : p.decls.map (fun d => decl .minimal d ++ ";") =
      p.decls.map fun d => plainDecl d ++ ";" := by
    apply List.map_congr_left
    intro d hd
    rw [decl, plainDecl, print, (plainly d.body (hnamed d hd).2.2 (hresolved d hd)).whole]
  rw [program, plainProgram, hdecls]

end Source
end DefTable
