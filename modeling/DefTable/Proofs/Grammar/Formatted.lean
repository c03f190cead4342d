import DefTable.Proofs.Expr.Alike
import DefTable.Proofs.Expr.Writable
import DefTable.Proofs.Expr.Written
import DefTable.Proofs.Grammar.Acceptance
import DefTable.Proofs.Token.Values

/-!
# Printing what was read

An expression that was read is ordered by precedence, so printing it puts no application into
parentheses: what is written is alike.  The parentheses that are added stand around open forms, and
these were nested one deeper already when they were read as the last operand of a chain.  It can be
written if its tokens are usable: what was scanned, without infinite numbers.
-/

namespace DefTable
namespace Source

/-!
## Expressions that printing keeps
-/

/-- What is written at the place is alike, and its expressions nest at most `n` deep. -/
structure KeptAt (n : Nat) (e : Expr) (level : Nat) (onRight : Bool) : Prop where
  depth : nesting .minimal level onRight e ≤ n
  alike : e.Alike (written .minimal level onRight e)

def KeptOperand (n : Nat) (e : Expr) : Prop :=
  forall level onRight, KeptAt n e level onRight

structure Kept (n : Nat) (e : Expr) : Prop where
  depth : nesting .minimal topLevel false e < n
  alike : e.Alike (written .minimal topLevel false e)

theorem keptAt_of_ordered
    {n : Nat} {e : Expr} (hordered : e.Ordered) (hfirst : KeptOperand n e.chain.first)
    (hrest : forall p, p ∈ e.chain.rest -> KeptOperand n p.2) {level : Nat} {onRight : Bool}
    (hlevel : e.looseness ≤ level) (hright : onRight = true -> e.looseness < level) :
    KeptAt n e level onRight := by
  induction e using Expr.chainInduction generalizing level onRight with
  | atomic e he =>
      rw [he] at hfirst
      exact hfirst level onRight
  | binary t left op right ihleft ihright =>
      rcases hordered with ⟨hleftOrdered, hrightOrdered, hleftLoose, hrightLoose⟩
      rw [Expr.chain, Chain.join, List.forall_mem_append, List.forall_mem_cons] at hrest
      have hl : KeptAt n left op.level false :=
        ihleft hleftOrdered hfirst hrest.1 hleftLoose fun h => absurd h Bool.false_ne_true
      have hr : KeptAt n right op.level true :=
        ihright hrightOrdered hrest.2.1 hrest.2.2 (Nat.le_of_lt hrightLoose) fun _ => hrightLoose
      have hplain := not_isEnclosed hlevel hright
      constructor
      · rw [nesting, hplain]
        exact Nat.max_le.mpr ⟨hl.depth, hr.depth⟩
      · rw [written, hplain]
        exact .binary hl.alike (name?_erased op).symm hr.alike

theorem writable_of_ordered
    {e : Expr} (hordered : e.Ordered) (hfirst : Writable e.chain.first)
    (hrest : forall p, p ∈ e.chain.rest ->
      Writable p.2 ∧ (p.1 = .apply -> isNegativeNumber p.2 = false)) : Writable e := by
  induction e using Expr.chainInduction with
  | atomic e he =>
      rw [he] at hfirst
      exact hfirst
  | binary t left op right ihleft ihright =>
      rcases hordered with ⟨hleftOrdered, hrightOrdered, _, hrightLoose⟩
      rw [Expr.chain, Chain.join, List.forall_mem_append, List.forall_mem_cons] at hrest
      refine ⟨ihleft hleftOrdered hfirst hrest.1,
        ihright hrightOrdered hrest.2.1.1 hrest.2.2, ?_⟩
      rintro rfl
      cases right with
      | binary t' left' op' right' =>
          have hpos : 0 < op'.level := op'.level_pos
          exact absurd hrightLoose (Nat.not_lt.mpr hpos)
      | _ => exact hrest.2.1.2 rfl

/-!
## Open forms
-/

theorem written_of_isOpenEnded
    {e : Expr} (h : e.isOpenEnded = true) (style : Style) (level : Nat) (onRight : Bool) :
    nesting style level onRight e =
        deeper (level ≤ Operator.maxLevel) (nesting style topLevel false e) ∧
      written style level onRight e =
        enclosed (level ≤ Operator.maxLevel) (written style topLevel false e) := by
  cases e with
  | letIn t name params value body => exact ⟨rfl, rfl⟩
  | cond t test yes no => exact ⟨rfl, rfl⟩
  | lambda t params body => exact ⟨rfl, rfl⟩
  | _ => cases h

theorem Kept.operand
    {n : Nat} {e : Expr} (h : Kept n e) (hopen : e.isOpenEnded = true) : KeptOperand n e := by
  refine fun level onRight => ⟨?_, ?_⟩
  · rw [(written_of_isOpenEnded hopen _ _ _).1]
    cases decide (level ≤ Operator.maxLevel) with
    | true => exact h.depth
    | false => exact Nat.le_of_lt h.depth
  · rw [(written_of_isOpenEnded hopen _ _ _).2]
    cases decide (level ≤ Operator.maxLevel) with
    | true => exact .enclosed hopen h.alike
    | false => exact h.alike

end Source

/-!
## Expressions that were read
-/

namespace Grammar

open Source

attribute [local irreducible] Chain.resolve

section

variable {n : Nat} (hE : forall ts e, Derives n ts e -> Kept n e)
include hE

theorem elements_kept {ts : List Token} {es : List Expr} (h : Elements (Derives n) ts es) :
    nestingOfAll .minimal es ≤ n ∧ Expr.AllAlike es (allWritten .minimal es) := by
  induction h with
  | last he =>
      have hkept := hE _ _ he
      exact ⟨Nat.max_le.mpr ⟨hkept.depth, Nat.zero_le n⟩, .cons hkept.alike .nil⟩
  | cons he _ _ ih =>
      have hkept := hE _ _ he
      exact ⟨Nat.max_le.mpr ⟨hkept.depth, ih.1⟩, .cons hkept.alike ih.2⟩

theorem atom_kept {ts : List Token} {e : Expr} (h : Atom (Derives n) ts e) : KeptOperand n e := by
  cases h with
  | name _ => exact fun _ _ => ⟨Nat.zero_le n, .ident rfl⟩
  | number _ => exact fun _ _ => ⟨Nat.zero_le n, .number⟩
  | string _ => exact fun _ _ => ⟨Nat.zero_le n, .string⟩
  | true _ => exact fun _ _ => ⟨Nat.zero_le n, .bool⟩
  | false _ => exact fun _ _ => ⟨Nat.zero_le n, .bool⟩
  | null _ => exact fun _ _ => ⟨Nat.zero_le n, .null⟩
  | negative _ _ _ _ => exact fun _ _ => ⟨Nat.zero_le n, .number⟩
  | positive _ _ _ _ => exact fun _ _ => ⟨Nat.zero_le n, .number⟩
  | reference _ _ _ => exact fun _ _ => ⟨Nat.zero_le n, .ident rfl⟩
  | group _ he _ =>
      have hkept := hE _ _ he
      exact fun _ _ => ⟨hkept.depth, .group hkept.alike⟩
  | emptyList _ _ => exact fun _ _ => ⟨Nat.zero_le n, .list .nil⟩
  | list _ hes _ =>
      have hkept := elements_kept hE hes
      exact fun _ _ => ⟨hkept.1, .list hkept.2⟩

theorem form_kept {ts : List Token} {e : Expr} (h : Form (Derives n) ts e) : Kept (n + 1) e := by
  cases h with
  | letIn _ hdeclares _ hbody =>
      cases hdeclares with
      | intro _ _ _ hvalue =>
          have hv := hE _ _ hvalue
          have hb := hE _ _ hbody
          exact ⟨Nat.succ_lt_succ (Nat.max_lt.mpr ⟨hv.depth, hb.depth⟩),
            .letIn rfl (map_name_erased _).symm hv.alike hb.alike⟩
  | cond _ htest _ hyes _ hno =>
      have ht := hE _ _ htest
      have hy := hE _ _ hyes
      have hn := hE _ _ hno
      exact ⟨Nat.succ_lt_succ (Nat.max_lt.mpr ⟨ht.depth, Nat.max_lt.mpr ⟨hy.depth, hn.depth⟩⟩),
        .cond ht.alike hy.alike hn.alike⟩
  | lambda _ _ _ _ hbody =>
      have hb := hE _ _ hbody
      exact ⟨Nat.succ_lt_succ hb.depth, .lambda (map_name_erased _).symm hb.alike⟩
  | @chain us first rest more hatom hmore =>
      rcases Chain.resolve_spec (c := ⟨first, more⟩) (atom_isOperand hatom).1
        fun p hp => (more_isOperand hmore p hp).1 with ⟨hordered, hchain⟩
      have hloose : (Chain.resolve ⟨first, more⟩).looseness ≤ topLevel :=
        Nat.le_succ_of_le (Expr.looseness_le _)
      have hkept : KeptAt n (Chain.resolve ⟨first, more⟩) topLevel false := by
        refine keptAt_of_ordered hordered ?_ ?_ hloose fun h => absurd h Bool.false_ne_true
        · rw [hchain]
          exact atom_kept hE hatom
        · rw [hchain]
          exact hmore.forall_operand (fun _ _ => atom_kept hE) fun _ _ _ hopens he =>
            (hE _ _ he).operand (isOpenEnded_of_opens hopens he)
      exact ⟨Nat.lt_succ_of_le hkept.depth, hkept.alike⟩

end

theorem derives_kept {n : Nat} {ts : List Token} {e : Expr} (h : Derives n ts e) : Kept n e := by
  induction n generalizing ts e with
  | zero => exact h.elim
  | succ n ih => exact form_kept (fun ts e he => ih he) h

end Grammar

/-!
## Expressions of usable tokens
-/

def Token.Kind.isFinite : Token.Kind -> Bool
  | .number v => v.isFinite
  | _ => true

namespace Grammar

open Source

def Usable (t : Token) : Prop :=
  t.kind.Proper ∧ t.kind.isFinite = true

attribute [local irreducible] Chain.resolve

section

variable {n : Nat}
  (hE : forall ts e, Derives n ts e -> (forall t, t ∈ ts -> Usable t) -> Writable e)
include hE

theorem elements_writable
    {ts : List Token} {es : List Expr} (h : Elements (Derives n) ts es)
    (hts : forall t, t ∈ ts -> Usable t) : AllWritable es := by
  induction h with
  | last he => exact ⟨hE _ _ he hts, trivial⟩
  | cons he _ _ ih =>
      simp only [List.mem_append, List.mem_cons] at hts
      exact ⟨hE _ _ he fun t ht => hts t (.inl ht), ih fun t ht => hts t (.inr (.inr ht))⟩

theorem atom_writable
    {ts : List Token} {e : Expr} (h : Atom (Derives n) ts e)
    (hts : forall t, t ∈ ts -> Usable t) : Writable e := by
  have hfinite : forall {t v}, t ∈ ts -> t.kind = .number v -> v.isFinite = true := by
    intro t v ht hkind
    have husable := (hts t ht).2
    rw [hkind] at husable
    exact husable
  cases h with
  | name _ => trivial
  | number hkind => exact hfinite List.mem_cons_self hkind
  | @string t v hkind =>
      have hproper := (hts t List.mem_cons_self).1
      rw [hkind] at hproper
      exact hproper
  | true _ => trivial
  | false _ => trivial
  | null _ => trivial
  | @negative sign t v _ _ hkind _ =>
      change decide ((-v).magnitude < _) = true
      rw [Number.magnitude_neg]
      exact hfinite (List.mem_cons_of_mem _ List.mem_cons_self) hkind
  | positive _ _ hkind _ => exact hfinite (List.mem_cons_of_mem _ List.mem_cons_self) hkind
  | reference _ _ _ => trivial
  | group _ he _ =>
      simp only [List.mem_append, List.mem_cons] at hts
      have hwritable := hE _ _ he fun t ht => hts t (.inl (.inr ht))
      exact hwritable
  | emptyList _ _ => trivial
  | list _ hes _ =>
      simp only [List.mem_append, List.mem_cons] at hts
      exact elements_writable hE hes fun t ht => hts t (.inl (.inr ht))

omit hE in
theorem atom_not_negative
    {t : Token} {ts : List Token} {e : Expr} (h : Atom (Derives n) (t :: ts) e)
    (hts : forall u, u ∈ t :: ts -> Usable u) (hkind : t.kind ≠ .operator) :
    isNegativeNumber e = false := by
  cases h with
  | number hnumber =>
      have hproper := (hts t List.mem_cons_self).1
      rw [hnumber] at hproper
      exact hproper.1
  | negative hsign _ _ _ => exact absurd hsign hkind
  | positive hsign _ _ _ => exact absurd hsign hkind
  | _ => rfl

theorem more_writable
    {ts : List Token} {more : List (Operator × Expr)} (h : More (Derives n) ts more)
    (hts : forall t, t ∈ ts -> Usable t) :
    forall p, p ∈ more -> Writable p.2 ∧ (p.1 = .apply -> isNegativeNumber p.2 = false) := by
  induction h with
  | nil => exact fun p hp => absurd hp List.not_mem_nil
  | atom hjoins hatom _ ih =>
      simp only [List.mem_append] at hts
      rw [List.forall_mem_cons]
      have hatomTokens := fun t ht => hts t (.inl (.inr ht))
      refine ⟨⟨atom_writable hE hatom hatomTokens, ?_⟩, ih fun t ht => hts t (.inr ht)⟩
      intro hop
      cases hjoins with
      | operator _ => cases hop
      | quotedName _ => cases hop
      | sideBySide hkind => exact atom_not_negative hatom hatomTokens hkind
  | @openForm js op t ts e _ hopens he =>
      simp only [List.mem_append] at hts
      rw [List.forall_mem_singleton]
      have hopen := isOpenEnded_of_opens hopens he
      refine ⟨hE _ _ he fun t ht => hts t (.inr ht), fun _ => ?_⟩
      cases e with
      | number t v => cases hopen
      | _ => rfl

theorem form_writable
    {ts : List Token} {e : Expr} (h : Form (Derives n) ts e)
    (hts : forall t, t ∈ ts -> Usable t) : Writable e := by
  cases h with
  | letIn _ hdeclares _ hbody =>
      cases hdeclares with
      | intro _ _ _ hvalue =>
          simp only [List.mem_append, List.mem_cons] at hts
          exact ⟨hE _ _ hvalue fun t ht => hts t (.inl (.inr (.inr (.inr ht)))),
            hE _ _ hbody fun t ht => hts t (.inr (.inr ht))⟩
  | cond _ htest _ hyes _ hno =>
      simp only [List.mem_append, List.mem_cons] at hts
      exact ⟨hE _ _ htest fun t ht => hts t (.inl (.inl (.inr ht))),
        hE _ _ hyes fun t ht => hts t (.inl (.inr (.inr ht))),
        hE _ _ hno fun t ht => hts t (.inr (.inr ht))⟩
  | lambda _ _ hne _ hbody =>
      simp only [List.mem_append, List.mem_cons] at hts
      exact ⟨hne, hE _ _ hbody fun t ht => hts t (.inr (.inr ht))⟩
  | @chain us first rest more hatom hmore =>
      simp only [List.mem_append] at hts
      rcases Chain.resolve_spec (c := ⟨first, more⟩) (atom_isOperand hatom).1
        fun p hp => (more_isOperand hmore p hp).1 with ⟨hordered, hchain⟩
      apply writable_of_ordered hordered
      · rw [hchain]
        exact atom_writable hE hatom fun t ht => hts t (.inl ht)
      · rw [hchain]
        exact more_writable hE hmore fun t ht => hts t (.inr ht)

end

theorem derives_writable
    {n : Nat} {ts : List Token} {e : Expr} (h : Derives n ts e)
    (hts : forall t, t ∈ ts -> Usable t) : Writable e := by
  induction n generalizing ts e with
  | zero => exact h.elim
  | succ n ih => exact form_writable (fun ts e he ht => ih he ht) h hts

end Grammar
end DefTable
