import DefTable.Proofs.Expr.Chain
import DefTable.Proofs.Expr.Named
import DefTable.Proofs.Grammar.Basic

/-!
# The names of a derived expression

Every name of an expression is written by one of its tokens.  So rules that hold of what single
tokens stand for hold of every expression that is derived from such tokens.
-/

namespace DefTable
namespace Grammar

/-- Tokens that satisfy `T` stand for names that obey the rules. -/
structure Suits (T : Token -> Prop) (r : NameRules) : Prop where
  declared : forall t i, T t -> Declarable t i -> r.declared i.name
  parameter : forall t i, T t -> Declarable t i -> r.parameter i.name
  reference : forall t, T t -> t.kind = .name ∨ t.kind = .operator -> r.reference t.spelling
  operator : forall t op, T t -> Parse.operatorOf? t = some op -> op.Named r

attribute [local irreducible] Chain.resolve

section

variable {T : Token -> Prop} {r : NameRules} {E : Reading}

theorem names_suit
    (hT : Suits T r) {ts : List Token} {is : List Ident} (h : Names ts is)
    (hts : forall t, t ∈ ts -> T t) :
    forall i, i ∈ is -> r.parameter i.name := by
  induction h with
  | nil => exact fun i hi => absurd hi List.not_mem_nil
  | cons hdeclarable _ ih =>
      rw [List.forall_mem_cons] at hts ⊢
      exact ⟨hT.parameter _ _ hts.1 hdeclarable, ih hts.2⟩

theorem declares_named
    (hT : Suits T r) (hE : forall ts e, E ts e -> (forall t, t ∈ ts -> T t) -> e.Named r)
    {ts : List Token} {d : Decl} (h : Declares E ts d) (hts : forall t, t ∈ ts -> T t) :
    d.Named r := by
  cases h with
  | intro hname hparams _ hbody =>
      simp only [List.mem_append, List.mem_cons] at hts
      refine ⟨hT.declared _ _ (hts _ (.inl (.inl rfl))) hname, ?_, ?_⟩
      · exact names_suit hT hparams fun t ht => hts t (.inl (.inr ht))
      · exact hE _ _ hbody fun t ht => hts t (.inr (.inr ht))

theorem elements_named
    (hE : forall ts e, E ts e -> (forall t, t ∈ ts -> T t) -> e.Named r)
    {ts : List Token} {es : List Expr} (h : Elements E ts es) (hts : forall t, t ∈ ts -> T t) :
    Expr.AllNamed r es := by
  induction h with
  | last he => exact ⟨hE _ _ he hts, trivial⟩
  | cons he _ _ ih =>
      simp only [List.mem_append, List.mem_cons] at hts
      exact ⟨hE _ _ he fun t ht => hts t (.inl ht), ih fun t ht => hts t (.inr (.inr ht))⟩

theorem atom_named
    (hT : Suits T r) (hE : forall ts e, E ts e -> (forall t, t ∈ ts -> T t) -> e.Named r)
    {ts : List Token} {e : Expr} (h : Atom E ts e) (hts : forall t, t ∈ ts -> T t) :
    e.Named r := by
  cases h with
  | name hkind => exact hT.reference _ (hts _ List.mem_cons_self) (.inl hkind)
  | number _ => trivial
  | string _ => trivial
  | true _ => trivial
  | false _ => trivial
  | null _ => trivial
  | negative _ _ _ _ => trivial
  | positive _ _ _ _ => trivial
  | reference _ hkind _ =>
      exact hT.reference _ (hts _ (List.mem_cons_of_mem _ List.mem_cons_self)) (.inr hkind)
  | group _ he _ =>
      simp only [List.mem_append, List.mem_cons] at hts
      have hinner := hE _ _ he fun t ht => hts t (.inl (.inr ht))
      exact hinner
  | emptyList _ _ => trivial
  | list _ hes _ =>
      simp only [List.mem_append, List.mem_cons] at hts
      exact elements_named hE hes fun t ht => hts t (.inl (.inr ht))

theorem joins_named
    (hT : Suits T r) {js ts : List Token} {op : Operator} (h : Joins js op ts)
    (hjs : forall t, t ∈ js -> T t) :
    op.Named r := by
  cases h with
  | operator hkind =>
      exact hT.operator _ _ (hjs _ List.mem_cons_self) (by rw [Parse.operatorOf?, hkind])
  | quotedName hkind =>
      exact hT.operator _ _ (hjs _ List.mem_cons_self) (by rw [Parse.operatorOf?, hkind])
  | sideBySide _ => trivial

theorem more_named
    (hT : Suits T r) (hE : forall ts e, E ts e -> (forall t, t ∈ ts -> T t) -> e.Named r)
    {ts : List Token} {more : List (Operator × Expr)} (h : More E ts more)
    (hts : forall t, t ∈ ts -> T t) :
    forall p, p ∈ more -> p.1.Named r ∧ p.2.Named r := by
  induction h with
  | nil => exact fun p hp => absurd hp List.not_mem_nil
  | atom hjoins hatom _ ih =>
      simp only [List.mem_append] at hts
      rw [List.forall_mem_cons]
      refine ⟨⟨joins_named hT hjoins fun t ht => hts t (.inl (.inl ht)), ?_⟩, ?_⟩
      · exact atom_named hT hE hatom fun t ht => hts t (.inl (.inr ht))
      · exact ih fun t ht => hts t (.inr ht)
  | openForm hjoins _ he =>
      simp only [List.mem_append] at hts
      rw [List.forall_mem_singleton]
      refine ⟨joins_named hT hjoins fun t ht => hts t (.inl ht), ?_⟩
      exact hE _ _ he fun t ht => hts t (.inr ht)

theorem form_named
    (hT : Suits T r) (hE : forall ts e, E ts e -> (forall t, t ∈ ts -> T t) -> e.Named r)
    {ts : List Token} {e : Expr} (h : Form E ts e) (hts : forall t, t ∈ ts -> T t) :
    e.Named r := by
  cases h with
  | letIn _ hdeclares _ hbody =>
      simp only [List.mem_append, List.mem_cons] at hts
      have hd := declares_named hT hE hdeclares fun t ht => hts t (.inl (.inr ht))
      exact ⟨hd.1, hd.2.1, hd.2.2, hE _ _ hbody fun t ht => hts t (.inr (.inr ht))⟩
  | cond _ htest _ hyes _ hno =>
      simp only [List.mem_append, List.mem_cons] at hts
      exact ⟨hE _ _ htest fun t ht => hts t (.inl (.inl (.inr ht))),
        hE _ _ hyes fun t ht => hts t (.inl (.inr (.inr ht))),
        hE _ _ hno fun t ht => hts t (.inr (.inr ht))⟩
  | lambda _ hparams _ _ hbody =>
      simp only [List.mem_append, List.mem_cons] at hts
      exact ⟨names_suit hT hparams fun t ht => hts t (.inl (.inr ht)),
        hE _ _ hbody fun t ht => hts t (.inr (.inr ht))⟩
  | chain hfirst hmore =>
      simp only [List.mem_append] at hts
      have hbinary : forall t left op right, Expr.Named r left -> Operator.Named r op ->
          Expr.Named r right -> Expr.Named r (.binary t left op right) :=
        fun _ _ _ _ hleft hop hright => ⟨hleft, hop, hright⟩
      have hall : Chain.All (Operator.Named r) (Expr.Named r) ⟨_, _⟩ :=
        ⟨atom_named hT hE hfirst fun t ht => hts t (.inl ht),
          more_named hT hE hmore fun t ht => hts t (.inr ht)⟩
      exact hall.resolve hbinary

theorem derives_named
    (hT : Suits T r) {n : Nat} {ts : List Token} {e : Expr} (h : Derives n ts e)
    (hts : forall t, t ∈ ts -> T t) :
    e.Named r := by
  induction n generalizing ts e with
  | zero => exact h.elim
  | succ n ih => exact form_named hT (fun ts e he ht => ih he ht) h hts

end

end Grammar
end DefTable
