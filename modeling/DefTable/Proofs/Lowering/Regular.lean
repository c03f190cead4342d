import DefTable.Proofs.Lowering.Hygiene
import DefTable.Proofs.Table.Wire

/-!
# The shape of compiled tables

Tables are filled in order, cases are guarded by synthetic identifiers, and functions nest no deeper
than the expressions they come from.  The depth of expressions is limited, so the table of every
program that was read from a text can be read back from its message if its numbers are finite.
-/

namespace DefTable

/-!
## Nesting of functions
-/

namespace Expr

mutual

/-- A bound on how deep functions nest.  Every `let` is counted as a function. -/
def nesting : Expr -> Nat
  | .group _ e => nesting e
  | .letIn _ _ _ value body => max (nesting value + 1) (nesting body)
  | .binary _ left _ right => max (nesting left) (nesting right)
  | .list _ es => nestingOfAll es
  | .cond _ test yes no => max (nesting test) (max (nesting yes) (nesting no))
  | .lambda _ _ body => nesting body + 1
  | _ => 0

def nestingOfAll : List Expr -> Nat
  | [] => 0
  | e :: es => max (nesting e) (nestingOfAll es)

end

end Expr

namespace Grammar

attribute [local irreducible] Chain.resolve

section

variable {E : Reading} {n : Nat} (hE : forall ts e, E ts e -> e.nesting ≤ n)
include hE

theorem elements_nesting
    {ts : List Token} {es : List Expr} (h : Elements E ts es) : Expr.nestingOfAll es ≤ n := by
  induction h with
  | last he =>
      simp only [Expr.nestingOfAll]
      have hfirst := hE _ _ he
      omega
  | cons he _ _ ih =>
      simp only [Expr.nestingOfAll]
      have hfirst := hE _ _ he
      omega

theorem atom_nesting {ts : List Token} {e : Expr} (h : Atom E ts e) : e.nesting ≤ n := by
  cases h with
  | group _ he _ =>
      rw [Expr.nesting]
      exact hE _ _ he
  | list _ hes _ => exact elements_nesting hE hes
  | _ => exact Nat.zero_le n

theorem form_nesting {ts : List Token} {e : Expr} (h : Form E ts e) : e.nesting ≤ n + 1 := by
  cases h with
  | letIn _ hdeclares _ hbody =>
      rcases hdeclares with ⟨_, _, _, hvalue⟩
      have hvalue := hE _ _ hvalue
      have hbody := hE _ _ hbody
      simp only [Expr.nesting]
      omega
  | cond _ htest _ hyes _ hno =>
      have htest := hE _ _ htest
      have hyes := hE _ _ hyes
      have hno := hE _ _ hno
      simp only [Expr.nesting]
      omega
  | lambda _ _ _ _ hbody =>
      have hbody := hE _ _ hbody
      simp only [Expr.nesting]
      omega
  | chain hfirst hmore =>
      have hoperands := hmore.forall_operand (fun _ _ => atom_nesting hE) fun _ _ _ _ => hE _ _
      have hall : Chain.All (fun _ => True) (fun e => e.nesting ≤ n) ⟨_, _⟩ :=
        ⟨atom_nesting hE hfirst, fun p hp => ⟨trivial, hoperands p hp⟩⟩
      refine Nat.le_succ_of_le (hall.resolve ?_)
      intro t left op right hleft _ hright
      exact Nat.max_le.mpr ⟨hleft, hright⟩

end

theorem derives_nesting {n : Nat} {ts : List Token} {e : Expr} (h : Derives n ts e) :
    e.nesting ≤ n := by
  induction n generalizing ts e with
  | zero => exact h.elim
  | succ n ih => exact form_nesting (fun ts e he => ih he) h

end Grammar

/-!
## Entries of an expression
-/

namespace Table

theorem ascending_collect (out : List Entry) : Ascending (collect out) := by
  have hfold : forall t : Table, Ascending t -> Ascending (out.foldl put t) := by
    induction out with
    | nil => exact fun t ht => ht
    | cons e out ih =>
        intro t ht
        apply ih
        rw [put, insert_eq_place]
        exact ascending_place ht
  exact hfold [] List.Pairwise.nil

theorem regular_collect
    {n : Nat} {out : List Entry} (h : forall entry, entry ∈ out -> entry.2.Regular n) :
    (collect out).Regular n where
  ascending := ascending_collect out
  entries := by
    rw [Def.areRegular_iff]
    intro entry hentry
    exact h entry (mem_of_mem_collect hentry)

end Table

namespace Lowering

open Table (Entry)

section

variable {R : List Level -> Site -> Prop}

mutual

theorem regular_of_emits
    {n : Nat} {scope : Bindings} {levels : List Level} {e : Expr} {id : String}
    {out : List Entry} :
    Emits R scope levels e id out -> e.nesting ≤ n -> forall entry, entry ∈ out -> entry.2.Regular n
  | .group he, hn => regular_of_emits he hn
  | .ident _, _ => by
      rw [List.forall_mem_singleton]
      cases n <;> trivial
  | .number, _ => by
      rw [List.forall_mem_singleton]
      cases n <;> trivial
  | .string, _ => by
      rw [List.forall_mem_singleton]
      cases n <;> trivial
  | .bool, _ => by
      rw [List.forall_mem_singleton]
      cases n <;> trivial
  | .null, _ => by
      rw [List.forall_mem_singleton]
      cases n <;> trivial
  | .matrix _, _ => by
      rw [List.forall_mem_singleton]
      cases n <;> trivial
  | .letIn hvalue hbody, hn => by
      simp only [Expr.nesting] at hn
      rw [List.forall_mem_append]
      constructor
      · exact regular_of_emitsDeclaration hvalue (by omega)
      · exact regular_of_emits hbody (by omega)
  | .application hcall, hn => by
      rw [List.forall_mem_append, List.forall_mem_singleton]
      constructor
      · exact regular_of_emitsCall hcall hn
      · cases n <;> trivial
  | .operation _ hleft hright, hn => by
      simp only [Expr.nesting] at hn
      rw [List.forall_mem_append, List.forall_mem_append, List.forall_mem_singleton]
      refine ⟨⟨?_, ?_⟩, ?_⟩
      · exact regular_of_emitsOperand hleft (by omega)
      · exact regular_of_emitsOperand hright (by omega)
      · cases n <;> trivial
  | .list _ hes, hn => by
      rw [List.forall_mem_append, List.forall_mem_singleton]
      constructor
      · exact regular_of_emitsOperands hes hn
      · cases n <;> trivial
  | .cond _ _ _ htest hyes hno, hn => by
      simp only [Expr.nesting] at hn
      simp only [List.forall_mem_append, List.forall_mem_singleton]
      refine ⟨⟨⟨?_, ?_⟩, ?_⟩, ?_⟩
      · exact regular_of_emits htest (by omega)
      · exact regular_of_emits hyes (by omega)
      · exact regular_of_emits hno (by omega)
      · rw [Def.Regular, List.forall_mem_cons, List.forall_mem_singleton]
        constructor
        · intro heq
          exact Scope.candidate_ne_empty _ _ (Option.some.inj heq)
        · exact fun heq => nomatch heq
  | .lambda hfunction, hn => by
      rw [List.forall_mem_singleton]
      exact regular_of_emitsFunction hfunction hn

theorem regular_of_emitsOperand
    {n : Nat} {scope : Bindings} {levels : List Level} {e : Expr} {id : String}
    {out : List Entry} :
    EmitsOperand R scope levels e id out -> e.nesting ≤ n ->
      forall entry, entry ∈ out -> entry.2.Regular n
  | .name _, _ => fun _ hentry => absurd hentry List.not_mem_nil
  | .other _ _ he, hn => regular_of_emits he hn

theorem regular_of_emitsCall
    {n : Nat} {scope : Bindings} {levels : List Level} {e : Expr} {target : String}
    {args : List String} {out : List Entry} :
    EmitsCall R scope levels e target args out -> e.nesting ≤ n ->
      forall entry, entry ∈ out -> entry.2.Regular n
  | .target _ he, hn => regular_of_emitsOperand he hn
  | .argument hleft hright, hn => by
      simp only [Expr.nesting] at hn
      rw [List.forall_mem_append]
      constructor
      · exact regular_of_emitsCall hleft (by omega)
      · exact regular_of_emitsOperand hright (by omega)

theorem regular_of_emitsOperands
    {n : Nat} {scope : Bindings} {levels : List Level} {es : List Expr} {ids : List String}
    {out : List Entry} :
    EmitsOperands R scope levels es ids out -> Expr.nestingOfAll es ≤ n ->
      forall entry, entry ∈ out -> entry.2.Regular n
  | .nil, _ => fun _ hentry => absurd hentry List.not_mem_nil
  | .cons he hes, hn => by
      simp only [Expr.nestingOfAll] at hn
      rw [List.forall_mem_append]
      constructor
      · exact regular_of_emitsOperand he (by omega)
      · exact regular_of_emitsOperands hes (by omega)

theorem regular_of_emitsFunction
    {n : Nat} {scope : Bindings} {levels : List Level} {params : List Ident} {body : Expr}
    {d : Def} :
    EmitsFunction R scope levels params body d -> body.nesting + 1 ≤ n -> d.Regular n
  | .intro _ hbody, hn => by
      cases n with
      | zero => exact absurd hn (Nat.not_succ_le_zero _)
      | succ n =>
          have hinner := regular_of_emits hbody (Nat.le_of_succ_le_succ hn)
          have htable := Table.regular_collect hinner
          exact ⟨htable.ascending, htable.entries⟩

theorem regular_of_emitsDeclaration
    {n : Nat} {scope : Bindings} {levels : List Level} {params : List Ident} {body : Expr}
    {id : String} {out : List Entry} :
    EmitsDeclaration R scope levels params body id out -> body.nesting + 1 ≤ n ->
      forall entry, entry ∈ out -> entry.2.Regular n
  | .constant hbody, hn => regular_of_emits hbody (by omega)
  | .function _ hfunction, hn => by
      rw [List.forall_mem_singleton]
      exact regular_of_emitsFunction hfunction hn

end

theorem regular_of_emitsDeclarations
    {n : Nat} {scope : Bindings} {levels : List Level} {ds : List Decl} {out : List Entry}
    (h : EmitsDeclarations R scope levels ds out)
    (hn : forall d, d ∈ ds -> d.body.nesting + 1 ≤ n) :
    forall entry, entry ∈ out -> entry.2.Regular n := by
  induction h with
  | nil => exact fun _ hentry => absurd hentry List.not_mem_nil
  | cons hd _ ih =>
      rw [List.forall_mem_cons] at hn
      rw [List.forall_mem_append]
      exact ⟨regular_of_emitsDeclaration hd hn.1, ih hn.2⟩

end

/-!
## Tables of programs
-/

theorem regular_of_lower
    {path : String} {source : Text} {extra : List String} {p : Program} {t : Table}
    (hparse : (parseSource path source).program = some p) (hlower : p.lower extra = .ok t) :
    t.Regular Wire.nestingLimit := by
  have hlowered : Lowered (fun _ _ => True) (Builtin.names ++ extra) p.decls t :=
    lowered_of_lower ⟨fun _ _ _ _ => trivial⟩ (named_of_parse hparse) hlower
  rcases hlowered with ⟨out, _, htable, hemits⟩
  have hnesting : forall d, d ∈ p.decls -> d.body.nesting + 1 ≤ Wire.nestingLimit := by
    intro d hd
    have hp : (⟨path, Parse.decls (Parse.outcomes (Token.scan source))⟩ : Program) = p :=
      Option.some.inj hparse
    rw [← hp] at hd
    rcases Grammar.declares_of_mem_decls hd with ⟨used, _, hdeclares⟩
    rcases hdeclares with ⟨_, _, _, hbody⟩
    have hlimit : Parse.maxDepth + 1 ≤ Wire.nestingLimit := by decide
    exact Nat.le_trans (Nat.succ_le_succ (Grammar.derives_nesting hbody)) hlimit
  rw [htable]
  exact Table.regular_collect (regular_of_emitsDeclarations hemits hnesting)

end Lowering
end DefTable
