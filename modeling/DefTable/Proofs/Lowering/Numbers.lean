import DefTable.Proofs.Grammar.Sound
import DefTable.Proofs.Lowering.Hygiene
import DefTable.Proofs.Table.Wire
import DefTable.Proofs.Token.Values

/-!
# The numbers of compiled tables

Lowering computes nothing: every number of a table is a number of the program, and every number of a
program is written by one of its tokens, with or without a sign.  Numerals stand for finite and for
infinite numbers only, so the numbers of a compiled table are finite or infinite, too.
-/

namespace DefTable

/-!
## Numbers of expressions
-/

namespace Expr

mutual

def numbers : Expr -> List Number
  | .number _ v => [v]
  | .group _ e => numbers e
  | .letIn _ _ _ value body => numbers value ++ numbers body
  | .binary _ left _ right => numbers left ++ numbers right
  | .list _ es => numbersOfAll es
  | .cond _ test yes no => numbers test ++ numbers yes ++ numbers no
  | .lambda _ _ body => numbers body
  | _ => []

def numbersOfAll : List Expr -> List Number
  | [] => []
  | e :: es => numbers e ++ numbersOfAll es

end

end Expr

namespace Grammar

def Denotes (ts : List Token) (x : Number) : Prop :=
  exists t, t ∈ ts ∧ exists v, t.kind = .number v ∧ (x = v ∨ x = -v)

theorem Denotes.mono
    {ts ts' : List Token} {x : Number} (h : Denotes ts x) (hsub : forall t, t ∈ ts -> t ∈ ts') :
    Denotes ts' x := by
  rcases h with ⟨t, ht, hv⟩
  exact ⟨t, hsub t ht, hv⟩

theorem Denotes.left {ts ts' : List Token} {x : Number} (h : Denotes ts x) :
    Denotes (ts ++ ts') x :=
  h.mono fun _ => List.mem_append_left _

theorem Denotes.right {ts ts' : List Token} {x : Number} (h : Denotes ts' x) :
    Denotes (ts ++ ts') x :=
  h.mono fun _ => List.mem_append_right _

theorem Denotes.cons {t : Token} {ts : List Token} {x : Number} (h : Denotes ts x) :
    Denotes (t :: ts) x :=
  h.mono fun _ => List.mem_cons_of_mem _

attribute [local irreducible] Chain.resolve

section

variable {E : Reading} (hE : forall ts e, E ts e -> forall x, x ∈ e.numbers -> Denotes ts x)
include hE

theorem declares_numbers {ts : List Token} {d : Decl} (h : Declares E ts d) :
    forall x, x ∈ d.body.numbers -> Denotes ts x := by
  cases h with
  | intro _ _ _ hbody => exact fun x hx => (hE _ _ hbody x hx).cons.right

theorem elements_numbers {ts : List Token} {es : List Expr} (h : Elements E ts es) :
    forall x, x ∈ Expr.numbersOfAll es -> Denotes ts x := by
  induction h with
  | last he =>
      rw [Expr.numbersOfAll, Expr.numbersOfAll, List.append_nil]
      exact hE _ _ he
  | cons he _ _ ih =>
      rw [Expr.numbersOfAll, List.forall_mem_append]
      constructor
      · exact fun x hx => (hE _ _ he x hx).left
      · exact fun x hx => (ih x hx).cons.right

theorem atom_numbers {ts : List Token} {e : Expr} (h : Atom E ts e) :
    forall x, x ∈ e.numbers -> Denotes ts x := by
  cases h with
  | number hkind =>
      rw [Expr.numbers, List.forall_mem_singleton]
      exact ⟨_, List.mem_cons_self, _, hkind, .inl rfl⟩
  | negative _ _ hkind _ =>
      rw [Expr.numbers, List.forall_mem_singleton]
      exact ⟨_, List.mem_cons_of_mem _ List.mem_cons_self, _, hkind, .inr rfl⟩
  | positive _ _ hkind _ =>
      rw [Expr.numbers, List.forall_mem_singleton]
      exact ⟨_, List.mem_cons_of_mem _ List.mem_cons_self, _, hkind, .inl rfl⟩
  | group _ he _ =>
      rw [Expr.numbers]
      exact fun x hx => (hE _ _ he x hx).cons.left
  | list _ hes _ =>
      rw [Expr.numbers]
      exact fun x hx => (elements_numbers hE hes x hx).cons.left
  | _ => exact fun x hx => absurd hx List.not_mem_nil

theorem more_numbers {ts : List Token} {more : List (Operator × Expr)} (h : More E ts more) :
    forall p, p ∈ more -> forall x, x ∈ p.2.numbers -> Denotes ts x := by
  induction h with
  | nil => exact fun p hp => absurd hp List.not_mem_nil
  | atom _ hatom _ ih =>
      rw [List.forall_mem_cons]
      constructor
      · exact fun x hx => (atom_numbers hE hatom x hx).right.left
      · exact fun p hp x hx => (ih p hp x hx).right
  | openForm _ _ he =>
      rw [List.forall_mem_singleton]
      exact fun x hx => (hE _ _ he x hx).right

theorem form_numbers {ts : List Token} {e : Expr} (h : Form E ts e) :
    forall x, x ∈ e.numbers -> Denotes ts x := by
  cases h with
  | letIn _ hdeclares _ hbody =>
      rw [Expr.numbers, List.forall_mem_append]
      constructor
      · exact fun x hx => (declares_numbers hE hdeclares x hx).cons.left
      · exact fun x hx => (hE _ _ hbody x hx).cons.right
  | cond _ htest _ hyes _ hno =>
      rw [Expr.numbers, List.forall_mem_append, List.forall_mem_append]
      refine ⟨⟨?_, ?_⟩, ?_⟩
      · exact fun x hx => (hE _ _ htest x hx).cons.left.left
      · exact fun x hx => (hE _ _ hyes x hx).cons.right.left
      · exact fun x hx => (hE _ _ hno x hx).cons.right
  | lambda _ _ _ _ hbody =>
      rw [Expr.numbers]
      exact fun x hx => (hE _ _ hbody x hx).cons.right
  | @chain ts first rest more hfirst hmore =>
      have hall : Chain.All (fun _ => True)
          (fun e => forall x, x ∈ e.numbers -> Denotes (ts ++ rest) x) ⟨first, more⟩ :=
        ⟨fun x hx => (atom_numbers hE hfirst x hx).left,
          fun p hp => ⟨trivial, fun x hx => (more_numbers hE hmore p hp x hx).right⟩⟩
      refine hall.resolve ?_
      intro t left op right hleft _ hright
      rw [Expr.numbers, List.forall_mem_append]
      exact ⟨hleft, hright⟩

end

theorem derives_numbers {n : Nat} {ts : List Token} {e : Expr} (h : Derives n ts e) :
    forall x, x ∈ e.numbers -> Denotes ts x := by
  induction n generalizing ts e with
  | zero => exact h.elim
  | succ n ih => exact form_numbers (fun ts e he => ih he) h

theorem program_numbers {source : Text} {d : Decl}
    (hd : d ∈ Parse.decls (Parse.outcomes (Token.scan source))) :
    forall x, x ∈ d.body.numbers -> x.isUndefined = false := by
  intro x hx
  rcases declares_of_mem_decls hd with ⟨used, hused, hdeclares⟩
  rcases declares_numbers (fun _ _ he => derives_numbers he) hdeclares x hx with
    ⟨t, ht, v, hkind, hvalue⟩
  rcases Token.scan_proper source with ⟨body, q, hscan, hproper⟩
  have hmem := hused t ht
  rw [hscan, List.mem_append, List.mem_singleton] at hmem
  have hdefined : v.isUndefined = false := by
    rcases hmem with hbody | rfl
    · have hnumber := hproper t hbody
      rw [hkind] at hnumber
      exact hnumber.2
    · cases hkind
  rcases hvalue with rfl | rfl
  · exact hdefined
  · rw [Number.isUndefined_neg]
    exact hdefined

end Grammar

/-!
## Numbers of tables
-/

namespace Cell

def numbers : Cell -> List Number
  | .number v => [v]
  | .bool _ => []

end Cell

namespace Def

mutual

def numbers : Def -> List Number
  | .number v => [v]
  | .matrix cells => cells.flatMap Cell.numbers
  | .func _ body => numbersOfAll body
  | _ => []

def numbersOfAll : List (String × Def) -> List Number
  | [] => []
  | (_, d) :: rest => numbers d ++ numbersOfAll rest

end

theorem forall_mem_numbersOfAll {P : Number -> Prop} {t : Table} :
    (forall x, x ∈ numbersOfAll t -> P x) <->
      forall entry, entry ∈ t -> forall x, x ∈ entry.2.numbers -> P x := by
  induction t with
  | nil => simp [numbersOfAll]
  | cons entry rest ih =>
      rcases entry with ⟨id, d⟩
      rw [numbersOfAll, List.forall_mem_append, ih, List.forall_mem_cons]

end Def

namespace Table

def numbers (t : Table) : List Number :=
  Def.numbersOfAll t

end Table

theorem Cell.isFinite_eq (c : Cell) : c.isFinite = c.numbers.all Number.isFinite := by
  cases c with
  | number v => exact (Bool.and_true _).symm
  | bool v => rfl

namespace Def

mutual

theorem isFinite_eq : forall d : Def, d.isFinite = d.numbers.all Number.isFinite
  | .number v => (Bool.and_true _).symm
  | .matrix cells => by
      rw [numbers, isFinite, List.all_flatMap]
      exact congrArg cells.all (funext Cell.isFinite_eq)
  | .func _ body => by
      rw [numbers, isFinite]
      exact areFinite_eq body
  | .string _ => rfl
  | .bool _ => rfl
  | .null => rfl
  | .list _ => rfl
  | .call _ _ => rfl
  | .switch _ => rfl

theorem areFinite_eq : forall t : Table, areFinite t = (numbersOfAll t).all Number.isFinite
  | [] => rfl
  | (_, d) :: rest => by
      rw [areFinite, numbersOfAll, List.all_append, isFinite_eq d, areFinite_eq rest]

end

end Def

theorem Table.isFinite_eq (t : Table) : t.isFinite = t.numbers.all Number.isFinite :=
  Def.areFinite_eq t

theorem Number.isInfinite_of_defined {x : Number} (h : x.isUndefined = false) :
    x.isInfinite = !x.isFinite := by
  have hle := Nat.not_lt.mp (of_decide_eq_false h)
  rcases Nat.lt_or_eq_of_le hle with hlt | heq
  · rw [isInfinite, isFinite, decide_eq_false (Nat.ne_of_lt hlt), decide_eq_true hlt]
    rfl
  · rw [isInfinite, isFinite, decide_eq_true heq, heq, decide_eq_false (Nat.lt_irrefl _)]
    rfl

theorem Table.isFinite_eq_false_iff {t : Table}
    (h : forall x, x ∈ t.numbers -> x.isUndefined = false) :
    t.isFinite = false <-> exists x, x ∈ t.numbers ∧ x.isInfinite = true := by
  rw [Table.isFinite_eq, List.all_eq_false]
  constructor
  · rintro ⟨x, hx, hfinite⟩
    refine ⟨x, hx, ?_⟩
    rw [Number.isInfinite_of_defined (h x hx), Bool.eq_false_of_not_eq_true hfinite]
    rfl
  · rintro ⟨x, hx, hinfinite⟩
    refine ⟨x, hx, fun hfinite => ?_⟩
    rw [Number.isInfinite_of_defined (h x hx), hfinite] at hinfinite
    cases hinfinite

/-!
## Numbers of entries
-/

namespace Lowering

open Table (Entry)

theorem numbersOfAll_values (values : List (Token × Number)) :
    Expr.numbersOfAll (values.map fun p => .number p.1 p.2) = values.map Prod.snd := by
  induction values with
  | nil => rfl
  | cons p values ih =>
      rw [List.map_cons, Expr.numbersOfAll, Expr.numbers, ih]
      rfl

theorem numbers_packed {es : List Expr} {cells : List Cell} (h : packed? es = some cells) :
    forall x, x ∈ cells.flatMap Cell.numbers -> x ∈ Expr.numbersOfAll es := by
  intro x hx
  rcases packed_cases h with ⟨values, rfl, rfl⟩ | ⟨values, rfl, rfl⟩
  · rw [numbersOfAll_values]
    rw [List.flatMap_map] at hx
    rcases List.mem_flatMap.mp hx with ⟨p, hp, hpx⟩
    rw [Cell.numbers, List.mem_singleton] at hpx
    exact List.mem_map.mpr ⟨p, hp, hpx.symm⟩
  · rw [List.flatMap_map] at hx
    rcases List.mem_flatMap.mp hx with ⟨p, hp, hpx⟩
    exact absurd hpx List.not_mem_nil

section

variable {R : List Level -> Site -> Prop} {P : Number -> Prop}

mutual

theorem numbers_of_emits
    {scope : Bindings} {levels : List Level} {e : Expr} {id : String} {out : List Entry} :
    Emits R scope levels e id out -> (forall x, x ∈ e.numbers -> P x) ->
      forall entry, entry ∈ out -> forall x, x ∈ entry.2.numbers -> P x
  | .group he, hP => numbers_of_emits he hP
  | .number, hP => List.forall_mem_singleton.mpr hP
  | .ident _, _ => List.forall_mem_singleton.mpr fun _ hx => absurd hx List.not_mem_nil
  | .string, _ => List.forall_mem_singleton.mpr fun _ hx => absurd hx List.not_mem_nil
  | .bool, _ => List.forall_mem_singleton.mpr fun _ hx => absurd hx List.not_mem_nil
  | .null, _ => List.forall_mem_singleton.mpr fun _ hx => absurd hx List.not_mem_nil
  | .matrix hpacked, hP =>
      List.forall_mem_singleton.mpr fun x hx => hP x (numbers_packed hpacked x hx)
  | .letIn hvalue hbody, hP => by
      rw [Expr.numbers, List.forall_mem_append] at hP
      rw [List.forall_mem_append]
      exact ⟨numbers_of_emitsDeclaration hvalue hP.1, numbers_of_emits hbody hP.2⟩
  | .application hcall, hP => by
      rw [List.forall_mem_append, List.forall_mem_singleton]
      exact ⟨numbers_of_emitsCall hcall hP, fun _ hx => absurd hx List.not_mem_nil⟩
  | .operation _ hleft hright, hP => by
      rw [Expr.numbers, List.forall_mem_append] at hP
      rw [List.forall_mem_append, List.forall_mem_append, List.forall_mem_singleton]
      refine ⟨⟨?_, ?_⟩, fun _ hx => absurd hx List.not_mem_nil⟩
      · exact numbers_of_emitsOperand hleft hP.1
      · exact numbers_of_emitsOperand hright hP.2
  | .list _ hes, hP => by
      rw [List.forall_mem_append, List.forall_mem_singleton]
      exact ⟨numbers_of_emitsOperands hes hP, fun _ hx => absurd hx List.not_mem_nil⟩
  | .cond _ _ _ htest hyes hno, hP => by
      rw [Expr.numbers, List.forall_mem_append, List.forall_mem_append] at hP
      simp only [List.forall_mem_append, List.forall_mem_singleton]
      refine ⟨⟨⟨?_, ?_⟩, ?_⟩, fun _ hx => absurd hx List.not_mem_nil⟩
      · exact numbers_of_emits htest hP.1.1
      · exact numbers_of_emits hyes hP.1.2
      · exact numbers_of_emits hno hP.2
  | .lambda hfunction, hP =>
      List.forall_mem_singleton.mpr (numbers_of_emitsFunction hfunction hP)

theorem numbers_of_emitsOperand
    {scope : Bindings} {levels : List Level} {e : Expr} {id : String} {out : List Entry} :
    EmitsOperand R scope levels e id out -> (forall x, x ∈ e.numbers -> P x) ->
      forall entry, entry ∈ out -> forall x, x ∈ entry.2.numbers -> P x
  | .name _, _ => fun _ hentry => absurd hentry List.not_mem_nil
  | .other _ _ he, hP => numbers_of_emits he hP

theorem numbers_of_emitsCall
    {scope : Bindings} {levels : List Level} {e : Expr} {target : String} {args : List String}
    {out : List Entry} :
    EmitsCall R scope levels e target args out -> (forall x, x ∈ e.numbers -> P x) ->
      forall entry, entry ∈ out -> forall x, x ∈ entry.2.numbers -> P x
  | .target _ he, hP => numbers_of_emitsOperand he hP
  | .argument hleft hright, hP => by
      rw [Expr.numbers, List.forall_mem_append] at hP
      rw [List.forall_mem_append]
      exact ⟨numbers_of_emitsCall hleft hP.1, numbers_of_emitsOperand hright hP.2⟩

theorem numbers_of_emitsOperands
    {scope : Bindings} {levels : List Level} {es : List Expr} {ids : List String}
    {out : List Entry} :
    EmitsOperands R scope levels es ids out -> (forall x, x ∈ Expr.numbersOfAll es -> P x) ->
      forall entry, entry ∈ out -> forall x, x ∈ entry.2.numbers -> P x
  | .nil, _ => fun _ hentry => absurd hentry List.not_mem_nil
  | .cons he hes, hP => by
      rw [Expr.numbersOfAll, List.forall_mem_append] at hP
      rw [List.forall_mem_append]
      exact ⟨numbers_of_emitsOperand he hP.1, numbers_of_emitsOperands hes hP.2⟩

theorem numbers_of_emitsFunction
    {scope : Bindings} {levels : List Level} {params : List Ident} {body : Expr} {d : Def} :
    EmitsFunction R scope levels params body d -> (forall x, x ∈ body.numbers -> P x) ->
      forall x, x ∈ d.numbers -> P x
  | .intro _ hbody, hP => by
      rw [Def.numbers, Def.forall_mem_numbersOfAll]
      intro entry hentry
      exact numbers_of_emits hbody hP entry (Table.mem_of_mem_collect hentry)

theorem numbers_of_emitsDeclaration
    {scope : Bindings} {levels : List Level} {params : List Ident} {body : Expr} {id : String}
    {out : List Entry} :
    EmitsDeclaration R scope levels params body id out -> (forall x, x ∈ body.numbers -> P x) ->
      forall entry, entry ∈ out -> forall x, x ∈ entry.2.numbers -> P x
  | .constant hbody, hP => numbers_of_emits hbody hP
  | .function _ hfunction, hP =>
      List.forall_mem_singleton.mpr (numbers_of_emitsFunction hfunction hP)

end

theorem numbers_of_emitsDeclarations
    {scope : Bindings} {levels : List Level} {ds : List Decl} {out : List Entry}
    (h : EmitsDeclarations R scope levels ds out)
    (hP : forall d, d ∈ ds -> forall x, x ∈ d.body.numbers -> P x) :
    forall entry, entry ∈ out -> forall x, x ∈ entry.2.numbers -> P x := by
  induction h with
  | nil => exact fun _ hentry => absurd hentry List.not_mem_nil
  | cons hd _ ih =>
      rw [List.forall_mem_cons] at hP
      rw [List.forall_mem_append]
      exact ⟨numbers_of_emitsDeclaration hd hP.1, ih hP.2⟩

end

theorem numbers_of_lower
    {P : Number -> Prop} {extra : List String} {p : Program} {t : Table}
    (hnamed : p.Named (plainNames fun _ => True)) (hlower : p.lower extra = .ok t)
    (hP : forall d, d ∈ p.decls -> forall x, x ∈ d.body.numbers -> P x) :
    forall x, x ∈ t.numbers -> P x := by
  have hlowered : Lowered (fun _ _ => True) (Builtin.names ++ extra) p.decls t :=
    lowered_of_lower ⟨fun _ _ _ _ => trivial⟩ hnamed hlower
  rcases hlowered with ⟨out, _, htable, hemits⟩
  rw [htable, Table.numbers, Def.forall_mem_numbersOfAll]
  intro entry hentry
  exact numbers_of_emitsDeclarations hemits hP entry (Table.mem_of_mem_collect hentry)

theorem isUndefined_of_lower
    {path : String} {source : Text} {extra : List String} {p : Program} {t : Table}
    (hparse : (parseSource path source).program = some p) (hlower : p.lower extra = .ok t) :
    forall x, x ∈ t.numbers -> x.isUndefined = false := by
  refine numbers_of_lower (named_of_parse hparse) hlower ?_
  intro d hd
  have hp : (⟨path, Parse.decls (Parse.outcomes (Token.scan source))⟩ : Program) = p :=
    Option.some.inj hparse
  rw [← hp] at hd
  exact Grammar.program_numbers hd

end Lowering
end DefTable
