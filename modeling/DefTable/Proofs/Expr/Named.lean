import DefTable.Expr.Basic

/-!
# Names in an expression

A name stands in an expression in one of four ways: a `let` declares it, a function takes it as a
parameter, an operand refers to it, or it joins two operands.  Rules for each of the four are
imposed on a whole expression at once.
-/

namespace DefTable

/-- What is asked of the names of an expression. -/
structure NameRules where
  declared : String -> Prop
  parameter : String -> Prop
  reference : String -> Prop
  operator : String -> Prop

namespace NameRules

structure Both (r s u : NameRules) : Prop where
  declared : forall name, r.declared name -> s.declared name -> u.declared name
  parameter : forall name, r.parameter name -> s.parameter name -> u.parameter name
  reference : forall name, r.reference name -> s.reference name -> u.reference name
  operator : forall name, r.operator name -> s.operator name -> u.operator name

end NameRules

namespace Operator

def Named (r : NameRules) : Operator -> Prop
  | .apply => True
  | .named i => r.operator i.name

end Operator

namespace Expr

mutual

def Named (r : NameRules) : Expr -> Prop
  | .hole => True
  | .ident i => r.reference i.name
  | .number _ _ => True
  | .string _ _ => True
  | .bool _ _ => True
  | .null _ => True
  | .group _ e => e.Named r
  | .letIn _ name params value body =>
      r.declared name.name ∧ (forall q, q ∈ params -> r.parameter q.name) ∧
        value.Named r ∧ body.Named r
  | .binary _ left op right => left.Named r ∧ op.Named r ∧ right.Named r
  | .list _ es => AllNamed r es
  | .cond _ test yes no => test.Named r ∧ yes.Named r ∧ no.Named r
  | .lambda _ params body => (forall q, q ∈ params -> r.parameter q.name) ∧ body.Named r

def AllNamed (r : NameRules) : List Expr -> Prop
  | [] => True
  | e :: es => e.Named r ∧ AllNamed r es

end

mutual

theorem Named.both
    {r s u : NameRules} (h : r.Both s u) :
    (e : Expr) -> e.Named r -> e.Named s -> e.Named u
  | .hole, _, _ => trivial
  | .ident i, hr, hs => h.reference i.name hr hs
  | .number _ _, _, _ => trivial
  | .string _ _, _, _ => trivial
  | .bool _ _, _, _ => trivial
  | .null _, _, _ => trivial
  | .group _ e, hr, hs => Named.both h e hr hs
  | .letIn _ name _ value body, hr, hs =>
      ⟨h.declared name.name hr.1 hs.1,
        fun q hq => h.parameter q.name (hr.2.1 q hq) (hs.2.1 q hq),
        Named.both h value hr.2.2.1 hs.2.2.1, Named.both h body hr.2.2.2 hs.2.2.2⟩
  | .binary _ left .apply right, hr, hs =>
      ⟨Named.both h left hr.1 hs.1, trivial, Named.both h right hr.2.2 hs.2.2⟩
  | .binary _ left (.named i) right, hr, hs =>
      ⟨Named.both h left hr.1 hs.1, h.operator i.name hr.2.1 hs.2.1,
        Named.both h right hr.2.2 hs.2.2⟩
  | .list _ es, hr, hs => AllNamed.both h es hr hs
  | .cond _ test yes no, hr, hs =>
      ⟨Named.both h test hr.1 hs.1, Named.both h yes hr.2.1 hs.2.1, Named.both h no hr.2.2 hs.2.2⟩
  | .lambda _ _ body, hr, hs =>
      ⟨fun q hq => h.parameter q.name (hr.1 q hq) (hs.1 q hq), Named.both h body hr.2 hs.2⟩

theorem AllNamed.both
    {r s u : NameRules} (h : r.Both s u) :
    (es : List Expr) -> AllNamed r es -> AllNamed s es -> AllNamed u es
  | [], _, _ => trivial
  | e :: es, hr, hs => ⟨Named.both h e hr.1 hs.1, AllNamed.both h es hr.2 hs.2⟩

end

end Expr

namespace Decl

def Named (r : NameRules) (d : Decl) : Prop :=
  r.declared d.name.name ∧ (forall q, q ∈ d.params -> r.parameter q.name) ∧ d.body.Named r

theorem Named.both
    {r s u : NameRules} (h : r.Both s u) {d : Decl} (hr : d.Named r) (hs : d.Named s) :
    d.Named u :=
  ⟨h.declared _ hr.1 hs.1, fun q hq => h.parameter _ (hr.2.1 q hq) (hs.2.1 q hq),
    Expr.Named.both h d.body hr.2.2 hs.2.2⟩

end Decl

namespace Program

def Named (r : NameRules) (p : Program) : Prop :=
  forall d, d ∈ p.decls -> d.Named r

theorem Named.both
    {r s u : NameRules} (h : r.Both s u) {p : Program} (hr : p.Named r) (hs : p.Named s) :
    p.Named u :=
  fun d hd => (hr d hd).both h (hs d hd)

end Program
end DefTable
