import DefTable.Lowering
import DefTable.Proofs.Table.Entries

/-!
# What a program is lowered to

This module says, without running the lowering, which entries of which tables stand for an
expression, and what every identifier in them has to reach.  Names are resolved twice over: in the
source by lexical scope, which gives the site of the binding, and in the tables by structure, from
the table an identifier occurs in outwards.  A relation between expressions and entries asks at each
mention of an identifier for a condition on the site and on the tables around the mention.
-/

namespace DefTable
namespace Lowering

open Scope (candidate)
open Table (Entry)

/-!
## Nested tables
-/

/-- A table with the parameters of the function it belongs to; the table of a program has none. -/
structure Level where
  params : List String
  table : Table

def Level.identifiers (l : Level) : List String :=
  l.params ++ l.table.identifiers

/-- Look an identifier up structurally, in the innermost level first.  The answer is the number of
levels around the one that has it. -/
def reach : List Level -> String -> Option Nat
  | [], _ => none
  | l :: outer, id => if id ∈ l.identifiers then some outer.length else reach outer id

def innermost (levels : List Level) : Nat :=
  levels.length - 1

/-!
## Sites
-/

/-- What a name of the source denotes: something outside of the program, a binding that keeps its
name in the level with `depth` levels around it, or a binding with a synthetic identifier there. -/
inductive Site where
  | outside (name : String)
  | kept (depth : Nat) (name : String)
  | renamed (depth : Nat) (name : String) (k : Nat)
deriving DecidableEq, Repr

namespace Site

def id : Site -> String
  | outside name => name
  | kept _ name => name
  | renamed _ name k => candidate name k

def depth? : Site -> Option Nat
  | outside _ => none
  | kept depth _ => some depth
  | renamed depth _ _ => some depth

end Site

/-- From inside the levels the identifier of the site is found at the site. -/
def Reaches (levels : List Level) (site : Site) : Prop :=
  reach levels site.id = site.depth?

def BoundInside (depth : Nat) (id : String) : List Level -> Prop
  | [] => False
  | l :: outer => depth < outer.length ∧ (id ∈ l.params ∨ BoundInside depth id outer)

/-- A parameter is spelled like the synthetic identifier of the site and hides it. -/
def Captured (levels : List Level) : Site -> Prop
  | .outside _ => False
  | .kept _ _ => False
  | .renamed depth name k => BoundInside depth (candidate name k) levels

/-!
## Lexical scope
-/

abbrev Bindings := List (String × Site)

def denotes (scope : Bindings) (name : String) : Option Site :=
  if isGlobal name then some (.outside name) else scope.lookup name

def parameterScope (depth : Nat) (params : List Ident) : Bindings :=
  params.map fun q => (q.name, .kept depth q.name)

def programScope (names : List String) (decls : List Decl) : Bindings :=
  (decls.map fun d => (d.name.name, .kept 0 d.name.name)) ++ names.map fun n => (n, .outside n)

/-- The identifier that stands for a name, whose site meets the condition `R`. -/
def Mentions (R : List Level -> Site -> Prop) (scope : Bindings) (levels : List Level)
    (name id : String) : Prop :=
  exists site, denotes scope name = some site ∧ site.id = id ∧ R levels site

def isName : Expr -> Bool
  | .ident _ => true
  | _ => false

def isApplication : Expr -> Bool
  | .binary _ _ .apply _ => true
  | _ => false

/-!
## Packed elements
-/

theorem eq_map_of_mapM
    {α β γ : Type} {f : α -> Option β} {g : γ -> α} {k : γ -> β}
    (hf : forall a b, f a = some b -> exists c, a = g c ∧ b = k c)
    {as : List α} {bs : List β} (h : as.mapM f = some bs) :
    exists cs : List γ, as = cs.map g ∧ bs = cs.map k := by
  induction as generalizing bs with
  | nil =>
      cases h
      exact ⟨[], rfl, rfl⟩
  | cons a as ih =>
      rw [List.mapM_cons] at h
      rcases Option.bind_eq_some_iff.mp h with ⟨b, hb, h⟩
      rcases Option.bind_eq_some_iff.mp h with ⟨bs', hbs, h⟩
      cases h
      rcases hf a b hb with ⟨c, rfl, rfl⟩
      rcases ih hbs with ⟨cs, rfl, rfl⟩
      exact ⟨c :: cs, rfl, rfl⟩

theorem packed_cases {es : List Expr} {cells : List Cell} (h : packed? es = some cells) :
    (exists values : List (Token × Number),
      es = values.map (fun p => .number p.1 p.2) ∧ cells = values.map fun p => .number p.2) ∨
    (exists values : List (Token × Bool),
      es = values.map (fun p => .bool p.1 p.2) ∧ cells = values.map fun p => .bool p.2) := by
  unfold packed? at h
  dsimp only at h
  rw [Option.orElse_eq_orElse, Option.orElse_eq_or, Option.or_eq_some_iff] at h
  rcases h with hnumbers | ⟨_, hbools⟩
  · refine Or.inl (eq_map_of_mapM ?_ hnumbers)
    intro e c hc
    cases e <;> cases hc
    exact ⟨(_, _), rfl, rfl⟩
  · refine Or.inr (eq_map_of_mapM ?_ hbools)
    intro e c hc
    cases e <;> cases hc
    exact ⟨(_, _), rfl, rfl⟩

/-!
## Entries of an expression

The entries are listed in the order of emission.  The condition `R` is asked for every identifier
that an entry mentions: for those of names of the source, and for those of subexpressions, which are
sites of the innermost level without a name.
-/

mutual

inductive Emits (R : List Level -> Site -> Prop) :
    Bindings -> List Level -> Expr -> String -> List Entry -> Prop where
  | group {scope levels t e id out} :
      Emits R scope levels e id out ->
      Emits R scope levels (.group t e) id out
  | ident {scope levels i id target} :
      Mentions R scope levels i.name target ->
      Emits R scope levels (.ident i) id [(id, .call target [])]
  | number {scope levels t v id} :
      Emits R scope levels (.number t v) id [(id, .number v)]
  | string {scope levels t v id} :
      Emits R scope levels (.string t v) id [(id, .string v)]
  | bool {scope levels t v id} :
      Emits R scope levels (.bool t v) id [(id, .bool v)]
  | null {scope levels t id} :
      Emits R scope levels (.null t) id [(id, .null)]
  | letIn {scope levels t name params value body id k out₁ out₂} :
      EmitsDeclaration R
        ((name.name, .renamed (innermost levels) name.name k) :: scope) levels
        params value (candidate name.name k) out₁ ->
      Emits R ((name.name, .renamed (innermost levels) name.name k) :: scope) levels
        body id out₂ ->
      Emits R scope levels (.letIn t name params value body) id (out₁ ++ out₂)
  | application {scope levels t left right id target args out} :
      EmitsCall R scope levels (.binary t left .apply right) target args out ->
      Emits R scope levels (.binary t left .apply right) id
        (out ++ [(id, .call target args)])
  | operation {scope levels t left op right id target a b out₁ out₂} :
      Mentions R scope levels op.name target ->
      EmitsOperand R scope levels left a out₁ ->
      EmitsOperand R scope levels right b out₂ ->
      Emits R scope levels (.binary t left (.named op) right) id
        (out₁ ++ out₂ ++ [(id, .call target [a, b])])
  | matrix {scope levels t es id cells} :
      packed? es = some cells ->
      Emits R scope levels (.list t es) id [(id, .matrix cells)]
  | list {scope levels t es id items out} :
      packed? es = none ->
      EmitsOperands R scope levels es items out ->
      Emits R scope levels (.list t es) id (out ++ [(id, .list items)])
  | cond {scope levels t test yes no id i j k out₁ out₂ out₃} :
      R levels (.renamed (innermost levels) "" i) ->
      R levels (.renamed (innermost levels) "" j) ->
      R levels (.renamed (innermost levels) "" k) ->
      Emits R scope levels test (candidate "" i) out₁ ->
      Emits R scope levels yes (candidate "" j) out₂ ->
      Emits R scope levels no (candidate "" k) out₃ ->
      Emits R scope levels (.cond t test yes no) id
        (out₁ ++ out₂ ++ out₃ ++
          [(id, .switch [⟨some (candidate "" i), candidate "" j⟩, ⟨none, candidate "" k⟩])])
  | lambda {scope levels t params body id d} :
      EmitsFunction R scope levels params body d ->
      Emits R scope levels (.lambda t params body) id [(id, d)]

/-- The identifier that holds the value of an operand, and the entries made for it: none for a
name, which is mentioned itself. -/
inductive EmitsOperand (R : List Level -> Site -> Prop) :
    Bindings -> List Level -> Expr -> String -> List Entry -> Prop where
  | name {scope levels i target} :
      Mentions R scope levels i.name target ->
      EmitsOperand R scope levels (.ident i) target []
  | other {scope levels e k out} :
      isName e = false ->
      R levels (.renamed (innermost levels) "" k) ->
      Emits R scope levels e (candidate "" k) out ->
      EmitsOperand R scope levels e (candidate "" k) out

inductive EmitsCall (R : List Level -> Site -> Prop) :
    Bindings -> List Level -> Expr -> String -> List String -> List Entry -> Prop where
  | target {scope levels e target out} :
      isApplication e = false ->
      EmitsOperand R scope levels e target out ->
      EmitsCall R scope levels e target [] out
  | argument {scope levels t left right target args arg out₁ out₂} :
      EmitsCall R scope levels left target args out₁ ->
      EmitsOperand R scope levels right arg out₂ ->
      EmitsCall R scope levels (.binary t left .apply right) target (args ++ [arg])
        (out₁ ++ out₂)

inductive EmitsOperands (R : List Level -> Site -> Prop) :
    Bindings -> List Level -> List Expr -> List String -> List Entry -> Prop where
  | nil {scope levels} :
      EmitsOperands R scope levels [] [] []
  | cons {scope levels e es id ids out₁ out₂} :
      EmitsOperand R scope levels e id out₁ ->
      EmitsOperands R scope levels es ids out₂ ->
      EmitsOperands R scope levels (e :: es) (id :: ids) (out₁ ++ out₂)

/-- A function: its table holds the entries of the body and nothing else, each once, and none of
them under the name of a parameter. -/
inductive EmitsFunction (R : List Level -> Site -> Prop) :
    Bindings -> List Level -> List Ident -> Expr -> Def -> Prop where
  | intro {scope levels params body out} :
      (params.map Ident.name ++ out.map Prod.fst).Nodup ->
      Emits R (parameterScope levels.length params ++ scope)
        (⟨params.map Ident.name, Table.collect out⟩ :: levels) body Table.resultId out ->
      EmitsFunction R scope levels params body
        (.func (params.map Ident.name) (Table.collect out))

inductive EmitsDeclaration (R : List Level -> Site -> Prop) :
    Bindings -> List Level -> List Ident -> Expr -> String -> List Entry -> Prop where
  | constant {scope levels body id out} :
      Emits R scope levels body id out ->
      EmitsDeclaration R scope levels [] body id out
  | function {scope levels params body id d} :
      params ≠ [] ->
      EmitsFunction R scope levels params body d ->
      EmitsDeclaration R scope levels params body id [(id, d)]

end

/-!
## Entries of a program
-/

inductive EmitsDeclarations (R : List Level -> Site -> Prop) :
    Bindings -> List Level -> List Decl -> List Entry -> Prop where
  | nil {scope levels} :
      EmitsDeclarations R scope levels [] []
  | cons {scope levels d ds out₁ out₂} :
      EmitsDeclaration R scope levels d.params d.body d.name.name out₁ ->
      EmitsDeclarations R scope levels ds out₂ ->
      EmitsDeclarations R scope levels (d :: ds) (out₁ ++ out₂)

/-- The table holds the entries of the declarations and nothing else, each once, and at every
mention of an identifier, in the table or in one nested in it, the condition holds. -/
def Lowered (R : List Level -> Site -> Prop) (names : List String) (decls : List Decl)
    (t : Table) : Prop :=
  exists out, (out.map Prod.fst).Nodup ∧ t = Table.collect out ∧
    EmitsDeclarations R (programScope names decls) [⟨[], t⟩] decls out

end Lowering
end DefTable
