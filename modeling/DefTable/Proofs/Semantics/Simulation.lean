import DefTable.Proofs.Lowering.Resolution
import DefTable.Proofs.Semantics.FirstOrder
import DefTable.Proofs.Semantics.Source
import DefTable.Proofs.Semantics.Table

/-!
# Scopes and frames that agree

The scopes around an expression and the frames around its entries are built up in step: a function
adds one of each, and a `let` adds a scope whose declaration stands in the innermost frame.  Values
are related if they are the same up to their closures, and closures if the one is lowered to the
other inside scopes and frames that agree.  Then a name and the identifier it is lowered to are
bound to related things.
-/

namespace DefTable
namespace Semantics

open Lowering
open Scope (candidate)
open Table (Entry)
open Target (Frame locate?)

def level (f : Frame) : Level :=
  ⟨f.args.map Prod.fst, f.table⟩

def levels (frames : List Frame) : List Level :=
  frames.map level

def Holds (out : List Entry) (frames : List Frame) : Prop :=
  forall entry, entry ∈ out -> locate? frames entry.1 = some (.entry entry.2 frames)

mutual

inductive Related : Value Source.Closure -> Value Target.Closure -> Prop where
  | number (v : Number) : Related (.number v) (.number v)
  | string (v : String) : Related (.string v) (.string v)
  | bool (v : Bool) : Related (.bool v) (.bool v)
  | null : Related .null .null
  | list {vs ws} : List.Forall₂ Related vs ws -> Related (.list vs) (.list ws)
  | builtin (f : Builtin) : Related (.builtin f) (.builtin f)
  | closure {params body env scope names table frames} :
      Agrees env scope frames ->
      EmitsFunction Reaches scope (levels frames) params body (.func names table) ->
      Related (.closure (.mk params body env)) (.closure (.mk names table frames))

/-- The scopes, what their names denote, and the frames. -/
inductive Agrees : Source.Env -> Bindings -> List Frame -> Prop where
  | program {names decls out} :
      (out.map Prod.fst).Nodup ->
      EmitsDeclarations Reaches (programScope names decls) [⟨[], Table.collect out⟩] decls out ->
      Agrees [.decls decls] (programScope names decls) [.mk [] (Table.collect out)]
  | function {env scope frames} {params : List Ident} {vs ws table} :
      Agrees env scope frames ->
      List.Forall₂ Related vs ws ->
      params.length ≤ vs.length ->
      Agrees (.args ((params.map Ident.name).zip vs) :: env)
        (parameterScope frames.length params ++ scope)
        (.mk ((params.map Ident.name).zip ws) table :: frames)
  | letIn {env scope frames name params value k out} :
      Agrees env scope frames ->
      EmitsDeclaration Reaches
        ((name.name, .renamed (innermost (levels frames)) name.name k) :: scope) (levels frames)
        params value (candidate name.name k) out ->
      Holds out frames ->
      Agrees (.decls [⟨name, params, value⟩] :: env)
        ((name.name, .renamed (innermost (levels frames)) name.name k) :: scope) frames

end

/-!
## Entries that are held
-/

theorem Holds.left
    {out₁ out₂ : List Entry} {frames : List Frame} (h : Holds (out₁ ++ out₂) frames) :
    Holds out₁ frames :=
  fun entry hentry => h entry (List.mem_append_left out₂ hentry)

theorem Holds.right
    {out₁ out₂ : List Entry} {frames : List Frame} (h : Holds (out₁ ++ out₂) frames) :
    Holds out₂ frames :=
  fun entry hentry => h entry (List.mem_append_right out₁ hentry)

theorem Holds.last
    {out : List Entry} {id : String} {d : Def} {frames : List Frame}
    (h : Holds (out ++ [(id, d)]) frames) :
    locate? frames id = some (.entry d frames) :=
  h (id, d) (List.mem_append_right out List.mem_cons_self)

theorem holds_collect
    {args : List (String × Value Target.Closure)} {out : List Entry} {frames : List Frame}
    (hnodup : (args.map Prod.fst ++ out.map Prod.fst).Nodup) :
    Holds out (.mk args (Table.collect out) :: frames) := by
  intro entry hentry
  rw [List.nodup_append] at hnodup
  rcases hnodup with ⟨_, hkeys, hdisjoint⟩
  have hargs : args.lookup entry.1 = none := by
    rw [List.lookup_eq_none_iff]
    intro arg harg
    rw [bne_iff_ne]
    exact (hdisjoint _ (List.mem_map_of_mem harg) _ (List.mem_map_of_mem hentry)).symm
  have htable : (Table.collect out).get? entry.1 = some entry.2 :=
    Table.get?_eq_some_of_mem (Table.nodup_identifiers_collect hkeys)
      ((Table.collect_perm hkeys).mem_iff.mpr hentry)
  unfold locate?
  dsimp only [Frame.args, Frame.table]
  rw [hargs]
  dsimp only
  rw [htable]

/-!
## Looking identifiers up
-/

theorem locate?_cons_of_not_mem
    {f : Frame} {frames : List Frame} {id : String} (h : id ∉ (level f).identifiers) :
    locate? (f :: frames) id = locate? frames id := by
  rw [Level.identifiers, List.mem_append, not_or] at h
  have hargs : f.args.lookup id = none := by
    rw [List.lookup_eq_none_iff]
    intro arg harg
    rw [bne_iff_ne]
    intro heq
    exact h.1 (heq ▸ List.mem_map_of_mem harg)
  have htable : f.table.get? id = none := Table.get?_eq_none_of_not_mem h.2
  rw [locate?, hargs, htable]

theorem locate?_of_reach_none
    {frames : List Frame} {id : String} (h : reach (levels frames) id = none) :
    locate? frames id = none := by
  induction frames with
  | nil => rfl
  | cons f frames ih =>
      unfold levels at h ih
      rw [List.map_cons, reach] at h
      by_cases hmem : id ∈ (level f).identifiers
      · rw [if_pos hmem] at h
        cases h
      · rw [if_neg hmem] at h
        rw [locate?_cons_of_not_mem hmem]
        exact ih h

/-!
## Names and their identifiers
-/

/-- What a name and what its identifier are bound to. -/
inductive Matches (id : String) : Option Source.Bound -> Option Target.Located -> Prop where
  | value {v w} : Related v w -> Matches id (some (.value v)) (some (.value w))
  | decl {d : Decl} {env scope frames out entry} :
      Agrees env scope frames ->
      EmitsDeclaration Reaches scope (levels frames) d.params d.body id out ->
      Holds out frames ->
      locate? frames id = some (.entry entry frames) ->
      Matches id (some (.decl d env)) (some (.entry entry frames))
  | outside : Matches id none none

theorem length_pos_of_agrees
    {env : Source.Env} {scope : Bindings} {frames : List Frame} (h : Agrees env scope frames) :
    0 < frames.length := by
  match h with
  | .program _ _ => exact Nat.zero_lt_one
  | .function _ _ _ => exact Nat.succ_pos _
  | .letIn hagrees _ _ => exact length_pos_of_agrees hagrees

theorem depth_lt_of_agrees
    {env : Source.Env} {scope : Bindings} {frames : List Frame} {name : String} {site : Site}
    {depth : Nat} (h : Agrees env scope frames) (hlookup : scope.lookup name = some site)
    (hdepth : site.depth? = some depth) :
    depth < frames.length := by
  match h with
  | .program _ _ =>
      rw [programScope_lookup] at hlookup
      split at hlookup
      · cases hlookup
        cases hdepth
        exact Nat.zero_lt_one
      · split at hlookup
        · cases hlookup
          cases hdepth
        · cases hlookup
  | .function hagrees _ _ =>
      rw [List.lookup_append, parameterScope_lookup] at hlookup
      split at hlookup
      · cases hlookup
        cases hdepth
        exact Nat.lt_succ_self _
      · rw [Option.none_or] at hlookup
        exact Nat.lt_succ_of_lt (depth_lt_of_agrees hagrees hlookup hdepth)
  | .letIn hagrees _ _ =>
      rw [List.lookup_cons] at hlookup
      split at hlookup
      · cases hlookup
        cases hdepth
        have hpos := length_pos_of_agrees hagrees
        rw [innermost, levels, List.length_map]
        omega
      · exact depth_lt_of_agrees hagrees hlookup hdepth

theorem lookup_zip_related
    {names : List String} {vs : List (Value Source.Closure)} {ws : List (Value Target.Closure)}
    {name : String} (hrelated : List.Forall₂ Related vs ws) (hlength : names.length ≤ vs.length)
    (hmem : name ∈ names) :
    exists v w, (names.zip vs).lookup name = some v ∧ (names.zip ws).lookup name = some w ∧
      Related v w := by
  have hrel := lookup_zip_rel hrelated names name
  cases hv : (names.zip vs).lookup name with
  | none => exact absurd hv (lookup_zip_ne_none hlength hmem)
  | some v =>
      rw [hv] at hrel
      generalize (names.zip ws).lookup name = found at hrel
      cases hrel with
      | some hvw => exact ⟨v, _, rfl, rfl, hvw⟩

theorem emitsDeclaration_of_mem
    {R : List Level -> Site -> Prop} {scope : Bindings} {outer : List Level} {d : Decl} :
    forall {decls : List Decl} {out : List Entry},
      EmitsDeclarations R scope outer decls out -> d ∈ decls ->
      exists out', (forall entry, entry ∈ out' -> entry ∈ out) ∧
        EmitsDeclaration R scope outer d.params d.body d.name.name out' := by
  intro decls out h hd
  induction h with
  | nil => cases hd
  | @cons d' ds out₁ out₂ hfirst _ ih =>
      rcases List.mem_cons.mp hd with rfl | hlater
      · exact ⟨out₁, fun entry hentry => List.mem_append_left out₂ hentry, hfirst⟩
      · rcases ih hlater with ⟨out', hsub, hdeclaration⟩
        exact ⟨out', fun entry hentry => List.mem_append_right out₁ (hsub entry hentry),
          hdeclaration⟩

theorem entry_of_emits
    {R : List Level -> Site -> Prop} {scope : Bindings} {outer : List Level} {e : Expr}
    {id : String} {out : List Entry} (h : Emits R scope outer e id out) :
    exists d, (id, d) ∈ out := by
  match h with
  | .group hinner => exact entry_of_emits hinner
  | .ident _ => exact ⟨_, List.mem_cons_self⟩
  | .number => exact ⟨_, List.mem_cons_self⟩
  | .string => exact ⟨_, List.mem_cons_self⟩
  | .bool => exact ⟨_, List.mem_cons_self⟩
  | .null => exact ⟨_, List.mem_cons_self⟩
  | .letIn _ hbody =>
      rcases entry_of_emits hbody with ⟨d, hd⟩
      exact ⟨d, List.mem_append_right _ hd⟩
  | .application _ => exact ⟨_, List.mem_append_right _ List.mem_cons_self⟩
  | .operation _ _ _ => exact ⟨_, List.mem_append_right _ List.mem_cons_self⟩
  | .matrix _ => exact ⟨_, List.mem_cons_self⟩
  | .list _ _ => exact ⟨_, List.mem_append_right _ List.mem_cons_self⟩
  | .cond _ _ _ _ _ _ => exact ⟨_, List.mem_append_right _ List.mem_cons_self⟩
  | .lambda _ => exact ⟨_, List.mem_cons_self⟩

theorem entry_of_emitsDeclaration
    {R : List Level -> Site -> Prop} {scope : Bindings} {outer : List Level}
    {params : List Ident} {e : Expr} {id : String} {out : List Entry}
    (h : EmitsDeclaration R scope outer params e id out) :
    exists d, (id, d) ∈ out := by
  cases h with
  | constant hbody => exact entry_of_emits hbody
  | function _ _ => exact ⟨_, List.mem_cons_self⟩

theorem matches_of_holds
    {env : Source.Env} {scope : Bindings} {frames : List Frame} {d : Decl} {id : String}
    {out : List Entry} (hagrees : Agrees env scope frames)
    (hdeclaration : EmitsDeclaration Reaches scope (levels frames) d.params d.body id out)
    (hholds : Holds out frames) :
    Matches id (some (.decl d env)) (locate? frames id) := by
  rcases entry_of_emitsDeclaration hdeclaration with ⟨entry, hentry⟩
  have hlocate := hholds (id, entry) hentry
  rw [hlocate]
  exact .decl hagrees hdeclaration hholds hlocate

theorem declared?_eq_none_iff {decls : List Decl} {name : String} :
    Source.declared? decls name = none <-> name ∉ decls.map fun d => d.name.name := by
  unfold Source.declared?
  rw [List.find?_eq_none]
  simp

theorem matches_program
    {names : List String} {decls : List Decl} {out : List Entry} {name : String} {site : Site}
    (hnodup : (out.map Prod.fst).Nodup)
    (hemits : EmitsDeclarations Reaches (programScope names decls) [⟨[], Table.collect out⟩]
      decls out)
    (hlookup : (programScope names decls).lookup name = some site)
    (hreaches : Reaches (levels [.mk [] (Table.collect out)]) site) :
    Matches site.id (Source.find? [.decls decls] name)
        (locate? [.mk [] (Table.collect out)] site.id) ∧
      (Source.find? [.decls decls] name = none -> site.id = name) := by
  rw [programScope_lookup] at hlookup
  rw [Source.find?]
  cases hdeclared : Source.declared? decls name with
  | none =>
      rw [if_neg (declared?_eq_none_iff.mp hdeclared)] at hlookup
      split at hlookup
      · cases hlookup
        rw [locate?_of_reach_none hreaches]
        exact ⟨.outside, fun _ => rfl⟩
      · cases hlookup
  | some d =>
      have hd : d ∈ decls := List.mem_of_find?_eq_some hdeclared
      have hname : d.name.name = name := by
        have hfound := List.find?_some hdeclared
        exact of_decide_eq_true hfound
      have hmem : name ∈ decls.map fun d => d.name.name := List.mem_map.mpr ⟨d, hd, hname⟩
      rw [if_pos hmem] at hlookup
      cases hlookup
      rcases emitsDeclaration_of_mem hemits hd with ⟨out', hsub, hdeclaration⟩
      rw [hname] at hdeclaration
      refine ⟨?_, fun hnone => absurd hnone (Option.some_ne_none _)⟩
      refine matches_of_holds (.program hnodup hemits) hdeclaration ?_
      have hholds : Holds out [.mk [] (Table.collect out)] := by
        refine holds_collect ?_
        rwa [List.map_nil, List.nil_append]
      exact fun entry hentry => hholds entry (hsub entry hentry)

theorem reaches_outer
    {env : Source.Env} {scope : Bindings} {f : Frame} {frames : List Frame} {name : String}
    {site : Site} (hagrees : Agrees env scope frames) (hlookup : scope.lookup name = some site)
    (hreaches : Reaches (levels (f :: frames)) site) :
    locate? (f :: frames) site.id = locate? frames site.id ∧ Reaches (levels frames) site := by
  have hreach : (if site.id ∈ (level f).identifiers then some (levels frames).length
      else reach (levels frames) site.id) = site.depth? := hreaches
  by_cases hmem : site.id ∈ (level f).identifiers
  · rw [if_pos hmem] at hreach
    have hlt := depth_lt_of_agrees hagrees hlookup hreach.symm
    rw [levels, List.length_map] at hlt
    exact absurd hlt (Nat.lt_irrefl _)
  · rw [if_neg hmem] at hreach
    exact ⟨locate?_cons_of_not_mem hmem, hreach⟩

theorem matches_parameter
    {params : List Ident} {vs : List (Value Source.Closure)} {ws : List (Value Target.Closure)}
    {name : String} (env : Source.Env) (table : Table) (frames : List Frame)
    (hrelated : List.Forall₂ Related vs ws) (hlength : params.length ≤ vs.length)
    (hmem : name ∈ params.map Ident.name) :
    Matches name (Source.find? (.args ((params.map Ident.name).zip vs) :: env) name)
        (locate? (.mk ((params.map Ident.name).zip ws) table :: frames) name) := by
  have hnames : (params.map Ident.name).length ≤ vs.length := by
    rw [List.length_map]
    exact hlength
  rcases lookup_zip_related hrelated hnames hmem with ⟨v, w, hv, hw, hvw⟩
  have hargs : (Frame.mk ((params.map Ident.name).zip ws) table).args.lookup name = some w := hw
  rw [Source.find?, hv, locate?, hargs]
  exact .value hvw

theorem matches_of_lookup
    {env : Source.Env} {scope : Bindings} {frames : List Frame} {name : String} {site : Site}
    (h : Agrees env scope frames) (hlookup : scope.lookup name = some site)
    (hreaches : Reaches (levels frames) site) :
    Matches site.id (Source.find? env name) (locate? frames site.id) ∧
      (Source.find? env name = none -> site.id = name) := by
  match h with
  | .program hnodup hemits => exact matches_program hnodup hemits hlookup hreaches
  | @Agrees.function env' _ frames' params vs ws table hagrees hrelated hlength =>
      rw [List.lookup_append, parameterScope_lookup] at hlookup
      by_cases hmem : name ∈ params.map Ident.name
      · rw [if_pos hmem] at hlookup
        cases hlookup
        exact ⟨matches_parameter env' table frames' hrelated hlength hmem, fun _ => rfl⟩
      · rw [if_neg hmem, Option.none_or] at hlookup
        rcases reaches_outer hagrees hlookup hreaches with ⟨hlocate, hreaches'⟩
        rw [hlocate, Source.find?, lookup_zip_eq_none hmem]
        exact matches_of_lookup hagrees hlookup hreaches'
  | @Agrees.letIn env' _ _ bound params value k out hagrees hdeclaration hholds =>
      rw [List.lookup_cons] at hlookup
      by_cases heq : name = bound.name
      · rw [beq_iff_eq.mpr heq] at hlookup
        cases hlookup
        have hdeclared : Source.declared? [⟨bound, params, value⟩] name =
            some ⟨bound, params, value⟩ := by
          simp [Source.declared?, heq]
        rw [Source.find?, hdeclared]
        refine ⟨?_, fun hnone => absurd hnone (Option.some_ne_none _)⟩
        exact matches_of_holds (.letIn hagrees hdeclaration hholds) hdeclaration hholds
      · rw [beq_false_of_ne heq] at hlookup
        have hdeclared : Source.declared? [⟨bound, params, value⟩] name = none := by
          rw [declared?_eq_none_iff]
          simpa using heq
        rw [Source.find?, hdeclared]
        exact matches_of_lookup hagrees hlookup hreaches

theorem matches_of_mentions
    {env : Source.Env} {scope : Bindings} {frames : List Frame} {name id : String}
    (h : Agrees env scope frames) (hmentions : Mentions Reaches scope (levels frames) name id) :
    Matches id (Source.binding? env name) (locate? frames id) ∧
      (Source.binding? env name = none -> id = name) := by
  rcases hmentions with ⟨site, hdenotes, rfl, hreaches⟩
  unfold denotes at hdenotes
  unfold Source.binding?
  by_cases hglobal : isGlobal name = true
  · rw [if_pos hglobal] at hdenotes ⊢
    cases hdenotes
    rw [locate?_of_reach_none hreaches]
    exact ⟨.outside, fun _ => rfl⟩
  · rw [if_neg hglobal] at hdenotes ⊢
    exact matches_of_lookup h hdenotes hreaches

/-!
## Operands
-/

def Holding (scope : Bindings) (frames : List Frame) (e : Expr) (id : String) : Prop :=
  exists out, EmitsOperand Reaches scope (levels frames) e id out ∧ Holds out frames

theorem holding_of_emitsOperands
    {scope : Bindings} {frames : List Frame} {es : List Expr} {ids : List String}
    {out : List Entry} (h : EmitsOperands Reaches scope (levels frames) es ids out)
    (hholds : Holds out frames) :
    List.Forall₂ (Holding scope frames) es ids := by
  match h with
  | .nil => exact .nil
  | .cons hfirst hrest =>
      exact .cons ⟨_, hfirst, hholds.left⟩ (holding_of_emitsOperands hrest hholds.right)

theorem holding_of_emitsCall
    {scope : Bindings} {frames : List Frame} {e : Expr} {target : String} {args : List String}
    {out : List Entry} (h : EmitsCall Reaches scope (levels frames) e target args out)
    (hholds : Holds out frames) :
    Holding scope frames (Source.spine e).1 target ∧
      List.Forall₂ (Holding scope frames) (Source.spine e).2 args := by
  match h with
  | .target happlication hoperand =>
      have hspine : Source.spine e = (e, []) := by
        unfold Source.spine
        split
        · cases happlication
        · rfl
      rw [hspine]
      exact ⟨⟨out, hoperand, hholds⟩, .nil⟩
  | .argument hleft hright =>
      rcases holding_of_emitsCall hleft hholds.left with ⟨htarget, hargs⟩
      refine ⟨htarget, ?_⟩
      rw [Source.spine]
      exact List.rel_append hargs (.cons ⟨_, hright, hholds.right⟩ .nil)

/-!
## First-order values
-/

mutual

theorem rel_of_related :
    (v : Value Source.Closure) -> (w : Value Target.Closure) -> Related v w ->
      Value.Rel (fun _ _ => True) v w
  | _, _, .number v => .number v
  | _, _, .string v => .string v
  | _, _, .bool v => .bool v
  | _, _, .null => .null
  | .list vs, .list ws, .list hitems => .list (rel_of_related_all vs ws hitems)
  | _, _, .builtin f => .builtin f
  | _, _, .closure _ _ => .closure trivial

theorem rel_of_related_all :
    (vs : List (Value Source.Closure)) -> (ws : List (Value Target.Closure)) ->
      List.Forall₂ Related vs ws -> List.Forall₂ (Value.Rel fun _ _ => True) vs ws
  | [], _, .nil => .nil
  | v :: vs, _, .cons hfirst hrest =>
      .cons (rel_of_related v _ hfirst) (rel_of_related_all vs _ hrest)

end

mutual

theorem related_ofDatum : (d : Datum) -> Related (.ofDatum d) (.ofDatum d)
  | .number v => .number v
  | .string v => .string v
  | .bool v => .bool v
  | .null => .null
  | .list items => .list (related_ofData items)

theorem related_ofData :
    (ds : List Datum) -> List.Forall₂ Related (Value.ofData ds) (Value.ofData ds)
  | [] => .nil
  | d :: ds => .cons (related_ofDatum d) (related_ofData ds)

end

theorem related_eq_ofDatum_iff
    {v : Value Source.Closure} {w : Value Target.Closure} (h : Related v w) (d : Datum) :
    v = .ofDatum d <-> w = .ofDatum d :=
  Value.eq_ofDatum_iff ((rel_of_related v w h).datum?_eq) d

theorem applyBuiltin_related
    {f : Builtin} {vs : List (Value Source.Closure)} {ws : List (Value Target.Closure)}
    (h : List.Forall₂ Related vs ws) :
    (forall v, Value.applyBuiltin f vs = some v ->
      exists w, Value.applyBuiltin f ws = some w ∧ Related v w) ∧
    (forall w, Value.applyBuiltin f ws = some w ->
      exists v, Value.applyBuiltin f vs = some v ∧ Related v w) := by
  have hargs := Value.rel_data?_eq vs ws (rel_of_related_all vs ws h)
  constructor
  · intro v hv
    rcases Value.applyBuiltin_of_data?_eq hargs hv with ⟨d, rfl, hw⟩
    exact ⟨_, hw, related_ofDatum d⟩
  · intro w hw
    rcases Value.applyBuiltin_of_data?_eq hargs.symm hw with ⟨d, rfl, hv⟩
    exact ⟨_, hv, related_ofDatum d⟩

end Semantics
end DefTable
