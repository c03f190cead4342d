import DefTable.Proofs.Lowering.Renaming
import DefTable.Proofs.Lowering.Resolution

/-!
# Entries side by side

An expression that is lowered at two places of two programs gets entries under other identifiers, in
nested functions as well, because the synthetic ones depend on everything that was lowered before.
Nothing else differs: the entries stand side by side, and whenever a renaming takes the identifiers
of the one lot to those of the other, it takes their definitions to one another too.
-/

namespace DefTable
namespace Lowering

open Scope (candidate)
open Table (Entry)

/-!
## Scopes and mentions under a renaming
-/

def ScopesAgree (layers : List Layer) (scope scope' : Bindings) : Prop :=
  forall name, Option.Rel (SitesAgree layers) (scope.lookup name) (scope'.lookup name)

theorem SitesAgree.inside
    {layers : List Layer} {site site' : Site} (h : SitesAgree layers site site')
    (l : Layer) : SitesAgree (l :: layers) site site' := by
  refine ⟨h.1, ?_⟩
  have hid := h.2
  cases hdepth : site.depth? with
  | none =>
      rw [hdepth] at hid
      exact hid
  | some depth =>
      rw [hdepth] at hid
      rcases hid with ⟨m, hm, hrenamed⟩
      have hinside : depth < layers.length := by
        unfold layerAt at hm
        have hlt := (List.getElem?_eq_some_iff.mp hm).1
        rwa [List.length_reverse] at hlt
      exact ⟨m, (layerAt_cons l hinside).trans hm, hrenamed⟩

theorem ScopesAgree.letIn
    {layers : List Layer} {scope scope' : Bindings} (h : ScopesAgree layers scope scope')
    {site site' : Site} (hsites : SitesAgree layers site site') (name : String) :
    ScopesAgree layers ((name, site) :: scope) ((name, site') :: scope') := by
  intro x
  rw [List.lookup_cons, List.lookup_cons]
  cases x == name with
  | true => exact .some hsites
  | false => exact h x

theorem ScopesAgree.function
    {layers : List Layer} {scope scope' : Bindings} (h : ScopesAgree layers scope scope')
    {l : Layer} {params : List Ident}
    (hparams : forall q, q ∈ params.map Ident.name -> l.relabel q = q) :
    ScopesAgree (l :: layers) (parameterScope layers.length params ++ scope)
      (parameterScope layers.length params ++ scope') := by
  intro x
  rw [List.lookup_append, List.lookup_append, parameterScope_lookup]
  by_cases hparam : x ∈ params.map Ident.name
  · rw [if_pos hparam]
    exact .some ⟨rfl, l, layerAt_length l layers, hparams x hparam⟩
  · rw [if_neg hparam]
    have hx := h x
    revert hx
    cases scope.lookup x <;> cases scope'.lookup x <;> intro hx
    · exact .none
    · cases hx
    · cases hx
    · cases hx with
      | some hsites => exact .some (hsites.inside l)

theorem corresponds_of_mentions
    {layers : List Layer} {scope scope' : Bindings} {name id id' : String}
    (hscopes : ScopesAgree layers scope scope')
    (hbefore : Mentions Reaches scope (layers.map Layer.before) name id)
    (hafter : Mentions Reaches scope' (layers.map Layer.after) name id') :
    Corresponds layers id id' := by
  rcases hbefore with ⟨site, hsite, rfl, hreaches⟩
  rcases hafter with ⟨site', hsite', rfl, hreaches'⟩
  refine corresponds_of_reaches ?_ hreaches hreaches'
  unfold denotes at hsite hsite'
  by_cases hglobal : isGlobal name = true
  · rw [if_pos hglobal] at hsite hsite'
    cases hsite
    cases hsite'
    exact ⟨rfl, rfl⟩
  · rw [if_neg hglobal] at hsite hsite'
    have hname := hscopes name
    rw [hsite, hsite'] at hname
    cases hname with
    | some hsites => exact hsites

/-!
## Entries side by side
-/

abbrev heads (out : List Entry) : List String :=
  out.map Prod.fst

abbrev DefinitionsRenamed (layers : List Layer) (out out' : List Entry) : Prop :=
  List.Forall₂ (fun e e' => Renamed layers e.2 e'.2) out out'

structure Places where
  scope : Bindings
  scope' : Bindings
  levels : List Level
  levels' : List Level

namespace Places

/-- The layers connect the levels of the two places, and the scopes agree in them. -/
structure Connected (p : Places) (layers : List Layer) : Prop where
  before : p.levels = layers.map Layer.before
  after : p.levels' = layers.map Layer.after
  scopes : ScopesAgree layers p.scope p.scope'

def letIn (p : Places) (name : String) (k k' : Nat) : Places where
  scope := (name, .renamed (innermost p.levels) name k) :: p.scope
  scope' := (name, .renamed (innermost p.levels') name k') :: p.scope'
  levels := p.levels
  levels' := p.levels'

def function (p : Places) (params : List Ident) (t t' : Table) : Places where
  scope := parameterScope p.levels.length params ++ p.scope
  scope' := parameterScope p.levels'.length params ++ p.scope'
  levels := ⟨params.map Ident.name, t⟩ :: p.levels
  levels' := ⟨params.map Ident.name, t'⟩ :: p.levels'

end Places

/-- If a renaming takes the identifiers of the entries to one another, it takes their definitions to
one another, and to the results `ids` the results `ids'`. -/
structure Alongside (p : Places) (ids ids' : List String) (out out' : List Entry) : Prop where
  paired : List.Forall₂ Paired (heads out) (heads out')
  corresponds : forall l outer, p.Connected (l :: outer) ->
    (heads out).map l.relabel = heads out' -> List.Forall₂ (Corresponds (l :: outer)) ids ids'
  renamed : forall l outer, p.Connected (l :: outer) ->
    (heads out).map l.relabel = heads out' -> DefinitionsRenamed (l :: outer) out out'

/-- The same for an expression that is defined under given identifiers. -/
structure Defined (p : Places) (id id' : String) (out out' : List Entry) : Prop where
  paired : Paired id id' -> List.Forall₂ Paired (heads out) (heads out')
  own : forall relabel : Equiv.Perm String, (heads out).map relabel = heads out' -> relabel id = id'
  renamed : forall l outer, p.Connected (l :: outer) ->
    (heads out).map l.relabel = heads out' -> DefinitionsRenamed (l :: outer) out out'

theorem map_heads_append
    {f : String -> String} {out₁ out₁' out₂ out₂' : List Entry}
    (hlength : (heads out₁).length = (heads out₁').length)
    (h : (heads (out₁ ++ out₂)).map f = heads (out₁' ++ out₂')) :
    (heads out₁).map f = heads out₁' ∧ (heads out₂).map f = heads out₂' := by
  unfold heads at *
  rw [List.map_append, List.map_append, List.map_append] at h
  exact List.append_inj h (by rw [List.length_map, hlength])

theorem paired_append
    {out₁ out₁' out₂ out₂' : List Entry} (h₁ : List.Forall₂ Paired (heads out₁) (heads out₁'))
    (h₂ : List.Forall₂ Paired (heads out₂) (heads out₂')) :
    List.Forall₂ Paired (heads (out₁ ++ out₂)) (heads (out₁' ++ out₂')) := by
  unfold heads
  rw [List.map_append, List.map_append]
  exact List.rel_append h₁ h₂

section

variable {p : Places} {id id' : String} {ids ids' ids₂ ids₂' : List String}
  {out out' out₂ out₂' : List Entry}

theorem Alongside.nil : Alongside p [] [] [] [] where
  paired := .nil
  corresponds _ _ _ _ := .nil
  renamed _ _ _ _ := .nil

theorem Alongside.mention
    {name : String} (hbefore : Mentions Reaches p.scope p.levels name id)
    (hafter : Mentions Reaches p.scope' p.levels' name id') :
    Alongside p [id] [id'] [] [] where
  paired := .nil
  corresponds _ _ h _ :=
    .cons (corresponds_of_mentions h.scopes (h.before ▸ hbefore) (h.after ▸ hafter)) .nil
  renamed _ _ _ _ := .nil

theorem Alongside.append
    (h : Alongside p ids ids' out out') (h₂ : Alongside p ids₂ ids₂' out₂ out₂') :
    Alongside p (ids ++ ids₂) (ids' ++ ids₂') (out ++ out₂) (out' ++ out₂') where
  paired := paired_append h.paired h₂.paired
  corresponds l outer hp hmap := by
    rcases map_heads_append h.paired.length_eq hmap with ⟨hmap₁, hmap₂⟩
    exact List.rel_append (h.corresponds l outer hp hmap₁) (h₂.corresponds l outer hp hmap₂)
  renamed l outer hp hmap := by
    rcases map_heads_append h.paired.length_eq hmap with ⟨hmap₁, hmap₂⟩
    exact List.rel_append (h.renamed l outer hp hmap₁) (h₂.renamed l outer hp hmap₂)

theorem Alongside.define
    {d d' : Def} (h : Alongside p ids ids' out out')
    (hd : forall l outer, p.Connected (l :: outer) ->
      List.Forall₂ (Corresponds (l :: outer)) ids ids' -> Renamed (l :: outer) d d') :
    Defined p id id' (out ++ [(id, d)]) (out' ++ [(id', d')]) where
  paired hid := paired_append h.paired (.cons hid .nil)
  own relabel hmap := (List.cons.inj (map_heads_append h.paired.length_eq hmap).2).1
  renamed l outer hp hmap := by
    have hmap₁ := (map_heads_append h.paired.length_eq hmap).1
    have hids := h.corresponds l outer hp hmap₁
    exact List.rel_append (h.renamed l outer hp hmap₁) (.cons (hd l outer hp hids) .nil)

theorem sitesAgree_renamed
    {l : Layer} {outer : List Layer} {name : String} {k k' : Nat}
    (hp : p.Connected (l :: outer)) (hid : l.relabel (candidate name k) = candidate name k') :
    SitesAgree (l :: outer) (.renamed (innermost p.levels) name k)
      (.renamed (innermost p.levels') name k') := by
  have hbefore : innermost p.levels = outer.length := by
    rw [hp.before]
    simp [innermost]
  have hafter : innermost p.levels' = outer.length := by
    rw [hp.after]
    simp [innermost]
  rw [hbefore, hafter]
  exact ⟨rfl, l, layerAt_length l outer, hid⟩

theorem Defined.placed
    {name : String} {k k' : Nat}
    (h : Defined p (candidate name k) (candidate name k') out out')
    (hbefore : Reaches p.levels (.renamed (innermost p.levels) name k))
    (hafter : Reaches p.levels' (.renamed (innermost p.levels') name k')) :
    Alongside p [candidate name k] [candidate name k'] out out' where
  paired := h.paired (paired_candidate name k k')
  corresponds l outer hp hmap := by
    have hsites := sitesAgree_renamed hp (h.own l.relabel hmap)
    refine .cons (corresponds_of_reaches hsites ?_ ?_) .nil
    · exact hp.before ▸ hbefore
    · exact hp.after ▸ hafter
  renamed := h.renamed

theorem Defined.letIn
    {name : String} {k k' : Nat}
    (h : Defined (p.letIn name k k') (candidate name k) (candidate name k') out out')
    (h₂ : Defined (p.letIn name k k') id id' out₂ out₂') :
    Defined p id id' (out ++ out₂) (out' ++ out₂') := by
  have hpaired := h.paired (paired_candidate name k k')
  refine ⟨fun hid => paired_append hpaired (h₂.paired hid), ?_, ?_⟩
  · intro relabel hmap
    exact h₂.own relabel (map_heads_append hpaired.length_eq hmap).2
  · intro l outer hp hmap
    rcases map_heads_append hpaired.length_eq hmap with ⟨hmap₁, hmap₂⟩
    have hsites := sitesAgree_renamed hp (h.own l.relabel hmap₁)
    have hinner : (p.letIn name k k').Connected (l :: outer) :=
      ⟨hp.before, hp.after, hp.scopes.letIn hsites name⟩
    exact List.rel_append (h.renamed l outer hinner hmap₁) (h₂.renamed l outer hinner hmap₂)

/-!
## Tables side by side
-/

theorem renamed_of_mem
    {layers : List Layer} {f : String -> String} {d d' : Def}
    (h : DefinitionsRenamed layers out out') (hmap : (heads out).map f = heads out')
    (hnodup : (heads out').Nodup) (hd : (id, d) ∈ out) (hd' : (f id, d') ∈ out') :
    Renamed layers d d' := by
  induction h with
  | nil => cases hd
  | @cons e e' rest rest' hrenamed _ ih =>
      have hnew : e'.1 ∉ heads rest' := (List.nodup_cons.mp hnodup).1
      rcases List.cons.inj hmap with ⟨hhead, htail⟩
      rcases List.mem_cons.mp hd with rfl | hd
      · rcases List.mem_cons.mp hd' with rfl | hd'
        · exact hrenamed
        · exact absurd (hhead ▸ List.mem_map_of_mem hd') hnew
      · rcases List.mem_cons.mp hd' with rfl | hd'
        · refine absurd ?_ hnew
          unfold heads
          rw [← htail]
          exact List.mem_map_of_mem (List.mem_map_of_mem hd)
        · exact ih htail (List.nodup_cons.mp hnodup).2 hd hd'

theorem renamed_func
    {layers : List Layer} {params : List String} {t t' : Table}
    (ht : t.Perm out) (ht' : t'.Perm out')
    (hnodup : (params ++ heads out).Nodup) (hnodup' : (params ++ heads out').Nodup)
    (hpaired : List.Forall₂ Paired (heads out) (heads out'))
    (hrenamed : forall relabel : Equiv.Perm String, (forall q, q ∈ params -> relabel q = q) ->
      (heads out).map relabel = heads out' ->
      DefinitionsRenamed (⟨⟨params, t⟩, ⟨params, t'⟩, relabel⟩ :: layers) out out') :
    Renamed layers (.func params t) (.func params t') := by
  rcases List.nodup_append.mp hnodup with ⟨_, hout, hdisjoint⟩
  rcases List.nodup_append.mp hnodup' with ⟨_, hout', hdisjoint'⟩
  rcases exists_renaming hpaired hout hout' with ⟨relabel, hkeeps, hmap, hfixed⟩
  have hparams : forall q, q ∈ params -> relabel q = q := fun q hq =>
    hfixed q (fun hmem => hdisjoint q hq q hmem rfl) (fun hmem => hdisjoint' q hq q hmem rfl)
  refine .func relabel hkeeps hparams ?_ ?_
  · have hafter : (Table.identifiers t').Perm (heads out') := Table.identifiers_perm ht'
    rw [← hmap] at hafter
    exact hafter.trans ((Table.identifiers_perm ht).map relabel).symm
  · intro id d d' hd hd'
    have hall := hrenamed relabel hparams hmap
    exact renamed_of_mem hall hmap hout' (ht.mem_iff.mp hd) (ht'.mem_iff.mp hd')

end

/-!
## Expressions
-/

structure AlongsideUses (e : Expr) : Prop where
  into : forall (p : Places) id id' out out',
    Emits Reaches p.scope p.levels e id out -> Emits Reaches p.scope' p.levels' e id' out' ->
    Defined p id id' out out'
  operand : forall (p : Places) id id' out out',
    EmitsOperand Reaches p.scope p.levels e id out ->
    EmitsOperand Reaches p.scope' p.levels' e id' out' ->
    Alongside p [id] [id'] out out'
  call : forall (p : Places) target target' args args' out out',
    EmitsCall Reaches p.scope p.levels e target args out ->
    EmitsCall Reaches p.scope' p.levels' e target' args' out' ->
    Alongside p (target :: args) (target' :: args') out out'

theorem alongside_operand
    {e : Expr} (hname : isName e = false)
    (hinto : forall (p : Places) id id' out out',
      Emits Reaches p.scope p.levels e id out -> Emits Reaches p.scope' p.levels' e id' out' ->
      Defined p id id' out out')
    (p : Places) (id id' : String) (out out' : List Entry)
    (h : EmitsOperand Reaches p.scope p.levels e id out)
    (h' : EmitsOperand Reaches p.scope' p.levels' e id' out') :
    Alongside p [id] [id'] out out' := by
  cases h with
  | name _ => cases hname
  | other _ hreaches hemits =>
      cases h' with
      | name _ => cases hname
      | other _ hreaches' hemits' =>
          exact (hinto p _ _ _ _ hemits hemits').placed hreaches hreaches'

theorem alongside_call
    {e : Expr} (happlication : isApplication e = false)
    (hoperand : forall (p : Places) id id' out out',
      EmitsOperand Reaches p.scope p.levels e id out ->
      EmitsOperand Reaches p.scope' p.levels' e id' out' -> Alongside p [id] [id'] out out')
    (p : Places) (target target' : String) (args args' : List String) (out out' : List Entry)
    (h : EmitsCall Reaches p.scope p.levels e target args out)
    (h' : EmitsCall Reaches p.scope' p.levels' e target' args' out') :
    Alongside p (target :: args) (target' :: args') out out' := by
  cases h with
  | argument _ _ => cases happlication
  | target _ hemits =>
      cases h' with
      | argument _ _ => cases happlication
      | target _ hemits' => exact hoperand p _ _ _ _ hemits hemits'

theorem AlongsideUses.ofInto
    {e : Expr} (hname : isName e = false) (happlication : isApplication e = false)
    (hinto : forall (p : Places) id id' out out',
      Emits Reaches p.scope p.levels e id out -> Emits Reaches p.scope' p.levels' e id' out' ->
      Defined p id id' out out') :
    AlongsideUses e where
  into := hinto
  operand := alongside_operand hname hinto
  call := alongside_call happlication (alongside_operand hname hinto)

theorem AlongsideUses.function
    {body : Expr} (hbody : AlongsideUses body) {p : Places} {params : List Ident} {d d' : Def}
    (h : EmitsFunction Reaches p.scope p.levels params body d)
    (h' : EmitsFunction Reaches p.scope' p.levels' params body d')
    {layers : List Layer} (hp : p.Connected layers) :
    Renamed layers d d' := by
  cases h with
  | @intro _ _ _ _ out hnodup hemits =>
      cases h' with
      | @intro _ _ _ _ out' hnodup' hemits' =>
          have hdefined := hbody.into
            (p.function params (Table.collect out) (Table.collect out')) _ _ _ _ hemits hemits'
          have ht := Table.collect_perm (List.nodup_append.mp hnodup).2.1
          have ht' := Table.collect_perm (List.nodup_append.mp hnodup').2.1
          refine renamed_func ht ht' hnodup hnodup' (hdefined.paired (Or.inl rfl)) ?_
          intro relabel hparams hmap
          refine hdefined.renamed _ _ ⟨?_, ?_, ?_⟩ hmap
          · exact congrArg _ hp.before
          · exact congrArg _ hp.after
          · unfold Places.function
            rw [hp.before, hp.after, List.length_map, List.length_map]
            exact hp.scopes.function hparams

theorem AlongsideUses.declaration
    {body : Expr} (hbody : AlongsideUses body) {p : Places} {params : List Ident}
    {id id' : String} {out out' : List Entry}
    (h : EmitsDeclaration Reaches p.scope p.levels params body id out)
    (h' : EmitsDeclaration Reaches p.scope' p.levels' params body id' out') :
    Defined p id id' out out' := by
  cases h with
  | constant hemits =>
      cases h' with
      | constant hemits' => exact hbody.into p _ _ _ _ hemits hemits'
      | function hparams _ => exact absurd rfl hparams
  | function hparams hfunction =>
      cases h' with
      | constant _ => exact absurd rfl hparams
      | function _ hfunction' =>
          exact Alongside.nil.define fun _ _ hp _ => hbody.function hfunction hfunction' hp

theorem AlongsideUses.ident (i : Ident) : AlongsideUses (.ident i) := by
  have hoperand : forall (p : Places) id id' out out',
      EmitsOperand Reaches p.scope p.levels (.ident i) id out ->
      EmitsOperand Reaches p.scope' p.levels' (.ident i) id' out' ->
      Alongside p [id] [id'] out out' := by
    intro p id id' out out' h h'
    cases h with
    | other hname _ _ => cases hname
    | name hmentions =>
        cases h' with
        | other hname _ _ => cases hname
        | name hmentions' => exact .mention hmentions hmentions'
  refine ⟨?_, hoperand, alongside_call rfl hoperand⟩
  rintro p id id' _ _ (_ | hmentions) (_ | hmentions')
  refine (Alongside.mention hmentions hmentions').define fun _ _ _ hids => ?_
  exact .call (List.forall₂_cons.mp hids).1 .nil

section

variable {t : Token} {e left right test yes no body : Expr} {es : List Expr}

theorem AlongsideUses.group (he : AlongsideUses e) : AlongsideUses (.group t e) :=
  .ofInto rfl rfl fun p id id' out out' h h' => by
    cases h with
    | group h =>
        cases h' with
        | group h' => exact he.into p id id' out out' h h'

theorem AlongsideUses.letIn
    (name : Ident) (params : List Ident) (hvalue : AlongsideUses e) (hbody : AlongsideUses body) :
    AlongsideUses (.letIn t name params e body) :=
  .ofInto rfl rfl fun p id id' out out' h h' => by
    cases h with
    | @letIn _ _ _ _ _ _ _ _ k _ _ hemits hrest =>
        cases h' with
        | @letIn _ _ _ _ _ _ _ _ k' _ _ hemits' hrest' =>
            have hvalues := hvalue.declaration (p := p.letIn name.name k k') hemits hemits'
            exact hvalues.letIn (hbody.into _ _ _ _ _ hrest hrest')

theorem AlongsideUses.application (hleft : AlongsideUses left) (hright : AlongsideUses right) :
    AlongsideUses (.binary t left .apply right) := by
  have hcall : forall (p : Places) target target' args args' out out',
      EmitsCall Reaches p.scope p.levels (.binary t left .apply right) target args out ->
      EmitsCall Reaches p.scope' p.levels' (.binary t left .apply right) target' args' out' ->
      Alongside p (target :: args) (target' :: args') out out' := by
    intro p target target' args args' out out' h h'
    cases h with
    | target happlication _ => cases happlication
    | argument htarget hlast =>
        cases h' with
        | target happlication _ => cases happlication
        | argument htarget' hlast' =>
            exact (hleft.call p _ _ _ _ _ _ htarget htarget').append
              (hright.operand p _ _ _ _ hlast hlast')
  have hinto : forall (p : Places) id id' out out',
      Emits Reaches p.scope p.levels (.binary t left .apply right) id out ->
      Emits Reaches p.scope' p.levels' (.binary t left .apply right) id' out' ->
      Defined p id id' out out' := by
    intro p id id' out out' h h'
    cases h with
    | application h =>
        cases h' with
        | application h' =>
            refine (hcall p _ _ _ _ _ _ h h').define fun _ _ _ hids => ?_
            exact .call (List.forall₂_cons.mp hids).1 (List.forall₂_cons.mp hids).2
  exact ⟨hinto, alongside_operand rfl hinto, hcall⟩

theorem AlongsideUses.operation
    (op : Ident) (hleft : AlongsideUses left) (hright : AlongsideUses right) :
    AlongsideUses (.binary t left (.named op) right) :=
  .ofInto rfl rfl fun p id id' out out' h h' => by
    cases h with
    | operation hop hfirst hsecond =>
        cases h' with
        | operation hop' hfirst' hsecond' =>
            have hlefts := hleft.operand p _ _ _ _ hfirst hfirst'
            have hrights := hright.operand p _ _ _ _ hsecond hsecond'
            have hall := (Alongside.mention hop hop').append (hlefts.append hrights)
            refine hall.define fun _ _ _ hids => ?_
            exact .call (List.forall₂_cons.mp hids).1 (List.forall₂_cons.mp hids).2

theorem AlongsideUses.list
    (hitems : forall (p : Places) ids ids' out out',
      EmitsOperands Reaches p.scope p.levels es ids out ->
      EmitsOperands Reaches p.scope' p.levels' es ids' out' -> Alongside p ids ids' out out') :
    AlongsideUses (.list t es) :=
  .ofInto rfl rfl fun p id id' out out' h h' => by
    cases h with
    | matrix hpacked =>
        cases h' with
        | matrix hpacked' =>
            cases hpacked.symm.trans hpacked'
            exact Alongside.nil.define fun _ _ _ _ => .matrix
        | list hpacked' _ => cases hpacked.symm.trans hpacked'
    | list hpacked hemits =>
        cases h' with
        | matrix hpacked' => cases hpacked.symm.trans hpacked'
        | list _ hemits' =>
            exact (hitems p _ _ _ _ hemits hemits').define fun _ _ _ hids => .list hids

theorem AlongsideUses.cond
    (htest : AlongsideUses test) (hyes : AlongsideUses yes) (hno : AlongsideUses no) :
    AlongsideUses (.cond t test yes no) :=
  .ofInto rfl rfl fun p id id' out out' h h' => by
    cases h with
    | cond hi hj hk hemits₁ hemits₂ hemits₃ =>
        cases h' with
        | cond hi' hj' hk' hemits₁' hemits₂' hemits₃' =>
            have htests := (htest.into p _ _ _ _ hemits₁ hemits₁').placed hi hi'
            have hyess := (hyes.into p _ _ _ _ hemits₂ hemits₂').placed hj hj'
            have hnos := (hno.into p _ _ _ _ hemits₃ hemits₃').placed hk hk'
            refine ((htests.append hyess).append hnos).define fun _ _ _ hids => ?_
            rcases List.forall₂_cons.mp hids with ⟨htestId, hids⟩
            rcases List.forall₂_cons.mp hids with ⟨hyesId, hids⟩
            have hnoId := (List.forall₂_cons.mp hids).1
            exact .switch (.cons ⟨.some htestId, hyesId⟩ (.cons ⟨.none, hnoId⟩ .nil))

theorem AlongsideUses.lambda (params : List Ident) (hbody : AlongsideUses body) :
    AlongsideUses (.lambda t params body) :=
  .ofInto rfl rfl fun p id id' out out' h h' => by
    cases h with
    | lambda h =>
        cases h' with
        | lambda h' => exact Alongside.nil.define fun _ _ hp _ => hbody.function h h' hp

end

mutual

theorem alongsideUses : forall e : Expr, AlongsideUses e
  | .hole => .ofInto rfl rfl fun _ _ _ _ _ h _ => nomatch h
  | .ident i => .ident i
  | .number _ v => .ofInto rfl rfl fun _ _ _ _ _ h h' => by
      cases h
      cases h'
      exact Alongside.nil.define fun _ _ _ _ => .number
  | .string _ v => .ofInto rfl rfl fun _ _ _ _ _ h h' => by
      cases h
      cases h'
      exact Alongside.nil.define fun _ _ _ _ => .string
  | .bool _ v => .ofInto rfl rfl fun _ _ _ _ _ h h' => by
      cases h
      cases h'
      exact Alongside.nil.define fun _ _ _ _ => .bool
  | .null _ => .ofInto rfl rfl fun _ _ _ _ _ h h' => by
      cases h
      cases h'
      exact Alongside.nil.define fun _ _ _ _ => .null
  | .group _ e => .group (alongsideUses e)
  | .letIn _ name params value body => .letIn name params (alongsideUses value) (alongsideUses body)
  | .binary _ left .apply right => .application (alongsideUses left) (alongsideUses right)
  | .binary _ left (.named op) right => .operation op (alongsideUses left) (alongsideUses right)
  | .list _ es => .list (alongsideOperands es)
  | .cond _ test yes no =>
      .cond (alongsideUses test) (alongsideUses yes) (alongsideUses no)
  | .lambda _ params body => .lambda params (alongsideUses body)

theorem alongsideOperands :
    forall (es : List Expr) (p : Places) ids ids' out out',
      EmitsOperands Reaches p.scope p.levels es ids out ->
      EmitsOperands Reaches p.scope' p.levels' es ids' out' -> Alongside p ids ids' out out'
  | [], _, _, _, _, _, h, h' => by
      cases h
      cases h'
      exact .nil
  | e :: es, p, _, _, _, _, h, h' => by
      cases h with
      | cons hfirst hrest =>
          cases h' with
          | cons hfirst' hrest' =>
              exact ((alongsideUses e).operand p _ _ _ _ hfirst hfirst').append
                (alongsideOperands es p _ _ _ _ hrest hrest')

end

end Lowering
end DefTable
