import DefTable.Proofs.Lowering.Builder
import DefTable.Proofs.Lowering.Emission

/-!
# Resolving a name and looking its identifier up

The lowering resolves names in a list of frames.  `Mirrors` ties the frames to the lexical scope of
the source and to the finished tables: in each table, synthetic identifiers avoid everything that is
bound outside of it.  Under this invariant the identifier that a name resolves to is looked up
structurally at the site that the name denotes, unless a parameter captures it.
-/

namespace DefTable
namespace Lowering

open Scope (Frame candidate)

/-!
## Identifiers of the innermost table
-/

def Held : List Level -> String -> Prop
  | [], _ => False
  | l :: _, id => id ∈ l.table.identifiers

theorem reach_of_held
    {levels : List Level} {id : String} (hheld : Held levels id) :
    reach levels id = some (innermost levels) := by
  cases levels with
  | nil =>
      cases hheld
  | cons l outer =>
      have hmem : id ∈ l.identifiers := List.mem_append_right _ hheld
      rw [reach, if_pos hmem]
      rfl

theorem not_boundInside_innermost (levels : List Level) (id : String) :
    ¬ BoundInside (innermost levels) id levels := by
  cases levels with
  | nil =>
      exact not_false
  | cons l outer =>
      intro hbound
      exact Nat.lt_irrefl _ hbound.1

theorem reaches_iff_of_held
    {levels : List Level} {name : String} {k : Nat}
    (hheld : Held levels (candidate name k)) :
    Reaches levels (.renamed (innermost levels) name k) <->
      ¬ Captured levels (.renamed (innermost levels) name k) := by
  constructor
  · intro _
    exact not_boundInside_innermost levels _
  · intro _
    exact reach_of_held hheld

/-!
## Frames, scopes and levels
-/

def Keeps (frame : Frame) (names : List String) : Prop :=
  forall x, frame.lookup? x = if x ∈ names then some x else none

theorem lookup_map_pair {β : Type} (f : String -> β) (x : String) (names : List String) :
    (names.map fun n => (n, f n)).lookup x = if x ∈ names then some (f x) else none := by
  induction names with
  | nil =>
      rfl
  | cons n rest ih =>
      rw [List.map_cons, List.lookup_cons]
      by_cases heq : x = n
      · subst heq
        simp
      · rw [beq_false_of_ne heq]
        simpa [heq] using ih

theorem keeps_of_bindings
    {frame : Frame} {names bound : List String}
    (hbindings : frame.bindings = bound.map fun n => (n, n))
    (hmem : forall x, x ∈ bound <-> x ∈ names) :
    Keeps frame names := by
  intro x
  rw [Frame.lookup?, hbindings, lookup_map_pair (fun n => n) x bound]
  simp only [hmem x]

theorem parameterScope_lookup (depth : Nat) (params : List Ident) (x : String) :
    (parameterScope depth params).lookup x =
      if x ∈ params.map Ident.name then some (.kept depth x) else none := by
  have hmap : parameterScope depth params =
      (params.map Ident.name).map fun n => (n, Site.kept depth n) := by
    rw [parameterScope, List.map_map]
    rfl
  rw [hmap]
  exact lookup_map_pair (Site.kept depth) x _

theorem programScope_lookup (names : List String) (decls : List Decl) (x : String) :
    (programScope names decls).lookup x =
      if x ∈ decls.map (fun d => d.name.name) then some (.kept 0 x)
      else if x ∈ names then some (.outside x) else none := by
  have hmap : (decls.map fun d => (d.name.name, Site.kept 0 d.name.name)) =
      (decls.map fun d => d.name.name).map fun n => (n, Site.kept 0 n) := by
    rw [List.map_map]
    rfl
  rw [programScope, List.lookup_append, hmap, lookup_map_pair (Site.kept 0) x,
    lookup_map_pair Site.outside x]
  split
  · rfl
  · rfl

/-- The frames give each name the identifier of the site that it denotes in the scope, and the
tables of the levels define nothing that is bound further out.  Parameters satisfy `P`. -/
inductive Mirrors (names : List String) (decls : List Decl) (P : String -> Prop) :
    List Frame -> Bindings -> List Level -> Prop where
  | program {frame : Frame} {t : Table} :
      Keeps frame (names ++ decls.map fun d => d.name.name) ->
      (forall d, d ∈ decls -> d.name.name ∈ t.identifiers) ->
      (forall x, x ∈ t.identifiers -> x ∉ names ∧ isGlobal x = false) ->
      Mirrors names decls P [frame] (programScope names decls) [⟨[], t⟩]
  | letIn {frames : List Frame} {scope : Bindings} {levels : List Level}
      {name : String} {k : Nat} :
      Mirrors names decls P frames scope levels ->
      Held levels (candidate name k) ->
      Mirrors names decls P (⟨.transparent, [(name, candidate name k)]⟩ :: frames)
        ((name, .renamed (innermost levels) name k) :: scope) levels
  | function {frames : List Frame} {scope : Bindings} {levels : List Level}
      {frame : Frame} {params : List Ident} {t : Table} :
      Mirrors names decls P frames scope levels ->
      Keeps frame (params.map Ident.name) ->
      (forall q, q ∈ params.map Ident.name -> isGlobal q = false ∧ P q) ->
      (forall x, x ∈ t.identifiers -> x = Table.resultId ∨
        (x ∉ Scope.identifiers frames ∧ isGlobal x = false)) ->
      Mirrors names decls P (frame :: frames)
        (parameterScope levels.length params ++ scope)
        (⟨params.map Ident.name, t⟩ :: levels)

namespace Mirrors

variable {names : List String} {decls : List Decl} {P : String -> Prop}
  {frames : List Frame} {scope : Bindings} {levels : List Level}

theorem params_satisfy
    (hmirrors : Mirrors names decls P frames scope levels) :
    forall l, l ∈ levels -> forall q, q ∈ l.params -> P q := by
  induction hmirrors with
  | program _ _ _ =>
      intro l hl q hq
      rw [List.mem_singleton.mp hl] at hq
      cases hq
  | letIn _ _ ih =>
      exact ih
  | function _ _ hparams _ ih =>
      intro l hl q hq
      rcases List.mem_cons.mp hl with heq | houter
      · rw [heq] at hq
        exact (hparams q hq).2
      · exact ih l houter q hq

theorem reach_global
    (hmirrors : Mirrors names decls P frames scope levels)
    {name : String} (hglobal : isGlobal name = true) :
    reach levels name = none := by
  induction hmirrors with
  | @program frame t _ _ hkeys =>
      have hnot : name ∉ Level.identifiers ⟨[], t⟩ := by
        intro hmem
        have hlocal := (hkeys name hmem).2
        rw [hglobal] at hlocal
        cases hlocal
      rw [reach, if_neg hnot]
      rfl
  | letIn _ _ ih =>
      exact ih
  | @function _ _ _ _ params t _ _ hparams hkeys ih =>
      have hnot : name ∉ Level.identifiers ⟨params.map Ident.name, t⟩ := by
        intro hmem
        rcases List.mem_append.mp hmem with hparam | hkey
        · have hlocal := (hparams name hparam).1
          rw [hglobal] at hlocal
          cases hlocal
        · rcases hkeys name hkey with hresult | ⟨_, hlocal⟩
          · rw [hresult] at hglobal
            revert hglobal
            decide
          · rw [hglobal] at hlocal
            cases hlocal
      rw [reach, if_neg hnot]
      exact ih

end Mirrors

/-!
## Looking up through one more level
-/

theorem reaches_cons_iff
    {l : Level} {levels : List Level} {site : Site}
    (hnot : site.id ∉ l.identifiers) :
    Reaches (l :: levels) site <-> Reaches levels site := by
  unfold Reaches
  rw [reach, if_neg hnot]

theorem captured_cons_iff
    {l : Level} {levels : List Level} {site : Site}
    (hnot : site.id ∉ l.params) (hinside : forall d, site.depth? = some d -> d < levels.length) :
    Captured (l :: levels) site <-> Captured levels site := by
  cases site with
  | outside name =>
      exact Iff.rfl
  | kept depth name =>
      exact Iff.rfl
  | renamed depth name k =>
      constructor
      · rintro ⟨_, hparam | hinner⟩
        · exact absurd hparam hnot
        · exact hinner
      · intro hinner
        exact ⟨hinside depth rfl, Or.inr hinner⟩

/-!
## The site of a resolved name
-/

/-- A bound name resolves to the identifier of the site that it denotes, and the look-up of that
identifier goes wrong only where a parameter captures it. -/
structure Resolved (frames : List Frame) (scope : Bindings) (levels : List Level)
    (name target : String) (site : Site) : Prop where
  lookup_eq : scope.lookup name = some site
  id_eq : site.id = target
  mem_frames : target ∈ Scope.identifiers frames
  ne_resultId : target ≠ Table.resultId
  kept_name : (forall depth n k, site ≠ .renamed depth n k) -> target = name
  inside : forall d, site.depth? = some d -> d < levels.length
  reaches_iff : Reaches levels site <-> ¬ Captured levels site

theorem mem_identifiers_of_lookup
    {frame : Frame} {name target : String}
    (hlookup : frame.lookup? name = some target) :
    target ∈ frame.identifiers := by
  rw [Frame.lookup?, List.lookup_eq_some_iff] at hlookup
  rcases hlookup with ⟨front, back, hbindings, _⟩
  rw [Frame.identifiers, hbindings]
  simp

theorem resolved_program
    {names : List String} {decls : List Decl} {frame : Frame} {t : Table} {name target : String}
    (hframe : Keeps frame (names ++ decls.map fun d => d.name.name))
    (hdecls : forall d, d ∈ decls -> d.name.name ∈ t.identifiers)
    (hkeys : forall x, x ∈ t.identifiers -> x ∉ names ∧ isGlobal x = false)
    (hresult : name ≠ Table.resultId)
    (hlookup : frame.lookup? name = some target) :
    exists site, Resolved [frame] (programScope names decls) [⟨[], t⟩] name target site := by
  have hmem : target ∈ Scope.identifiers [frame] := by
    rw [Scope.identifiers, List.flatMap_cons]
    exact List.mem_append_left _ (mem_identifiers_of_lookup hlookup)
  rw [hframe name] at hlookup
  by_cases hbound : name ∈ names ++ decls.map fun d => d.name.name
  · rw [if_pos hbound] at hlookup
    injection hlookup with htarget
    subst htarget
    by_cases hdecl : name ∈ decls.map fun d => d.name.name
    · have hkey : name ∈ t.identifiers := by
        rcases List.mem_map.mp hdecl with ⟨d, hd, rfl⟩
        exact hdecls d hd
      refine ⟨.kept 0 name, ?_, rfl, hmem, hresult, fun _ => rfl, ?_, ?_⟩
      · rw [programScope_lookup, if_pos hdecl]
      · intro d hd
        cases hd
        exact Nat.zero_lt_one
      · have hreach : reach [⟨[], t⟩] name = some 0 := reach_of_held hkey
        exact ⟨fun _ => not_false, fun _ => hreach⟩
    · have hname : name ∈ names := by
        rcases List.mem_append.mp hbound with hname | hdecl'
        · exact hname
        · exact absurd hdecl' hdecl
      refine ⟨.outside name, ?_, rfl, hmem, hresult, fun _ => rfl, ?_, ?_⟩
      · rw [programScope_lookup, if_neg hdecl, if_pos hname]
      · intro d hd
        cases hd
      · have hnot : name ∉ Level.identifiers ⟨[], t⟩ := by
          intro hkey
          exact (hkeys name hkey).1 hname
        have hreach : reach [⟨[], t⟩] name = none := by
          rw [reach, if_neg hnot]
          rfl
        exact ⟨fun _ => not_false, fun _ => hreach⟩
  · rw [if_neg hbound] at hlookup
    cases hlookup

theorem Resolved.function
    {frames : List Frame} {scope : Bindings} {levels : List Level} {name target : String}
    {site : Site} {frame : Frame} {params : List Ident} {t : Table}
    (hresolved : Resolved frames scope levels name target site)
    (hparam : name ∉ params.map Ident.name)
    (hkeys : forall x, x ∈ t.identifiers -> x = Table.resultId ∨
      (x ∉ Scope.identifiers frames ∧ isGlobal x = false)) :
    Resolved (frame :: frames) (parameterScope levels.length params ++ scope)
      (⟨params.map Ident.name, t⟩ :: levels) name target site := by
  have hkey : target ∉ t.identifiers := by
    intro hmem
    rcases hkeys target hmem with heq | ⟨hnot, _⟩
    · exact hresolved.ne_resultId heq
    · exact hnot hresolved.mem_frames
  refine ⟨?_, hresolved.id_eq, ?_, hresolved.ne_resultId, hresolved.kept_name, ?_, ?_⟩
  · rw [List.lookup_append, parameterScope_lookup, if_neg hparam, hresolved.lookup_eq]
    rfl
  · rw [Scope.identifiers, List.flatMap_cons]
    exact List.mem_append_right _ hresolved.mem_frames
  · intro d hd
    exact Nat.lt_succ_of_lt (hresolved.inside d hd)
  · by_cases hcapture : target ∈ params.map Ident.name
    · -- Only a synthetic identifier can be spelled like a parameter that the name is not.
      cases site with
      | outside n =>
          exact absurd (hresolved.kept_name (by simp) ▸ hcapture) hparam
      | kept depth n =>
          exact absurd (hresolved.kept_name (by simp) ▸ hcapture) hparam
      | renamed depth n k =>
          have hid : candidate n k = target := hresolved.id_eq
          have hdepth : depth < levels.length := hresolved.inside depth rfl
          have hhere : target ∈ Level.identifiers ⟨params.map Ident.name, t⟩ :=
            List.mem_append_left _ hcapture
          constructor
          · intro hreaches
            unfold Reaches at hreaches
            rw [hresolved.id_eq, reach, if_pos hhere] at hreaches
            injection hreaches with hlength
            exact absurd hlength (Nat.ne_of_gt hdepth)
          · intro hfree
            refine absurd ?_ hfree
            refine ⟨hdepth, Or.inl ?_⟩
            rw [hid]
            exact hcapture
    · have hnot : site.id ∉ Level.identifiers ⟨params.map Ident.name, t⟩ := by
        rw [hresolved.id_eq]
        intro hmem
        rcases List.mem_append.mp hmem with hparam' | hkey'
        · exact hcapture hparam'
        · exact hkey hkey'
      have hnotParam : site.id ∉ params.map Ident.name := by
        rw [hresolved.id_eq]
        exact hcapture
      rw [reaches_cons_iff hnot, captured_cons_iff hnotParam hresolved.inside]
      exact hresolved.reaches_iff

theorem resolved_parameter
    {frames : List Frame} {scope : Bindings} {levels : List Level} {name : String}
    {frame : Frame} {params : List Ident} {t : Table}
    (hframe : Keeps frame (params.map Ident.name))
    (hparam : name ∈ params.map Ident.name) (hresult : name ≠ Table.resultId) :
    Resolved (frame :: frames) (parameterScope levels.length params ++ scope)
      (⟨params.map Ident.name, t⟩ :: levels) name name (.kept levels.length name) := by
  have hhere : name ∈ Level.identifiers ⟨params.map Ident.name, t⟩ :=
    List.mem_append_left _ hparam
  have hlookup : frame.lookup? name = some name := by
    rw [hframe name, if_pos hparam]
  refine ⟨?_, rfl, ?_, hresult, fun _ => rfl, ?_, ?_⟩
  · rw [List.lookup_append, parameterScope_lookup, if_pos hparam]
    rfl
  · rw [Scope.identifiers, List.flatMap_cons]
    exact List.mem_append_left _ (mem_identifiers_of_lookup hlookup)
  · intro d hd
    cases hd
    exact Nat.lt_succ_self _
  · have hreach : reach (⟨params.map Ident.name, t⟩ :: levels) name = some levels.length := by
      rw [reach, if_pos hhere]
    exact ⟨fun _ => not_false, fun _ => hreach⟩

namespace Mirrors

variable {names : List String} {decls : List Decl} {P : String -> Prop}
  {frames : List Frame} {scope : Bindings} {levels : List Level} {name target : String}

theorem resolved_of_lookup
    (hmirrors : Mirrors names decls P frames scope levels)
    (hresult : name ≠ Table.resultId)
    (hlookup : (frames.findSome? fun f => f.lookup? name) = some target) :
    exists site, Resolved frames scope levels name target site := by
  induction hmirrors with
  | @program frame t hframe hdecls hkeys =>
      rw [List.findSome?_cons] at hlookup
      cases hfound : frame.lookup? name with
      | none =>
          rw [hfound] at hlookup
          cases hlookup
      | some found =>
          rw [hfound] at hlookup
          injection hlookup with heq
          rw [heq] at hfound
          exact resolved_program hframe hdecls hkeys hresult hfound
  | @letIn frames scope levels bound k hmirrors hheld ih =>
      rw [List.findSome?_cons, Frame.lookup?, List.lookup_cons] at hlookup
      by_cases heq : name = bound
      · subst heq
        rw [beq_self_eq_true] at hlookup
        injection hlookup with htarget
        subst htarget
        refine ⟨.renamed (innermost levels) name k, ?_, rfl, ?_, ?_, ?_, ?_, ?_⟩
        · exact List.lookup_cons_self
        · simp [Scope.identifiers, Frame.identifiers]
        · exact Scope.candidate_ne_resultId name k
        · intro hkept
          exact absurd rfl (hkept _ _ _)
        · intro d hd
          cases hd
          cases levels with
          | nil =>
              cases hheld
          | cons l outer =>
              exact Nat.lt_succ_self _
        · exact reaches_iff_of_held hheld
      · rw [beq_false_of_ne heq] at hlookup
        rcases ih hlookup with ⟨site, hsite⟩
        refine ⟨site, { hsite with lookup_eq := ?_, mem_frames := ?_ }⟩
        · rw [List.lookup_cons, beq_false_of_ne heq]
          exact hsite.lookup_eq
        · rw [Scope.identifiers, List.flatMap_cons]
          exact List.mem_append_right _ hsite.mem_frames
  | @function frames scope levels frame params t hmirrors hframe hparams hkeys ih =>
      rw [List.findSome?_cons, hframe name] at hlookup
      by_cases hparam : name ∈ params.map Ident.name
      · rw [if_pos hparam] at hlookup
        injection hlookup with htarget
        subst htarget
        exact ⟨_, resolved_parameter hframe hparam hresult⟩
      · rw [if_neg hparam] at hlookup
        rcases ih hlookup with ⟨site, hsite⟩
        exact ⟨site, hsite.function hparam hkeys⟩

/-- The identifier that a name resolves to is looked up at the site that the name denotes, exactly
if no parameter captures it. -/
theorem mentions_of_resolve
    (hmirrors : Mirrors names decls P frames scope levels)
    (hresult : name ≠ Table.resultId)
    (hresolve : Scope.resolve frames name = .ok target) :
    Mentions (fun levels site => Reaches levels site <-> ¬ Captured levels site)
      scope levels name target := by
  unfold Scope.resolve at hresolve
  unfold Mentions denotes
  by_cases hglobal : isGlobal name = true
  · rw [if_pos hglobal] at hresolve
    cases hresolve
    rw [if_pos hglobal]
    refine ⟨.outside name, rfl, rfl, ?_⟩
    exact ⟨fun _ => not_false, fun _ => hmirrors.reach_global hglobal⟩
  · rw [if_neg hglobal] at hresolve
    rw [if_neg hglobal]
    cases hfound : frames.findSome? fun f => f.lookup? name with
    | none =>
        rw [hfound] at hresolve
        cases hresolve
    | some found =>
        rw [hfound] at hresolve
        cases hresolve
        rcases hmirrors.resolved_of_lookup hresult hfound with ⟨site, hsite⟩
        exact ⟨site, hsite.lookup_eq, hsite.id_eq, hsite.reaches_iff⟩

end Mirrors

end Lowering
end DefTable
