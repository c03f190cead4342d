import DefTable.Proofs.Lowering.Alongside
import DefTable.Proofs.Lowering.Hygiene
import DefTable.Proofs.Lowering.Scoping

/-!
# The order of the declarations

Declarations that are lowered in another order share the counter of the synthetic identifiers in
another way, so every temporary and every `let` can get another identifier.  Whether a program is
lowered does not depend on the order, and the tables are equal up to renaming.
-/

namespace DefTable
namespace Lowering

open Scope (isSynthetic)
open Table (Entry)

/-!
## Declarations side by side
-/

theorem emitsDeclarations_of_perm
    {R : List Level -> Site -> Prop} {scope : Bindings} {levels : List Level}
    {ds ds' : List Decl} {out' : List Entry} (hperm : ds.Perm ds')
    (h : EmitsDeclarations R scope levels ds' out') :
    exists out, out.Perm out' ∧ EmitsDeclarations R scope levels ds out := by
  induction hperm generalizing out' with
  | nil => exact ⟨out', .refl _, h⟩
  | cons d _ ih =>
      cases h with
      | @cons _ _ first _ hd hds =>
          rcases ih hds with ⟨out, hout, hemits⟩
          exact ⟨first ++ out, hout.append_left first, .cons hd hemits⟩
  | swap d e ds =>
      cases h with
      | @cons _ _ first _ hd h =>
          cases h with
          | @cons _ _ second rest he hds =>
              refine ⟨second ++ (first ++ rest), ?_, .cons he (.cons hd hds)⟩
              rw [← List.append_assoc, ← List.append_assoc]
              exact List.perm_append_comm.append_right rest
  | trans _ _ ih₁ ih₂ =>
      rcases ih₂ h with ⟨mid, hmid, hemits⟩
      rcases ih₁ hemits with ⟨out, hout, hemits⟩
      exact ⟨out, hout.trans hmid, hemits⟩

theorem Defined.forget
    {p : Places} {id id' : String} {out out' : List Entry} (h : Defined p id id' out out')
    (hid : Paired id id') : Alongside p [] [] out out' where
  paired := h.paired hid
  corresponds _ _ _ _ := .nil
  renamed := h.renamed

theorem alongside_declarations
    {p : Places} {ds : List Decl} {out out' : List Entry}
    (h : EmitsDeclarations Reaches p.scope p.levels ds out)
    (h' : EmitsDeclarations Reaches p.scope' p.levels' ds out') :
    Alongside p [] [] out out' ∧
      forall relabel : Equiv.Perm String, (heads out).map relabel = heads out' ->
        forall d, d ∈ ds -> relabel d.name.name = d.name.name := by
  induction ds generalizing out out' with
  | nil =>
      cases h
      cases h'
      exact ⟨.nil, fun _ _ _ hd => absurd hd List.not_mem_nil⟩
  | cons d ds ih =>
      cases h with
      | cons hd hds =>
          cases h' with
          | cons hd' hds' =>
              have hfirst := (alongsideUses d.body).declaration hd hd'
              have hpaired := hfirst.forget (Or.inl rfl)
              rcases ih hds hds' with ⟨hrest, hkept⟩
              refine ⟨hpaired.append hrest, fun relabel hmap => ?_⟩
              rcases map_heads_append hpaired.paired.length_eq hmap with ⟨hmap₁, hmap₂⟩
              exact List.forall_mem_cons.mpr ⟨hfirst.own relabel hmap₁, hkept relabel hmap₂⟩

theorem scopesAgree_program
    {names : List String} {ds ds' : List Decl} {l : Layer} (hperm : ds.Perm ds')
    (hkept : forall d, d ∈ ds -> l.relabel d.name.name = d.name.name) :
    ScopesAgree [l] (programScope names ds) (programScope names ds') := by
  intro x
  have hmem : x ∈ ds'.map (fun d => d.name.name) <-> x ∈ ds.map fun d => d.name.name :=
    (hperm.map _).mem_iff.symm
  rw [programScope_lookup, programScope_lookup, if_congr hmem rfl rfl]
  by_cases hdecl : x ∈ ds.map fun d => d.name.name
  · rw [if_pos hdecl]
    rcases List.mem_map.mp hdecl with ⟨d, hd, rfl⟩
    exact .some ⟨rfl, l, layerAt_length l [], hkept d hd⟩
  · rw [if_neg hdecl]
    by_cases hname : x ∈ names
    · rw [if_pos hname]
      exact .some ⟨rfl, rfl⟩
    · rw [if_neg hname]
      exact .none

theorem Lowered.renamed
    {names : List String} {ds ds' : List Decl} {t t' : Table} (hperm : ds.Perm ds')
    (h : Lowered Reaches names ds t) (h' : Lowered Reaches names ds' t') :
    RenamedTable t t' := by
  rcases h with ⟨out, hnodup, rfl, hemits⟩
  rcases h' with ⟨sorted, hnodup', rfl, hemits'⟩
  rcases emitsDeclarations_of_perm hperm hemits' with ⟨out', hout', hemits'⟩
  have ht' := (Table.collect_perm hnodup').trans hout'.symm
  rcases alongside_declarations (p := ⟨_, _, _, _⟩) hemits hemits' with ⟨halongside, hkept⟩
  refine renamed_func (Table.collect_perm hnodup) ht' hnodup ((hout'.map _).nodup_iff.mpr hnodup')
    halongside.paired ?_
  intro relabel _ hmap
  refine halongside.renamed _ _ ⟨rfl, rfl, ?_⟩ hmap
  exact scopesAgree_program hperm (hkept relabel hmap)

/-!
## Whether a program is lowered
-/

theorem WellScoped.mono
    {bound bound' : List String} {e : Expr} (h : WellScoped bound e) (hsub : bound ⊆ bound') :
    WellScoped bound' e := by
  have hbound : forall {bound bound' : List String} {i : Ident},
      bound ⊆ bound' -> Bound bound i -> Bound bound' i := fun hsub => Or.imp_right (@hsub _)
  have hinside : forall {params bound bound' : List String},
      bound ⊆ bound' -> params ++ bound ⊆ params ++ bound' := fun hsub =>
    List.append_subset.mpr
      ⟨List.subset_append_left _ _, List.subset_append_of_subset_right _ hsub⟩
  induction h generalizing bound' with
  | ident hi => exact .ident (hbound hsub hi)
  | number => exact .number
  | string => exact .string
  | bool => exact .bool
  | null => exact .null
  | group _ ih => exact .group (ih hsub)
  | letIn hparams _ _ ihvalue ihbody =>
      refine .letIn hparams (ihvalue (hinside ?_)) (ihbody ?_)
      · exact List.cons_subset_cons _ hsub
      · exact List.cons_subset_cons _ hsub
  | application _ _ ihleft ihright => exact .application (ihleft hsub) (ihright hsub)
  | operation hop _ _ ihleft ihright =>
      exact .operation (hbound hsub hop) (ihleft hsub) (ihright hsub)
  | list _ ih => exact .list fun e he => ih e he hsub
  | cond _ _ _ ihtest ihyes ihno => exact .cond (ihtest hsub) (ihyes hsub) (ihno hsub)
  | lambda hparams _ ih => exact .lambda hparams (ih (hinside hsub))

theorem WellScopedProgram.of_perm
    {names : List String} {p p' : Program} (hperm : p.decls.Perm p'.decls)
    (h : WellScopedProgram names p) : WellScopedProgram names p' := by
  have hdeclared : (declared p).Perm (declared p') := hperm.map _
  refine ⟨hdeclared.nodup_iff.mp h.nodup, ?_, ?_, ?_⟩
  · exact fun x hx => h.new x (hdeclared.mem_iff.mpr hx)
  · exact fun d hd => h.params d (hperm.mem_iff.mpr hd)
  · intro d hd
    refine (h.bodies d (hperm.mem_iff.mpr hd)).mono ?_
    exact ((hdeclared.append_right names).append_left _).subset

theorem wellScoped_of_lower
    {p : Program} {extra : List String} {t : Table} (h : p.lower extra = .ok t) :
    WellScopedProgram (Builtin.names ++ extra) p := by
  rw [← programViolations_eq_nil_iff]
  cases hviolations : programViolations (Builtin.names ++ extra) p with
  | nil => rfl
  | cons v rest =>
      have hfails := (lower_reports p extra).fails v (by rw [hviolations]; rfl)
      rw [h] at hfails
      cases hfails

theorem lowers_of_perm
    {p p' : Program} {extra : List String} (hperm : p.decls.Perm p'.decls)
    (h : exists t, p.lower extra = .ok t) : exists t, p'.lower extra = .ok t := by
  rcases h with ⟨t, ht⟩
  have hscoped := (wellScoped_of_lower ht).of_perm hperm
  rw [← programViolations_eq_nil_iff] at hscoped
  exact ((lower_reports p' extra).passes hscoped).imp fun _ h => h.1

/-!
## The order of declarations does not matter
-/

/-- Programs with the same declarations, in any order, are both lowered or both not, and the tables
are equal up to a renaming of synthetic identifiers. -/
theorem lower_perm
    {path : String} {source : Text} {p p' : Program} {extra : List String}
    (hparse : (parseSource path source).program = some p) (hparams : p.Named ordinaryParameters)
    (hperm : p.decls.Perm p'.decls) :
    ((exists t, p.lower extra = .ok t) <-> exists t, p'.lower extra = .ok t) ∧
      forall t t', p.lower extra = .ok t -> p'.lower extra = .ok t' -> RenamedTable t t' := by
  have hnamed := named_of_ordinaryParameters hparse hparams
  have hnamed' : p'.Named (plainNames fun q => isSynthetic q = false) :=
    fun d hd => hnamed d (hperm.mem_iff.mpr hd)
  refine ⟨⟨lowers_of_perm hperm, lowers_of_perm hperm.symm⟩, ?_⟩
  intro t t' ht ht'
  exact (lowered_of_lower condition_reaches hnamed ht).renamed hperm
    (lowered_of_lower condition_reaches hnamed' ht')

/-!
## A program in two orders
-/

def exchangedSource : Text :=
  "x = let a = 1 in \\q -> let a = q in a; y = let a = 2 in a;"

def exchangedProgram : Program :=
  let one : Number := ⟨0x3FF0000000000000⟩
  let two : Number := ⟨0x4000000000000000⟩
  let name (s : String) (column : Nat) : Ident := ⟨.synthetic .name s ⟨1, column⟩, s⟩
  let number (v : Number) (s : String) (column : Nat) : Expr :=
    .number (.synthetic (.number v) s ⟨1, column⟩) v
  ⟨"", [
    ⟨name "x" 1, [],
      .letIn (.synthetic .keyLet "let" ⟨1, 5⟩) (name "a" 9) [] (number one "1" 13)
        (.lambda (.synthetic .backslash "\\" ⟨1, 18⟩) [name "q" 19]
          (.letIn (.synthetic .keyLet "let" ⟨1, 24⟩) (name "a" 28) [] (.ident (name "q" 32))
            (.ident (name "a" 37))))⟩,
    ⟨name "y" 40, [],
      .letIn (.synthetic .keyLet "let" ⟨1, 44⟩) (name "a" 48) [] (number two "2" 52)
        (.ident (name "a" 57))⟩]⟩

def exchangedTable : Table :=
  [("_0a", .number ⟨0x3FF0000000000000⟩), ("_1a", .number ⟨0x4000000000000000⟩),
   ("x", .func ["q"] [("=", .call "_1a" []), ("_1a", .call "q" [])]),
   ("y", .call "_1a" [])]

def exchangedTable' : Table :=
  [("_0a", .number ⟨0x4000000000000000⟩), ("_1a", .number ⟨0x3FF0000000000000⟩),
   ("x", .func ["q"] [("=", .call "_0a" []), ("_0a", .call "q" [])]),
   ("y", .call "_0a" [])]

theorem exchanged_parse : (parseSource "" exchangedSource).program = some exchangedProgram := by
  decide +kernel

theorem exchanged_lower : exchangedProgram.lower [] = .ok exchangedTable := by
  decide +kernel

theorem exchanged_lower_reverse :
    (⟨"", exchangedProgram.decls.reverse⟩ : Program).lower [] = .ok exchangedTable' := by
  decide +kernel

theorem exchanged_named : exchangedProgram.Named ordinaryParameters := by
  intro d hd
  rcases List.mem_cons.mp hd with rfl | hd
  · refine ⟨trivial, ?_, trivial, ?_, trivial, ?_, trivial, ?_, trivial, trivial⟩
    · exact fun q hq => absurd hq List.not_mem_nil
    · exact fun q hq => absurd hq List.not_mem_nil
    · intro q hq
      rcases List.mem_singleton.mp hq with rfl
      show isSynthetic "q" = false
      decide
    · exact fun q hq => absurd hq List.not_mem_nil
  · rcases List.mem_singleton.mp hd with rfl
    refine ⟨trivial, ?_, trivial, ?_, trivial, trivial⟩
    · exact fun q hq => absurd hq List.not_mem_nil
    · exact fun q hq => absurd hq List.not_mem_nil

theorem lower_perm_exchanged : RenamedTable exchangedTable exchangedTable' :=
  (lower_perm exchanged_parse exchanged_named (List.reverse_perm _).symm).2 _ _ exchanged_lower
    exchanged_lower_reverse

end Lowering
end DefTable
