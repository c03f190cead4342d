import DefTable.Proofs.Lowering.Hygiene

/-!
# Rules for the identifiers of compiled tables

The identifiers of a table are names of its source, parameters among them, the identifier of a
result, and synthetic ones, which show a name or none.  So a rule that the names obey is obeyed by
all identifiers if synthetic ones inherit it from the names that they show.
-/

namespace DefTable

open Scope (candidate)

/-- What is asked of the identifiers that entries stand under, of those that definitions mention,
and of those that guard a case. -/
structure IdentifierRules where
  key : String -> Prop
  mention : String -> Prop
  guard : String -> Prop

namespace IdentifierRules

def names (r : IdentifierRules) : NameRules where
  declared := r.key
  parameter := r.mention
  reference := r.mention
  operator := r.mention

/-- Names that obey the rules make identifiers that obey them. -/
structure Inherited (r : IdentifierRules) : Prop where
  mention : forall id, r.key id -> r.mention id
  result : r.key Table.resultId
  fresh : forall k, r.key (candidate "" k)
  shown : forall hint, r.mention hint -> forall k, r.key (candidate hint k)
  guard : forall k, r.guard (candidate "" k)

theorem Inherited.suits_names
    {r : IdentifierRules} (hr : r.Inherited)
    (hname : forall s, Token.Kind.name.Spells s -> r.key s)
    (hoperator : forall s, Token.Kind.operator.Spells s -> r.mention s)
    (hquoted : forall s spelling, (Token.Kind.quotedName s).Spells spelling -> r.mention s) :
    Grammar.Suits Token.Spelled r.names where
  declared t i hspelled hdeclarable := by
    rcases hdeclarable with ⟨hkind, _, rfl⟩
    rw [Token.Spelled, hkind] at hspelled
    exact hname _ hspelled
  parameter t i hspelled hdeclarable := by
    rcases hdeclarable with ⟨hkind, _, rfl⟩
    rw [Token.Spelled, hkind] at hspelled
    exact hr.mention _ (hname _ hspelled)
  reference t hspelled hkind := by
    rw [Token.Spelled] at hspelled
    rcases hkind with hkind | hkind
    · rw [hkind] at hspelled
      exact hr.mention _ (hname _ hspelled)
    · rw [hkind] at hspelled
      exact hoperator _ hspelled
  operator t op hspelled hop := by
    rw [Token.Spelled] at hspelled
    unfold Parse.operatorOf? at hop
    split at hop
    · rename_i hkind
      cases hop
      rw [hkind] at hspelled
      exact hoperator _ hspelled
    · rename_i name hkind
      cases hop
      rw [hkind] at hspelled
      exact hquoted _ _ hspelled
    · cases hop

end IdentifierRules

/-!
## Identifiers of tables
-/

namespace Def

mutual

def Obeys (r : IdentifierRules) : Def -> Prop
  | .list items => forall i, i ∈ items -> r.mention i
  | .call target args => r.mention target ∧ forall a, a ∈ args -> r.mention a
  | .func params body => (forall q, q ∈ params -> r.mention q) ∧ AllObey r body
  | .switch cases =>
      forall c, c ∈ cases -> (forall g, c.guard = some g -> r.guard g) ∧ r.mention c.value
  | _ => True

def AllObey (r : IdentifierRules) : List (String × Def) -> Prop
  | [] => True
  | (id, d) :: rest => r.key id ∧ Obeys r d ∧ AllObey r rest

end

theorem allObey_iff {r : IdentifierRules} {t : Table} :
    AllObey r t <-> forall entry, entry ∈ t -> r.key entry.1 ∧ entry.2.Obeys r := by
  induction t with
  | nil => simp [AllObey]
  | cons entry rest ih =>
      rcases entry with ⟨id, d⟩
      rw [AllObey, ih, List.forall_mem_cons, and_assoc]

end Def

/-!
## Identifiers of entries
-/

namespace Lowering

variable {r : IdentifierRules}

def ScopeObeys (r : IdentifierRules) (scope : Bindings) : Prop :=
  forall b, b ∈ scope -> r.mention b.1 -> r.mention b.2.id

theorem scopeObeys_cons_renamed
    (hr : r.Inherited) {scope : Bindings} (h : ScopeObeys r scope) (depth : Nat) (name : String)
    (k : Nat) : ScopeObeys r ((name, .renamed depth name k) :: scope) :=
  List.forall_mem_cons.mpr ⟨fun hname => hr.mention _ (hr.shown name hname k), h⟩

theorem scopeObeys_parameters
    {scope : Bindings} (h : ScopeObeys r scope) (depth : Nat) (params : List Ident) :
    ScopeObeys r (parameterScope depth params ++ scope) := by
  refine List.forall_mem_append.mpr ⟨fun b hb => ?_, h⟩
  rcases List.mem_map.mp hb with ⟨q, _, rfl⟩
  exact fun hname => hname

theorem scopeObeys_program (names : List String) (decls : List Decl) :
    ScopeObeys r (programScope names decls) := by
  refine List.forall_mem_append.mpr ⟨fun b hb => ?_, fun b hb => ?_⟩
  · rcases List.mem_map.mp hb with ⟨d, _, rfl⟩
    exact fun hname => hname
  · rcases List.mem_map.mp hb with ⟨n, _, rfl⟩
    exact fun hname => hname

theorem obeys_of_mentions
    {R : List Level -> Site -> Prop} {scope : Bindings} {levels : List Level} {name id : String}
    (hscope : ScopeObeys r scope) (hname : r.mention name)
    (h : Mentions R scope levels name id) : r.mention id := by
  rcases h with ⟨site, hdenotes, rfl, _⟩
  unfold denotes at hdenotes
  split at hdenotes
  · cases hdenotes
    exact hname
  · rcases List.lookup_eq_some_iff.mp hdenotes with ⟨before, after, hsplit, _⟩
    exact hscope (name, site) (by rw [hsplit]; simp) hname

def EntriesObey (r : IdentifierRules) (out : List Table.Entry) : Prop :=
  forall entry, entry ∈ out -> r.key entry.1 ∧ entry.2.Obeys r

theorem entriesObey_append {out out' : List Table.Entry} :
    EntriesObey r (out ++ out') <-> EntriesObey r out ∧ EntriesObey r out' :=
  List.forall_mem_append

theorem entriesObey_single {id : String} {d : Def} (hid : r.key id) (hd : d.Obeys r) :
    EntriesObey r [(id, d)] :=
  List.forall_mem_singleton.mpr ⟨hid, hd⟩

section

variable {R : List Level -> Site -> Prop}

mutual

theorem obeys_of_emits
    (hr : r.Inherited) {scope : Bindings} {levels : List Level} {e : Expr} {id : String}
    {out : List Table.Entry} :
    Emits R scope levels e id out -> ScopeObeys r scope -> e.Named r.names -> r.key id ->
      EntriesObey r out
  | .group he, hscope, hn, hid => obeys_of_emits hr he hscope hn hid
  | .ident hmention, hscope, hn, hid =>
      entriesObey_single hid
        ⟨obeys_of_mentions hscope hn hmention, fun _ ha => absurd ha List.not_mem_nil⟩
  | .number, _, _, hid => entriesObey_single hid trivial
  | .string, _, _, hid => entriesObey_single hid trivial
  | .bool, _, _, hid => entriesObey_single hid trivial
  | .null, _, _, hid => entriesObey_single hid trivial
  | .matrix _, _, _, hid => entriesObey_single hid trivial
  | .letIn hvalue hbody, hscope, hn, hid => by
      rcases hn with ⟨hname, hparams, hvalueNamed, hbodyNamed⟩
      have hinner := scopeObeys_cons_renamed hr hscope
      refine entriesObey_append.mpr ⟨?_, ?_⟩
      · exact obeys_of_emitsDeclaration hr hvalue (hinner _ _ _) hparams hvalueNamed
          (hr.shown _ (hr.mention _ hname) _)
      · exact obeys_of_emits hr hbody (hinner _ _ _) hbodyNamed hid
  | .application hcall, hscope, hn, hid => by
      have hparts := obeys_of_emitsCall hr hcall hscope hn
      exact entriesObey_append.mpr ⟨hparts.2, entriesObey_single hid hparts.1⟩
  | .operation hmention hleft hright, hscope, hn, hid => by
      have hl := obeys_of_emitsOperand hr hleft hscope hn.1
      have hr := obeys_of_emitsOperand hr hright hscope hn.2.2
      have htarget := obeys_of_mentions hscope hn.2.1 hmention
      refine entriesObey_append.mpr
        ⟨entriesObey_append.mpr ⟨hl.2, hr.2⟩, entriesObey_single hid ⟨htarget, ?_⟩⟩
      exact List.forall_mem_cons.mpr ⟨hl.1, List.forall_mem_singleton.mpr hr.1⟩
  | .list _ hes, hscope, hn, hid => by
      have hparts := obeys_of_emitsOperands hr hes hscope hn
      exact entriesObey_append.mpr ⟨hparts.2, entriesObey_single hid hparts.1⟩
  | .cond _ _ _ htest hyes hno, hscope, hn, hid => by
      have hvalue := fun k => hr.mention _ (hr.fresh k)
      refine entriesObey_append.mpr
        ⟨entriesObey_append.mpr ⟨entriesObey_append.mpr ⟨?_, ?_⟩, ?_⟩,
          entriesObey_single hid ?_⟩
      · exact obeys_of_emits hr htest hscope hn.1 (hr.fresh _)
      · exact obeys_of_emits hr hyes hscope hn.2.1 (hr.fresh _)
      · exact obeys_of_emits hr hno hscope hn.2.2 (hr.fresh _)
      · refine List.forall_mem_cons.mpr
          ⟨⟨?_, hvalue _⟩, List.forall_mem_singleton.mpr ⟨nofun, hvalue _⟩⟩
        rintro g ⟨⟩
        exact hr.guard _
  | .lambda hfunction, hscope, hn, hid =>
      entriesObey_single hid (obeys_of_emitsFunction hr hfunction hscope hn.1 hn.2)

theorem obeys_of_emitsOperand
    (hr : r.Inherited) {scope : Bindings} {levels : List Level} {e : Expr} {id : String}
    {out : List Table.Entry} :
    EmitsOperand R scope levels e id out -> ScopeObeys r scope -> e.Named r.names ->
      r.mention id ∧ EntriesObey r out
  | .name hmention, hscope, hn =>
      ⟨obeys_of_mentions hscope hn hmention, fun _ hentry => absurd hentry List.not_mem_nil⟩
  | .other _ _ he, hscope, hn =>
      ⟨hr.mention _ (hr.fresh _), obeys_of_emits hr he hscope hn (hr.fresh _)⟩

theorem obeys_of_emitsCall
    (hr : r.Inherited) {scope : Bindings} {levels : List Level} {e : Expr} {target : String}
    {args : List String} {out : List Table.Entry} :
    EmitsCall R scope levels e target args out -> ScopeObeys r scope -> e.Named r.names ->
      (Def.call target args).Obeys r ∧ EntriesObey r out
  | .target _ he, hscope, hn => by
      have hparts := obeys_of_emitsOperand hr he hscope hn
      exact ⟨⟨hparts.1, fun _ ha => absurd ha List.not_mem_nil⟩, hparts.2⟩
  | .argument hleft hright, hscope, hn => by
      have hl := obeys_of_emitsCall hr hleft hscope hn.1
      have hr := obeys_of_emitsOperand hr hright hscope hn.2.2
      refine ⟨⟨hl.1.1, ?_⟩, entriesObey_append.mpr ⟨hl.2, hr.2⟩⟩
      exact List.forall_mem_append.mpr ⟨hl.1.2, List.forall_mem_singleton.mpr hr.1⟩

theorem obeys_of_emitsOperands
    (hr : r.Inherited) {scope : Bindings} {levels : List Level} {es : List Expr} {ids : List String}
    {out : List Table.Entry} :
    EmitsOperands R scope levels es ids out -> ScopeObeys r scope ->
      Expr.AllNamed r.names es -> (Def.list ids).Obeys r ∧ EntriesObey r out
  | .nil, _, _ =>
      ⟨fun _ hi => absurd hi List.not_mem_nil, fun _ hentry => absurd hentry List.not_mem_nil⟩
  | .cons he hes, hscope, hn => by
      have hfirst := obeys_of_emitsOperand hr he hscope hn.1
      have hrest := obeys_of_emitsOperands hr hes hscope hn.2
      exact ⟨List.forall_mem_cons.mpr ⟨hfirst.1, hrest.1⟩,
        entriesObey_append.mpr ⟨hfirst.2, hrest.2⟩⟩

theorem obeys_of_emitsFunction
    (hr : r.Inherited) {scope : Bindings} {levels : List Level} {params : List Ident} {body : Expr}
    {d : Def} :
    EmitsFunction R scope levels params body d -> ScopeObeys r scope ->
      (forall q, q ∈ params -> r.mention q.name) -> body.Named r.names -> d.Obeys r
  | .intro _ hbody, hscope, hparams, hn => by
      have hinner := scopeObeys_parameters hscope levels.length params
      refine ⟨?_, Def.allObey_iff.mpr fun entry hentry => ?_⟩
      · intro q hq
        rcases List.mem_map.mp hq with ⟨i, hi, rfl⟩
        exact hparams i hi
      · exact obeys_of_emits hr hbody hinner hn hr.result entry (Table.mem_of_mem_collect hentry)

theorem obeys_of_emitsDeclaration
    (hr : r.Inherited) {scope : Bindings} {levels : List Level} {params : List Ident} {body : Expr}
    {id : String} {out : List Table.Entry} :
    EmitsDeclaration R scope levels params body id out -> ScopeObeys r scope ->
      (forall q, q ∈ params -> r.mention q.name) -> body.Named r.names -> r.key id ->
      EntriesObey r out
  | .constant hbody, hscope, _, hn, hid => obeys_of_emits hr hbody hscope hn hid
  | .function _ hfunction, hscope, hparams, hn, hid =>
      entriesObey_single hid (obeys_of_emitsFunction hr hfunction hscope hparams hn)

end

theorem obeys_of_emitsDeclarations
    (hr : r.Inherited) {scope : Bindings} {levels : List Level} {ds : List Decl}
    {out : List Table.Entry} (h : EmitsDeclarations R scope levels ds out)
    (hscope : ScopeObeys r scope) (hn : forall d, d ∈ ds -> d.Named r.names) : EntriesObey r out := by
  induction h with
  | nil => exact fun _ hentry => absurd hentry List.not_mem_nil
  | cons hd _ ih =>
      rw [List.forall_mem_cons] at hn
      rcases hn.1 with ⟨hname, hparams, hbody⟩
      exact entriesObey_append.mpr
        ⟨obeys_of_emitsDeclaration hr hd hscope hparams hbody hname, ih hn.2⟩

end

/-- Whatever names are known besides the builtins, a source can only spell those that obey the
rules. -/
theorem obeys_of_lower
    (hr : r.Inherited) (hsuits : Grammar.Suits Token.Spelled r.names) {path : String}
    {source : Text} {extra : List String} {p : Program} {t : Table}
    (hparse : (parseSource path source).program = some p) (hlower : p.lower extra = .ok t) :
    Def.AllObey r t := by
  have hlowered : Lowered (fun _ _ => True) (Builtin.names ++ extra) p.decls t :=
    lowered_of_lower ⟨fun _ _ _ _ => trivial⟩ (named_of_parse hparse) hlower
  rcases hlowered with ⟨out, _, htable, hemits⟩
  have hentries := obeys_of_emitsDeclarations hr hemits (scopeObeys_program _ _)
    (named_of_suits hsuits hparse)
  rw [htable, Def.allObey_iff]
  exact fun entry hentry => hentries entry (Table.mem_of_mem_collect hentry)

end Lowering
end DefTable
