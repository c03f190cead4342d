import DefTable.Proofs.Lowering.Builder
import DefTable.Proofs.Lowering.Comparison

/-!
# No definition is lost

A definition put under an identifier that has one already would replace it without a word.  So the
lowering is run under an audit: for each table it books the names the table is for and every
identifier issued in its namespace.  It fails where a definition is about to be replaced, and where
a finished table, of the program or of a function at any depth, does not have exactly the booked
identifiers, each of them once.  The audited lowering never fails for a reason of its own.
-/

namespace DefTable
namespace Lowering

/-!
## The audited lowering
-/

/-- A table under construction with its account. -/
structure Audit where
  builder : Builder
  own : List String
  /-- The identifiers that were issued in its namespace, the last one first. -/
  issued : List String

inductive Failure where
  | source (e : Error)
  | replaced (id : String)
  | unbalanced (account : Audit)

abbrev Audited (α : Type) := StateT Audit (Except Failure) α

namespace Audit

def identifiers (a : Audit) : List String :=
  a.builder.table.identifiers

def Balanced (a : Audit) : Prop :=
  a.identifiers.Perm (a.own ++ a.issued) ∧ (a.own ++ a.issued).Nodup

instance (a : Audit) : Decidable a.Balanced :=
  inferInstanceAs (Decidable (_ ∧ _))

def close (a : Audit) : Except Failure Table :=
  if a.Balanced then .ok a.builder.table else .error (.unbalanced a)

end Audit

def observed {α : Type} (x : Build α) : Audited α := do
  let a ← get
  let (r, b) ← liftM ((x.run a.builder).mapError Failure.source)
  set { a with builder := b }
  return r

def book (id : String) : Audited Unit :=
  modify fun a => { a with issued := id :: a.issued }

def Steps.audited : Steps Audited where
  define id d := do
    if id ∈ (← get).identifiers then
      throw (.replaced id)
    observed (Lowering.define id d)
  fresh frames := do
    let id ← observed (Lowering.fresh frames)
    book id
    return id
  resolve frames i := observed (Lowering.resolve frames i)
  declareLet frames i := do
    let (id, inner) ← observed (Lowering.declareLet frames i)
    book id
    return (id, inner)
  function frames params body := do
    let (frame, space) ←
      liftM ((declareAll frames (.empty .owning, .empty) params).mapError Failure.source)
    let (_, a) ← liftM ((body (frame :: frames)).run ⟨⟨space, []⟩, [Table.resultId], []⟩)
    let table ← liftM a.close
    return .func (params.map Ident.name) table
  missing := throw (.source .hole)

end Lowering

/-- Lower a program under the audit. -/
def Program.lowerAudited (p : Program) (extra : List String) : Except Lowering.Failure Table := do
  let (frame, space) ←
    (Lowering.declareAll [] (Scope.root (Builtin.names ++ extra)) (p.decls.map Decl.name)).mapError
      Lowering.Failure.source
  let (_, a) ← (Lowering.Steps.audited.declarations [frame] p.decls).run
    ⟨⟨space, []⟩, p.decls.map fun d => d.name.name, []⟩
  a.close

namespace Lowering

open Scope (Frame Taken)

example :
    (do Steps.audited.define "x" .null; Steps.audited.define "x" (.bool true) : Audited Unit).run
        ⟨⟨.empty, []⟩, ["x"], []⟩ =
      .error (.replaced "x") :=
  rfl

/-!
## The account

While identifiers are reserved for definitions still to come, these are what the table lacks.
-/

structure Accounts (pending : List String) (a : Audit) : Prop where
  settled : (a.identifiers ++ pending).Perm (a.own ++ a.issued)
  nodup : (a.own ++ a.issued).Nodup
  taken : forall id, id ∈ a.own ++ a.issued -> Scope.isSynthetic id = true ->
    id ∈ a.builder.space.names

def audit : Comparison Builder Error Audit Failure where
  strict := True
  failure := .source
  scopes := Eq
  states pending b a := a.builder = b ∧ Accounts pending a
  states_perm := by
    intro pending pending' b a hperm hstates
    rcases hstates with ⟨hbuilder, haccounts⟩
    constructor
    · exact hbuilder
    · exact { haccounts with
        settled := (hperm.symm.append_left a.identifiers).trans haccounts.settled }

namespace Accounts

variable {pending : List String} {a : Audit} {id : String}

theorem not_mem_identifiers (h : Accounts (id :: pending) a) : id ∉ a.identifiers := by
  intro hmem
  have hnodup : (a.identifiers ++ id :: pending).Nodup := h.settled.nodup_iff.mpr h.nodup
  exact (List.nodup_append.mp hnodup).2.2 id hmem id List.mem_cons_self rfl

theorem define (h : Accounts (id :: pending) a) (d : Def) :
    Accounts pending
      { a with builder := { a.builder with table := a.builder.table.insert id d } } where
  settled := by
    have hinsert := Table.identifiers_insert_perm h.not_mem_identifiers d
    have hmiddle : (id :: a.identifiers ++ pending).Perm (a.identifiers ++ id :: pending) :=
      List.perm_middle.symm
    exact ((hinsert.append_right pending).trans hmiddle).trans h.settled
  nodup := h.nodup
  taken := h.taken

theorem issue
    {b : Builder} {visible : List String} {hint : String} (h : Accounts pending a)
    (htaken : Taken a.builder.space visible hint id b.space)
    (htable : b.table = a.builder.table) :
    Accounts (id :: pending) ⟨b, a.own, id :: a.issued⟩ where
  settled := by
    have hpending : (a.identifiers ++ id :: pending).Perm (id :: (a.own ++ a.issued)) :=
      List.perm_middle.trans (h.settled.cons id)
    unfold Audit.identifiers at hpending ⊢
    dsimp only
    rw [htable]
    exact hpending.trans List.perm_middle.symm
  nodup := by
    have hnew : id ∉ a.own ++ a.issued := by
      intro hmem
      rcases htaken.synthetic with ⟨k, hk⟩
      have hsynthetic := Scope.candidate_isSynthetic hint k
      rw [← hk] at hsynthetic
      exact htaken.not_mem_names (h.taken id hmem hsynthetic)
    have hcons : (id :: (a.own ++ a.issued)).Nodup := List.nodup_cons.mpr ⟨hnew, h.nodup⟩
    exact List.perm_middle.nodup_iff.mpr hcons
  taken x hx hsynthetic := by
    dsimp only at hx ⊢
    rw [htaken.names_eq]
    rcases List.mem_cons.mp (List.perm_middle.mem_iff.mp hx) with heq | hold
    · rw [heq]
      exact List.mem_cons_self
    · exact List.mem_cons_of_mem id (h.taken x hold hsynthetic)

theorem close (h : Accounts [] a) : a.close = .ok a.builder.table := by
  have hbalanced : a.Balanced := by
    constructor
    · have hsettled := h.settled
      rwa [List.append_nil] at hsettled
    · exact h.nodup
  exact if_pos hbalanced

end Accounts

/-!
## The steps
-/

theorem run_observed {α : Type} (x : Build α) (a : Audit) :
    (observed x).run a =
      match x.run a.builder with
      | .ok (r, b) => .ok (r, { a with builder := b })
      | .error e => .error (.source e) := by
  unfold observed
  cases hrun : x.run a.builder with
  | ok made =>
      simp only [StateT.run_bind, StateT.run_get, pure_bind, hrun]
      rfl
  | error e =>
      simp only [StateT.run_bind, StateT.run_get, pure_bind, hrun]
      rfl

theorem define_audit (id : String) (d : Def) :
    audit.Alike [id] Eq (fun _ => []) (define id d) (Steps.audited.define id d) := by
  intro pending b a hstates
  rcases hstates with ⟨rfl, haccounts⟩
  have hrun : (Steps.audited.define id d).run a =
      .ok ((), { a with builder := { a.builder with table := a.builder.table.insert id d } }) := by
    simp only [Steps.audited, StateT.run_bind, StateT.run_get, pure_bind]
    rw [if_neg haccounts.not_mem_identifiers]
    rfl
  exact ⟨_, hrun, rfl, rfl, haccounts.define d⟩

theorem resolve_audit (frames : List Frame) (i : Ident) :
    audit.Alike [] Eq (fun _ => []) (resolve frames i) (Steps.audited.resolve frames i) := by
  intro pending b a hstates
  rcases hstates with ⟨rfl, haccounts⟩
  show Accords _ _ _ _ ((observed (resolve frames i)).run a)
  rw [run_observed]
  unfold resolve
  cases Scope.resolve frames i.name with
  | ok id => exact ⟨_, rfl, rfl, rfl, haccounts⟩
  | error e => exact fun _ => rfl

theorem fresh_audit (frames : List Frame) :
    audit.Alike [] Eq (fun id => [id]) (fresh frames) (Steps.audited.fresh frames) := by
  intro pending b a hstates
  rcases hstates with ⟨rfl, haccounts⟩
  have htaken := Scope.taken_fresh a.builder.space (Scope.identifiers frames) ""
  exact ⟨_, rfl, rfl, rfl, haccounts.issue htaken rfl⟩

theorem declareLet_audit (frames : List Frame) (i : Ident) :
    audit.Alike [] (fun r r' => r.1 = r'.1 ∧ r.2 = r'.2) (fun r => [r.1]) (declareLet frames i)
      (Steps.audited.declareLet frames i) := by
  intro pending b a hstates
  rcases hstates with ⟨rfl, haccounts⟩
  have htaken := Scope.taken_fresh a.builder.space (Scope.identifiers frames) i.name
  exact ⟨_, rfl, ⟨rfl, rfl⟩, rfl, haccounts.issue htaken rfl⟩

theorem Accords.iff_eq_mapError
    {ε ε' α : Type} {failure : ε -> ε'} {x : Except ε α} {y : Except ε' α} :
    Accords True failure Eq x y <-> y = x.mapError failure := by
  cases x with
  | error e => exact ⟨fun h => h trivial, fun h _ => h⟩
  | ok a =>
      constructor
      · intro h
        rcases h with ⟨b, hy, heq⟩
        rw [hy, heq]
        rfl
      · exact fun h => ⟨a, h, rfl⟩

theorem accounts_function (space : Scope.Namespace) :
    Accounts [Table.resultId] ⟨⟨space, []⟩, [Table.resultId], []⟩ where
  settled := List.Perm.refl [Table.resultId]
  nodup := List.nodup_singleton Table.resultId
  taken id hid hsynthetic := by
    rw [List.mem_singleton.mp hid] at hsynthetic
    exact absurd hsynthetic (by decide)

theorem accounts_program
    {frame frame' : Frame} {space space' : Scope.Namespace} {names : List String}
    (h : Declared frame space names frame' space') : Accounts names ⟨⟨space', []⟩, names, []⟩ where
  settled := by
    rw [List.append_nil]
    exact List.Perm.refl names
  nodup := by
    rw [List.append_nil]
    exact h.nodup
  taken id hid _ := by
    rw [List.append_nil] at hid
    rw [h.names_eq]
    exact List.mem_append_left _ (List.mem_reverse.mpr hid)

theorem function_audit
    (frames : List Frame) (params : List Ident) {body : List Frame -> Build Unit}
    {body' : List Frame -> Audited Unit}
    (hbody : forall inner,
      audit.Alike [Table.resultId] Eq (fun _ => []) (body inner) (body' inner)) :
    audit.Alike [] Eq (fun _ => []) (function frames params body)
      (Steps.audited.function frames params body') := by
  unfold function
  apply Comparison.Alike.bind (.lift (Accords.iff_eq_mapError.mpr rfl))
  intro state state' heq
  subst heq
  rcases state with ⟨frame, space⟩
  have hrun := hbody (frame :: frames) [] ⟨space, []⟩ _ ⟨rfl, accounts_function space⟩
  apply Comparison.Alike.bind (.lift hrun)
  intro made made' hmade
  rcases made with ⟨_, b⟩
  rcases made' with ⟨_, a⟩
  rcases hmade with ⟨_, hbuilder, haccounts⟩
  dsimp only at hbuilder haccounts ⊢
  subst hbuilder
  rw [Accounts.close haccounts]
  exact .pure rfl

theorem respects_audit : audit.Respects Steps.builder Steps.audited where
  define := define_audit
  fresh frames _ heq := heq ▸ fresh_audit frames
  resolve frames _ i heq := heq ▸ resolve_audit frames i
  declareLet frames _ i heq := heq ▸ declareLet_audit frames i
  function frames _ params _ _ heq hbody :=
    heq ▸ function_audit frames params fun inner => hbody inner inner rfl
  missing _ := fun _ _ _ _ _ => rfl

end Lowering

/-!
## Programs
-/

namespace Program

open Lowering (Accords Failure)

/-- The audit never finds anything: what becomes of a program becomes of it under the audit. -/
theorem lowerAudited_eq (p : Program) (extra : List String) :
    p.lowerAudited extra = (p.lower extra).mapError Failure.source := by
  apply Accords.iff_eq_mapError.mp
  unfold lower lowerAudited
  cases hall : Lowering.declareAll [] (Scope.root (Builtin.names ++ extra))
      (p.decls.map Decl.name) with
  | error e => exact fun _ => rfl
  | ok state =>
      rcases state with ⟨frame, space⟩
      have hdeclared := Lowering.declareAll_ok rfl hall
      rw [List.map_map] at hdeclared
      have haccounts := Lowering.accounts_program hdeclared
      have hrun := Lowering.respects_audit.declarations (Eq.refl [frame]) p.decls []
        ⟨space, []⟩ ⟨⟨space, []⟩, p.decls.map fun d => d.name.name, []⟩
      rw [List.append_nil, Lowering.declarations_builder] at hrun
      apply (hrun ⟨rfl, haccounts⟩).bind
      intro made made' hmade
      rcases made with ⟨_, b⟩
      rcases made' with ⟨_, a⟩
      rcases hmade with ⟨_, hbuilder, hsettled⟩
      exact ⟨a.builder.table, Lowering.Accounts.close hsettled, congrArg _ hbuilder.symm⟩

end Program
end DefTable
