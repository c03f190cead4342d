import DefTable.Lowering
import DefTable.Proofs.Scope.Fresh
import DefTable.Proofs.Table.Entries

/-!
# Runs of the table builder

Lowering threads a builder, the namespace and the table under construction.  A successful run adds
identifiers to the namespace, all of them new, and entries to the table.  `Emitting` says this of
every successful run of an action, together with a statement about what was added; it composes along
the steps of an action, so later proofs never look at a builder.
-/

namespace DefTable
namespace Lowering

open Scope (Frame Namespace Taken candidate)
open Table (Entry)

variable {α β : Type}

/-!
## Successful runs of the steps
-/

theorem run_bind_ok
    {x : Build α} {f : α -> Build β} {b b' : Builder} {r : β}
    (hrun : (x >>= f).run b = .ok (r, b')) :
    exists a b₁, x.run b = .ok (a, b₁) ∧ (f a).run b₁ = .ok (r, b') := by
  rw [StateT.run_bind] at hrun
  cases hx : x.run b with
  | error e =>
      rw [hx] at hrun
      cases hrun
  | ok result =>
      rw [hx] at hrun
      exact ⟨result.1, result.2, rfl, hrun⟩

theorem run_define
    {id : String} {d : Def} {b b' : Builder} {u : Unit}
    (hrun : (define id d).run b = .ok (u, b')) :
    b' = { b with table := b.table.insert id d } := by
  cases hrun
  rfl

theorem run_fresh
    {frames : List Frame} {b b' : Builder} {id : String}
    (hrun : (fresh frames).run b = .ok (id, b')) :
    Taken b.space (Scope.identifiers frames) "" id b'.space ∧ b'.table = b.table := by
  have htaken := Scope.taken_fresh b.space (Scope.identifiers frames) ""
  cases hrun
  exact ⟨htaken, rfl⟩

theorem run_resolve
    {frames : List Frame} {i : Ident} {b b' : Builder} {id : String}
    (hrun : (resolve frames i).run b = .ok (id, b')) :
    Scope.resolve frames i.name = .ok id ∧ b' = b := by
  unfold resolve at hrun
  cases hresolve : Scope.resolve frames i.name with
  | error e =>
      rw [hresolve] at hrun
      cases hrun
  | ok found =>
      rw [hresolve] at hrun
      cases hrun
      exact ⟨rfl, rfl⟩

theorem run_declareLet
    {frames inner : List Frame} {i : Ident} {b b' : Builder} {id : String}
    (hrun : (declareLet frames i).run b = .ok ((id, inner), b')) :
    Taken b.space (Scope.identifiers frames) i.name id b'.space ∧ b'.table = b.table ∧
      inner = ⟨.transparent, [(i.name, id)]⟩ :: frames := by
  have htaken := Scope.taken_fresh b.space (Scope.identifiers frames) i.name
  cases hrun
  exact ⟨htaken, rfl, rfl⟩

/-!
## Declaring the names of an owning scope
-/

structure Declared (frame : Frame) (space : Namespace) (names : List String)
    (frame' : Frame) (space' : Namespace) : Prop where
  kind_eq : frame'.kind = .owning
  bindings_eq : frame'.bindings = (names.reverse.map fun n => (n, n)) ++ frame.bindings
  names_eq : space'.names = names.reverse ++ space.names
  nodup : names.Nodup
  not_mem : forall n, n ∈ names -> n ∉ space.names

theorem declareAll_ok
    {outer : List Frame} {frame frame' : Frame} {space space' : Namespace} {idents : List Ident}
    (howning : frame.kind = .owning)
    (hrun : declareAll outer (frame, space) idents = .ok (frame', space')) :
    Declared frame space (idents.map Ident.name) frame' space' := by
  induction idents generalizing frame space with
  | nil =>
      cases hrun
      exact ⟨howning, by simp, by simp, List.nodup_nil, by simp⟩
  | cons i rest ih =>
      rw [declareAll, Scope.declare, howning] at hrun
      by_cases htaken : space.has i.name = true
      · rw [if_pos htaken] at hrun
        cases hrun
      · rw [if_neg htaken] at hrun
        have hnew : i.name ∉ space.names := by
          intro hmem
          exact htaken (List.contains_iff_mem.mpr hmem)
        have hrest : Declared (frame.bind i.name i.name) (space.add i.name)
            (rest.map Ident.name) frame' space' := ih howning hrun
        refine ⟨hrest.kind_eq, ?_, ?_, ?_, ?_⟩
        · rw [hrest.bindings_eq]
          simp [Frame.bind]
        · rw [hrest.names_eq]
          simp [Namespace.add]
        · rw [List.map_cons, List.nodup_cons]
          refine ⟨?_, hrest.nodup⟩
          intro hmem
          exact hrest.not_mem _ hmem List.mem_cons_self
        · intro n hn
          rcases List.mem_cons.mp hn with heq | htail
          · rw [heq]
            exact hnew
          · intro hold
            exact hrest.not_mem n htail (List.mem_cons_of_mem _ hold)

theorem run_function
    {frames : List Frame} {params : List Ident} {body : List Frame -> Build Unit}
    {b b' : Builder} {d : Def}
    (hrun : (function frames params body).run b = .ok (d, b')) :
    b' = b ∧ exists frame space inner,
      Declared (.empty .owning) .empty (params.map Ident.name) frame space ∧
        (body (frame :: frames)).run ⟨space, []⟩ = .ok ((), inner) ∧
        d = .func (params.map Ident.name) inner.table := by
  unfold function at hrun
  rcases run_bind_ok hrun with ⟨⟨frame, space⟩, b₁, hdeclare, hrest⟩
  have hdeclared : declareAll frames (.empty .owning, .empty) params = .ok (frame, space) ∧
      b₁ = b := by
    cases hall : declareAll frames (.empty .owning, .empty) params with
    | error e =>
        rw [hall] at hdeclare
        cases hdeclare
    | ok result =>
        rw [hall] at hdeclare
        cases hdeclare
        exact ⟨rfl, rfl⟩
  rcases run_bind_ok hrest with ⟨⟨u, inner⟩, b₂, hbody, hreturn⟩
  have hinner : (body (frame :: frames)).run ⟨space, []⟩ = .ok ((), inner) ∧ b₂ = b₁ := by
    cases hlowered : (body (frame :: frames)).run ⟨space, []⟩ with
    | error e =>
        rw [hlowered] at hbody
        cases hbody
    | ok result =>
        rw [hlowered] at hbody
        cases hbody
        exact ⟨rfl, rfl⟩
  cases hreturn
  refine ⟨hinner.2.trans hdeclared.2, frame, space, inner, ?_, hinner.1, rfl⟩
  exact declareAll_ok rfl hdeclared.1

theorem run_lower
    {p : Program} {extra : List String} {t : Table} (hlower : p.lower extra = .ok t) :
    exists frame space b,
      Declared (Scope.root (Builtin.names ++ extra)).1 (Scope.root (Builtin.names ++ extra)).2
          (p.decls.map fun d => d.name.name) frame space ∧
        (declarations [frame] p.decls).run ⟨space, []⟩ = .ok ((), b) ∧ t = b.table := by
  unfold Program.lower at hlower
  cases hall : declareAll [] (Scope.root (Builtin.names ++ extra)) (p.decls.map Decl.name) with
  | error e =>
      rw [hall] at hlower
      cases hlower
  | ok declared =>
      rcases declared with ⟨frame, space⟩
      rw [hall] at hlower
      have hdeclared := declareAll_ok rfl hall
      rw [List.map_map] at hdeclared
      cases hrun : (declarations [frame] p.decls).run ⟨space, []⟩ with
      | error e =>
          simp only [bind, Except.bind, hrun] at hlower
          cases hlower
      | ok result =>
          simp only [bind, Except.bind, hrun] at hlower
          cases hlower
          exact ⟨frame, space, result.2, hdeclared, hrun, rfl⟩

/-!
## What a run adds
-/

/-- From `b` to `b'` the identifiers `new` were taken, the last one first, and the entries `out`
were put. -/
structure Grows (frames : List Frame) (b b' : Builder) (new : List String)
    (out : List Entry) : Prop where
  names_eq : b'.space.names = new ++ b.space.names
  nodup : new.Nodup
  not_mem_names : forall x, x ∈ new -> x ∉ b.space.names
  not_mem_frames : forall x, x ∈ new -> x ∉ Scope.identifiers frames
  synthetic : forall x, x ∈ new -> exists hint k, x = candidate hint k
  table_eq : b'.table = out.foldl Table.put b.table

namespace Grows

variable {frames : List Frame} {b b₁ b₂ : Builder} {new new₁ new₂ : List String}
  {out out₁ out₂ : List Entry}

theorem refl : Grows frames b b [] [] :=
  ⟨rfl, List.nodup_nil, by simp, by simp, by simp, rfl⟩

theorem trans (hfirst : Grows frames b b₁ new₁ out₁) (hsecond : Grows frames b₁ b₂ new₂ out₂) :
    Grows frames b b₂ (new₂ ++ new₁) (out₁ ++ out₂) := by
  refine ⟨?_, ?_, ?_, ?_, ?_, ?_⟩
  · rw [hsecond.names_eq, hfirst.names_eq, List.append_assoc]
  · refine List.Nodup.append hsecond.nodup hfirst.nodup ?_
    intro x hx₂ hx₁
    apply hsecond.not_mem_names x hx₂
    rw [hfirst.names_eq]
    exact List.mem_append_left _ hx₁
  · intro x hx hold
    rcases List.mem_append.mp hx with hx₂ | hx₁
    · apply hsecond.not_mem_names x hx₂
      rw [hfirst.names_eq]
      exact List.mem_append_right _ hold
    · exact hfirst.not_mem_names x hx₁ hold
  · intro x hx
    rcases List.mem_append.mp hx with hx₂ | hx₁
    · exact hsecond.not_mem_frames x hx₂
    · exact hfirst.not_mem_frames x hx₁
  · intro x hx
    rcases List.mem_append.mp hx with hx₂ | hx₁
    · exact hsecond.synthetic x hx₂
    · exact hfirst.synthetic x hx₁
  · rw [hsecond.table_eq, hfirst.table_eq, List.foldl_append]

/-- What is new inside a scope is also new around it. -/
theorem outer {frame : Frame} (hgrows : Grows (frame :: frames) b b₁ new out) :
    Grows frames b b₁ new out := by
  refine { hgrows with not_mem_frames := ?_ }
  intro x hx hmem
  apply hgrows.not_mem_frames x hx
  rw [Scope.identifiers, List.flatMap_cons]
  exact List.mem_append_right _ hmem

theorem of_taken {hint id : String}
    (htaken : Taken b.space (Scope.identifiers frames) hint id b₁.space)
    (htable : b₁.table = b.table) :
    Grows frames b b₁ [id] [] := by
  rcases htaken.synthetic with ⟨k, hk⟩
  refine ⟨htaken.names_eq, List.nodup_singleton id, ?_, ?_, ?_, htable⟩
  · intro x hx
    rw [List.mem_singleton.mp hx]
    exact htaken.not_mem_names
  · intro x hx
    rw [List.mem_singleton.mp hx]
    exact htaken.not_mem_visible
  · intro x hx
    rw [List.mem_singleton.mp hx]
    exact ⟨hint, k, hk⟩

end Grows

/-- Every successful run of the action takes new identifiers and puts entries, of which `post`
holds. -/
def Emitting (frames : List Frame) (x : Build α)
    (post : α -> List String -> List Entry -> Prop) : Prop :=
  forall b a b', x.run b = .ok (a, b') ->
    exists new out, Grows frames b b' new out ∧ post a new out

namespace Emitting

variable {frames : List Frame} {post : β -> List String -> List Entry -> Prop}

theorem bind
    {x : Build α} {f : α -> Build β} {mid : α -> List String -> List Entry -> Prop}
    (hx : Emitting frames x mid)
    (hf : forall a new₁ out₁, mid a new₁ out₁ ->
      Emitting frames (f a) fun r new₂ out₂ => post r (new₂ ++ new₁) (out₁ ++ out₂)) :
    Emitting frames (x >>= f) post := by
  intro b r b' hrun
  rcases run_bind_ok hrun with ⟨a, b₁, hfirst, hsecond⟩
  rcases hx b a b₁ hfirst with ⟨new₁, out₁, hgrows₁, hmid⟩
  rcases hf a new₁ out₁ hmid b₁ r b' hsecond with ⟨new₂, out₂, hgrows₂, hpost⟩
  exact ⟨_, _, hgrows₁.trans hgrows₂, hpost⟩

theorem pure {r : β} (hpost : post r [] []) : Emitting frames (Pure.pure r) post := by
  intro b a b' hrun
  cases hrun
  exact ⟨[], [], Grows.refl, hpost⟩

theorem mono {x : Build β} {pre : β -> List String -> List Entry -> Prop}
    (hx : Emitting frames x pre)
    (himp : forall r new out, pre r new out -> post r new out) :
    Emitting frames x post := by
  intro b r b' hrun
  rcases hx b r b' hrun with ⟨new, out, hgrows, hpre⟩
  exact ⟨new, out, hgrows, himp r new out hpre⟩

theorem outer {frame : Frame} {x : Build β} (hx : Emitting (frame :: frames) x post) :
    Emitting frames x post := by
  intro b r b' hrun
  rcases hx b r b' hrun with ⟨new, out, hgrows, hpost⟩
  exact ⟨new, out, hgrows.outer, hpost⟩

theorem define (id : String) (d : Def) :
    Emitting frames (define id d) fun _ new out => new = [] ∧ out = [(id, d)] := by
  intro b u b' hrun
  rw [run_define hrun]
  exact ⟨[], [(id, d)], { Grows.refl with table_eq := rfl }, rfl, rfl⟩

theorem fresh :
    Emitting frames (fresh frames) fun id new out =>
      (exists k, id = candidate "" k) ∧ new = [id] ∧ out = [] := by
  intro b id b' hrun
  rcases run_fresh hrun with ⟨htaken, htable⟩
  exact ⟨[id], [], Grows.of_taken htaken htable, htaken.synthetic, rfl, rfl⟩

theorem resolve (i : Ident) :
    Emitting frames (resolve frames i) fun id new out =>
      Scope.resolve frames i.name = .ok id ∧ new = [] ∧ out = [] := by
  intro b id b' hrun
  rcases run_resolve hrun with ⟨hresolve, hsame⟩
  rw [hsame]
  exact ⟨[], [], Grows.refl, hresolve, rfl, rfl⟩

theorem declareLet (i : Ident) :
    Emitting frames (declareLet frames i) fun bound new out =>
      (exists k, bound.1 = candidate i.name k) ∧
        bound.2 = ⟨.transparent, [(i.name, bound.1)]⟩ :: frames ∧
        new = [bound.1] ∧ out = [] := by
  rintro b ⟨id, inner⟩ b' hrun
  rcases run_declareLet hrun with ⟨htaken, htable, hinner⟩
  exact ⟨[id], [], Grows.of_taken htaken htable, htaken.synthetic, hinner, rfl, rfl⟩

end Emitting

end Lowering
end DefTable
