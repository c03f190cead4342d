import DefTable.Proofs.Lowering.Resolution

/-!
# Which programs are lowered

Lowering fails on names only.  Whether a program is lowered is decided by a judgement on its names
that knows nothing of identifiers, frames or namespaces; and if it is not, the error is the first
place where the judgement fails, in the order in which a reader would look.
-/

namespace DefTable
namespace Lowering

open Scope (Frame Namespace)

variable {α β : Type}

/-!
## Well-scoped programs
-/

def Bound (bound : List String) (i : Ident) : Prop :=
  isGlobal i.name = true ∨ i.name ∈ bound

instance (bound : List String) (i : Ident) : Decidable (Bound bound i) :=
  inferInstanceAs (Decidable (_ ∨ _))

/-- All names of the expression may be mentioned where they stand.  No expression is missing. -/
inductive WellScoped : List String -> Expr -> Prop where
  | ident {bound i} : Bound bound i -> WellScoped bound (.ident i)
  | number {bound t v} : WellScoped bound (.number t v)
  | string {bound t v} : WellScoped bound (.string t v)
  | bool {bound t v} : WellScoped bound (.bool t v)
  | null {bound t} : WellScoped bound (.null t)
  | group {bound t e} : WellScoped bound e -> WellScoped bound (.group t e)
  | letIn {bound t name params value body} :
      (params.map Ident.name).Nodup ->
      WellScoped (params.map Ident.name ++ name.name :: bound) value ->
      WellScoped (name.name :: bound) body ->
      WellScoped bound (.letIn t name params value body)
  | application {bound t left right} :
      WellScoped bound left -> WellScoped bound right ->
      WellScoped bound (.binary t left .apply right)
  | operation {bound t left op right} :
      Bound bound op -> WellScoped bound left -> WellScoped bound right ->
      WellScoped bound (.binary t left (.named op) right)
  | list {bound t es} :
      (forall e, e ∈ es -> WellScoped bound e) -> WellScoped bound (.list t es)
  | cond {bound t test yes no} :
      WellScoped bound test -> WellScoped bound yes -> WellScoped bound no ->
      WellScoped bound (.cond t test yes no)
  | lambda {bound t params body} :
      (params.map Ident.name).Nodup ->
      WellScoped (params.map Ident.name ++ bound) body ->
      WellScoped bound (.lambda t params body)

def declared (p : Program) : List String :=
  p.decls.map fun d => d.name.name

/-- Declared names are distinct and new, and every declaration may mention all of them. -/
structure WellScopedProgram (names : List String) (p : Program) : Prop where
  nodup : (declared p).Nodup
  new : forall x, x ∈ declared p -> x ∉ names
  params : forall d, d ∈ p.decls -> (d.params.map Ident.name).Nodup
  bodies : forall d, d ∈ p.decls ->
    WellScoped (d.params.map Ident.name ++ (declared p ++ names)) d.body

/-!
## Violations in order

The errors of a program are listed in the order in which it is read: parameters before the body they
stand for, the value of a `let` before its body, an operator before its operands.
-/

def repeats : List String -> List Ident -> List Error
  | _, [] => []
  | taken, i :: rest =>
    if i.name ∈ taken then .name (.duplicate i.name) i.token :: repeats taken rest
    else repeats (i.name :: taken) rest

def unbound (bound : List String) (i : Ident) : List Error :=
  if Bound bound i then [] else [.name (.unresolved i.name) i.token]

mutual

def violations (bound : List String) : Expr -> List Error
  | .hole => [.hole]
  | .ident i => unbound bound i
  | .number _ _ => []
  | .string _ _ => []
  | .bool _ _ => []
  | .null _ => []
  | .group _ e => violations bound e
  | .letIn _ name params value body =>
      repeats [] params ++ violations (params.map Ident.name ++ name.name :: bound) value ++
        violations (name.name :: bound) body
  | .binary _ left .apply right => violations bound left ++ violations bound right
  | .binary _ left (.named op) right =>
      unbound bound op ++ violations bound left ++ violations bound right
  | .list _ es => violationsOfAll bound es
  | .cond _ test yes no => violations bound test ++ violations bound yes ++ violations bound no
  | .lambda _ params body => repeats [] params ++ violations (params.map Ident.name ++ bound) body

def violationsOfAll (bound : List String) : List Expr -> List Error
  | [] => []
  | e :: es => violations bound e ++ violationsOfAll bound es

end

/-- The errors of a program: repeated names of declarations first, then one declaration after
another. -/
def programViolations (names : List String) (p : Program) : List Error :=
  repeats names (p.decls.map Decl.name) ++ p.decls.flatMap fun d =>
    repeats [] d.params ++ violations (d.params.map Ident.name ++ (declared p ++ names)) d.body

/-!
## Without violations a program is well scoped
-/

theorem repeats_eq_nil_iff (taken : List String) (idents : List Ident) :
    repeats taken idents = [] <->
      (idents.map Ident.name).Nodup ∧ forall x, x ∈ idents.map Ident.name -> x ∉ taken := by
  induction idents generalizing taken with
  | nil => simp [repeats]
  | cons i rest ih =>
      rw [repeats]
      by_cases htaken : i.name ∈ taken
      · simp [htaken]
      · rw [if_neg htaken, ih, List.map_cons, List.nodup_cons, List.forall_mem_cons]
        simp only [List.mem_cons, not_or]
        constructor
        · rintro ⟨hnodup, hnew⟩
          exact ⟨⟨fun hmem => (hnew _ hmem).1 rfl, hnodup⟩, htaken, fun x hx => (hnew x hx).2⟩
        · rintro ⟨⟨hfirst, hnodup⟩, _, hnew⟩
          exact ⟨hnodup, fun x hx => ⟨fun heq => hfirst (heq ▸ hx), hnew x hx⟩⟩

theorem repeats_nil_iff (params : List Ident) :
    repeats [] params = [] <-> (params.map Ident.name).Nodup := by
  rw [repeats_eq_nil_iff]
  exact and_iff_left fun x _ => List.not_mem_nil

theorem unbound_eq_nil_iff (bound : List String) (i : Ident) :
    unbound bound i = [] <-> Bound bound i := by
  unfold unbound
  split
  · rename_i h
    exact iff_of_true rfl h
  · rename_i h
    exact iff_of_false (List.cons_ne_nil _ _) h

mutual

theorem violations_eq_nil_iff (bound : List String) :
    (e : Expr) -> (violations bound e = [] <-> WellScoped bound e)
  | .hole => iff_of_false (List.cons_ne_nil _ _) fun h => by cases h
  | .ident i => by
      rw [violations, unbound_eq_nil_iff]
      exact ⟨.ident, fun | .ident h => h⟩
  | .number _ _ => iff_of_true rfl .number
  | .string _ _ => iff_of_true rfl .string
  | .bool _ _ => iff_of_true rfl .bool
  | .null _ => iff_of_true rfl .null
  | .group _ e => by
      rw [violations, violations_eq_nil_iff bound e]
      exact ⟨.group, fun | .group h => h⟩
  | .letIn _ name params value body => by
      rw [violations, List.append_eq_nil_iff, List.append_eq_nil_iff, repeats_nil_iff,
        violations_eq_nil_iff _ value, violations_eq_nil_iff _ body, and_assoc]
      exact ⟨fun ⟨h₁, h₂, h₃⟩ => .letIn h₁ h₂ h₃, fun | .letIn h₁ h₂ h₃ => ⟨h₁, h₂, h₃⟩⟩
  | .binary _ left .apply right => by
      rw [violations, List.append_eq_nil_iff, violations_eq_nil_iff _ left,
        violations_eq_nil_iff _ right]
      exact ⟨fun ⟨h₁, h₂⟩ => .application h₁ h₂, fun | .application h₁ h₂ => ⟨h₁, h₂⟩⟩
  | .binary _ left (.named op) right => by
      rw [violations, List.append_eq_nil_iff, List.append_eq_nil_iff, unbound_eq_nil_iff,
        violations_eq_nil_iff _ left, violations_eq_nil_iff _ right, and_assoc]
      exact ⟨fun ⟨h₁, h₂, h₃⟩ => .operation h₁ h₂ h₃, fun | .operation h₁ h₂ h₃ => ⟨h₁, h₂, h₃⟩⟩
  | .list _ es => by
      rw [violations, violationsOfAll_eq_nil_iff bound es]
      exact ⟨.list, fun | .list h => h⟩
  | .cond _ test yes no => by
      rw [violations, List.append_eq_nil_iff, List.append_eq_nil_iff,
        violations_eq_nil_iff _ test, violations_eq_nil_iff _ yes, violations_eq_nil_iff _ no,
        and_assoc]
      exact ⟨fun ⟨h₁, h₂, h₃⟩ => .cond h₁ h₂ h₃, fun | .cond h₁ h₂ h₃ => ⟨h₁, h₂, h₃⟩⟩
  | .lambda _ params body => by
      rw [violations, List.append_eq_nil_iff, repeats_nil_iff, violations_eq_nil_iff _ body]
      exact ⟨fun ⟨h₁, h₂⟩ => .lambda h₁ h₂, fun | .lambda h₁ h₂ => ⟨h₁, h₂⟩⟩

theorem violationsOfAll_eq_nil_iff (bound : List String) :
    (es : List Expr) -> (violationsOfAll bound es = [] <-> forall e, e ∈ es -> WellScoped bound e)
  | [] => iff_of_true rfl fun _ he => absurd he List.not_mem_nil
  | e :: es => by
      rw [violationsOfAll, List.append_eq_nil_iff, violations_eq_nil_iff bound e,
        violationsOfAll_eq_nil_iff bound es, List.forall_mem_cons]

end

theorem programViolations_eq_nil_iff (names : List String) (p : Program) :
    programViolations names p = [] <-> WellScopedProgram names p := by
  have hnames : (p.decls.map Decl.name).map Ident.name = declared p := List.map_map
  rw [programViolations, List.append_eq_nil_iff, List.flatMap_eq_nil_iff, repeats_eq_nil_iff,
    hnames]
  simp only [List.append_eq_nil_iff, repeats_nil_iff, violations_eq_nil_iff]
  constructor
  · rintro ⟨⟨hnodup, hnew⟩, hdecls⟩
    exact ⟨hnodup, hnew, fun d hd => (hdecls d hd).1, fun d hd => (hdecls d hd).2⟩
  · rintro ⟨hnodup, hnew, hparams, hbodies⟩
    exact ⟨⟨hnodup, hnew⟩, fun d hd => ⟨hparams d hd, hbodies d hd⟩⟩

theorem violationsOfAll_packed (bound : List String)
    {es : List Expr} {cells : List Cell} (h : packed? es = some cells) :
    violationsOfAll bound es = [] := by
  rw [violationsOfAll_eq_nil_iff]
  intro e he
  rcases packed_cases h with ⟨values, rfl, _⟩ | ⟨values, rfl, _⟩
  · rcases List.mem_map.mp he with ⟨p, _, rfl⟩
    exact .number
  · rcases List.mem_map.mp he with ⟨p, _, rfl⟩
    exact .bool

/-!
## Actions that report the first violation
-/

/-- Without violations there is a result, of which `post` is true; otherwise the error is the first
of the violations. -/
structure Reports (x : Except Error α) (vs : List Error) (post : α -> Prop) : Prop where
  passes : vs = [] -> exists a, x = .ok a ∧ post a
  fails : forall v, vs.head? = some v -> x = .error v

theorem Reports.ok {a : α} {post : α -> Prop} (ha : post a) : Reports (.ok a) [] post where
  passes _ := ⟨a, rfl, ha⟩
  fails _ hv := nomatch hv

theorem Reports.error (v : Error) (vs : List Error) (post : α -> Prop) :
    Reports (.error v) (v :: vs) post where
  passes hnil := absurd hnil (List.cons_ne_nil _ _)
  fails _ hw := congrArg Except.error (Option.some.inj hw)

theorem Reports.bind
    {x : Except Error α} {f : α -> Except Error β} {vs us : List Error} {mid : α -> Prop}
    {post : β -> Prop} (hx : Reports x vs mid) (hf : forall a, mid a -> Reports (f a) us post) :
    Reports (x >>= f) (vs ++ us) post := by
  cases vs with
  | nil =>
      rcases hx.passes rfl with ⟨a, rfl, ha⟩
      exact hf a ha
  | cons v rest =>
      rw [hx.fails v rfl]
      exact Reports.error v (rest ++ us) post

/-- The action reports the violations, whatever was built before. -/
def Checks (x : Build α) (vs : List Error) (post : α -> Prop) : Prop :=
  forall b, Reports (x.run b) vs fun made => post made.1

theorem Checks.pure {a : α} {post : α -> Prop} (ha : post a) : Checks (Pure.pure a) [] post :=
  fun _ => Reports.ok ha

theorem Checks.lift {x : Except Error α} {vs : List Error} {post : α -> Prop}
    (hx : Reports x vs post) : Checks (liftM x) vs post := by
  intro b
  cases vs with
  | nil =>
      rcases hx.passes rfl with ⟨a, rfl, ha⟩
      exact Reports.ok ha
  | cons v rest =>
      rw [hx.fails v rfl]
      exact Reports.error v rest _

theorem Checks.bind
    {x : Build α} {f : α -> Build β} {vs us : List Error} {mid : α -> Prop} {post : β -> Prop}
    (hx : Checks x vs mid) (hf : forall a, mid a -> Checks (f a) us post) :
    Checks (x >>= f) (vs ++ us) post := by
  intro b
  rw [StateT.run_bind]
  exact (hx b).bind fun made hmade => hf made.1 hmade made.2

theorem Checks.finish
    {x : Build α} {f : α -> Build β} {vs : List Error} {mid : α -> Prop} {post : β -> Prop}
    (hx : Checks x vs mid) (hf : forall a, mid a -> Checks (f a) [] post) :
    Checks (x >>= f) vs post := by
  rw [← List.append_nil vs]
  exact hx.bind hf

theorem checks_define (id : String) (d : Def) : Checks (define id d) [] fun _ => True :=
  fun _ => Reports.ok trivial

theorem checks_fresh (frames : List Frame) : Checks (fresh frames) [] fun _ => True :=
  fun _ => Reports.ok trivial

theorem checks_declareLet (frames : List Frame) (i : Ident) :
    Checks (declareLet frames i) [] fun made =>
      made.2 = ⟨.transparent, [(i.name, made.1)]⟩ :: frames :=
  fun _ => Reports.ok rfl

/-!
## Frames and bound names
-/

def Binds (frames : List Frame) (bound : List String) : Prop :=
  forall x, (frames.findSome? fun f => f.lookup? x).isSome = true <-> x ∈ bound

theorem Binds.cons
    {frame : Frame} {frames : List Frame} {here bound : List String}
    (hframe : forall x, (frame.lookup? x).isSome = true <-> x ∈ here)
    (h : Binds frames bound) : Binds (frame :: frames) (here ++ bound) := by
  intro x
  rw [List.findSome?_cons, List.mem_append, ← hframe x, ← h x]
  cases frame.lookup? x with
  | none => simp
  | some id => simp

theorem Binds.letIn
    {frames : List Frame} {bound : List String} (name id : String) (h : Binds frames bound) :
    Binds (⟨.transparent, [(name, id)]⟩ :: frames) (name :: bound) := by
  have hframe : forall x, (Frame.lookup? ⟨.transparent, [(name, id)]⟩ x).isSome = true <->
      x ∈ [name] := by
    intro x
    rw [Frame.lookup?, List.lookup_cons]
    by_cases heq : x = name
    · simp [heq]
    · simp [heq, beq_false_of_ne heq]
  exact Binds.cons hframe h

theorem lookup_declared
    {frame frame' : Frame} {space space' : Namespace} {names before : List String}
    (h : Declared frame space names frame' space')
    (hbefore : frame.bindings = before.map fun n => (n, n)) :
    forall x, (frame'.lookup? x).isSome = true <-> x ∈ names ++ before := by
  intro x
  rw [Frame.lookup?, h.bindings_eq, hbefore, ← List.map_append, lookup_map_pair (fun n => n) x]
  by_cases hx : x ∈ names ++ before
  · have hx' : x ∈ names.reverse ++ before := by simpa using hx
    rw [if_pos hx']
    exact iff_of_true rfl hx
  · have hx' : x ∉ names.reverse ++ before := by simpa using hx
    rw [if_neg hx']
    exact iff_of_false Bool.false_ne_true hx

theorem resolve_of_bound
    {frames : List Frame} {bound : List String} {i : Ident} (hbinds : Binds frames bound)
    (h : Bound bound i) : exists id, Scope.resolve frames i.name = .ok id := by
  unfold Scope.resolve
  rcases h with hglobal | hmem
  · rw [if_pos hglobal]
    exact ⟨_, rfl⟩
  · rcases Option.isSome_iff_exists.mp ((hbinds i.name).mpr hmem) with ⟨id, hid⟩
    rw [hid]
    split
    · exact ⟨_, rfl⟩
    · exact ⟨_, rfl⟩

theorem resolve_of_not_bound
    {frames : List Frame} {bound : List String} {i : Ident} (hbinds : Binds frames bound)
    (h : ¬ Bound bound i) : Scope.resolve frames i.name = .error (.unresolved i.name) := by
  rcases not_or.mp h with ⟨hglobal, hmem⟩
  have hnone : (frames.findSome? fun f => f.lookup? i.name) = none := by
    rw [← Option.not_isSome_iff_eq_none, hbinds i.name]
    exact hmem
  rw [Scope.resolve, if_neg hglobal, hnone]

theorem checks_resolve
    {frames : List Frame} {bound : List String} (hbinds : Binds frames bound) (i : Ident) :
    Checks (resolve frames i) (unbound bound i) fun _ => True := by
  unfold resolve unbound
  by_cases h : Bound bound i
  · rcases resolve_of_bound hbinds h with ⟨id, hid⟩
    rw [hid, if_pos h]
    exact Checks.pure trivial
  · rw [resolve_of_not_bound hbinds h, if_neg h]
    exact fun _ => Reports.error _ [] _

/-!
## Functions
-/

theorem declareAll_reports
    {outer : List Frame} {frame : Frame} {space : Namespace} (howning : frame.kind = .owning)
    (idents : List Ident) :
    Reports (declareAll outer (frame, space) idents) (repeats space.names idents) fun state =>
      Declared frame space (idents.map Ident.name) state.1 state.2 := by
  suffices h : Reports (declareAll outer (frame, space) idents) (repeats space.names idents)
      fun _ => True from
    ⟨fun hnil => (h.passes hnil).imp fun state hstate =>
      ⟨hstate.1, declareAll_ok howning hstate.1⟩, h.fails⟩
  induction idents generalizing frame space with
  | nil => exact Reports.ok trivial
  | cons i rest ih =>
      rw [declareAll, Scope.declare, howning, repeats, Namespace.has]
      by_cases htaken : i.name ∈ space.names
      · rw [if_pos htaken]
        simp only [List.contains_iff_mem.mpr htaken, if_true]
        exact Reports.error _ _ _
      · have hfree : space.names.contains i.name = false := by simpa using htaken
        rw [if_neg htaken]
        simp only [hfree, Bool.false_eq_true, if_false]
        exact @ih (frame.bind i.name i.name) (space.add i.name) howning

theorem checks_function
    {frames : List Frame} {bound : List String} (hbinds : Binds frames bound) (params : List Ident)
    {body : List Frame -> Build Unit} {vs : List Error}
    (hbody : forall inner, Binds inner (params.map Ident.name ++ bound) ->
      Checks (body inner) vs fun _ => True) :
    Checks (function frames params body) (repeats [] params ++ vs) fun _ => True := by
  unfold function
  refine (Checks.lift (declareAll_reports rfl params)).bind ?_
  rintro ⟨frame, space⟩ hdeclared
  have hinner : Binds (frame :: frames) (params.map Ident.name ++ bound) := by
    refine Binds.cons ?_ hbinds
    intro x
    rw [lookup_declared hdeclared (List.map_nil).symm, List.append_nil]
  refine (Checks.lift (hbody _ hinner ⟨space, []⟩)).finish ?_
  exact fun _ _ => Checks.pure trivial

theorem checks_declaration
    {frames : List Frame} {bound : List String} (hbinds : Binds frames bound) (id : String)
    (params : List Ident) {body : List Frame -> String -> Build Unit} {vs : List Error}
    (hbody : forall inner id, Binds inner (params.map Ident.name ++ bound) ->
      Checks (body inner id) vs fun _ => True) :
    Checks (declaration frames id params body) (repeats [] params ++ vs) fun _ => True := by
  unfold declaration
  cases params with
  | nil => exact hbody frames id hbinds
  | cons q rest =>
      refine (checks_function hbinds _ fun inner h => hbody inner _ h).finish ?_
      exact fun d _ => checks_define id d

/-!
## Expressions
-/

structure ChecksUses (u : Uses) (vs : List Error) : Prop where
  into : forall id, Checks (u.into id) vs fun _ => True
  operand : Checks u.operand vs fun _ => True
  call : Checks u.call vs fun _ => True

theorem checks_operand
    {frames : List Frame} {into : String -> Build Unit} {vs : List Error}
    (hinto : forall id, Checks (into id) vs fun _ => True) :
    Checks (Uses.ofInto frames into).operand vs fun _ => True := by
  unfold Uses.ofInto
  refine (checks_fresh frames).bind fun id _ => ?_
  exact (hinto id).finish fun _ _ => Checks.pure trivial

theorem checksUses_ofInto
    {frames : List Frame} {into : String -> Build Unit} {vs : List Error}
    (hinto : forall id, Checks (into id) vs fun _ => True) :
    ChecksUses (.ofInto frames into) vs where
  into := hinto
  operand := checks_operand hinto
  call := by
    change Checks ((Uses.ofInto frames into).operand >>= fun id => Pure.pure (id, [])) vs _
    exact (checks_operand hinto).finish fun _ _ => Checks.pure trivial

theorem checksUses_define (frames : List Frame) (d : Def) :
    ChecksUses (.ofInto frames fun id => define id d) [] :=
  checksUses_ofInto fun id => checks_define id d

mutual

theorem uses_checks :
    forall (e : Expr) (frames : List Frame) (bound : List String), Binds frames bound ->
      ChecksUses (uses frames e) (violations bound e)
  | .hole, frames, bound, _ => by
      rw [uses, violations]
      exact checksUses_ofInto fun _ _ => Reports.error .hole [] _
  | .ident i, frames, bound, hbinds => by
      rw [uses, violations]
      have hresolve := checks_resolve hbinds i
      refine ⟨fun id => ?_, hresolve, ?_⟩
      · exact hresolve.finish fun target _ => checks_define id _
      · exact hresolve.finish fun target _ => Checks.pure trivial
  | .number _ _, frames, _, _ => by
      rw [uses, violations]
      exact checksUses_define frames _
  | .string _ _, frames, _, _ => by
      rw [uses, violations]
      exact checksUses_define frames _
  | .bool _ _, frames, _, _ => by
      rw [uses, violations]
      exact checksUses_define frames _
  | .null _, frames, _, _ => by
      rw [uses, violations]
      exact checksUses_define frames _
  | .group _ e, frames, bound, hbinds => by
      rw [uses, violations]
      exact checksUses_ofInto (uses_checks e frames bound hbinds).into
  | .letIn _ name params value body, frames, bound, hbinds => by
      rw [uses, violations]
      refine checksUses_ofInto fun id => ?_
      refine (checks_declareLet frames name).bind ?_
      rintro ⟨target, inner⟩ hinner
      dsimp only at hinner
      subst hinner
      have hinner := hbinds.letIn name.name target
      refine (checks_declaration hinner target params fun frames id h =>
        (uses_checks value frames _ h).into id).bind fun _ _ => ?_
      exact (uses_checks body _ _ hinner).into id
  | .binary _ left .apply right, frames, bound, hbinds => by
      have hcall : Checks
          (do
            let (target, args) ← (uses frames left).call
            let arg ← (uses frames right).operand
            return (target, args ++ [arg]))
          (violations bound left ++ violations bound right) fun _ => True := by
        refine (uses_checks left frames bound hbinds).call.bind fun call _ => ?_
        exact (uses_checks right frames bound hbinds).operand.finish fun _ _ => Checks.pure trivial
      rw [uses, violations]
      have hinto := fun id => hcall.finish fun call _ => checks_define id (.call call.1 call.2)
      exact ⟨hinto, checks_operand hinto, hcall⟩
  | .binary _ left (.named op) right, frames, bound, hbinds => by
      rw [uses, violations, List.append_assoc]
      refine checksUses_ofInto fun id => ?_
      refine (checks_resolve hbinds op).bind fun target _ => ?_
      refine (uses_checks left frames bound hbinds).operand.bind fun a _ => ?_
      exact (uses_checks right frames bound hbinds).operand.finish fun b _ => checks_define id _
  | .list _ es, frames, bound, hbinds => by
      rw [uses, violations]
      refine checksUses_ofInto fun id => ?_
      cases hpacked : packed? es with
      | some cells =>
          rw [violationsOfAll_packed bound hpacked]
          exact checks_define id (.matrix cells)
      | none => exact (operands_checks es frames bound hbinds).finish fun ids _ => checks_define id _
  | .cond _ test yes no, frames, bound, hbinds => by
      rw [uses, violations, List.append_assoc]
      refine checksUses_ofInto fun id => ?_
      refine (checks_fresh frames).bind fun i _ => (checks_fresh frames).bind fun j _ =>
        (checks_fresh frames).bind fun k _ => ?_
      refine ((uses_checks test frames bound hbinds).into i).bind fun _ _ => ?_
      refine ((uses_checks yes frames bound hbinds).into j).bind fun _ _ => ?_
      exact ((uses_checks no frames bound hbinds).into k).finish fun _ _ => checks_define id _
  | .lambda _ params body, frames, bound, hbinds => by
      rw [uses, violations]
      refine checksUses_ofInto fun id => ?_
      refine (checks_function hbinds params fun inner h => ?_).finish fun d _ => checks_define id d
      exact (uses_checks body inner _ h).into _

theorem operands_checks :
    forall (es : List Expr) (frames : List Frame) (bound : List String), Binds frames bound ->
      Checks (operands frames es) (violationsOfAll bound es) fun _ => True
  | [], _, _, _ => by
      rw [operands, violationsOfAll]
      exact Checks.pure trivial
  | e :: es, frames, bound, hbinds => by
      rw [operands, violationsOfAll]
      refine (uses_checks e frames bound hbinds).operand.bind fun id _ => ?_
      exact (operands_checks es frames bound hbinds).finish fun ids _ => Checks.pure trivial

end

/-!
## Programs
-/

theorem declarations_checks
    {frames : List Frame} {bound : List String} (hbinds : Binds frames bound) (ds : List Decl) :
    Checks (declarations frames ds)
      (ds.flatMap fun d =>
        repeats [] d.params ++ violations (d.params.map Ident.name ++ bound) d.body)
      fun _ => True := by
  induction ds with
  | nil => exact Checks.pure trivial
  | cons d ds ih =>
      rw [List.flatMap_cons]
      refine (checks_declaration hbinds d.name.name d.params fun inner id h => ?_).bind fun _ _ => ih
      exact (uses_checks d.body inner _ h).into id

theorem lower_reports (p : Program) (extra : List String) :
    Reports (p.lower extra) (programViolations (Builtin.names ++ extra) p) fun _ => True := by
  unfold Program.lower programViolations
  refine (declareAll_reports rfl _).bind ?_
  rintro ⟨frame, space⟩ hdeclared
  have hbinds : Binds [frame] (declared p ++ (Builtin.names ++ extra)) := by
    have hnames : (p.decls.map Decl.name).map Ident.name = declared p := List.map_map
    rw [← List.append_nil (declared p ++ _), ← hnames]
    exact Binds.cons (lookup_declared hdeclared rfl) fun x => by simp
  rw [← List.append_nil (List.flatMap _ _)]
  exact (declarations_checks hbinds p.decls ⟨space, []⟩).bind fun _ _ => Reports.ok trivial

/-- A program is lowered exactly if it is well scoped.  Otherwise the error is the first of its
violations. -/
theorem lower_iff_wellScoped (p : Program) (extra : List String) :
    ((exists t, p.lower extra = .ok t) <-> WellScopedProgram (Builtin.names ++ extra) p) ∧
      forall e, p.lower extra = .error e <->
        (programViolations (Builtin.names ++ extra) p).head? = some e := by
  have hreports := lower_reports p extra
  rw [← programViolations_eq_nil_iff]
  cases hviolations : programViolations (Builtin.names ++ extra) p with
  | nil =>
      rcases hreports.passes hviolations with ⟨t, ht, _⟩
      rw [ht]
      exact ⟨iff_of_true ⟨t, rfl⟩ rfl, fun e => iff_of_false (fun h => nomatch h) fun h => nomatch h⟩
  | cons v rest =>
      rw [hviolations] at hreports
      rw [hreports.fails v rfl]
      refine ⟨iff_of_false (fun ⟨t, h⟩ => nomatch h) (List.cons_ne_nil _ _), fun e => ?_⟩
      rw [List.head?_cons, Option.some.injEq, Except.error.injEq]

end Lowering
end DefTable
