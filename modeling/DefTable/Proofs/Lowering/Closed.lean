import DefTable.Proofs.Lowering.Hygiene

/-!
# Lowered tables are closed

Whatever program is lowered, the identifiers in its table refer to something: to an entry or a
parameter of the table they stand in or of one around it, to a name that was given in advance, or to
a name from outside.  The names of the program may be anything here, so this does not follow from
hygiene, where a name has to be found at its own binding.
-/

namespace DefTable
namespace Lowering

open Scope (Frame candidate)
open Table (Entry)

/-!
## Closed definitions
-/

/-- From inside the levels the identifier refers to something. -/
def Known (names : List String) (levels : List Level) (id : String) : Prop :=
  (exists l, l ∈ levels ∧ id ∈ l.identifiers) ∨ id ∈ names ∨ isGlobal id = true

def Uniform (cells : List Cell) : Prop :=
  (forall c, c ∈ cells -> exists v, c = .number v) ∨ (forall c, c ∈ cells -> exists v, c = .bool v)

/-- The definition is well formed in the levels, the innermost of which is its own table. -/
inductive WellFormed (names : List String) : List Level -> Def -> Prop where
  | number {levels v} : WellFormed names levels (.number v)
  | string {levels v} : WellFormed names levels (.string v)
  | bool {levels v} : WellFormed names levels (.bool v)
  | null {levels} : WellFormed names levels .null
  | matrix {levels cells} : Uniform cells -> WellFormed names levels (.matrix cells)
  | list {levels items} :
      (forall id, id ∈ items -> Known names levels id) -> WellFormed names levels (.list items)
  | call {levels target args} :
      (forall id, id ∈ target :: args -> Known names levels id) ->
      WellFormed names levels (.call target args)
  | switch {levels guard yes no} :
      guard ≠ "" -> (forall id, id ∈ [guard, yes, no] -> Known names levels id) ->
      WellFormed names levels (.switch [⟨some guard, yes⟩, ⟨none, no⟩])
  | func {levels params body} :
      params.Nodup -> (forall q, q ∈ params -> q ∉ Table.identifiers body) ->
      Table.resultId ∈ Table.identifiers body ->
      (forall entry, entry ∈ body -> WellFormed names (⟨params, body⟩ :: levels) entry.2) ->
      WellFormed names levels (.func params body)

def WellFormedTable (names : List String) (t : Table) : Prop :=
  forall entry, entry ∈ t -> WellFormed names [⟨[], t⟩] entry.2

theorem Known.cons
    {names : List String} {levels : List Level} {id : String} (h : Known names levels id)
    (l : Level) : Known names (l :: levels) id := by
  rcases h with ⟨m, hm, hid⟩ | houtside
  · exact Or.inl ⟨m, List.mem_cons_of_mem l hm, hid⟩
  · exact Or.inr houtside

theorem known_of_held
    {levels : List Level} {id : String} (names : List String) (h : Held levels id) :
    Known names levels id := by
  cases levels with
  | nil => cases h
  | cons l outer => exact Or.inl ⟨l, List.mem_cons_self, List.mem_append_right _ h⟩

theorem uniform_packed {es : List Expr} {cells : List Cell} (h : packed? es = some cells) :
    Uniform cells := by
  refine (packed_cases h).imp ?_ ?_
  · rintro ⟨values, _, rfl⟩ c hc
    rcases List.mem_map.mp hc with ⟨p, _, rfl⟩
    exact ⟨p.2, rfl⟩
  · rintro ⟨values, _, rfl⟩ c hc
    rcases List.mem_map.mp hc with ⟨p, _, rfl⟩
    exact ⟨p.2, rfl⟩

/-!
## What an action adds

`Closes` is a small logic for the entries that an action adds.  What is known of the tables around
the entries is an assumption; later actions may rely on what earlier ones established.
-/

section

variable (names : List String)

/-- The entries that were added stand under the identifiers `own` and some of the new ones.  In
tables that hold them and meet the assumption `A` they are well formed, and `Q` is true. -/
structure Closes (A : List Level -> Prop) (own : List String) (Q : List Level -> Prop)
    (new : List String) (out : List Entry) : Prop where
  covers : forall x, x ∈ own -> x ∈ out.map Prod.fst
  within : forall x, x ∈ out.map Prod.fst -> x ∈ own ∨ x ∈ new
  closed : forall levels, A levels -> AllHeld levels out ->
    (forall entry, entry ∈ out -> WellFormed names levels entry.2) ∧ Q levels

def Visible (frames : List Frame) (levels : List Level) : Prop :=
  forall id, id ∈ Scope.identifiers frames -> Known names levels id

end

section

variable {names : List String} {A A' Q Q' : List Level -> Prop} {own own' new : List String}
  {out : List Entry}

theorem Closes.mono
    (h : Closes names A own Q new out) (hA : forall levels, A' levels -> A levels) :
    Closes names A' own Q new out where
  covers := h.covers
  within := h.within
  closed levels hassumed hheld := h.closed levels (hA levels hassumed) hheld

theorem closes_nil (hQ : forall levels, A levels -> Q levels) : Closes names A [] Q [] [] where
  covers _ hx := hx
  within _ hx := Or.inl hx
  closed levels hassumed _ := ⟨fun _ hentry => absurd hentry List.not_mem_nil, hQ levels hassumed⟩

theorem Closes.congr
    (h : Closes names A own Q new out) (hown : forall x, x ∈ own <-> x ∈ own') :
    Closes names A own' Q new out where
  covers x hx := h.covers x ((hown x).mpr hx)
  within x hx := (h.within x hx).imp_left (hown x).mp
  closed := h.closed

theorem Closes.introduce
    {bound : String} (h : Closes names A' (bound :: own) Q new out)
    (hA : forall levels, A levels -> Known names levels bound -> A' levels) :
    Closes names A own Q (new ++ [bound]) out where
  covers x hx := h.covers x (List.mem_cons_of_mem bound hx)
  within x hx := by
    rw [List.mem_append, List.mem_singleton]
    rcases h.within x hx with hx | hx
    · exact (List.mem_cons.mp hx).elim (fun heq => Or.inr (Or.inr heq)) Or.inl
    · exact Or.inr (Or.inl hx)
  closed levels hassumed hheld := by
    have hbound : Known names levels bound :=
      known_of_held names (hheld bound (h.covers bound List.mem_cons_self))
    exact h.closed levels (hA levels hassumed hbound) hheld

theorem Closes.append
    {own₁ own₂ new₁ new₂ : List String} {out₁ out₂ : List Entry}
    (h₁ : Closes names A own₁ Q new₁ out₁)
    (h₂ : Closes names (fun levels => A levels ∧ Q levels) own₂ Q' new₂ out₂) :
    Closes names A (own₁ ++ own₂) Q' (new₂ ++ new₁) (out₁ ++ out₂) where
  covers x hx := by
    rw [List.map_append, List.mem_append]
    exact (List.mem_append.mp hx).imp (h₁.covers x) (h₂.covers x)
  within x hx := by
    rw [List.map_append, List.mem_append] at hx
    rw [List.mem_append, List.mem_append]
    rcases hx with hx | hx
    · exact (h₁.within x hx).imp Or.inl Or.inr
    · exact (h₂.within x hx).imp Or.inr Or.inl
  closed levels hassumed hheld := by
    rcases h₁.closed levels hassumed hheld.left with ⟨hentries₁, hq₁⟩
    rcases h₂.closed levels ⟨hassumed, hq₁⟩ hheld.right with ⟨hentries₂, hq₂⟩
    exact ⟨List.forall_mem_append.mpr ⟨hentries₁, hentries₂⟩, hq₂⟩

end

/-- Every successful run of the action adds closed entries. -/
def Closing {α : Type} (names : List String) (frames : List Frame) (A : List Level -> Prop)
    (x : Build α) (own : List String) (Q : α -> List Level -> Prop) : Prop :=
  Emitting frames x fun a => Closes names A own (Q a)

section

variable {α β : Type} {names : List String} {frames : List Frame} {A A' : List Level -> Prop}
  {own own' own₁ own₂ : List String}

theorem Closing.bind
    {x : Build α} {f : α -> Build β} {Q : α -> List Level -> Prop} {Q' : β -> List Level -> Prop}
    (hx : Closing names frames A x own₁ Q)
    (hf : forall a, Closing names frames (fun levels => A levels ∧ Q a levels) (f a) own₂ Q') :
    Closing names frames A (x >>= f) (own₁ ++ own₂) Q' := by
  refine Emitting.bind hx ?_
  intro a new₁ out₁ hmid
  refine (hf a).mono ?_
  intro r new₂ out₂ hlast
  exact hmid.append hlast

theorem Closing.pure
    {r : α} {Q : α -> List Level -> Prop} (hQ : forall levels, A levels -> Q r levels) :
    Closing names frames A (Pure.pure r) [] Q :=
  Emitting.pure (closes_nil hQ)

theorem Closing.mono
    {x : Build α} {Q : α -> List Level -> Prop} (hx : Closing names frames A x own Q)
    (hA : forall levels, A' levels -> A levels) :
    Closing names frames A' x own Q := by
  refine Emitting.mono hx ?_
  intro a new out h
  exact h.mono hA

theorem Closing.congr
    {x : Build α} {Q : α -> List Level -> Prop} (hx : Closing names frames A x own Q)
    (hown : forall x, x ∈ own <-> x ∈ own') :
    Closing names frames A x own' Q := by
  refine Emitting.mono hx ?_
  intro a new out h
  exact h.congr hown

theorem closing_define
    {id : String} {d : Def} (hd : forall levels, A levels -> WellFormed names levels d) :
    Closing names frames A (define id d) [id] fun _ _ => True := by
  refine (Emitting.define id d).mono ?_
  rintro _ _ _ ⟨rfl, rfl⟩
  refine ⟨fun x hx => hx, fun x hx => Or.inl hx, fun levels hassumed _ => ⟨?_, trivial⟩⟩
  exact List.forall_mem_singleton.mpr (hd levels hassumed)

theorem closing_fresh
    {f : String -> Build β} {Q : β -> List Level -> Prop}
    (hf : forall k, Closing names frames
      (fun levels => A levels ∧ Known names levels (candidate "" k)) (f (candidate "" k))
      (candidate "" k :: own) Q) :
    Closing names frames A (fresh frames >>= f) own Q := by
  refine Emitting.fresh.bind ?_
  rintro _ _ _ ⟨⟨k, rfl⟩, rfl, rfl⟩
  refine Emitting.mono (hf k) ?_
  intro r new out h
  exact h.introduce fun levels hassumed hknown => ⟨hassumed, hknown⟩

theorem closing_resolve (i : Ident) :
    Closing names frames (Visible names frames) (resolve frames i) [] fun id levels =>
      Known names levels id := by
  refine (Emitting.resolve i).mono ?_
  rintro target _ _ ⟨hresolve, rfl, rfl⟩
  refine closes_nil fun levels hvisible => ?_
  unfold Scope.resolve at hresolve
  split at hresolve
  · rename_i hglobal
    cases hresolve
    exact Or.inr (Or.inr hglobal)
  · split at hresolve
    · rename_i id hfound
      cases hresolve
      rcases List.exists_of_findSome?_eq_some hfound with ⟨frame, hframe, hlookup⟩
      exact hvisible _ (List.mem_flatMap.mpr ⟨frame, hframe, mem_identifiers_of_lookup hlookup⟩)
    · cases hresolve

end

/-!
## Functions
-/

section

variable {names : List String} {frames : List Frame}

theorem visible_function
    {frame : Frame} {space : Scope.Namespace} {params : List String} {levels : List Level}
    (hdeclared : Declared (.empty .owning) .empty params frame space)
    (hvisible : Visible names frames levels) (t : Table) :
    Visible names (frame :: frames) (⟨params, t⟩ :: levels) := by
  intro id hid
  rw [Scope.identifiers, List.flatMap_cons, List.mem_append] at hid
  rcases hid with hparam | houter
  · rw [Frame.identifiers, hdeclared.bindings_eq] at hparam
    refine Or.inl ⟨⟨params, t⟩, List.mem_cons_self, List.mem_append_left _ ?_⟩
    simpa [Frame.empty] using hparam
  · exact (hvisible id houter).cons _

theorem closing_function
    {params : List Ident} {body : List Frame -> Build Unit}
    (hparams : forall q, q ∈ params -> q.name ≠ Table.resultId)
    (hbody : forall frame, Closing names (frame :: frames) (Visible names (frame :: frames))
      (body (frame :: frames)) [Table.resultId] fun _ _ => True) :
    Closing names frames (Visible names frames) (function frames params body) []
      fun d levels => WellFormed names levels d := by
  intro b d b' hrun
  rcases run_function hrun with ⟨rfl, frame, space, inner, hdeclared, hinner, rfl⟩
  rcases hbody frame _ _ _ hinner with ⟨new, out, hgrows, hcloses⟩
  refine ⟨[], [], Grows.refl, closes_nil fun levels hvisible => ?_⟩
  have htable : inner.table = Table.collect out := hgrows.table_eq
  rw [htable]
  refine .func hdeclared.nodup ?_ ?_ ?_
  · intro q hq hkey
    rw [Table.mem_identifiers_collect] at hkey
    rcases hcloses.within q hkey with hresult | hnew
    · rcases List.mem_map.mp hq with ⟨i, hi, rfl⟩
      exact hparams i hi (List.mem_singleton.mp hresult)
    · apply hgrows.not_mem_names q hnew
      rw [hdeclared.names_eq]
      exact List.mem_append_left _ (List.mem_reverse.mpr hq)
  · rw [Table.mem_identifiers_collect]
    exact hcloses.covers _ List.mem_cons_self
  · intro entry hentry
    refine (hcloses.closed _ (visible_function hdeclared hvisible _) ?_).1 entry
      (Table.mem_of_mem_collect hentry)
    intro x hx
    exact (Table.mem_identifiers_collect out x).mpr hx

theorem closing_declaration
    {params : List Ident} {body : List Frame -> String -> Build Unit} (id : String)
    (hparams : forall q, q ∈ params -> q.name ≠ Table.resultId)
    (hbody : forall inner id, Closing names inner (Visible names inner) (body inner id) [id]
      fun _ _ => True) :
    Closing names frames (Visible names frames) (declaration frames id params body) [id]
      fun _ _ => True := by
  unfold declaration
  cases params with
  | nil => exact hbody frames id
  | cons q rest =>
      refine (closing_function hparams fun frame => hbody (frame :: frames) _).bind fun d => ?_
      exact closing_define fun levels h => h.2

/-!
## Expressions
-/

structure ClosedUses (names : List String) (frames : List Frame) (u : Uses) : Prop where
  into : forall id, Closing names frames (Visible names frames) (u.into id) [id] fun _ _ => True
  operand : Closing names frames (Visible names frames) u.operand []
    fun id levels => Known names levels id
  call : Closing names frames (Visible names frames) u.call []
    fun call levels => forall id, id ∈ call.1 :: call.2 -> Known names levels id

theorem closing_operand
    {into : String -> Build Unit}
    (hinto : forall id, Closing names frames (Visible names frames) (into id) [id]
      fun _ _ => True) :
    Closing names frames (Visible names frames) (Uses.ofInto frames into).operand []
      fun id levels => Known names levels id := by
  unfold Uses.ofInto
  refine closing_fresh fun k => ?_
  refine ((hinto _).mono fun _ h => h.1).bind fun _ => ?_
  exact Closing.pure fun levels h => h.1.2

theorem closedUses_ofInto
    {into : String -> Build Unit}
    (hinto : forall id, Closing names frames (Visible names frames) (into id) [id]
      fun _ _ => True) :
    ClosedUses names frames (.ofInto frames into) where
  into := hinto
  operand := closing_operand hinto
  call := by
    change Closing names frames (Visible names frames)
      ((Uses.ofInto frames into).operand >>= fun id => pure (id, [])) _ _
    refine (closing_operand hinto).bind fun id => ?_
    exact Closing.pure fun levels h => List.forall_mem_singleton.mpr h.2

theorem closedUses_define
    {d : Def} (hd : forall levels, WellFormed names levels d) :
    ClosedUses names frames (.ofInto frames fun id => define id d) :=
  closedUses_ofInto fun _ => closing_define fun levels _ => hd levels

theorem closedUses_ident (i : Ident) : ClosedUses names frames (uses frames (.ident i)) where
  into id := by
    rw [uses]
    refine (closing_resolve i).bind fun target => ?_
    exact closing_define fun levels h => .call (List.forall_mem_singleton.mpr h.2)
  operand := by
    rw [uses]
    exact closing_resolve i
  call := by
    rw [uses]
    refine (closing_resolve i).bind fun target => ?_
    exact Closing.pure fun levels h => List.forall_mem_singleton.mpr h.2

theorem closedUses_letIn
    (t : Token) (name : Ident) {params : List Ident} {value body : Expr}
    (hparams : forall q, q ∈ params -> q.name ≠ Table.resultId)
    (hvalue : forall inner, ClosedUses names inner (uses inner value))
    (hbody : forall inner, ClosedUses names inner (uses inner body)) :
    ClosedUses names frames (uses frames (.letIn t name params value body)) := by
  rw [uses]
  refine closedUses_ofInto fun id => ?_
  refine (Emitting.declareLet name).bind ?_
  rintro ⟨bound, inner⟩ _ _ ⟨_, hinner, rfl, rfl⟩
  dsimp only at hinner
  subst hinner
  have hinner : Closing names (⟨.transparent, [(name.name, bound)]⟩ :: frames)
      (Visible names (⟨.transparent, [(name.name, bound)]⟩ :: frames)) _ (bound :: [id]) fun _ _ =>
        True :=
    (closing_declaration bound hparams fun inner id => (hvalue inner).into id).bind fun _ =>
      ((hbody _).into id).mono fun _ h => h.1
  refine hinner.outer.mono ?_
  intro _ new out h
  refine h.introduce fun levels hvisible hknown => ?_
  intro x hx
  rcases List.mem_cons.mp hx with rfl | houter
  · exact hknown
  · exact hvisible x houter

theorem closedUses_application
    (t : Token) {left right : Expr}
    (hleft : ClosedUses names frames (uses frames left))
    (hright : ClosedUses names frames (uses frames right)) :
    ClosedUses names frames (uses frames (.binary t left .apply right)) := by
  have hcall : Closing names frames (Visible names frames)
      (uses frames (.binary t left .apply right)).call [] fun call levels =>
        forall id, id ∈ call.1 :: call.2 -> Known names levels id := by
    rw [uses]
    refine hleft.call.bind fun call => ?_
    refine (hright.operand.mono fun _ h => h.1).bind fun arg => ?_
    refine Closing.pure fun levels h => ?_
    rw [← List.cons_append, List.forall_mem_append, List.forall_mem_singleton]
    exact ⟨h.1.2, h.2⟩
  have hinto : forall id, Closing names frames (Visible names frames)
      ((uses frames (.binary t left .apply right)).into id) [id] fun _ _ => True := by
    intro id
    rw [uses] at hcall ⊢
    exact hcall.bind fun call => closing_define fun levels h => .call h.2
  refine ⟨hinto, ?_, hcall⟩
  rw [uses] at hinto ⊢
  exact closing_operand hinto

theorem closedUses_operation
    (t : Token) {left right : Expr} (op : Ident)
    (hleft : ClosedUses names frames (uses frames left))
    (hright : ClosedUses names frames (uses frames right)) :
    ClosedUses names frames (uses frames (.binary t left (.named op) right)) := by
  rw [uses]
  refine closedUses_ofInto fun id => ?_
  refine (closing_resolve op).bind fun target => ?_
  refine (hleft.operand.mono fun _ h => h.1).bind fun a => ?_
  refine (hright.operand.mono fun _ h => h.1.1).bind fun b => ?_
  refine closing_define fun levels h => .call ?_
  rcases h with ⟨⟨⟨_, htarget⟩, ha⟩, hb⟩
  rw [List.forall_mem_cons, List.forall_mem_cons, List.forall_mem_singleton]
  exact ⟨htarget, ha, hb⟩

theorem closedUses_cond
    (t : Token) {test yes no : Expr}
    (htest : ClosedUses names frames (uses frames test))
    (hyes : ClosedUses names frames (uses frames yes))
    (hno : ClosedUses names frames (uses frames no)) :
    ClosedUses names frames (uses frames (.cond t test yes no)) := by
  rw [uses]
  refine closedUses_ofInto fun id => ?_
  refine closing_fresh fun i => closing_fresh fun j => closing_fresh fun k => ?_
  have hown : forall x,
      x ∈ [candidate "" i] ++ ([candidate "" j] ++ ([candidate "" k] ++ [id])) <->
        x ∈ [candidate "" k, candidate "" j, candidate "" i, id] := by
    intro x
    simp only [List.mem_append, List.mem_cons, List.not_mem_nil, or_false]
    tauto
  refine Closing.congr ?_ hown
  refine ((htest.into _).mono fun _ h => h.1.1.1).bind fun _ => ?_
  refine ((hyes.into _).mono fun _ h => h.1.1.1.1).bind fun _ => ?_
  refine ((hno.into _).mono fun _ h => h.1.1.1.1.1).bind fun _ => ?_
  refine closing_define fun levels h => .switch (Scope.candidate_ne_empty _ _) ?_
  rcases h with ⟨⟨⟨⟨⟨⟨_, htest⟩, hyes⟩, hno⟩, _⟩, _⟩, _⟩
  rw [List.forall_mem_cons, List.forall_mem_cons, List.forall_mem_singleton]
  exact ⟨htest, hyes, hno⟩

theorem closedUses_list
    (t : Token) {es : List Expr}
    (hoperands : Closing names frames (Visible names frames) (operands frames es) []
      fun ids levels => forall id, id ∈ ids -> Known names levels id) :
    ClosedUses names frames (uses frames (.list t es)) := by
  rw [uses]
  refine closedUses_ofInto fun id => ?_
  cases hpacked : packed? es with
  | some cells => exact closing_define fun levels _ => .matrix (uniform_packed hpacked)
  | none => exact hoperands.bind fun ids => closing_define fun levels h => .list h.2

theorem closedUses_lambda
    (t : Token) {params : List Ident} {body : Expr}
    (hparams : forall q, q ∈ params -> q.name ≠ Table.resultId)
    (hbody : forall inner, ClosedUses names inner (uses inner body)) :
    ClosedUses names frames (uses frames (.lambda t params body)) := by
  rw [uses]
  refine closedUses_ofInto fun id => ?_
  refine (closing_function hparams fun frame => (hbody (frame :: frames)).into _).bind fun d => ?_
  exact closing_define fun levels h => h.2

end

def freeResult : NameRules where
  declared _ := True
  parameter q := q ≠ Table.resultId
  reference _ := True
  operator _ := True

mutual

theorem uses_closed {names : List String} :
    forall (e : Expr), e.Named freeResult -> forall frames, ClosedUses names frames (uses frames e)
  | .hole, _, frames => by
      rw [uses]
      apply closedUses_ofInto
      intro id b u b' hrun
      cases hrun
  | .ident i, _, _ => closedUses_ident i
  | .number _ _, _, _ => by
      rw [uses]
      exact closedUses_define fun _ => .number
  | .string _ _, _, _ => by
      rw [uses]
      exact closedUses_define fun _ => .string
  | .bool _ _, _, _ => by
      rw [uses]
      exact closedUses_define fun _ => .bool
  | .null _, _, _ => by
      rw [uses]
      exact closedUses_define fun _ => .null
  | .group _ e, hnamed, frames => by
      rw [uses]
      exact closedUses_ofInto (uses_closed e hnamed frames).into
  | .letIn t name _ value body, hnamed, _ =>
      closedUses_letIn t name hnamed.2.1 (uses_closed value hnamed.2.2.1)
        (uses_closed body hnamed.2.2.2)
  | .binary t left .apply right, hnamed, frames =>
      closedUses_application t (uses_closed left hnamed.1 frames)
        (uses_closed right hnamed.2.2 frames)
  | .binary t left (.named op) right, hnamed, frames =>
      closedUses_operation t op (uses_closed left hnamed.1 frames)
        (uses_closed right hnamed.2.2 frames)
  | .list t es, hnamed, frames => closedUses_list t (operands_closed es hnamed frames)
  | .cond t test yes no, hnamed, frames =>
      closedUses_cond t (uses_closed test hnamed.1 frames) (uses_closed yes hnamed.2.1 frames)
        (uses_closed no hnamed.2.2 frames)
  | .lambda t _ body, hnamed, _ => closedUses_lambda t hnamed.1 (uses_closed body hnamed.2)

theorem operands_closed {names : List String} :
    forall (es : List Expr), Expr.AllNamed freeResult es -> forall frames,
      Closing names frames (Visible names frames) (operands frames es) []
        fun ids levels => forall id, id ∈ ids -> Known names levels id
  | [], _, _ => by
      rw [operands]
      exact Closing.pure fun _ _ _ hid => absurd hid List.not_mem_nil
  | e :: es, hnamed, frames => by
      rw [operands]
      refine (uses_closed e hnamed.1 frames).operand.bind fun id => ?_
      refine ((operands_closed es hnamed.2 frames).mono fun _ h => h.1).bind fun ids => ?_
      exact Closing.pure fun levels h => List.forall_mem_cons.mpr ⟨h.1.2, h.2⟩

end

/-!
## Programs
-/

theorem closing_declarations
    {names : List String} {frames : List Frame} {ds : List Decl}
    (hnamed : forall d, d ∈ ds -> d.Named freeResult) :
    Closing names frames (Visible names frames) (declarations frames ds)
      (ds.map fun d => d.name.name) fun _ _ => True := by
  induction ds with
  | nil => exact Closing.pure fun _ _ => trivial
  | cons d ds ih =>
      have hd := hnamed d List.mem_cons_self
      refine (closing_declaration d.name.name hd.2.1 fun inner id =>
        (uses_closed d.body hd.2.2 inner).into id).bind fun _ => ?_
      exact (ih fun e he => hnamed e (List.mem_cons_of_mem d he)).mono fun _ h => h.1

theorem visible_program
    {names declared : List String} {frame : Frame} {space : Scope.Namespace} {t : Table}
    (hdeclared : Declared (Scope.root names).1 (Scope.root names).2 declared frame space)
    (hkeys : forall x, x ∈ declared -> x ∈ t.identifiers) :
    Visible names [frame] [⟨[], t⟩] := by
  intro id hid
  have hid : id ∈ declared ∨ id ∈ names := by
    simpa [Scope.identifiers, Frame.identifiers, hdeclared.bindings_eq, Scope.root] using hid
  rcases hid with hid | hid
  · exact Or.inl ⟨_, List.mem_cons_self, List.mem_append_right _ (hkeys id hid)⟩
  · exact Or.inr (Or.inl hid)

/-- A program that is lowered is lowered to a closed table. -/
theorem wellFormed_of_lower
    {p : Program} {extra : List String} {t : Table}
    (hnamed : p.Named freeResult) (hlower : p.lower extra = .ok t) :
    WellFormedTable (Builtin.names ++ extra) t := by
  rcases run_lower hlower with ⟨frame, space, b, hdeclared, hrun, rfl⟩
  have hclosing : Closing (Builtin.names ++ extra) [frame] _ (declarations [frame] p.decls) _ _ :=
    closing_declarations hnamed
  rcases hclosing _ _ _ hrun with ⟨new, out, hgrows, hcloses⟩
  have htable : b.table = Table.collect out := hgrows.table_eq
  rw [htable]
  have hvisible : Visible (Builtin.names ++ extra) [frame] [⟨[], Table.collect out⟩] :=
    visible_program hdeclared fun x hx =>
      (Table.mem_identifiers_collect out x).mpr (hcloses.covers x hx)
  intro entry hentry
  refine (hcloses.closed _ hvisible ?_).1 entry (Table.mem_of_mem_collect hentry)
  intro x hx
  exact (Table.mem_identifiers_collect out x).mpr hx

theorem wellFormed_of_lower_capturing :
    capturingProgram.Named freeResult ∧ WellFormedTable (Builtin.names ++ []) capturingTable := by
  have hnamed : capturingProgram.Named freeResult := by
    simp [Program.Named, capturingProgram, Decl.Named, Expr.Named, freeResult, Table.resultId]
  exact ⟨hnamed, wellFormed_of_lower hnamed capturing_lower⟩

end Lowering
end DefTable
