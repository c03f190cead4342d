import DefTable.Proofs.Lowering.Steps
import Mathlib.Data.List.Perm.Basic

/-!
# Two lowerings side by side

Two lowerings of the same expression go through the same steps.  If each step takes states that fit
together to states that fit together, so does the whole.  Besides the states a comparison follows
the identifiers that are reserved for definitions still to come: taking an identifier reserves it,
and putting a definition under it uses the reservation up.
-/

namespace DefTable
namespace Lowering

open Scope (Frame)

/-- The second result is a success where the first one is, with a related value; and where failures
are compared, it is the same failure in terms of its own. -/
def Accords {ε ε' α β : Type} (strict : Prop) (failure : ε -> ε') (A : α -> β -> Prop) :
    Except ε α -> Except ε' β -> Prop
  | .ok a, y => exists b, y = .ok b ∧ A a b
  | .error e, y => strict -> y = .error (failure e)

theorem Accords.bind
    {ε ε' α β γ δ : Type} {strict : Prop} {failure : ε -> ε'} {A : α -> β -> Prop}
    {B : γ -> δ -> Prop} {x : Except ε α} {y : Except ε' β} {f : α -> Except ε γ}
    {g : β -> Except ε' δ} (hx : Accords strict failure A x y)
    (hf : forall a b, A a b -> Accords strict failure B (f a) (g b)) :
    Accords strict failure B (x >>= f) (y >>= g) := by
  cases x with
  | error e =>
      intro hstrict
      rw [hx hstrict]
      rfl
  | ok a =>
      rcases hx with ⟨b, hy, hab⟩
      rw [hy]
      exact hf a b hab

theorem Accords.refl {ε α : Type} (strict : Prop) (x : Except ε α) : Accords strict id Eq x x := by
  cases x with
  | error e => exact fun _ => rfl
  | ok a => exact ⟨a, rfl, rfl⟩

structure Comparison (σ ε σ' ε' : Type) where
  strict : Prop
  failure : ε -> ε'
  scopes : List Frame -> List Frame -> Prop
  /-- States that fit together while some identifiers are reserved. -/
  states : List String -> σ -> σ' -> Prop
  states_perm : forall {pending pending' s s'},
    pending.Perm pending' -> states pending s s' -> states pending' s s'

namespace Comparison

variable {σ ε σ' ε' : Type} (C : Comparison σ ε σ' ε')

/-- The two actions do alike: they use up the reservations `before` and make the reservations
`after`, whatever else is reserved. -/
def Alike {α β : Type} (before : List String) (A : α -> β -> Prop) (after : α -> List String)
    (x : StateT σ (Except ε) α) (y : StateT σ' (Except ε') β) : Prop :=
  forall pending s s', C.states (before ++ pending) s s' ->
    Accords C.strict C.failure
      (fun r r' => A r.1 r'.1 ∧ C.states (after r.1 ++ pending) r.2 r'.2) (x.run s) (y.run s')

namespace Alike

variable {C} {α β γ δ : Type} {before rest : List String} {A : α -> β -> Prop}
  {B : γ -> δ -> Prop} {mid : α -> List String} {after : γ -> List String}
  {x : StateT σ (Except ε) α} {y : StateT σ' (Except ε') β}
  {f : α -> StateT σ (Except ε) γ} {g : β -> StateT σ' (Except ε') δ}

theorem pure {a : α} {b : β} (h : A a b) : C.Alike [] A (fun _ => []) (pure a) (pure b) :=
  fun _ _ s' hs => ⟨(b, s'), rfl, h, hs⟩

theorem lift {x : Except ε α} {y : Except ε' β} (h : Accords C.strict C.failure A x y) :
    C.Alike [] A (fun _ => []) (liftM x) (liftM y) := by
  intro pending s s' hs
  cases x with
  | error e =>
      intro hstrict
      rw [h hstrict]
      rfl
  | ok a =>
      rcases h with ⟨b, heq, hab⟩
      rw [heq]
      exact ⟨(b, s'), rfl, hab, hs⟩

theorem perm {before' : List String} (hperm : before.Perm before') (hx : C.Alike before A mid x y) :
    C.Alike before' A mid x y :=
  fun pending s s' hs => hx pending s s' (C.states_perm (hperm.symm.append_right pending) hs)

theorem bind
    (hx : C.Alike [] A mid x y)
    (hf : forall a b, A a b -> C.Alike (mid a ++ rest) B after (f a) (g b)) :
    C.Alike rest B after (x >>= f) (y >>= g) := by
  intro pending s s' hs
  rw [StateT.run_bind, StateT.run_bind]
  refine (hx (rest ++ pending) s s' hs).bind ?_
  intro r r' hr
  have hstates := hr.2
  rw [← List.append_assoc] at hstates
  exact hf r.1 r'.1 hr.1 pending r.2 r'.2 hstates

theorem andThen
    {id : String} {x : StateT σ (Except ε) Unit} {y : StateT σ' (Except ε') Unit}
    {f : Unit -> StateT σ (Except ε) γ} {g : Unit -> StateT σ' (Except ε') δ}
    (hx : C.Alike [id] Eq (fun _ => []) x y) (hf : C.Alike rest B after (f ()) (g ())) :
    C.Alike (id :: rest) B after (x >>= f) (y >>= g) := by
  intro pending s s' hs
  rw [StateT.run_bind, StateT.run_bind]
  refine (hx (rest ++ pending) s s' hs).bind ?_
  intro r r' hr
  exact hf pending r.2 r'.2 hr.2

end Alike

/-- Every step of the two lowerings does alike. -/
structure Respects (S : Steps (StateT σ (Except ε))) (S' : Steps (StateT σ' (Except ε'))) :
    Prop where
  define : forall id d, C.Alike [id] Eq (fun _ => []) (S.define id d) (S'.define id d)
  fresh : forall frames frames', C.scopes frames frames' ->
    C.Alike [] Eq (fun id => [id]) (S.fresh frames) (S'.fresh frames')
  resolve : forall frames frames' i, C.scopes frames frames' ->
    C.Alike [] Eq (fun _ => []) (S.resolve frames i) (S'.resolve frames' i)
  declareLet : forall frames frames' i, C.scopes frames frames' ->
    C.Alike [] (fun r r' => r.1 = r'.1 ∧ C.scopes r.2 r'.2) (fun r => [r.1])
      (S.declareLet frames i) (S'.declareLet frames' i)
  function : forall frames frames' params body body', C.scopes frames frames' ->
    (forall inner inner', C.scopes inner inner' ->
      C.Alike [Table.resultId] Eq (fun _ => []) (body inner) (body' inner')) ->
    C.Alike [] Eq (fun _ => []) (S.function frames params body) (S'.function frames' params body')
  missing : forall id, C.Alike [id] Eq (fun _ => []) S.missing S'.missing

structure UsesAlike (u : UsesIn (StateT σ (Except ε))) (u' : UsesIn (StateT σ' (Except ε'))) :
    Prop where
  into : forall id, C.Alike [id] Eq (fun _ => []) (u.into id) (u'.into id)
  operand : C.Alike [] Eq (fun _ => []) u.operand u'.operand
  call : C.Alike [] Eq (fun _ => []) u.call u'.call

namespace Respects

variable {C} {S : Steps (StateT σ (Except ε))} {S' : Steps (StateT σ' (Except ε'))}

theorem ofInto
    (h : C.Respects S S') {frames frames' : List Frame} (hscopes : C.scopes frames frames')
    {into : String -> StateT σ (Except ε) Unit} {into' : String -> StateT σ' (Except ε') Unit}
    (hinto : forall id, C.Alike [id] Eq (fun _ => []) (into id) (into' id)) :
    C.UsesAlike (S.ofInto frames into) (S'.ofInto frames' into') := by
  have hoperand : C.Alike [] Eq (fun _ => []) (S.ofInto frames into).operand
      (S'.ofInto frames' into').operand := by
    apply (h.fresh frames frames' hscopes).bind
    intro id id' heq
    subst heq
    exact (hinto id).andThen (.pure rfl)
  constructor
  · exact hinto
  · exact hoperand
  · apply hoperand.bind
    intro id id' heq
    subst heq
    exact .pure rfl

theorem declaration
    (h : C.Respects S S') {frames frames' : List Frame} (hscopes : C.scopes frames frames')
    (id : String) (params : List Ident) {body : List Frame -> String -> StateT σ (Except ε) Unit}
    {body' : List Frame -> String -> StateT σ' (Except ε') Unit}
    (hbody : forall inner inner' id, C.scopes inner inner' ->
      C.Alike [id] Eq (fun _ => []) (body inner id) (body' inner' id)) :
    C.Alike [id] Eq (fun _ => []) (S.declaration frames id params body)
      (S'.declaration frames' id params body') := by
  unfold Steps.declaration
  cases params with
  | nil => exact hbody frames frames' id hscopes
  | cons q rest =>
      have hfunction := h.function frames frames' (q :: rest) _ _ hscopes
        fun inner inner' hinner => hbody inner inner' Table.resultId hinner
      apply hfunction.bind
      intro d d' heq
      subst heq
      exact h.define id d

/-!
## Expressions
-/

section

variable {frames frames' : List Frame}

theorem ident (h : C.Respects S S') (hscopes : C.scopes frames frames') (i : Ident) :
    C.UsesAlike (S.uses frames (.ident i)) (S'.uses frames' (.ident i)) := by
  have hresolve := h.resolve frames frames' i hscopes
  rw [Steps.uses, Steps.uses]
  constructor
  · intro id
    apply hresolve.bind
    intro target target' heq
    subst heq
    exact h.define id _
  · exact hresolve
  · apply hresolve.bind
    intro target target' heq
    subst heq
    exact .pure rfl

theorem application
    (h : C.Respects S S') (hscopes : C.scopes frames frames') (t : Token) {left right : Expr}
    (hleft : C.UsesAlike (S.uses frames left) (S'.uses frames' left))
    (hright : C.UsesAlike (S.uses frames right) (S'.uses frames' right)) :
    C.UsesAlike (S.uses frames (.binary t left .apply right))
      (S'.uses frames' (.binary t left .apply right)) := by
  have hcall : C.Alike [] Eq (fun _ => []) (S.uses frames (.binary t left .apply right)).call
      (S'.uses frames' (.binary t left .apply right)).call := by
    rw [Steps.uses, Steps.uses]
    apply hleft.call.bind
    intro call call' heq
    subst heq
    apply hright.operand.bind
    intro arg arg' heq
    subst heq
    exact .pure rfl
  have hinto : forall id, C.Alike [id] Eq (fun _ => [])
      ((S.uses frames (.binary t left .apply right)).into id)
      ((S'.uses frames' (.binary t left .apply right)).into id) := by
    intro id
    rw [Steps.uses, Steps.uses] at hcall ⊢
    apply hcall.bind
    intro call call' heq
    subst heq
    exact h.define id _
  constructor
  · exact hinto
  · rw [Steps.uses, Steps.uses] at hinto ⊢
    exact (h.ofInto hscopes hinto).operand
  · exact hcall

theorem operation
    (h : C.Respects S S') (hscopes : C.scopes frames frames') (t : Token) (op : Ident)
    {left right : Expr} (hleft : C.UsesAlike (S.uses frames left) (S'.uses frames' left))
    (hright : C.UsesAlike (S.uses frames right) (S'.uses frames' right)) :
    C.UsesAlike (S.uses frames (.binary t left (.named op) right))
      (S'.uses frames' (.binary t left (.named op) right)) := by
  rw [Steps.uses, Steps.uses]
  apply h.ofInto hscopes
  intro id
  apply (h.resolve frames frames' op hscopes).bind
  intro target target' heq
  subst heq
  apply hleft.operand.bind
  intro a a' heq
  subst heq
  apply hright.operand.bind
  intro b b' heq
  subst heq
  exact h.define id _

theorem letIn
    (h : C.Respects S S') (hscopes : C.scopes frames frames') (t : Token) (name : Ident)
    (params : List Ident) {value body : Expr}
    (hvalue : forall inner inner', C.scopes inner inner' ->
      C.UsesAlike (S.uses inner value) (S'.uses inner' value))
    (hbody : forall inner inner', C.scopes inner inner' ->
      C.UsesAlike (S.uses inner body) (S'.uses inner' body)) :
    C.UsesAlike (S.uses frames (.letIn t name params value body))
      (S'.uses frames' (.letIn t name params value body)) := by
  rw [Steps.uses, Steps.uses]
  apply h.ofInto hscopes
  intro id
  apply (h.declareLet frames frames' name hscopes).bind
  intro bound bound' hbound
  rcases bound with ⟨bound, inner⟩
  rcases bound' with ⟨bound', inner'⟩
  rcases hbound with ⟨heq, hinner⟩
  dsimp only at heq hinner
  subst heq
  have hdeclaration := h.declaration hinner bound params
    fun inner inner' id hscopes => (hvalue inner inner' hscopes).into id
  exact hdeclaration.andThen ((hbody inner inner' hinner).into id)

theorem cond
    (h : C.Respects S S') (hscopes : C.scopes frames frames') (t : Token) {test yes no : Expr}
    (htest : C.UsesAlike (S.uses frames test) (S'.uses frames' test))
    (hyes : C.UsesAlike (S.uses frames yes) (S'.uses frames' yes))
    (hno : C.UsesAlike (S.uses frames no) (S'.uses frames' no)) :
    C.UsesAlike (S.uses frames (.cond t test yes no)) (S'.uses frames' (.cond t test yes no)) := by
  rw [Steps.uses, Steps.uses]
  apply h.ofInto hscopes
  intro id
  have hfresh := h.fresh frames frames' hscopes
  apply hfresh.bind
  intro testId testId' heq
  subst heq
  apply hfresh.bind
  intro yesId yesId' heq
  subst heq
  apply hfresh.bind
  intro noId noId' heq
  subst heq
  have horder : [testId, yesId, noId, id].Perm [noId, yesId, testId, id] :=
    (List.reverse_perm [testId, yesId, noId]).symm.append_right [id]
  apply Alike.perm horder
  apply (htest.into testId).andThen
  apply (hyes.into yesId).andThen
  apply (hno.into noId).andThen
  exact h.define id _

theorem list
    (h : C.Respects S S') (hscopes : C.scopes frames frames') (t : Token) {es : List Expr}
    (hes : C.Alike [] Eq (fun _ => []) (S.operands frames es) (S'.operands frames' es)) :
    C.UsesAlike (S.uses frames (.list t es)) (S'.uses frames' (.list t es)) := by
  rw [Steps.uses, Steps.uses]
  apply h.ofInto hscopes
  intro id
  cases packed? es with
  | some cells => exact h.define id _
  | none =>
      apply hes.bind
      intro ids ids' heq
      subst heq
      exact h.define id _

theorem lambda
    (h : C.Respects S S') (hscopes : C.scopes frames frames') (t : Token) (params : List Ident)
    {body : Expr} (hbody : forall inner inner', C.scopes inner inner' ->
      C.UsesAlike (S.uses inner body) (S'.uses inner' body)) :
    C.UsesAlike (S.uses frames (.lambda t params body))
      (S'.uses frames' (.lambda t params body)) := by
  rw [Steps.uses, Steps.uses]
  apply h.ofInto hscopes
  intro id
  have hfunction := h.function frames frames' params _ _ hscopes
    fun inner inner' hinner => (hbody inner inner' hinner).into Table.resultId
  apply hfunction.bind
  intro d d' heq
  subst heq
  exact h.define id d

end

mutual

theorem uses (h : C.Respects S S') :
    forall (e : Expr) (frames frames' : List Frame), C.scopes frames frames' ->
      C.UsesAlike (S.uses frames e) (S'.uses frames' e)
  | .hole, _, _, hscopes => by
      rw [Steps.uses, Steps.uses]
      exact h.ofInto hscopes h.missing
  | .group _ e, frames, frames', hscopes => by
      rw [Steps.uses, Steps.uses]
      exact h.ofInto hscopes (uses h e frames frames' hscopes).into
  | .ident i, _, _, hscopes => h.ident hscopes i
  | .number _ v, _, _, hscopes => by
      rw [Steps.uses, Steps.uses]
      exact h.ofInto hscopes fun id => h.define id _
  | .string _ v, _, _, hscopes => by
      rw [Steps.uses, Steps.uses]
      exact h.ofInto hscopes fun id => h.define id _
  | .bool _ v, _, _, hscopes => by
      rw [Steps.uses, Steps.uses]
      exact h.ofInto hscopes fun id => h.define id _
  | .null _, _, _, hscopes => by
      rw [Steps.uses, Steps.uses]
      exact h.ofInto hscopes fun id => h.define id _
  | .letIn t name params value body, _, _, hscopes =>
      h.letIn hscopes t name params (uses h value) (uses h body)
  | .binary t left .apply right, frames, frames', hscopes =>
      h.application hscopes t (uses h left frames frames' hscopes)
        (uses h right frames frames' hscopes)
  | .binary t left (.named op) right, frames, frames', hscopes =>
      h.operation hscopes t op (uses h left frames frames' hscopes)
        (uses h right frames frames' hscopes)
  | .list t es, frames, frames', hscopes =>
      h.list hscopes t (operands h es frames frames' hscopes)
  | .cond t test yes no, frames, frames', hscopes =>
      h.cond hscopes t (uses h test frames frames' hscopes) (uses h yes frames frames' hscopes)
        (uses h no frames frames' hscopes)
  | .lambda t params body, _, _, hscopes => h.lambda hscopes t params (uses h body)

theorem operands (h : C.Respects S S') :
    forall (es : List Expr) (frames frames' : List Frame), C.scopes frames frames' ->
      C.Alike [] Eq (fun _ => []) (S.operands frames es) (S'.operands frames' es)
  | [], _, _, _ => by
      rw [Steps.operands, Steps.operands]
      exact .pure rfl
  | e :: es, frames, frames', hscopes => by
      rw [Steps.operands, Steps.operands]
      apply (uses h e frames frames' hscopes).operand.bind
      intro id id' heq
      subst heq
      apply (operands h es frames frames' hscopes).bind
      intro ids ids' heq
      subst heq
      exact .pure rfl

end

/-!
## Programs
-/

theorem declarations
    (h : C.Respects S S') {frames frames' : List Frame} (hscopes : C.scopes frames frames')
    (ds : List Decl) :
    C.Alike (ds.map fun d => d.name.name) Eq (fun _ => []) (S.declarations frames ds)
      (S'.declarations frames' ds) := by
  induction ds with
  | nil => exact .pure rfl
  | cons d ds ih =>
      have hdeclaration := h.declaration hscopes d.name.name d.params
        fun inner inner' id hinner => (h.uses d.body inner inner' hinner).into id
      exact hdeclaration.andThen ih

end Respects
end Comparison
end Lowering
end DefTable
