import DefTable.Lowering
import DefTable.Proofs.Expr.Alike

/-!
# Lowering expressions that are alike

Expressions that are alike are lowered to the same definitions.  Only errors can tell them apart,
because these name a token.
-/

namespace DefTable
namespace Lowering

open Scope (Frame)
open DefTable.Expr (Alike AllAlike)

variable {α β : Type}

/-!
## Builds that follow each other
-/

def Follows (m m' : Build α) : Prop :=
  forall b r, m.run b = .ok r -> m'.run b = .ok r

theorem Follows.refl (m : Build α) : Follows m m :=
  fun _ _ h => h

theorem Follows.bind
    {m m' : Build α} {f f' : α -> Build β} (hm : Follows m m')
    (hf : forall a, Follows (f a) (f' a)) : Follows (m >>= f) (m' >>= f') := by
  intro b r h
  rw [StateT.run_bind] at h ⊢
  cases hrun : m.run b with
  | error e =>
      rw [hrun] at h
      cases h
  | ok made =>
      rw [hrun] at h
      rw [hm b made hrun]
      exact hf made.1 made.2 r h

theorem Follows.lift
    {x x' : Except Error α} (h : forall a, x = .ok a -> x' = .ok a) :
    Follows (liftM x : Build α) (liftM x') := by
  intro b r hrun
  cases x with
  | error e => cases hrun
  | ok a =>
      rw [h a rfl]
      exact hrun

theorem follows_resolve
    (frames : List Frame) {i i' : Ident} (h : i.name = i'.name) :
    Follows (resolve frames i) (resolve frames i') := by
  unfold resolve
  rw [h]
  cases Scope.resolve frames i'.name with
  | ok id => exact Follows.refl _
  | error e =>
      intro b r hrun
      cases hrun

theorem follows_declareLet
    (frames : List Frame) {i i' : Ident} (h : i.name = i'.name) :
    Follows (declareLet frames i) (declareLet frames i') := by
  intro b r hrun
  unfold declareLet at hrun ⊢
  rw [h] at hrun
  exact hrun

theorem declareAll_congr
    (outer : List Frame) {idents idents' : List Ident}
    (h : idents.map Ident.name = idents'.map Ident.name) (state : Frame × Scope.Namespace) :
    forall made, declareAll outer state idents = .ok made ->
      declareAll outer state idents' = .ok made := by
  induction idents generalizing idents' state with
  | nil =>
      cases idents' with
      | nil => exact fun _ hmade => hmade
      | cons i' rest' => cases h
  | cons i rest ih =>
      cases idents' with
      | nil => cases h
      | cons i' rest' =>
          rcases List.cons.inj h with ⟨hname, hrest⟩
          rcases state with ⟨frame, space⟩
          intro made hmade
          rw [declareAll] at hmade ⊢
          rw [← hname]
          cases hdeclare : Scope.declare frame outer space i.name with
          | error e =>
              rw [hdeclare] at hmade
              cases hmade
          | ok taken =>
              rw [hdeclare] at hmade
              exact ih hrest _ made hmade

theorem follows_function
    (frames : List Frame) {params params' : List Ident}
    (h : params.map Ident.name = params'.map Ident.name) {body body' : List Frame -> Build Unit}
    (hbody : forall inner, Follows (body inner) (body' inner)) :
    Follows (function frames params body) (function frames params' body') := by
  unfold function
  apply Follows.bind (Follows.lift (declareAll_congr frames h _))
  intro state
  apply Follows.bind (Follows.lift (hbody (state.1 :: frames) ⟨state.2, []⟩))
  intro made
  rw [h]
  exact Follows.refl _

theorem follows_declaration
    (frames : List Frame) (id : String) {params params' : List Ident}
    (h : params.map Ident.name = params'.map Ident.name)
    {body body' : List Frame -> String -> Build Unit}
    (hbody : forall inner id, Follows (body inner id) (body' inner id)) :
    Follows (declaration frames id params body) (declaration frames id params' body') := by
  unfold declaration
  cases params with
  | nil =>
      cases params' with
      | nil => exact hbody frames id
      | cons q' params' => cases h
  | cons q params =>
      cases params' with
      | nil => cases h
      | cons q' params' =>
          apply Follows.bind (follows_function frames h fun inner => hbody inner Table.resultId)
          exact fun d => Follows.refl _

/-!
## Expressions
-/

structure Uses.Follow (u u' : Uses) : Prop where
  into : forall id, Follows (u.into id) (u'.into id)
  operand : Follows u.operand u'.operand
  call : Follows u.call u'.call

theorem follows_operand
    (frames : List Frame) {into into' : String -> Build Unit}
    (hinto : forall id, Follows (into id) (into' id)) :
    Follows (Uses.ofInto frames into).operand (Uses.ofInto frames into').operand := by
  apply Follows.bind (Follows.refl _)
  intro id
  apply Follows.bind (hinto id)
  exact fun _ => Follows.refl _

theorem follow_ofInto
    (frames : List Frame) {into into' : String -> Build Unit}
    (hinto : forall id, Follows (into id) (into' id)) :
    Uses.Follow (.ofInto frames into) (.ofInto frames into') where
  into := hinto
  operand := follows_operand frames hinto
  call := by
    change Follows (do return (← (Uses.ofInto frames into).operand, []))
      (do return (← (Uses.ofInto frames into').operand, []))
    apply Follows.bind (follows_operand frames hinto)
    exact fun _ => Follows.refl _

theorem uses_of_isOpenEnded
    {e : Expr} (h : e.isOpenEnded = true) (frames : List Frame) :
    uses frames e = .ofInto frames (uses frames e).into := by
  cases e with
  | letIn t name params value body => rw [uses]; rfl
  | cond t test yes no => rw [uses]; rfl
  | lambda t params body => rw [uses]; rfl
  | _ => cases h

theorem mapM_congr
    {f : Expr -> Option Cell} (hf : forall e e', Alike e e' -> f e = f e') :
    forall {es es' : List Expr}, AllAlike es es' -> es.mapM f = es'.mapM f
  | _, _, .nil => rfl
  | _, _, .cons he hes => by
      rw [List.mapM_cons, List.mapM_cons, hf _ _ he, mapM_congr hf hes]

theorem packed_congr {es es' : List Expr} (h : AllAlike es es') : packed? es = packed? es' := by
  unfold packed?
  dsimp only
  congr 1
  · apply mapM_congr _ h
    intro e e' he
    cases he with
    | enclosed hopen _ =>
        cases e with
        | number t v => cases hopen
        | _ => rfl
    | _ => rfl
  · funext _
    apply mapM_congr _ h
    intro e e' he
    cases he with
    | enclosed hopen _ =>
        cases e with
        | bool t v => cases hopen
        | _ => rfl
    | _ => rfl

section

variable {frames : List Frame}

theorem application_follow
    (t t' : Token) {left left' right right' : Expr}
    (hleft : Uses.Follow (uses frames left) (uses frames left'))
    (hright : Uses.Follow (uses frames right) (uses frames right')) :
    Uses.Follow (uses frames (.binary t left .apply right))
      (uses frames (.binary t' left' .apply right')) := by
  have hcall : Follows (uses frames (.binary t left .apply right)).call
      (uses frames (.binary t' left' .apply right')).call := by
    rw [uses, uses]
    apply Follows.bind hleft.call
    intro made
    apply Follows.bind hright.operand
    exact fun _ => Follows.refl _
  have hinto : forall id, Follows ((uses frames (.binary t left .apply right)).into id)
      ((uses frames (.binary t' left' .apply right')).into id) := by
    rw [uses, uses] at hcall ⊢
    intro id
    apply Follows.bind hcall
    exact fun _ => Follows.refl _
  refine ⟨hinto, ?_, hcall⟩
  rw [uses, uses] at hinto ⊢
  exact follows_operand frames hinto

theorem operation_follow
    (t t' : Token) {left left' right right' : Expr} {op op' : Ident} (hop : op.name = op'.name)
    (hleft : Uses.Follow (uses frames left) (uses frames left'))
    (hright : Uses.Follow (uses frames right) (uses frames right')) :
    Uses.Follow (uses frames (.binary t left (.named op) right))
      (uses frames (.binary t' left' (.named op') right')) := by
  rw [uses, uses]
  apply follow_ofInto frames
  intro id
  apply Follows.bind (follows_resolve frames hop)
  intro target
  apply Follows.bind hleft.operand
  intro a
  apply Follows.bind hright.operand
  exact fun b => Follows.refl _

theorem cond_follow
    (t t' : Token) {test test' yes yes' no no' : Expr}
    (htest : Uses.Follow (uses frames test) (uses frames test'))
    (hyes : Uses.Follow (uses frames yes) (uses frames yes'))
    (hno : Uses.Follow (uses frames no) (uses frames no')) :
    Uses.Follow (uses frames (.cond t test yes no)) (uses frames (.cond t' test' yes' no')) := by
  rw [uses, uses]
  apply follow_ofInto frames
  intro id
  apply Follows.bind (Follows.refl _)
  intro testId
  apply Follows.bind (Follows.refl _)
  intro yesId
  apply Follows.bind (Follows.refl _)
  intro noId
  apply Follows.bind (htest.into testId)
  intro _
  apply Follows.bind (hyes.into yesId)
  intro _
  apply Follows.bind (hno.into noId)
  exact fun _ => Follows.refl _

end

mutual

theorem uses_follow :
    forall {e e' : Expr}, Alike e e' -> forall frames,
      Uses.Follow (uses frames e) (uses frames e')
  | _, _, .hole, frames => by
      rw [uses]
      exact follow_ofInto frames fun _ => Follows.refl _
  | _, _, .ident h, frames => by
      rw [uses, uses]
      refine ⟨?_, follows_resolve frames h, ?_⟩
      · intro id
        apply Follows.bind (follows_resolve frames h)
        exact fun _ => Follows.refl _
      · apply Follows.bind (follows_resolve frames h)
        exact fun _ => Follows.refl _
  | _, _, .number, frames => by
      rw [uses, uses]
      exact follow_ofInto frames fun _ => Follows.refl _
  | _, _, .string, frames => by
      rw [uses, uses]
      exact follow_ofInto frames fun _ => Follows.refl _
  | _, _, .bool, frames => by
      rw [uses, uses]
      exact follow_ofInto frames fun _ => Follows.refl _
  | _, _, .null, frames => by
      rw [uses, uses]
      exact follow_ofInto frames fun _ => Follows.refl _
  | _, _, .group h, frames => by
      rw [uses, uses]
      exact follow_ofInto frames (uses_follow h frames).into
  | _, _, .letIn hname hparams hvalue hbody, frames => by
      rw [uses, uses]
      apply follow_ofInto frames
      intro id
      apply Follows.bind (follows_declareLet frames hname)
      intro bound
      apply Follows.bind (follows_declaration bound.2 bound.1 hparams
        fun inner id => (uses_follow hvalue inner).into id)
      exact fun _ => (uses_follow hbody bound.2).into id
  | _, _, @Alike.binary t t' left left' .apply op' right right' hleft hop hright, frames => by
      cases op' with
      | named i' => cases hop
      | apply => exact application_follow t t' (uses_follow hleft frames) (uses_follow hright frames)
  | _, _, @Alike.binary t t' left left' (.named i) op' right right' hleft hop hright, frames => by
      cases op' with
      | apply => cases hop
      | named i' =>
          exact operation_follow t t' (Option.some.inj hop) (uses_follow hleft frames)
            (uses_follow hright frames)
  | _, _, @Alike.list t t' es es' h, frames => by
      rw [uses, uses, packed_congr h]
      apply follow_ofInto frames
      intro id
      cases packed? es' with
      | some cells => exact Follows.refl _
      | none =>
          apply Follows.bind (operands_follow h frames)
          exact fun _ => Follows.refl _
  | _, _, @Alike.cond t t' _ _ _ _ _ _ htest hyes hno, frames =>
      cond_follow t t' (uses_follow htest frames) (uses_follow hyes frames)
        (uses_follow hno frames)
  | _, _, .lambda hparams hbody, frames => by
      rw [uses, uses]
      apply follow_ofInto frames
      intro id
      apply Follows.bind (follows_function frames hparams
        fun inner => (uses_follow hbody inner).into Table.resultId)
      exact fun _ => Follows.refl _
  | _, _, @Alike.enclosed t e e' hopen h, frames => by
      rw [uses_of_isOpenEnded hopen frames, uses]
      exact follow_ofInto frames (uses_follow h frames).into

theorem operands_follow :
    forall {es es' : List Expr}, AllAlike es es' -> forall frames,
      Follows (operands frames es) (operands frames es')
  | _, _, .nil, frames => Follows.refl _
  | _, _, .cons he hes, frames => by
      rw [operands, operands]
      apply Follows.bind (uses_follow he frames).operand
      intro id
      apply Follows.bind (operands_follow hes frames)
      exact fun _ => Follows.refl _

end

/-!
## Programs
-/

theorem names_of_alike
    {ds ds' : List Decl} (h : List.Forall₂ Decl.Alike ds ds') :
    (ds.map Decl.name).map Ident.name = (ds'.map Decl.name).map Ident.name := by
  induction h with
  | nil => rfl
  | cons hd _ ih =>
      simp only [List.map_cons, List.cons.injEq]
      exact ⟨hd.name, ih⟩

theorem declarations_follow
    (frames : List Frame) {ds ds' : List Decl} (h : List.Forall₂ Decl.Alike ds ds') :
    Follows (declarations frames ds) (declarations frames ds') := by
  induction h with
  | nil => exact Follows.refl _
  | @cons d d' ds ds' hd _ ih =>
      rw [declarations, declarations, hd.name]
      apply Follows.bind (follows_declaration frames d'.name.name hd.params
        fun inner id => (uses_follow hd.body inner).into id)
      exact fun _ => ih

end Lowering

theorem Program.lower_of_alike
    {p p' : Program} (h : List.Forall₂ Decl.Alike p.decls p'.decls) {extra : List String}
    {t : Table} (hlower : p.lower extra = .ok t) : p'.lower extra = .ok t := by
  unfold Program.lower at hlower ⊢
  cases hall : Lowering.declareAll [] (Scope.root (Builtin.names ++ extra))
      (p.decls.map Decl.name) with
  | error e =>
      rw [hall] at hlower
      cases hlower
  | ok state =>
      rw [hall] at hlower
      rw [Lowering.declareAll_congr [] (Lowering.names_of_alike h) _ state hall]
      change ((Lowering.declarations [state.1] p.decls).run ⟨state.2, []⟩ >>= fun made =>
        pure made.2.table) = .ok t at hlower
      change ((Lowering.declarations [state.1] p'.decls).run ⟨state.2, []⟩ >>= fun made =>
        pure made.2.table) = .ok t
      cases hrun : (Lowering.declarations [state.1] p.decls).run ⟨state.2, []⟩ with
      | error e =>
          rw [hrun] at hlower
          cases hlower
      | ok made =>
          rw [hrun] at hlower
          rw [Lowering.declarations_follow [state.1] h _ made hrun]
          exact hlower

end DefTable
