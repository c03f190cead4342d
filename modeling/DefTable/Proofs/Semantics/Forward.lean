import DefTable.Proofs.Semantics.Simulation

/-!
# From programs to tables

Whatever an expression evaluates to, looking up its identifier in the frames gives a related value.
The argument follows the evaluation of the source: the recursive calls of one step are taken to have
this property, and the step is shown to have it too.
-/

namespace DefTable
namespace Semantics

open Lowering
open Scope (candidate)
open Table (Entry)
open Target (Frame locate?)

theorem mapM_related
    {α β γ δ : Type} {f : α -> Option β} {g : γ -> Option δ} {P : α -> γ -> Prop}
    {R : β -> δ -> Prop}
    (h : forall a c b, P a c -> f a = some b -> exists d, g c = some d ∧ R b d)
    {as : List α} {cs : List γ} {bs : List β} (hP : List.Forall₂ P as cs)
    (hmap : as.mapM f = some bs) :
    exists ds, cs.mapM g = some ds ∧ List.Forall₂ R bs ds := by
  induction hP generalizing bs with
  | nil =>
      cases hmap
      exact ⟨[], rfl, .nil⟩
  | @cons a c as cs hfirst _ ih =>
      rw [List.mapM_cons] at hmap
      rcases Option.bind_eq_some_iff.mp hmap with ⟨b, hb, hmap⟩
      rcases Option.bind_eq_some_iff.mp hmap with ⟨bs', hbs, hmap⟩
      cases hmap
      rcases h a c b hfirst hb with ⟨d, hd, hR⟩
      rcases ih hbs with ⟨ds, hds, hRs⟩
      refine ⟨d :: ds, ?_, .cons hR hRs⟩
      rw [List.mapM_cons, hd, hds]
      rfl

/-!
## Values of identifiers
-/

section

variable {I : Interpretation}

theorem lookup_of_locate
    {frames inner : List Frame} {id : String} {d : Def}
    (h : locate? frames id = some (.entry d inner)) :
    Target.lookup I frames id = Target.eval I inner d := by
  rw [Target.lookup, h]

def Yields (I : Interpretation) (frames : List Frame) (id : String) (v : Value Source.Closure) :
    Prop :=
  exists w, Target.lookup I frames id = some w ∧ Related v w

theorem yields_of_locate
    {frames inner : List Frame} {id : String} {d : Def} {v : Value Source.Closure}
    {w : Value Target.Closure} (h : locate? frames id = some (.entry d inner))
    (heval : Target.eval I inner d = some w) (hrelated : Related v w) :
    Yields I frames id v :=
  ⟨w, (lookup_of_locate h).trans heval, hrelated⟩

/-!
## What each function of the source semantics is shown to preserve
-/

def ReferForward (I : Interpretation) (env : Source.Env) (name : String)
    (v : Value Source.Closure) : Prop :=
  forall scope frames id, Agrees env scope frames ->
    Mentions Reaches scope (levels frames) name id -> Yields I frames id v

def BodyForward (I : Interpretation) (env : Source.Env) (params : List Ident) (body : Expr)
    (v : Value Source.Closure) : Prop :=
  forall scope frames id out, Agrees env scope frames ->
    EmitsDeclaration Reaches scope (levels frames) params body id out -> Holds out frames ->
    Yields I frames id v

def cell? : Expr -> Option Cell
  | .number _ v => some (.number v)
  | .bool _ v => some (.bool v)
  | _ => none

structure EvalForward (I : Interpretation) (env : Source.Env) (e : Expr)
    (v : Value Source.Closure) : Prop where
  entry : forall scope frames id out, Agrees env scope frames ->
    Emits Reaches scope (levels frames) e id out -> Holds out frames -> Yields I frames id v
  operand : forall scope frames id, Agrees env scope frames -> Holding scope frames e id ->
    Yields I frames id v
  packed : forall c, cell? e = some c -> Related v (Target.cell c)

def ApplyForward (I : Interpretation) (f : Value Source.Closure)
    (args : List (Value Source.Closure)) (v : Value Source.Closure) : Prop :=
  forall g ws, Related f g -> List.Forall₂ Related args ws ->
    exists w, Target.apply I g ws = some w ∧ Related v w

/-!
## Names and declarations
-/

theorem refer_forward
    {evalBody : Source.Env -> List Ident -> Expr -> Option (Value Source.Closure)}
    (hbody : forall env params body v, evalBody env params body = some v ->
      BodyForward I env params body v)
    {env : Source.Env} {name : String} {v : Value Source.Closure}
    (h : (match Source.binding? env name with
      | some (.value v) => some v
      | some (.decl d outer) => evalBody outer d.params d.body
      | none => (I name).map .builtin) = some v) :
    ReferForward I env name v := by
  intro scope frames id hagrees hmentions
  rcases matches_of_mentions hagrees hmentions with ⟨hmatches, houtside⟩
  revert h houtside hmatches
  cases Source.binding? env name with
  | none =>
      intro h hmatches houtside
      generalize hlocate : locate? frames id = located at hmatches
      cases hmatches
      rw [← houtside rfl] at h
      rcases Option.map_eq_some_iff.mp h with ⟨f, hf, rfl⟩
      refine ⟨.builtin f, ?_, .builtin f⟩
      rw [Target.lookup, hlocate, hf]
      rfl
  | some bound =>
      intro h hmatches _
      generalize hlocate : locate? frames id = located at hmatches
      cases hmatches with
      | value hrelated =>
          cases h
          refine ⟨_, ?_, hrelated⟩
          rw [Target.lookup, hlocate]
      | decl hagrees' hdeclaration hholds hentry =>
          rcases hbody _ _ _ _ h _ _ _ _ hagrees' hdeclaration hholds with ⟨w, hw, hrelated⟩
          rw [lookup_of_locate hentry] at hw
          exact yields_of_locate hlocate hw hrelated

theorem related_closure
    {env : Source.Env} {scope : Bindings} {frames : List Frame} {params : List Ident}
    {body : Expr} {d : Def} (hagrees : Agrees env scope frames)
    (hfunction : EmitsFunction Reaches scope (levels frames) params body d) :
    exists w, Target.eval I frames d = some w ∧ Related (.closure (.mk params body env)) w := by
  cases hfunction with
  | intro hnodup hbody =>
      refine ⟨_, ?_, .closure hagrees (.intro hnodup hbody)⟩
      rw [Target.eval]

theorem body_forward
    {eval : Source.Env -> Expr -> Option (Value Source.Closure)}
    (heval : forall env e v, eval env e = some v -> EvalForward I env e v)
    {env : Source.Env} {params : List Ident} {body : Expr} {v : Value Source.Closure}
    (h : (if params.isEmpty then eval env body else some (.closure (.mk params body env))) =
      some v) :
    BodyForward I env params body v := by
  intro scope frames id out hagrees hdeclaration hholds
  cases hdeclaration with
  | constant hemits =>
      rw [if_pos (show List.isEmpty [] = true from rfl)] at h
      exact (heval _ _ _ h).entry _ _ _ _ hagrees hemits hholds
  | function hparams hfunction =>
      rw [if_neg (fun hempty => hparams (List.isEmpty_iff.mp hempty))] at h
      cases h
      rcases related_closure hagrees hfunction with ⟨w, hw, hrelated⟩
      exact yields_of_locate (hholds _ List.mem_cons_self) hw hrelated

/-!
## Lists
-/

theorem cell?_of_packed
    {es : List Expr} {cells : List Cell} (h : packed? es = some cells) :
    List.Forall₂ (fun e c => cell? e = some c) es cells := by
  rcases packed_cases h with ⟨values, rfl, rfl⟩ | ⟨values, rfl, rfl⟩
  · simp [List.forall₂_map_left_iff, List.forall₂_map_right_iff, List.forall₂_same, cell?]
  · simp [List.forall₂_map_left_iff, List.forall₂_map_right_iff, List.forall₂_same, cell?]

/-!
## Expressions

In each lemma `refer`, `eval` and `apply` stand for the recursive calls.
-/

section

variable {refer : Source.Env -> String -> Option (Value Source.Closure)}
  {eval : Source.Env -> Expr -> Option (Value Source.Closure)}
  {apply : Value Source.Closure -> List (Value Source.Closure) -> Option (Value Source.Closure)}
  {env : Source.Env} {scope : Bindings} {frames : List Frame} {id : String} {out : List Entry}
  {v : Value Source.Closure}

theorem operands_forward
    (heval : forall env e v, eval env e = some v -> EvalForward I env e v)
    (hagrees : Agrees env scope frames) {es : List Expr} {ids : List String}
    {vs : List (Value Source.Closure)} (hholding : List.Forall₂ (Holding scope frames) es ids)
    (h : es.mapM (fun e => eval env e) = some vs) :
    exists ws, ids.mapM (fun id => Target.lookup I frames id) = some ws ∧
      List.Forall₂ Related vs ws := by
  refine mapM_related (fun e id v hholds hv => ?_) hholding h
  exact (heval _ _ _ hv).operand _ _ _ hagrees hholds

theorem args_nonempty
    {t : Token} {left right : Expr} {args : List String} {P : Expr -> String -> Prop}
    (h : List.Forall₂ P (Source.spine (.binary t left .apply right)).2 args) :
    args.isEmpty = false := by
  have hlength := h.length_eq
  rw [Source.spine, List.length_append, List.length_singleton] at hlength
  cases args with
  | nil => cases hlength
  | cons _ _ => rfl

theorem application_forward
    (heval : forall env e v, eval env e = some v -> EvalForward I env e v)
    (happly : forall f args v, apply f args = some v -> ApplyForward I f args v)
    (hagrees : Agrees env scope frames) {t : Token} {left right : Expr} {target : String}
    {args : List String}
    (hcall : EmitsCall Reaches scope (levels frames) (.binary t left .apply right) target args
      out)
    (hholds : Holds out frames)
    (h : (do
      let f <- eval env (Source.spine (.binary t left .apply right)).1
      let vs <- (Source.spine (.binary t left .apply right)).2.mapM fun a => eval env a
      apply f vs) = some v) :
    exists w, Target.eval I frames (.call target args) = some w ∧ Related v w := by
  rcases Option.bind_eq_some_iff.mp h with ⟨f, hf, h⟩
  rcases Option.bind_eq_some_iff.mp h with ⟨vs, hvs, h⟩
  rcases holding_of_emitsCall hcall hholds with ⟨htarget, hargs⟩
  rcases (heval _ _ _ hf).operand _ _ _ hagrees htarget with ⟨g, hg, hfg⟩
  rcases operands_forward heval hagrees hargs hvs with ⟨ws, hws, hrelated⟩
  rcases happly _ _ _ h _ _ hfg hrelated with ⟨w, hw, hvw⟩
  refine ⟨w, ?_, hvw⟩
  rw [Target.eval, hg, Option.bind_eq_bind, Option.bind_some, args_nonempty hargs,
    if_neg Bool.false_ne_true, hws]
  exact hw

theorem operation_forward
    (hrefer : forall env name v, refer env name = some v -> ReferForward I env name v)
    (heval : forall env e v, eval env e = some v -> EvalForward I env e v)
    (happly : forall f args v, apply f args = some v -> ApplyForward I f args v)
    (hagrees : Agrees env scope frames) {left right : Expr} {op : Ident} {target a b : String}
    (hmentions : Mentions Reaches scope (levels frames) op.name target)
    (hleft : Holding scope frames left a) (hright : Holding scope frames right b)
    (h : (do
      let f <- refer env op.name
      let x <- eval env left
      let y <- eval env right
      apply f [x, y]) = some v) :
    exists w, Target.eval I frames (.call target [a, b]) = some w ∧ Related v w := by
  rcases Option.bind_eq_some_iff.mp h with ⟨f, hf, h⟩
  rcases Option.bind_eq_some_iff.mp h with ⟨x, hx, h⟩
  rcases Option.bind_eq_some_iff.mp h with ⟨y, hy, h⟩
  rcases hrefer _ _ _ hf _ _ _ hagrees hmentions with ⟨g, hg, hfg⟩
  rcases (heval _ _ _ hx).operand _ _ _ hagrees hleft with ⟨x', hx', hxx⟩
  rcases (heval _ _ _ hy).operand _ _ _ hagrees hright with ⟨y', hy', hyy⟩
  rcases happly _ _ _ h _ _ hfg (.cons hxx (.cons hyy .nil)) with ⟨w, hw, hvw⟩
  refine ⟨w, ?_, hvw⟩
  rw [Target.eval, hg]
  simp only [List.isEmpty_cons, List.mapM_cons, List.mapM_nil, hx', hy']
  exact hw

theorem list_forward
    (heval : forall env e v, eval env e = some v -> EvalForward I env e v)
    (hagrees : Agrees env scope frames) {es : List Expr} {items : List String}
    (hitems : List.Forall₂ (Holding scope frames) es items)
    (h : (do
      let vs <- es.mapM fun e => eval env e
      return .list vs) = some v) :
    exists w, Target.eval I frames (.list items) = some w ∧ Related v w := by
  rcases Option.bind_eq_some_iff.mp h with ⟨vs, hvs, h⟩
  cases h
  rcases operands_forward heval hagrees hitems hvs with ⟨ws, hws, hrelated⟩
  refine ⟨.list ws, ?_, .list hrelated⟩
  rw [Target.eval, hws]
  rfl

theorem matrix_forward
    (heval : forall env e v, eval env e = some v -> EvalForward I env e v)
    {es : List Expr} {cells : List Cell} (hpacked : packed? es = some cells)
    (h : (do
      let vs <- es.mapM fun e => eval env e
      return .list vs) = some v) :
    exists w, Target.eval I frames (.matrix cells) = some w ∧ Related v w := by
  rcases Option.bind_eq_some_iff.mp h with ⟨vs, hvs, h⟩
  cases h
  refine ⟨.list (cells.map Target.cell), ?_, .list ?_⟩
  · rw [Target.eval]
  · have hcells : cells.mapM (fun c => some (Target.cell c)) = some (cells.map Target.cell) :=
      List.mapM_pure
    rcases mapM_related (fun e c v hc hv => ⟨_, rfl, (heval _ _ _ hv).packed c hc⟩)
      (cell?_of_packed hpacked) hvs with ⟨ws, hws, hrelated⟩
    rw [hcells] at hws
    cases hws
    exact hrelated

theorem cond_forward
    (heval : forall env e v, eval env e = some v -> EvalForward I env e v)
    (hagrees : Agrees env scope frames) {test yes no : Expr} {i j k : String}
    {out₁ out₂ out₃ : List Entry}
    (htest : Emits Reaches scope (levels frames) test i out₁) (htestHolds : Holds out₁ frames)
    (hyes : Emits Reaches scope (levels frames) yes j out₂) (hyesHolds : Holds out₂ frames)
    (hno : Emits Reaches scope (levels frames) no k out₃) (hnoHolds : Holds out₃ frames)
    (h : (do
      match <- eval env test with
      | .bool true => eval env yes
      | .bool false => eval env no
      | _ => none) = some v) :
    exists w, Target.eval I frames (.switch [⟨some i, j⟩, ⟨none, k⟩]) = some w ∧
      Related v w := by
  rcases Option.bind_eq_some_iff.mp h with ⟨b, hb, h⟩
  rcases (heval _ _ _ hb).entry _ _ _ _ hagrees htest htestHolds with ⟨b', hb', hbb⟩
  rw [Target.eval, Target.switch, hb', Option.bind_eq_bind, Option.bind_some]
  cases hbb with
  | bool truth =>
      cases truth with
      | true => exact (heval _ _ _ h).entry _ _ _ _ hagrees hyes hyesHolds
      | false =>
          change exists w, Target.switch I frames [⟨none, k⟩] = some w ∧ Related v w
          rw [Target.switch]
          exact (heval _ _ _ h).entry _ _ _ _ hagrees hno hnoHolds
  | number _ => cases h
  | string _ => cases h
  | null => cases h
  | list _ => cases h
  | builtin _ => cases h
  | closure _ _ => cases h

theorem entry_forward
    (hrefer : forall env name v, refer env name = some v -> ReferForward I env name v)
    (heval : forall env e v, eval env e = some v -> EvalForward I env e v)
    (happly : forall f args v, apply f args = some v -> ApplyForward I f args v)
    {e : Expr}
    (h : (match e with
      | .hole => none
      | .ident i => refer env i.name
      | .number _ v => some (.number v)
      | .string _ v => some (.string v)
      | .bool _ v => some (.bool v)
      | .null _ => some .null
      | .group _ inner => eval env inner
      | .letIn _ name params value body => eval (.decls [⟨name, params, value⟩] :: env) body
      | .binary t left .apply right => do
        let (function, args) := Source.spine (.binary t left .apply right)
        let f <- eval env function
        let vs <- args.mapM fun a => eval env a
        apply f vs
      | .binary _ left (.named op) right => do
        let f <- refer env op.name
        let a <- eval env left
        let b <- eval env right
        apply f [a, b]
      | .list _ es => do
        let vs <- es.mapM fun e => eval env e
        return .list vs
      | .cond _ test yes no => do
        match <- eval env test with
        | .bool true => eval env yes
        | .bool false => eval env no
        | _ => none
      | .lambda _ params body => some (.closure (.mk params body env))) = some v)
    (hagrees : Agrees env scope frames)
    (hemits : Emits Reaches scope (levels frames) e id out) (hholds : Holds out frames) :
    Yields I frames id v := by
  cases hemits with
  | group hinner => exact (heval _ _ _ h).entry _ _ _ _ hagrees hinner hholds
  | ident hmentions =>
      rcases hrefer _ _ _ h _ _ _ hagrees hmentions with ⟨w, hw, hrelated⟩
      refine yields_of_locate (hholds _ List.mem_cons_self) ?_ hrelated
      rw [Target.eval, hw]
      rfl
  | number =>
      cases h
      exact yields_of_locate (hholds _ List.mem_cons_self) (by rw [Target.eval]) (.number _)
  | string =>
      cases h
      exact yields_of_locate (hholds _ List.mem_cons_self) (by rw [Target.eval]) (.string _)
  | bool =>
      cases h
      exact yields_of_locate (hholds _ List.mem_cons_self) (by rw [Target.eval]) (.bool _)
  | null =>
      cases h
      exact yields_of_locate (hholds _ List.mem_cons_self) (by rw [Target.eval]) .null
  | letIn hdeclaration hbody =>
      exact (heval _ _ _ h).entry _ _ _ _ (.letIn hagrees hdeclaration hholds.left) hbody
        hholds.right
  | application hcall =>
      rcases application_forward heval happly hagrees hcall hholds.left h with ⟨w, hw, hrelated⟩
      exact yields_of_locate hholds.last hw hrelated
  | operation hmentions hleft hright =>
      rcases operation_forward hrefer heval happly hagrees hmentions
        ⟨_, hleft, hholds.left.left⟩ ⟨_, hright, hholds.left.right⟩ h with ⟨w, hw, hrelated⟩
      exact yields_of_locate hholds.last hw hrelated
  | matrix hpacked =>
      rcases matrix_forward heval hpacked h with ⟨w, hw, hrelated⟩
      exact yields_of_locate (hholds _ List.mem_cons_self) hw hrelated
  | list _ hitems =>
      rcases list_forward heval hagrees (holding_of_emitsOperands hitems hholds.left) h with
        ⟨w, hw, hrelated⟩
      exact yields_of_locate hholds.last hw hrelated
  | cond _ _ _ htest hyes hno =>
      rcases cond_forward heval hagrees htest hholds.left.left.left hyes hholds.left.left.right
        hno hholds.left.right h with ⟨w, hw, hrelated⟩
      exact yields_of_locate hholds.last hw hrelated
  | lambda hfunction =>
      cases h
      rcases related_closure hagrees hfunction with ⟨w, hw, hrelated⟩
      exact yields_of_locate (hholds _ List.mem_cons_self) hw hrelated

theorem agrees_applied
    {params : List Ident} {body : Expr} {names : List String} {table : Table}
    {args : List (Value Source.Closure)} {ws : List (Value Target.Closure)}
    (hagrees : Agrees env scope frames)
    (hfunction : EmitsFunction Reaches scope (levels frames) params body (.func names table))
    (hargs : List.Forall₂ Related args ws) (hlength : params.length ≤ args.length) :
    names = params.map Ident.name ∧
      exists scope' out,
        Agrees (.args ((params.map Ident.name).zip args) :: env) scope'
          (.mk (names.zip ws) table :: frames) ∧
        Emits Reaches scope' (levels (.mk (names.zip ws) table :: frames)) body Table.resultId
          out ∧
        Holds out (.mk (names.zip ws) table :: frames) := by
  cases hfunction with
  | intro hnodup hbody =>
      rename_i out
      have hnames : ((params.map Ident.name).zip ws).map Prod.fst = params.map Ident.name := by
        refine List.map_fst_zip ?_
        rw [List.length_map, ← hargs.length_eq]
        exact hlength
      refine ⟨rfl, _, out, .function hagrees hargs hlength, ?_, ?_⟩
      · rw [levels, List.length_map] at hbody
        rw [levels, List.map_cons, level, Target.Frame.args, Target.Frame.table, hnames]
        exact hbody
      · refine holds_collect ?_
        rw [hnames]
        exact hnodup

theorem apply_forward
    (heval : forall env e v, eval env e = some v -> EvalForward I env e v)
    (happly : forall f args v, apply f args = some v -> ApplyForward I f args v)
    {f : Value Source.Closure} {args : List (Value Source.Closure)}
    (h : (match f with
      | .builtin f => Value.applyBuiltin f args
      | .closure (.mk params body env) =>
        if args.length < params.length then none
        else do
          let result <- eval (.args ((params.map Ident.name).zip args) :: env) body
          let rest := args.drop params.length
          if rest.isEmpty then return result else apply result rest
      | _ => none) = some v) :
    ApplyForward I f args v := by
  intro g ws hrelated hargs
  cases hrelated with
  | number _ => cases h
  | string _ => cases h
  | bool _ => cases h
  | null => cases h
  | list _ => cases h
  | builtin f =>
      rw [Target.apply]
      exact (applyBuiltin_related hargs).1 v h
  | closure hagrees hfunction =>
      rename_i params body env scope names table frames
      dsimp only at h
      by_cases hfew : args.length < params.length
      · rw [if_pos hfew] at h
        cases h
      · rw [if_neg hfew] at h
        rcases Option.bind_eq_some_iff.mp h with ⟨result, hresult, h⟩
        rcases agrees_applied hagrees hfunction hargs (Nat.le_of_not_lt hfew) with
          ⟨hnames, scope', out, hagrees', hemits, hholds⟩
        rcases (heval _ _ _ hresult).entry _ _ _ _ hagrees' hemits hholds with ⟨w, hw, hvw⟩
        have hparams : names.length = params.length := by rw [hnames, List.length_map]
        rw [Target.apply, ← hargs.length_eq, hparams, if_neg hfew, hw, Option.bind_eq_bind,
          Option.bind_some]
        dsimp only at h ⊢
        rw [← isEmpty_drop_eq hargs]
        by_cases hrest : (args.drop params.length).isEmpty = true
        · rw [if_pos hrest] at h ⊢
          cases h
          exact ⟨w, rfl, hvw⟩
        · rw [if_neg hrest] at h ⊢
          exact happly _ _ _ h _ _ hvw (List.forall₂_drop params.length hargs)

end

/-- Every value of an expression is also the value of its identifier. -/
theorem forward (I : Interpretation) :
    (forall env name v, Source.refer I env name = some v -> ReferForward I env name v) ∧
      (forall env params body v, Source.evalBody I env params body = some v ->
        BodyForward I env params body v) ∧
      (forall env e v, Source.eval I env e = some v -> EvalForward I env e v) ∧
      (forall f args v, Source.apply I f args = some v -> ApplyForward I f args v) := by
  refine Source.refer.mutual_partial_correctness I (ReferForward I) (BodyForward I)
    (EvalForward I) (ApplyForward I) ?_ ?_ ?_ ?_
  · intro evalBody hbody env name v h
    exact refer_forward hbody h
  · intro eval heval env params body v h
    exact body_forward heval h
  · intro refer eval apply hrefer heval happly env e v h
    have hentry : forall scope frames id out, Agrees env scope frames ->
        Emits Reaches scope (levels frames) e id out -> Holds out frames ->
        Yields I frames id v :=
      fun _ _ _ _ hagrees hemits hholds =>
        entry_forward hrefer heval happly h hagrees hemits hholds
    refine ⟨hentry, ?_, ?_⟩
    · rintro scope frames id hagrees ⟨out, hoperand, hholds⟩
      cases hoperand with
      | name hmentions => exact hrefer _ _ _ h _ _ _ hagrees hmentions
      | other _ _ hemits => exact hentry _ _ _ _ hagrees hemits hholds
    · intro c hc
      cases e <;> cases hc
      · cases h
        exact .number _
      · cases h
        exact .bool _
  · intro eval apply heval happly f args v h
    exact apply_forward heval happly h

end

end Semantics
end DefTable
