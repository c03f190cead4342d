import DefTable.Proofs.Semantics.Forward

/-!
# From tables to programs

Whatever looking up the identifier of an expression gives, the expression evaluates to a related
value.  The argument follows the evaluation of the table.  Parentheses and the bodies of `let` have
no entries of their own, so they are taken off an expression before its entry is compared with it.
-/

namespace DefTable
namespace Semantics

open Lowering
open Scope (candidate)
open Table (Entry)
open Target (Frame locate?)

def Evaluates (I : Interpretation) (env : Source.Env) (e : Expr) (w : Value Target.Closure) :
    Prop :=
  exists v, Source.eval I env e = some v ∧ Related v w

def isWrapper : Expr -> Bool
  | .group _ _ => true
  | .letIn _ _ _ _ _ => true
  | _ => false

theorem core_of_emits
    (I : Interpretation) {env : Source.Env} {scope : Bindings} {frames : List Frame} {e : Expr}
    {id : String} {out : List Entry} (hagrees : Agrees env scope frames)
    (hemits : Emits Reaches scope (levels frames) e id out) (hholds : Holds out frames) :
    exists env' scope' e' out',
      Agrees env' scope' frames ∧ Emits Reaches scope' (levels frames) e' id out' ∧
      Holds out' frames ∧ isWrapper e' = false ∧
      Source.eval I env e = Source.eval I env' e' := by
  match hemits with
  | .group hinner =>
      rw [Source.eval]
      exact core_of_emits I hagrees hinner hholds
  | .letIn hdeclaration hbody =>
      rw [Source.eval]
      exact core_of_emits I (.letIn hagrees hdeclaration hholds.left) hbody hholds.right
  | .ident h => exact ⟨_, _, _, _, hagrees, .ident h, hholds, rfl, rfl⟩
  | .number => exact ⟨_, _, _, _, hagrees, .number, hholds, rfl, rfl⟩
  | .string => exact ⟨_, _, _, _, hagrees, .string, hholds, rfl, rfl⟩
  | .bool => exact ⟨_, _, _, _, hagrees, .bool, hholds, rfl, rfl⟩
  | .null => exact ⟨_, _, _, _, hagrees, .null, hholds, rfl, rfl⟩
  | .application h => exact ⟨_, _, _, _, hagrees, .application h, hholds, rfl, rfl⟩
  | .operation h₁ h₂ h₃ => exact ⟨_, _, _, _, hagrees, .operation h₁ h₂ h₃, hholds, rfl, rfl⟩
  | .matrix h => exact ⟨_, _, _, _, hagrees, .matrix h, hholds, rfl, rfl⟩
  | .list h₁ h₂ => exact ⟨_, _, _, _, hagrees, .list h₁ h₂, hholds, rfl, rfl⟩
  | .cond h₁ h₂ h₃ h₄ h₅ h₆ =>
      exact ⟨_, _, _, _, hagrees, .cond h₁ h₂ h₃ h₄ h₅ h₆, hholds, rfl, rfl⟩
  | .lambda h => exact ⟨_, _, _, _, hagrees, .lambda h, hholds, rfl, rfl⟩

/-!
## What each function of the table semantics is shown to preserve
-/

structure LookupBack (I : Interpretation) (frames : List Frame) (id : String)
    (w : Value Target.Closure) : Prop where
  mention : forall env scope name, Agrees env scope frames ->
    Mentions Reaches scope (levels frames) name id ->
    exists v, Source.refer I env name = some v ∧ Related v w
  declaration : forall env scope params body out, Agrees env scope frames ->
    EmitsDeclaration Reaches scope (levels frames) params body id out -> Holds out frames ->
    exists v, Source.evalBody I env params body = some v ∧ Related v w

def EvalBack (I : Interpretation) (frames : List Frame) (d : Def) (w : Value Target.Closure) :
    Prop :=
  forall env scope params body id out, Agrees env scope frames ->
    EmitsDeclaration Reaches scope (levels frames) params body id out -> Holds out frames ->
    locate? frames id = some (.entry d frames) ->
    exists v, Source.evalBody I env params body = some v ∧ Related v w

structure SwitchBack (I : Interpretation) (frames : List Frame) (cases : List Case)
    (w : Value Target.Closure) : Prop where
  default : forall k env scope no out, cases = [⟨none, k⟩] -> Agrees env scope frames ->
    Emits Reaches scope (levels frames) no k out -> Holds out frames -> Evaluates I env no w
  guarded : forall i j k env scope t test yes no out₁ out₂ out₃,
    cases = [⟨some i, j⟩, ⟨none, k⟩] -> Agrees env scope frames ->
    Emits Reaches scope (levels frames) test i out₁ -> Holds out₁ frames ->
    Emits Reaches scope (levels frames) yes j out₂ -> Holds out₂ frames ->
    Emits Reaches scope (levels frames) no k out₃ -> Holds out₃ frames ->
    Evaluates I env (.cond t test yes no) w

def ApplyBack (I : Interpretation) (g : Value Target.Closure)
    (ws : List (Value Target.Closure)) (w : Value Target.Closure) : Prop :=
  forall f vs, Related f g -> List.Forall₂ Related vs ws ->
    exists v, Source.apply I f vs = some v ∧ Related v w

section

variable {I : Interpretation} {env : Source.Env} {scope : Bindings} {frames : List Frame}
  {id : String} {out : List Entry} {w : Value Target.Closure}

theorem evalBody_nil (body : Expr) : Source.evalBody I env [] body = Source.eval I env body := by
  rw [Source.evalBody]
  exact if_pos rfl

theorem LookupBack.entry
    (h : LookupBack I frames id w) {e : Expr} (hagrees : Agrees env scope frames)
    (hemits : Emits Reaches scope (levels frames) e id out) (hholds : Holds out frames) :
    Evaluates I env e w := by
  have hbody := h.declaration _ _ _ _ _ hagrees (.constant hemits) hholds
  rwa [evalBody_nil] at hbody

theorem LookupBack.operand
    (h : LookupBack I frames id w) {e : Expr} (hagrees : Agrees env scope frames)
    (hholding : Holding scope frames e id) :
    Evaluates I env e w := by
  rcases hholding with ⟨out, hoperand, hholds⟩
  cases hoperand with
  | name hmentions =>
      unfold Evaluates
      rw [Source.eval]
      exact h.mention _ _ _ hagrees hmentions
  | other _ _ hemits => exact h.entry hagrees hemits hholds

/-!
## Identifiers
-/

theorem lookup_back
    {eval : List Frame -> Def -> Option (Value Target.Closure)}
    (heval : forall frames d w, eval frames d = some w -> EvalBack I frames d w)
    (h : (match locate? frames id with
      | some (.value v) => some v
      | some (.entry d inner) => eval inner d
      | none => (I id).map .builtin) = some w) :
    LookupBack I frames id w := by
  constructor
  · intro env scope name hagrees hmentions
    rcases matches_of_mentions hagrees hmentions with ⟨hmatches, houtside⟩
    rw [Source.refer]
    revert h hmatches houtside
    generalize Source.binding? env name = bound
    cases locate? frames id with
    | none =>
        intro h hmatches houtside
        cases hmatches
        rw [houtside rfl] at h
        rcases Option.map_eq_some_iff.mp h with ⟨f, hf, rfl⟩
        refine ⟨.builtin f, ?_, .builtin f⟩
        rw [hf]
        rfl
    | some located =>
        intro h hmatches _
        cases hmatches with
        | value hrelated =>
            cases h
            exact ⟨_, rfl, hrelated⟩
        | decl hagrees' hdeclaration hholds hentry =>
            exact heval _ _ _ h _ _ _ _ _ _ hagrees' hdeclaration hholds hentry
  · intro env scope params body out hagrees hdeclaration hholds
    rcases entry_of_emitsDeclaration hdeclaration with ⟨d, hd⟩
    have hlocate := hholds (id, d) hd
    rw [hlocate] at h
    exact heval _ _ _ h _ _ _ _ _ _ hagrees hdeclaration hholds hlocate

/-!
## Entries

In each lemma `lookup`, `switch` and `apply` stand for the recursive calls.
-/

section

variable {lookup : List Frame -> String -> Option (Value Target.Closure)}
  {apply : Value Target.Closure -> List (Value Target.Closure) -> Option (Value Target.Closure)}
  {switch : List Frame -> List Case -> Option (Value Target.Closure)}

theorem operands_back
    (hlookup : forall frames id w, lookup frames id = some w -> LookupBack I frames id w)
    (hagrees : Agrees env scope frames) {es : List Expr} {ids : List String}
    {ws : List (Value Target.Closure)} (hholding : List.Forall₂ (Holding scope frames) es ids)
    (h : ids.mapM (fun id => lookup frames id) = some ws) :
    exists vs, es.mapM (fun e => Source.eval I env e) = some vs ∧
      List.Forall₂ Related vs ws := by
  rcases mapM_related (fun id e w hholds hw => (hlookup _ _ _ hw).operand hagrees hholds)
    hholding.flip h with ⟨vs, hvs, hrelated⟩
  exact ⟨vs, hvs, hrelated.flip⟩

theorem application_back
    (hlookup : forall frames id w, lookup frames id = some w -> LookupBack I frames id w)
    (happly : forall g ws w, apply g ws = some w -> ApplyBack I g ws w)
    (hagrees : Agrees env scope frames) {t : Token} {left right : Expr} {target : String}
    {args : List String}
    (hcall : EmitsCall Reaches scope (levels frames) (.binary t left .apply right) target args
      out)
    (hholds : Holds out frames)
    (h : (do
      let f <- lookup frames target
      if args.isEmpty then return f
      else
        let vs <- args.mapM fun id => lookup frames id
        apply f vs) = some w) :
    Evaluates I env (.binary t left .apply right) w := by
  rcases Option.bind_eq_some_iff.mp h with ⟨g, hg, h⟩
  rcases holding_of_emitsCall hcall hholds with ⟨htarget, hargs⟩
  rw [if_neg (Bool.eq_false_iff.mp (args_nonempty hargs))] at h
  rcases Option.bind_eq_some_iff.mp h with ⟨ws, hws, h⟩
  rcases (hlookup _ _ _ hg).operand hagrees htarget with ⟨f, hf, hfg⟩
  rcases operands_back hlookup hagrees hargs hws with ⟨vs, hvs, hrelated⟩
  rcases happly _ _ _ h _ _ hfg hrelated with ⟨v, hv, hvw⟩
  refine ⟨v, ?_, hvw⟩
  rw [Source.eval]
  dsimp only
  rw [hf, Option.bind_eq_bind, Option.bind_some, hvs]
  exact hv

theorem operation_back
    (hlookup : forall frames id w, lookup frames id = some w -> LookupBack I frames id w)
    (happly : forall g ws w, apply g ws = some w -> ApplyBack I g ws w)
    (hagrees : Agrees env scope frames) {t : Token} {left right : Expr} {op : Ident}
    {target a b : String}
    (hmentions : Mentions Reaches scope (levels frames) op.name target)
    (hleft : Holding scope frames left a) (hright : Holding scope frames right b)
    (h : (do
      let f <- lookup frames target
      let vs <- [a, b].mapM fun id => lookup frames id
      apply f vs) = some w) :
    Evaluates I env (.binary t left (.named op) right) w := by
  rcases Option.bind_eq_some_iff.mp h with ⟨g, hg, h⟩
  rcases Option.bind_eq_some_iff.mp h with ⟨ws, hws, h⟩
  rcases (hlookup _ _ _ hg).mention _ _ _ hagrees hmentions with ⟨f, hf, hfg⟩
  rcases operands_back hlookup hagrees (.cons hleft (.cons hright .nil)) hws with
    ⟨vs, hvs, hrelated⟩
  rcases happly _ _ _ h _ _ hfg hrelated with ⟨v, hv, hvw⟩
  refine ⟨v, ?_, hvw⟩
  rw [Source.eval, hf, Option.bind_eq_bind, Option.bind_some]
  rw [List.mapM_cons] at hvs
  rcases Option.bind_eq_some_iff.mp hvs with ⟨x, hx, hvs⟩
  rw [List.mapM_cons] at hvs
  rcases Option.bind_eq_some_iff.mp hvs with ⟨ys, hys, hvs⟩
  rcases Option.bind_eq_some_iff.mp hys with ⟨y, hy, hys⟩
  cases hys
  cases hvs
  rw [hx, hy]
  exact hv

theorem list_back
    (hlookup : forall frames id w, lookup frames id = some w -> LookupBack I frames id w)
    (hagrees : Agrees env scope frames) {t : Token} {es : List Expr} {items : List String}
    (hitems : List.Forall₂ (Holding scope frames) es items)
    (h : (do
      let vs <- items.mapM fun id => lookup frames id
      return .list vs) = some w) :
    Evaluates I env (.list t es) w := by
  rcases Option.bind_eq_some_iff.mp h with ⟨ws, hws, h⟩
  cases h
  rcases operands_back hlookup hagrees hitems hws with ⟨vs, hvs, hrelated⟩
  refine ⟨.list vs, ?_, .list hrelated⟩
  rw [Source.eval, hvs]
  rfl

theorem eval_of_cell?
    {e : Expr} {c : Cell} (h : cell? e = some c) :
    exists v, Source.eval I env e = some v ∧ Related v (Target.cell c) := by
  cases e <;> cases h
  · exact ⟨_, by rw [Source.eval], .number _⟩
  · exact ⟨_, by rw [Source.eval], .bool _⟩

theorem evaluates_matrix
    {t : Token} {es : List Expr} {cells : List Cell} (hpacked : packed? es = some cells) :
    Evaluates I env (.list t es) (.list (cells.map Target.cell)) := by
  have hcells : cells.mapM (fun c => some c) = some (cells.map id) := List.mapM_pure
  rcases mapM_related (f := fun c : Cell => some c) (g := fun e => Source.eval I env e)
    (R := fun c v => Related v (Target.cell c))
    (fun c e b hc hb => by cases hb; exact eval_of_cell? hc)
    (cell?_of_packed hpacked).flip hcells with ⟨vs, hvs, hrelated⟩
  rw [List.map_id] at hrelated
  refine ⟨.list vs, ?_, .list (List.forall₂_map_right_iff.mpr hrelated.flip)⟩
  rw [Source.eval, hvs]
  rfl

theorem entry_unique
    {d d' : Def} (hlocate : locate? frames id = some (.entry d frames))
    (hheld : locate? frames id = some (.entry d' frames)) :
    d = d' := by
  rw [hlocate] at hheld
  cases hheld
  rfl

theorem eval_back
    (hlookup : forall frames id w, lookup frames id = some w -> LookupBack I frames id w)
    (happly : forall g ws w, apply g ws = some w -> ApplyBack I g ws w)
    (hswitch : forall frames cases w, switch frames cases = some w -> SwitchBack I frames cases w)
    {d : Def}
    (h : (match d with
      | .number v => some (.number v)
      | .string v => some (.string v)
      | .bool v => some (.bool v)
      | .null => some .null
      | .matrix cells => some (.list (cells.map Target.cell))
      | .list items => do
        let vs <- items.mapM fun id => lookup frames id
        return .list vs
      | .func params body => some (.closure (.mk params body frames))
      | .switch cases => switch frames cases
      | .call target args => do
        let f <- lookup frames target
        if args.isEmpty then return f
        else
          let vs <- args.mapM fun id => lookup frames id
          apply f vs) = some w) :
    EvalBack I frames d w := by
  intro env scope params body id out hagrees hdeclaration hholds hlocate
  cases hdeclaration with
  | function hparams hfunction =>
      rename_i d'
      have hd := entry_unique hlocate (hholds _ List.mem_cons_self)
      subst hd
      rw [Source.evalBody, if_neg (fun hempty => hparams (List.isEmpty_iff.mp hempty))]
      cases hfunction with
      | intro hnodup hbody =>
          cases h
          exact ⟨_, rfl, .closure hagrees (.intro hnodup hbody)⟩
  | constant hemits =>
      rw [evalBody_nil]
      rcases core_of_emits I hagrees hemits hholds with
        ⟨env', scope', e, out', hagrees', hemits', hholds', hcore, heq⟩
      rw [heq]
      change Evaluates I env' e w
      cases hemits' with
      | group _ => cases hcore
      | letIn _ _ => cases hcore
      | ident hmentions =>
          have hd := entry_unique hlocate (hholds' _ List.mem_cons_self)
          subst hd
          rcases Option.bind_eq_some_iff.mp h with ⟨g, hg, h⟩
          cases h
          unfold Evaluates
          rw [Source.eval]
          exact (hlookup _ _ _ hg).mention _ _ _ hagrees' hmentions
      | number =>
          have hd := entry_unique hlocate (hholds' _ List.mem_cons_self)
          subst hd
          cases h
          exact ⟨_, by rw [Source.eval], .number _⟩
      | string =>
          have hd := entry_unique hlocate (hholds' _ List.mem_cons_self)
          subst hd
          cases h
          exact ⟨_, by rw [Source.eval], .string _⟩
      | bool =>
          have hd := entry_unique hlocate (hholds' _ List.mem_cons_self)
          subst hd
          cases h
          exact ⟨_, by rw [Source.eval], .bool _⟩
      | null =>
          have hd := entry_unique hlocate (hholds' _ List.mem_cons_self)
          subst hd
          cases h
          exact ⟨_, by rw [Source.eval], .null⟩
      | application hcall =>
          have hd := entry_unique hlocate hholds'.last
          subst hd
          exact application_back hlookup happly hagrees' hcall hholds'.left h
      | operation hmentions hleft hright =>
          have hd := entry_unique hlocate hholds'.last
          subst hd
          exact operation_back hlookup happly hagrees' hmentions
            ⟨_, hleft, hholds'.left.left⟩ ⟨_, hright, hholds'.left.right⟩ h
      | matrix hpacked =>
          have hd := entry_unique hlocate (hholds' _ List.mem_cons_self)
          subst hd
          cases h
          exact evaluates_matrix hpacked
      | list _ hitems =>
          have hd := entry_unique hlocate hholds'.last
          subst hd
          exact list_back hlookup hagrees' (holding_of_emitsOperands hitems hholds'.left) h
      | cond _ _ _ htest hyes hno =>
          have hd := entry_unique hlocate hholds'.last
          subst hd
          exact (hswitch _ _ _ h).guarded _ _ _ _ _ _ _ _ _ _ _ _ rfl hagrees'
            htest hholds'.left.left.left hyes hholds'.left.left.right hno hholds'.left.right
      | lambda hfunction =>
          have hd := entry_unique hlocate (hholds' _ List.mem_cons_self)
          subst hd
          cases hfunction with
          | intro hnodup hbody =>
              cases h
              exact ⟨_, by rw [Source.eval], .closure hagrees' (.intro hnodup hbody)⟩

theorem switch_back
    (hlookup : forall frames id w, lookup frames id = some w -> LookupBack I frames id w)
    (hswitch : forall frames cases w, switch frames cases = some w -> SwitchBack I frames cases w)
    {cases : List Case}
    (h : (match cases with
      | [] => none
      | ⟨none, id⟩ :: _ => lookup frames id
      | ⟨some guard, id⟩ :: rest => do
        match <- lookup frames guard with
        | .bool true => lookup frames id
        | .bool false => switch frames rest
        | _ => none) = some w) :
    SwitchBack I frames cases w := by
  constructor
  · rintro k env scope no out rfl hagrees hno hholds
    exact (hlookup _ _ _ h).entry hagrees hno hholds
  · rintro i j k env scope t test yes no out₁ out₂ out₃ rfl hagrees htest htestHolds hyes
      hyesHolds hno hnoHolds
    rcases Option.bind_eq_some_iff.mp h with ⟨b, hb, h⟩
    rcases (hlookup _ _ _ hb).entry hagrees htest htestHolds with ⟨b', hb', hbb⟩
    unfold Evaluates
    rw [Source.eval, hb', Option.bind_eq_bind, Option.bind_some]
    cases hbb with
    | bool truth =>
        cases truth with
        | true => exact (hlookup _ _ _ h).entry hagrees hyes hyesHolds
        | false => exact (hswitch _ _ _ h).default _ _ _ _ _ rfl hagrees hno hnoHolds
    | number _ => cases h
    | string _ => cases h
    | null => cases h
    | list _ => cases h
    | builtin _ => cases h
    | closure _ _ => cases h

theorem apply_back
    (hlookup : forall frames id w, lookup frames id = some w -> LookupBack I frames id w)
    (happly : forall g ws w, apply g ws = some w -> ApplyBack I g ws w)
    {g : Value Target.Closure} {ws : List (Value Target.Closure)}
    (h : (match g with
      | .builtin f => Value.applyBuiltin f ws
      | .closure (.mk params body frames) =>
        if ws.length < params.length then none
        else do
          let result <- lookup (.mk (params.zip ws) body :: frames) Table.resultId
          let rest := ws.drop params.length
          if rest.isEmpty then return result else apply result rest
      | _ => none) = some w) :
    ApplyBack I g ws w := by
  intro f args hrelated hargs
  cases hrelated with
  | number _ => cases h
  | string _ => cases h
  | bool _ => cases h
  | null => cases h
  | list _ => cases h
  | builtin f =>
      rw [Source.apply]
      exact (applyBuiltin_related hargs).2 w h
  | closure hagrees hfunction =>
      rename_i params body env scope names table frames
      have hnames : names.length = params.length := by
        cases hfunction
        exact List.length_map _
      dsimp only at h
      rw [hnames, ← hargs.length_eq] at h
      by_cases hfew : args.length < params.length
      · rw [if_pos hfew] at h
        cases h
      · rw [if_neg hfew] at h
        rcases Option.bind_eq_some_iff.mp h with ⟨result, hresult, h⟩
        rcases agrees_applied hagrees hfunction hargs (Nat.le_of_not_lt hfew) with
          ⟨_, scope', out, hagrees', hemits, hholds⟩
        rcases (hlookup _ _ _ hresult).entry hagrees' hemits hholds with ⟨v, hv, hvw⟩
        rw [Source.apply, if_neg hfew, hv, Option.bind_eq_bind, Option.bind_some]
        dsimp only at h ⊢
        rw [← isEmpty_drop_eq hargs] at h
        by_cases hrest : (args.drop params.length).isEmpty = true
        · rw [if_pos hrest] at h ⊢
          cases h
          exact ⟨v, rfl, hvw⟩
        · rw [if_neg hrest] at h ⊢
          exact happly _ _ _ h _ _ hvw (List.forall₂_drop params.length hargs)

end

end

/-- Every value of an identifier is also the value of its expression. -/
theorem backward (I : Interpretation) :
    (forall frames id w, Target.lookup I frames id = some w -> LookupBack I frames id w) ∧
      (forall frames d w, Target.eval I frames d = some w -> EvalBack I frames d w) ∧
      (forall g ws w, Target.apply I g ws = some w -> ApplyBack I g ws w) ∧
      (forall frames cases w, Target.switch I frames cases = some w ->
        SwitchBack I frames cases w) := by
  refine Target.lookup.mutual_partial_correctness I (LookupBack I) (EvalBack I) (ApplyBack I)
    (SwitchBack I) ?_ ?_ ?_ ?_
  · intro eval heval frames id w h
    exact lookup_back heval h
  · intro lookup apply switch hlookup happly hswitch frames d w h
    exact eval_back hlookup happly hswitch h
  · intro lookup apply hlookup happly g ws w h
    exact apply_back hlookup happly h
  · intro lookup switch hlookup hswitch frames cases w h
    exact switch_back hlookup hswitch h

end Semantics
end DefTable
