import DefTable.Proofs.Semantics.Memo.Plain

/-!
# Values are remembered

Whatever a function without memory gives is shown to be given with memory too.  A value that is
found in the heap is the one that is looked for, because evaluation without memory gives one value
at most.  So it is also shown that the value is the one that the function gives.
-/

namespace DefTable
namespace Semantics
namespace Memo

structure LookupKept (I : Interpretation) (frames : List Target.Frame) (id : String)
    (w : Value Target.Closure) : Prop where
  plain : Target.lookup I frames id = some w
  memo : forall view heap i, Sound I view heap -> At view i frames ->
    exists r, lookup I heap i id = some r ∧ Leaves I view r.2 fun later => Shows later r.1 w

structure LookupAllKept (I : Interpretation) (frames : List Target.Frame) (ids : List String)
    (ws : List (Value Target.Closure)) : Prop where
  plain : ids.mapM (fun id => Target.lookup I frames id) = some ws
  memo : forall view heap i, Sound I view heap -> At view (some i) frames ->
    exists r, lookupAll I heap i ids = some r ∧
      Leaves I view r.2 fun later => List.Forall₂ (Shows later) r.1 ws

structure EvalKept (I : Interpretation) (frames : List Target.Frame) (d : Def)
    (w : Value Target.Closure) : Prop where
  plain : Target.eval I frames d = some w
  memo : forall view heap i, Sound I view heap -> At view (some i) frames ->
    exists r, eval I heap i d = some r ∧ Leaves I view r.2 fun later => Shows later r.1 w

structure SwitchKept (I : Interpretation) (frames : List Target.Frame) (cases : List Case)
    (w : Value Target.Closure) : Prop where
  plain : Target.switch I frames cases = some w
  memo : forall view heap i, Sound I view heap -> At view (some i) frames ->
    exists r, switch I heap i cases = some r ∧ Leaves I view r.2 fun later => Shows later r.1 w

structure ApplyKept (I : Interpretation) (g : Value Target.Closure)
    (ws : List (Value Target.Closure)) (w : Value Target.Closure) : Prop where
  plain : Target.apply I g ws = some w
  memo : forall view heap f args, Sound I view heap -> Shows view f g ->
    List.Forall₂ (Shows view) args ws ->
    exists r, apply I heap f args = some r ∧ Leaves I view r.2 fun later => Shows later r.1 w

section

variable {I : Interpretation} {frames : List Target.Frame} {w : Value Target.Closure}
  {lookup : List Target.Frame -> String -> Option (Value Target.Closure)}
  {eval : List Target.Frame -> Def -> Option (Value Target.Closure)}
  {switch : List Target.Frame -> List Case -> Option (Value Target.Closure)}
  {apply : Value Target.Closure -> List (Value Target.Closure) -> Option (Value Target.Closure)}

theorem lookup_memo
    (heval : forall frames d w, eval frames d = some w -> EvalKept I frames d w) {id : String}
    (h : (match Target.locate? frames id with
      | some (.value v) => some v
      | some (.entry d inner) => eval inner d
      | none => (I id).map .builtin) = some w)
    (hplain : Target.lookup I frames id = some w) {view : View} {heap : Heap} {i : Option Nat}
    (hsound : Sound I view heap) (hat : At view i frames) :
    exists r, Memo.lookup I heap i id = some r ∧
      Leaves I view r.2 fun later => Shows later r.1 w := by
  induction frames generalizing i with
  | nil =>
      cases i with
      | none =>
          rcases Option.map_eq_some_iff.mp h with ⟨b, hb, rfl⟩
          refine ⟨(.builtin b, heap), ?_, .here hsound (.builtin b)⟩
          rw [Memo.lookup, hb]
          rfl
      | some i =>
          rcases hsound.frame hat with ⟨_, _, _, _, hnil, _⟩
          cases hnil
  | cons g outer ih =>
      cases i with
      | none => cases hat
      | some i =>
          rcases hsound.frame hat with ⟨f, _, _, hf, heq, hstands⟩
          cases heq
          rw [Memo.lookup, hf, Option.bind_eq_bind, Option.bind_some]
          cases hknown : f.known.lookup id with
          | some v =>
              rcases hstands.known id v hknown with ⟨w', hw', hshows⟩
              rw [hplain] at hw'
              cases hw'
              exact ⟨(v, heap), rfl, .here hsound hshows⟩
          | none =>
              cases htable : f.table.get? id with
              | some d =>
                  rw [hstands.locate?_entry hknown htable] at h
                  rcases (heval _ _ _ h).memo _ _ _ hsound hat with ⟨⟨v, heap'⟩, hv, hleaves⟩
                  refine ⟨(v, heap'.remember i id v), ?_, hleaves.remember hat hplain⟩
                  dsimp only
                  rw [hv]
                  rfl
              | none =>
                  have houter := hstands.locate?_outer hknown htable
                  rw [houter] at h
                  rw [Target.lookup, houter, ← Target.lookup] at hplain
                  exact ih h hplain hstands.around

theorem lookup_kept
    (heval : forall frames d w, eval frames d = some w -> EvalKept I frames d w) {id : String}
    (h : (match Target.locate? frames id with
      | some (.value v) => some v
      | some (.entry d inner) => eval inner d
      | none => (I id).map .builtin) = some w) :
    LookupKept I frames id w := by
  have hplain : Target.lookup I frames id = some w := by
    rw [Target.lookup]
    cases hlocate : Target.locate? frames id with
    | none =>
        rw [hlocate] at h
        exact h
    | some located =>
        rw [hlocate] at h
        cases located with
        | value v => exact h
        | entry d inner => exact (heval _ _ _ h).plain
  exact ⟨hplain, fun _ _ _ hsound hat => lookup_memo heval h hplain hsound hat⟩

theorem lookupAll_kept
    (hlookup : forall frames id w, lookup frames id = some w -> LookupKept I frames id w)
    {ids : List String} {ws : List (Value Target.Closure)}
    (h : ids.mapM (fun id => lookup frames id) = some ws) :
    LookupAllKept I frames ids ws := by
  induction ids generalizing ws with
  | nil =>
      cases h
      refine ⟨rfl, fun view heap i hsound _ => ⟨([], heap), ?_, .here hsound .nil⟩⟩
      rw [Memo.lookupAll]
  | cons id rest ih =>
      rw [List.mapM_cons] at h
      rcases Option.bind_eq_some_iff.mp h with ⟨w, hw, h⟩
      rcases Option.bind_eq_some_iff.mp h with ⟨ws', hws, h⟩
      cases h
      have hfirst := hlookup _ _ _ hw
      have hrest := ih hws
      constructor
      · rw [List.mapM_cons, hfirst.plain, hrest.plain]
        rfl
      · intro view heap i hsound hat
        rcases hfirst.memo _ _ _ hsound hat with
          ⟨⟨v, heap₁⟩, hv, later, hgrows, hsound₁, hshows⟩
        rcases hrest.memo _ _ _ hsound₁ (hat.mono hgrows) with ⟨⟨vs, heap₂⟩, hvs, hleaves⟩
        refine ⟨(v :: vs, heap₂), ?_, .after hgrows (hleaves.imp fun last hgrows' hall => ?_)⟩
        · rw [Memo.lookupAll, hv, Option.bind_eq_bind, Option.bind_some]
          dsimp only
          rw [hvs]
          rfl
        · exact .cons (hshows.mono hgrows') hall

theorem evalKept_value
    {d : Def} (hplain : Target.eval I frames d = some w)
    (h : forall view i, At view (some i) frames -> exists v, Shows view v w ∧
      forall heap, Memo.eval I heap i d = some (v, heap)) :
    EvalKept I frames d w := by
  refine ⟨hplain, fun view heap i hsound hat => ?_⟩
  rcases h view i hat with ⟨v, hshows, hv⟩
  exact ⟨(v, heap), hv heap, .here hsound hshows⟩

theorem call_kept
    (hlookup : forall frames id w, lookup frames id = some w -> LookupKept I frames id w)
    (happly : forall g ws w, apply g ws = some w -> ApplyKept I g ws w)
    {target : String} {args : List String}
    (h : (do
      let f <- lookup frames target
      if args.isEmpty then return f
      else
        let vs <- args.mapM fun id => lookup frames id
        apply f vs) = some w) :
    EvalKept I frames (.call target args) w := by
  rcases Option.bind_eq_some_iff.mp h with ⟨g, hg, h⟩
  have htarget := hlookup _ _ _ hg
  by_cases hempty : args.isEmpty = true
  · rw [if_pos hempty] at h
    cases h
    constructor
    · rw [Target.eval, htarget.plain, Option.bind_eq_bind, Option.bind_some, if_pos hempty]
      rfl
    · intro view heap i hsound hat
      rcases htarget.memo _ _ _ hsound hat with ⟨⟨f, heap'⟩, hf, hleaves⟩
      refine ⟨(f, heap'), ?_, hleaves⟩
      rw [Memo.eval, hf, Option.bind_eq_bind, Option.bind_some]
      dsimp only
      rw [if_pos hempty]
      rfl
  · rw [if_neg hempty] at h
    rcases Option.bind_eq_some_iff.mp h with ⟨ws, hws, h⟩
    have hargs := lookupAll_kept hlookup hws
    have hresult := happly _ _ _ h
    constructor
    · rw [Target.eval, htarget.plain, Option.bind_eq_bind, Option.bind_some, if_neg hempty,
        hargs.plain]
      exact hresult.plain
    · intro view heap i hsound hat
      rcases htarget.memo _ _ _ hsound hat with
        ⟨⟨f, heap₁⟩, hf, later, hgrows, hsound₁, hshows⟩
      rcases hargs.memo _ _ _ hsound₁ (hat.mono hgrows) with
        ⟨⟨vs, heap₂⟩, hvs, last, hgrows', hsound₂, hall⟩
      rcases hresult.memo _ _ _ _ hsound₂ (hshows.mono hgrows') hall with ⟨r, hr, hleaves⟩
      refine ⟨r, ?_, .after (hgrows.trans hgrows') hleaves⟩
      rw [Memo.eval, hf, Option.bind_eq_bind, Option.bind_some]
      dsimp only
      rw [if_neg hempty, hvs]
      exact hr

theorem eval_kept
    (hlookup : forall frames id w, lookup frames id = some w -> LookupKept I frames id w)
    (hswitch : forall frames cases w, switch frames cases = some w -> SwitchKept I frames cases w)
    (happly : forall g ws w, apply g ws = some w -> ApplyKept I g ws w) {d : Def}
    (h : (match d with
      | .number v => some (.number v)
      | .string v => some (.string v)
      | .bool v => some (.bool v)
      | .null => some .null
      | .matrix cells => some (.list (cells.map Target.cell))
      | .list items => do
        let vs <- items.mapM fun id => lookup frames id
        return .list vs
      | .func params body => some (.closure (.mk params body frames))
      | .switch cases => switch frames cases
      | .call target args => do
        let f <- lookup frames target
        if args.isEmpty then return f
        else
          let vs <- args.mapM fun id => lookup frames id
          apply f vs) = some w) :
    EvalKept I frames d w := by
  cases d with
  | number v =>
      cases h
      refine evalKept_value (by rw [Target.eval]) fun view i _ => ⟨_, .number v, fun heap => ?_⟩
      rw [Memo.eval]
  | string v =>
      cases h
      refine evalKept_value (by rw [Target.eval]) fun view i _ => ⟨_, .string v, fun heap => ?_⟩
      rw [Memo.eval]
  | bool v =>
      cases h
      refine evalKept_value (by rw [Target.eval]) fun view i _ => ⟨_, .bool v, fun heap => ?_⟩
      rw [Memo.eval]
  | null =>
      cases h
      refine evalKept_value (by rw [Target.eval]) fun view i _ => ⟨_, .null, fun heap => ?_⟩
      rw [Memo.eval]
  | matrix cells =>
      cases h
      refine evalKept_value (by rw [Target.eval]) fun view i _ =>
        ⟨_, .list (shows_cells view cells), fun heap => ?_⟩
      rw [Memo.eval]
  | list items =>
      rcases Option.bind_eq_some_iff.mp h with ⟨ws, hws, h⟩
      cases h
      have hitems := lookupAll_kept hlookup hws
      constructor
      · rw [Target.eval, hitems.plain]
        rfl
      · intro view heap i hsound hat
        rcases hitems.memo _ _ _ hsound hat with ⟨⟨vs, heap'⟩, hvs, hleaves⟩
        refine ⟨(.list vs, heap'), ?_, hleaves.imp fun _ _ hshows => .list hshows⟩
        rw [Memo.eval, hvs]
        rfl
  | func params body =>
      cases h
      refine evalKept_value (by rw [Target.eval]) fun view i hat =>
        ⟨.closure ⟨params, body, i⟩, .closure ⟨frames, hat, rfl⟩, fun heap => ?_⟩
      rw [Memo.eval]
  | switch cases =>
      have hcases := hswitch _ _ _ h
      constructor
      · rw [Target.eval]
        exact hcases.plain
      · intro view heap i hsound hat
        rw [Memo.eval]
        exact hcases.memo _ _ _ hsound hat
  | call target args => exact call_kept hlookup happly h

theorem guarded_kept
    {guard id : String} {truth : Bool} {rest : List Case}
    (hguard : LookupKept I frames guard (.bool truth))
    (hplain : (if truth then Target.lookup I frames id else Target.switch I frames rest) = some w)
    (hmemo : forall view heap i, Sound I view heap -> At view (some i) frames ->
      exists r, (if truth then Memo.lookup I heap (some i) id else Memo.switch I heap i rest) =
        some r ∧ Leaves I view r.2 fun later => Shows later r.1 w) :
    SwitchKept I frames (⟨some guard, id⟩ :: rest) w := by
  constructor
  · rw [Target.switch, hguard.plain]
    cases truth <;> exact hplain
  · intro view heap i hsound hat
    rcases hguard.memo _ _ _ hsound hat with ⟨⟨b, heap'⟩, hb, later, hgrows, hsound', hshows⟩
    rcases hmemo _ _ _ hsound' (hat.mono hgrows) with ⟨r, hr, hleaves⟩
    refine ⟨r, ?_, hleaves.after hgrows⟩
    cases hshows
    rw [Memo.switch, hb]
    cases truth <;> exact hr

theorem switch_kept
    (hlookup : forall frames id w, lookup frames id = some w -> LookupKept I frames id w)
    (hswitch : forall frames cases w, switch frames cases = some w -> SwitchKept I frames cases w)
    {cases : List Case}
    (h : (match cases with
      | [] => none
      | ⟨none, id⟩ :: _ => lookup frames id
      | ⟨some guard, id⟩ :: rest => do
        match <- lookup frames guard with
        | .bool true => lookup frames id
        | .bool false => switch frames rest
        | _ => none) = some w) :
    SwitchKept I frames cases w := by
  match cases with
  | [] => cases h
  | ⟨none, id⟩ :: _ =>
      have hvalue := hlookup _ _ _ h
      constructor
      · rw [Target.switch]
        exact hvalue.plain
      · intro view heap i hsound hat
        rw [Memo.switch]
        exact hvalue.memo _ _ _ hsound hat
  | ⟨some guard, id⟩ :: rest =>
      rcases Option.bind_eq_some_iff.mp h with ⟨b, hb, h⟩
      have hguard := hlookup _ _ _ hb
      cases b with
      | bool truth =>
          cases truth with
          | true =>
              have hvalue := hlookup _ _ _ h
              exact guarded_kept hguard hvalue.plain fun _ _ i => hvalue.memo _ _ (some i)
          | false =>
              have hcases := hswitch _ _ _ h
              exact guarded_kept hguard hcases.plain hcases.memo
      | number _ => cases h
      | string _ => cases h
      | null => cases h
      | list _ => cases h
      | builtin _ => cases h
      | closure _ => cases h

theorem closure_kept
    (hlookup : forall frames id w, lookup frames id = some w -> LookupKept I frames id w)
    (happly : forall g ws w, apply g ws = some w -> ApplyKept I g ws w)
    {params : List String} {body : Table} {ws : List (Value Target.Closure)}
    (h : (if ws.length < params.length then none
      else do
        let result <- lookup (.mk (params.zip ws) body :: frames) Table.resultId
        let rest := ws.drop params.length
        if rest.isEmpty then return result else apply result rest) = some w) :
    ApplyKept I (.closure (.mk params body frames)) ws w := by
  by_cases hfew : ws.length < params.length
  · rw [if_pos hfew] at h
    cases h
  · rw [if_neg hfew] at h
    rcases Option.bind_eq_some_iff.mp h with ⟨result, hresult, hlast⟩
    have hinner := hlookup _ _ _ hresult
    dsimp only at hlast
    constructor
    · rw [Target.apply, if_neg hfew, hinner.plain, Option.bind_eq_bind, Option.bind_some]
      dsimp only
      by_cases hrest : (ws.drop params.length).isEmpty = true
      · rw [if_pos hrest] at hlast ⊢
        exact hlast
      · rw [if_neg hrest] at hlast ⊢
        exact (happly _ _ _ hlast).plain
    · intro view heap f args hsound hshows hargs
      cases hshows with
      | @closure c _ hclosure =>
          rcases hclosure with ⟨frames', hframes, heq⟩
          cases heq
          rcases hinner.memo _ _ _ (hsound.enter hframes hargs) (at_enter hsound) with
            ⟨⟨v, heap'⟩, hv, later, hgrows, hsound', hshows⟩
          have hgrows' := (List.prefix_append view _).trans hgrows
          rw [Memo.apply, hargs.length_eq, if_neg hfew, hv, Option.bind_eq_bind,
            Option.bind_some]
          dsimp only
          rw [isEmpty_drop_eq hargs]
          by_cases hrest : (ws.drop c.params.length).isEmpty = true
          · rw [if_pos hrest] at hlast ⊢
            cases hlast
            exact ⟨(v, heap'), rfl, later, hgrows', hsound', hshows⟩
          · rw [if_neg hrest] at hlast ⊢
            have hmore := List.forall₂_drop c.params.length
              (hargs.imp fun _ _ => Shows.mono hgrows')
            rcases (happly _ _ _ hlast).memo _ _ _ _ hsound' hshows hmore with ⟨r, hr, hleaves⟩
            exact ⟨r, hr, hleaves.after hgrows'⟩

theorem apply_kept
    (hlookup : forall frames id w, lookup frames id = some w -> LookupKept I frames id w)
    (happly : forall g ws w, apply g ws = some w -> ApplyKept I g ws w)
    {g : Value Target.Closure} {ws : List (Value Target.Closure)}
    (h : (match g with
      | .builtin f => Value.applyBuiltin f ws
      | .closure (.mk params body frames) =>
        if ws.length < params.length then none
        else do
          let result <- lookup (.mk (params.zip ws) body :: frames) Table.resultId
          let rest := ws.drop params.length
          if rest.isEmpty then return result else apply result rest
      | _ => none) = some w) :
    ApplyKept I g ws w := by
  cases g with
  | number _ => cases h
  | string _ => cases h
  | bool _ => cases h
  | null => cases h
  | list _ => cases h
  | builtin b =>
      constructor
      · rw [Target.apply]
        exact h
      · intro view heap f args hsound hshows hargs
        cases hshows
        have hdata := Value.rel_data?_eq args ws hargs
        rcases Value.applyBuiltin_of_data?_eq hdata.symm h with ⟨d, rfl, hv⟩
        refine ⟨(.ofDatum d, heap), ?_, .here hsound (Value.rel_ofDatum d)⟩
        rw [Memo.apply, hv]
        rfl
  | closure c =>
      rcases c with ⟨params, body, frames⟩
      exact closure_kept hlookup happly h

end

/-- Every value that is given without memory is given with memory. -/
theorem kept (I : Interpretation) :
    (forall frames id w, Target.lookup I frames id = some w -> LookupKept I frames id w) ∧
      (forall frames d w, Target.eval I frames d = some w -> EvalKept I frames d w) ∧
      (forall g ws w, Target.apply I g ws = some w -> ApplyKept I g ws w) ∧
      (forall frames cases w, Target.switch I frames cases = some w ->
        SwitchKept I frames cases w) := by
  refine Target.lookup.mutual_partial_correctness I (LookupKept I) (EvalKept I) (ApplyKept I)
    (SwitchKept I) ?_ ?_ ?_ ?_
  · intro eval heval frames id w h
    exact lookup_kept heval h
  · intro lookup apply switch hlookup happly hswitch frames d w h
    exact eval_kept hlookup hswitch happly h
  · intro lookup apply hlookup happly g ws w h
    exact apply_kept hlookup happly h
  · intro lookup switch hlookup hswitch frames cases w h
    exact switch_kept hlookup hswitch h

/-!
## Tables that stand alone
-/

theorem sound_table (I : Interpretation) (t : Table) :
    Sound I [[.mk [] t]] [⟨t, [], none⟩] := by
  constructor
  · rfl
  · intro i f hf
    cases i with
    | zero =>
        cases hf
        refine ⟨.mk [] t, [], rfl, rfl, rfl, ?_, fun _ _ => rfl⟩
        intro id v hv
        cases hv
    | succ i => cases hf

theorem value?_rel (I : Interpretation) (t : Table) (id : String) :
    exists view, Option.Rel (Shows view) (value? I t id) (Target.value? I t id) := by
  have hsound := sound_table I t
  have hat : At [[.mk [] t]] (some 0) [.mk [] t] := rfl
  unfold value?
  cases hmemo : lookup I [⟨t, [], none⟩] (some 0) id with
  | some r =>
      rcases (plain I).1 _ _ _ _ hmemo _ _ hsound hat with ⟨w, hw, view, _, _, hshows⟩
      refine ⟨view, ?_⟩
      rw [Target.value?, hw]
      exact .some hshows
  | none =>
      refine ⟨[], ?_⟩
      cases hplain : Target.value? I t id with
      | none => exact .none
      | some w =>
          rcases ((kept I).1 _ _ _ hplain).memo _ _ _ hsound hat with ⟨r, hr, _⟩
          rw [hmemo] at hr
          cases hr

/-- A table gives the same first-order values whether it remembers values or not. -/
theorem value?_eq_ofDatum_iff (I : Interpretation) (t : Table) (id : String) (v : Datum) :
    value? I t id = some (.ofDatum v) <-> Target.value? I t id = some (.ofDatum v) := by
  rcases value?_rel I t id with ⟨view, hrel⟩
  generalize value? I t id = a at hrel ⊢
  generalize Target.value? I t id = b at hrel ⊢
  cases hrel with
  | none => exact ⟨nofun, nofun⟩
  | some hshows =>
      rw [Option.some.injEq, Option.some.injEq]
      exact Value.eq_ofDatum_iff (Value.Rel.datum?_eq _ _ hshows) v

end Memo
end Semantics
end DefTable
