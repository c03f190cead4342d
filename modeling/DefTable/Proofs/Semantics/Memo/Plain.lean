import DefTable.Proofs.Semantics.Memo.View

/-!
# Remembered values are values

What each function with memory gives is shown to be what the function without memory gives.  In
each lemma `lookup`, `lookupAll`, `eval`, `switch` and `apply` stand for the recursive calls.
-/

namespace DefTable
namespace Semantics
namespace Memo

def LookupPlain (I : Interpretation) (heap : Heap) (i : Option Nat) (id : String)
    (r : Value Closure × Heap) : Prop :=
  forall view frames, Sound I view heap -> At view i frames ->
    exists w, Target.lookup I frames id = some w ∧
      Leaves I view r.2 fun later => Shows later r.1 w

def LookupAllPlain (I : Interpretation) (heap : Heap) (i : Nat) (ids : List String)
    (r : List (Value Closure) × Heap) : Prop :=
  forall view frames, Sound I view heap -> At view (some i) frames ->
    exists ws, ids.mapM (fun id => Target.lookup I frames id) = some ws ∧
      Leaves I view r.2 fun later => List.Forall₂ (Shows later) r.1 ws

def EvalPlain (I : Interpretation) (heap : Heap) (i : Nat) (d : Def)
    (r : Value Closure × Heap) : Prop :=
  forall view frames, Sound I view heap -> At view (some i) frames ->
    exists w, Target.eval I frames d = some w ∧
      Leaves I view r.2 fun later => Shows later r.1 w

def SwitchPlain (I : Interpretation) (heap : Heap) (i : Nat) (cases : List Case)
    (r : Value Closure × Heap) : Prop :=
  forall view frames, Sound I view heap -> At view (some i) frames ->
    exists w, Target.switch I frames cases = some w ∧
      Leaves I view r.2 fun later => Shows later r.1 w

def ApplyPlain (I : Interpretation) (heap : Heap) (f : Value Closure)
    (args : List (Value Closure)) (r : Value Closure × Heap) : Prop :=
  forall view g ws, Sound I view heap -> Shows view f g -> List.Forall₂ (Shows view) args ws ->
    exists w, Target.apply I g ws = some w ∧
      Leaves I view r.2 fun later => Shows later r.1 w

section

variable {I : Interpretation} {heap : Heap} {i : Nat} {r : Value Closure × Heap}
  {lookup : Lookup} {lookupAll : LookupAll} {eval : Eval} {switch : Switch} {apply : Apply}

theorem lookup_plain
    (hlookup : forall heap i id r, lookup heap i id = some r -> LookupPlain I heap i id r)
    (heval : forall heap i d r, eval heap i d = some r -> EvalPlain I heap i d r)
    {i : Option Nat} {id : String}
    (h : (match i with
      | none => (I id).map fun f => (.builtin f, heap)
      | some i => do
        let f <- heap[i]?
        match f.known.lookup id with
        | some v => return (v, heap)
        | none =>
          match f.table.get? id with
          | some d => do
            let (v, heap) <- eval heap i d
            return (v, heap.remember i id v)
          | none => lookup heap f.outer id) = some r) :
    LookupPlain I heap i id r := by
  intro view frames hsound hat
  cases i with
  | none =>
      rcases Option.map_eq_some_iff.mp h with ⟨b, hb, rfl⟩
      refine ⟨.builtin b, ?_, .here hsound (.builtin b)⟩
      rw [show frames = [] from hat, Target.lookup, Target.locate?]
      dsimp only
      rw [hb]
      rfl
  | some i =>
      rcases hsound.frame hat with ⟨f, g, outer, hf, rfl, hstands⟩
      dsimp only at h
      rw [hf, Option.bind_eq_bind, Option.bind_some] at h
      cases hknown : f.known.lookup id with
      | some v =>
          rw [hknown] at h
          cases h
          rcases hstands.known id v hknown with ⟨w, hw, hshows⟩
          exact ⟨w, hw, .here hsound hshows⟩
      | none =>
          rw [hknown] at h
          cases htable : f.table.get? id with
          | some d =>
              rw [htable] at h
              rcases Option.bind_eq_some_iff.mp h with ⟨⟨v, heap'⟩, hv, h⟩
              cases h
              rcases heval _ _ _ _ hv _ _ hsound hat with ⟨w, hw, hleaves⟩
              have hplain : Target.lookup I (g :: outer) id = some w := by
                rw [Target.lookup, hstands.locate?_entry hknown htable]
                exact hw
              exact ⟨w, hplain, hleaves.remember hat hplain⟩
          | none =>
              rw [htable] at h
              rw [Target.lookup, hstands.locate?_outer hknown htable, ← Target.lookup]
              exact hlookup _ _ _ _ h _ _ hsound hstands.around

theorem lookupAll_plain
    (hlookup : forall heap i id r, lookup heap i id = some r -> LookupPlain I heap i id r)
    (hall : forall heap i ids r, lookupAll heap i ids = some r -> LookupAllPlain I heap i ids r)
    {ids : List String} {r : List (Value Closure) × Heap}
    (h : (match ids with
      | [] => some ([], heap)
      | id :: rest => do
        let (v, heap) <- lookup heap (some i) id
        let (vs, heap) <- lookupAll heap i rest
        return (v :: vs, heap)) = some r) :
    LookupAllPlain I heap i ids r := by
  intro view frames hsound hat
  cases ids with
  | nil =>
      cases h
      exact ⟨[], rfl, .here hsound .nil⟩
  | cons id rest =>
      rcases Option.bind_eq_some_iff.mp h with ⟨⟨v, heap₁⟩, hv, h⟩
      rcases Option.bind_eq_some_iff.mp h with ⟨⟨vs, heap₂⟩, hvs, h⟩
      cases h
      rcases hlookup _ _ _ _ hv _ _ hsound hat with ⟨w, hw, later, hgrows, hsound₁, hshows⟩
      rcases hall _ _ _ _ hvs _ _ hsound₁ (hat.mono hgrows) with ⟨ws, hws, hleaves⟩
      refine ⟨w :: ws, ?_, .after hgrows (hleaves.imp fun last hgrows' hrest => ?_)⟩
      · rw [List.mapM_cons, hw, hws]
        rfl
      · exact .cons (hshows.mono hgrows') hrest

theorem eval_plain
    (hlookup : forall heap i id r, lookup heap i id = some r -> LookupPlain I heap i id r)
    (hall : forall heap i ids r, lookupAll heap i ids = some r -> LookupAllPlain I heap i ids r)
    (hswitch : forall heap i cases r, switch heap i cases = some r -> SwitchPlain I heap i cases r)
    (happly : forall heap f args r, apply heap f args = some r -> ApplyPlain I heap f args r)
    {d : Def}
    (h : (match d with
      | .number v => some (.number v, heap)
      | .string v => some (.string v, heap)
      | .bool v => some (.bool v, heap)
      | .null => some (.null, heap)
      | .matrix cells => some (.list (cells.map cell), heap)
      | .list items => do
        let (vs, heap) <- lookupAll heap i items
        return (.list vs, heap)
      | .func params body => some (.closure ⟨params, body, i⟩, heap)
      | .switch cases => switch heap i cases
      | .call target args => do
        let (f, heap) <- lookup heap (some i) target
        if args.isEmpty then return (f, heap)
        else do
          let (vs, heap) <- lookupAll heap i args
          apply heap f vs) = some r) :
    EvalPlain I heap i d r := by
  intro view frames hsound hat
  cases d with
  | number v =>
      cases h
      exact ⟨_, by rw [Target.eval], .here hsound (.number v)⟩
  | string v =>
      cases h
      exact ⟨_, by rw [Target.eval], .here hsound (.string v)⟩
  | bool v =>
      cases h
      exact ⟨_, by rw [Target.eval], .here hsound (.bool v)⟩
  | null =>
      cases h
      exact ⟨_, by rw [Target.eval], .here hsound .null⟩
  | matrix cells =>
      cases h
      exact ⟨_, by rw [Target.eval], .here hsound (.list (shows_cells view cells))⟩
  | list items =>
      rcases Option.bind_eq_some_iff.mp h with ⟨⟨vs, heap'⟩, hvs, h⟩
      cases h
      rcases hall _ _ _ _ hvs _ _ hsound hat with ⟨ws, hws, hleaves⟩
      refine ⟨.list ws, ?_, hleaves.imp fun _ _ hshows => .list hshows⟩
      rw [Target.eval, hws]
      rfl
  | func params body =>
      cases h
      exact ⟨_, by rw [Target.eval], .here hsound (.closure ⟨frames, hat, rfl⟩)⟩
  | switch cases =>
      rw [Target.eval]
      exact hswitch _ _ _ _ h _ _ hsound hat
  | call target args =>
      rcases Option.bind_eq_some_iff.mp h with ⟨⟨f, heap₁⟩, hf, h⟩
      rcases hlookup _ _ _ _ hf _ _ hsound hat with ⟨g, hg, later, hgrows, hsound₁, hshows⟩
      dsimp only at h
      rw [Target.eval, hg, Option.bind_eq_bind, Option.bind_some]
      by_cases hempty : args.isEmpty = true
      · rw [if_pos hempty] at h ⊢
        cases h
        exact ⟨g, rfl, later, hgrows, hsound₁, hshows⟩
      · rw [if_neg hempty] at h ⊢
        rcases Option.bind_eq_some_iff.mp h with ⟨⟨vs, heap₂⟩, hvs, h⟩
        rcases hall _ _ _ _ hvs _ _ hsound₁ (hat.mono hgrows) with
          ⟨ws, hws, last, hgrows', hsound₂, hargs⟩
        rcases happly _ _ _ _ h _ _ _ hsound₂ (hshows.mono hgrows') hargs with ⟨w, hw, hleaves⟩
        refine ⟨w, ?_, .after (hgrows.trans hgrows') hleaves⟩
        rw [hws]
        exact hw

theorem switch_plain
    (hlookup : forall heap i id r, lookup heap i id = some r -> LookupPlain I heap i id r)
    (hswitch : forall heap i cases r, switch heap i cases = some r -> SwitchPlain I heap i cases r)
    {cases : List Case}
    (h : (match cases with
      | [] => none
      | ⟨none, id⟩ :: _ => lookup heap (some i) id
      | ⟨some guard, id⟩ :: rest => do
        let (b, heap) <- lookup heap (some i) guard
        match b with
        | .bool true => lookup heap (some i) id
        | .bool false => switch heap i rest
        | _ => none) = some r) :
    SwitchPlain I heap i cases r := by
  intro view frames hsound hat
  match cases with
  | [] => cases h
  | ⟨none, id⟩ :: _ =>
      rw [Target.switch]
      exact hlookup _ _ _ _ h _ _ hsound hat
  | ⟨some guard, id⟩ :: rest =>
      rcases Option.bind_eq_some_iff.mp h with ⟨⟨b, heap'⟩, hb, h⟩
      rcases hlookup _ _ _ _ hb _ _ hsound hat with ⟨b', hb', later, hgrows, hsound', hshows⟩
      dsimp only at h
      rw [Target.switch, hb', Option.bind_eq_bind, Option.bind_some]
      cases hshows with
      | bool truth =>
          cases truth with
          | true =>
              rcases hlookup _ _ _ _ h _ _ hsound' (hat.mono hgrows) with ⟨w, hw, hleaves⟩
              exact ⟨w, hw, hleaves.after hgrows⟩
          | false =>
              rcases hswitch _ _ _ _ h _ _ hsound' (hat.mono hgrows) with ⟨w, hw, hleaves⟩
              exact ⟨w, hw, hleaves.after hgrows⟩
      | number _ => cases h
      | string _ => cases h
      | null => cases h
      | list _ => cases h
      | builtin _ => cases h
      | closure _ => cases h

theorem apply_plain
    (hlookup : forall heap i id r, lookup heap i id = some r -> LookupPlain I heap i id r)
    (happly : forall heap f args r, apply heap f args = some r -> ApplyPlain I heap f args r)
    {f : Value Closure} {args : List (Value Closure)}
    (h : (match f with
      | .builtin f => (Value.applyBuiltin f args).map fun v => (v, heap)
      | .closure c =>
        if args.length < c.params.length then none
        else do
          let (result, heap) <- lookup (heap.enter c args) (some heap.length) Table.resultId
          let rest := args.drop c.params.length
          if rest.isEmpty then return (result, heap) else apply heap result rest
      | _ => none) = some r) :
    ApplyPlain I heap f args r := by
  intro view g ws hsound hshows hargs
  cases hshows with
  | number _ => cases h
  | string _ => cases h
  | bool _ => cases h
  | null => cases h
  | list _ => cases h
  | builtin b =>
      rcases Option.map_eq_some_iff.mp h with ⟨v, hv, rfl⟩
      rcases Value.applyBuiltin_of_data?_eq (Value.rel_data?_eq args ws hargs) hv with
        ⟨d, rfl, hw⟩
      refine ⟨_, ?_, .here hsound (Value.rel_ofDatum d)⟩
      rw [Target.apply]
      exact hw
  | @closure c _ hclosure =>
      rcases hclosure with ⟨frames, hframes, rfl⟩
      dsimp only at h
      rw [Target.apply, ← hargs.length_eq]
      by_cases hfew : args.length < c.params.length
      · rw [if_pos hfew] at h
        cases h
      · rw [if_neg hfew] at h ⊢
        rcases Option.bind_eq_some_iff.mp h with ⟨⟨result, heap'⟩, hresult, h⟩
        rcases hlookup _ _ _ _ hresult _ _ (hsound.enter hframes hargs) (at_enter hsound) with
          ⟨w, hw, later, hgrows, hsound', hshows⟩
        have hgrows' := (List.prefix_append view _).trans hgrows
        rw [hw, Option.bind_eq_bind, Option.bind_some]
        dsimp only at h ⊢
        rw [← isEmpty_drop_eq hargs]
        by_cases hrest : (args.drop c.params.length).isEmpty = true
        · rw [if_pos hrest] at h ⊢
          cases h
          exact ⟨w, rfl, later, hgrows', hsound', hshows⟩
        · rw [if_neg hrest] at h ⊢
          have hmore := List.forall₂_drop c.params.length
            (hargs.imp fun _ _ => Shows.mono hgrows')
          rcases happly _ _ _ _ h _ _ _ hsound' hshows hmore with ⟨last, hlast, hleaves⟩
          exact ⟨last, hlast, hleaves.after hgrows'⟩

end

/-- Every value that is given with memory is given without. -/
theorem plain (I : Interpretation) :
    (forall heap i id r, lookup I heap i id = some r -> LookupPlain I heap i id r) ∧
      (forall heap i d r, eval I heap i d = some r -> EvalPlain I heap i d r) ∧
      (forall heap f args r, apply I heap f args = some r -> ApplyPlain I heap f args r) ∧
      (forall heap i cases r, switch I heap i cases = some r -> SwitchPlain I heap i cases r) ∧
      (forall heap i ids r, lookupAll I heap i ids = some r ->
        LookupAllPlain I heap i ids r) := by
  refine lookup.mutual_partial_correctness I (LookupPlain I) (EvalPlain I) (ApplyPlain I)
    (SwitchPlain I) (LookupAllPlain I) ?_ ?_ ?_ ?_ ?_
  · intro lookup eval hlookup heval heap i id r h
    exact lookup_plain hlookup heval h
  · intro lookup apply switch lookupAll hlookup happly hswitch hall heap i d r h
    exact eval_plain hlookup hall hswitch happly h
  · intro lookup apply hlookup happly heap f args r h
    exact apply_plain hlookup happly h
  · intro lookup switch hlookup hswitch heap i cases r h
    exact switch_plain hlookup hswitch h
  · intro lookup lookupAll hlookup hall heap i ids r h
    exact lookupAll_plain hlookup hall h

end Memo
end Semantics
end DefTable
