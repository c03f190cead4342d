import DefTable.Proofs.Grammar.Whole
import DefTable.Proofs.Machine.Assembler
import DefTable.Proofs.Scope.Fresh

/-!
# The mutating lowering does what lowering says

On expressions without holes every step of the machine mirrors the lowering of the same expression:
it ends, without a crash, with the same identifiers and the same table, or with the same error.
-/

namespace DefTable
namespace Machine

open Lowering (Build Builder Uses uses)
open Scope (Frame)

/-!
## Tables as nodes
-/

mutual

def Node.ofDef : Def -> Node
  | .number v => .number v
  | .string v => .string v
  | .matrix vs => .matrix vs
  | .bool v => .bool v
  | .null => .null
  | .list items => .list items
  | .call target args => .call target args
  | .func params body => .func params (Nodes.ofTable body)
  | .switch cases => .switch cases

def Nodes.ofTable : List (String × Def) -> Nodes
  | [] => []
  | (id, d) :: rest => (id, Node.ofDef d) :: Nodes.ofTable rest

end

theorem nodes_insert (id : String) (d : Def) (t : Table) :
    Nodes.ofTable (t.insert id d) = (Nodes.ofTable t).insert id (.ofDef d) := by
  induction t with
  | nil => rfl
  | cons entry rest ih =>
      rcases entry with ⟨key, d'⟩
      rw [Table.insert, Nodes.ofTable, Nodes.insert]
      split
      · rfl
      · split
        · rfl
        · rw [← ih]
          rfl

/-!
## Steps that mirror each other
-/

def Assembly.ofBuilder (b : Builder) : Assembly :=
  ⟨b.space, .ofTable b.table⟩

/-- From the same state both end in the same state with related results, or fail with the same
error. -/
def Mirrors {α β : Type} (R : α -> β -> Prop) (m : Assembler α) (b : Build β) : Prop :=
  forall s, match b.run s with
    | .ok (y, s') => exists x, R x y ∧ m.run (.ofBuilder s) = pure (x, .ofBuilder s')
    | .error e => m.run (.ofBuilder s) = throw e

section

variable {α β γ δ : Type} {R : α -> β -> Prop} {S : γ -> δ -> Prop}
variable {m : Assembler α} {b : Build β} {f : α -> Assembler γ} {g : β -> Build δ}

theorem Mirrors.pure {x : α} {y : β} (h : R x y) : Mirrors R (pure x) (pure y) :=
  fun _ => ⟨x, h, rfl⟩

theorem Mirrors.bind (hm : Mirrors R m b) (hf : forall x y, R x y -> Mirrors S (f x) (g y)) :
    Mirrors S (m >>= f) (b >>= g) := by
  intro s
  have hs := hm s
  rw [StateT.run_bind, StateT.run_bind]
  cases hb : b.run s with
  | error e =>
      rw [hb] at hs
      change (m.run (.ofBuilder s) >>= _) = throw e
      rw [hs]
      rfl
  | ok p =>
      rcases p with ⟨y, s'⟩
      rw [hb] at hs
      rcases hs with ⟨x, hxy, hrun⟩
      rw [hrun, pure_bind]
      exact hf x y hxy s'

theorem Mirrors.error (e : Lowering.Error) : Mirrors R (throw e) (throw e) :=
  fun _ => rfl

end

theorem define_mirrors (out : String) (d : Def) :
    Mirrors Eq (define out (.ofDef d)) (Lowering.define out d) := by
  intro s
  refine ⟨(), rfl, ?_⟩
  have hinsert := nodes_insert out d s.table
  unfold Assembly.ofBuilder
  dsimp only
  rw [hinsert]
  rfl

/-!
## Scopes
-/

def Matches (layers : List Layer) (frames : List Frame) : Prop :=
  layers.flatMap Layer.bindings = frames.flatMap Frame.bindings

section

variable {layers : List Layer} {frames : List Frame}

theorem Matches.cons
    (h : Matches layers frames) {layer : Layer} {frame : Frame}
    (hbindings : layer.bindings = frame.bindings) :
    Matches (layer :: layers) (frame :: frames) := by
  unfold Matches at h ⊢
  rw [List.flatMap_cons, List.flatMap_cons, h, hbindings]

theorem Matches.transparent (h : Matches layers frames) : Matches (.transparent :: layers) frames :=
  h

theorem binds_eq (h : Matches layers frames) (id : String) :
    binds layers id = (Scope.identifiers frames).contains id := by
  have hids : Scope.identifiers frames = (frames.flatMap Frame.bindings).map Prod.snd := by
    rw [List.map_flatMap]
    rfl
  have hbinds : binds layers id = (layers.flatMap Layer.bindings).any fun p => p.2 = id := by
    rw [List.any_flatMap]
    rfl
  rw [hids, hbinds, h, Bool.eq_iff_iff]
  generalize frames.flatMap Frame.bindings = bindings
  simp

theorem findSome_lookup {σ : Type} (bindings : σ -> List (String × String)) (scopes : List σ)
    (name : String) :
    (scopes.findSome? fun scope => (bindings scope).lookup name) =
      (scopes.flatMap bindings).lookup name := by
  induction scopes with
  | nil => rfl
  | cons scope scopes ih =>
      rw [List.findSome?_cons, List.flatMap_cons, List.lookup_append, ih]
      cases (bindings scope).lookup name <;> rfl

theorem resolve_mirrors (h : Matches layers frames) (i : Ident) :
    Mirrors Eq (resolve layers i) (Lowering.resolve frames i) := by
  have hlookup : (layers.findSome? fun layer => layer.bindings.lookup i.name) =
      frames.findSome? fun frame => frame.lookup? i.name := by
    rw [findSome_lookup Layer.bindings, h, ← findSome_lookup Frame.bindings]
    rfl
  unfold resolve Lowering.resolve Scope.resolve
  rw [hlookup]
  by_cases hglobal : isGlobal i.name = true
  · rw [if_pos hglobal, if_pos hglobal]
    exact .pure rfl
  · rw [if_neg hglobal, if_neg hglobal]
    cases frames.findSome? fun frame => frame.lookup? i.name with
    | none => exact .error _
    | some id => exact .pure rfl

theorem fresh_run (hint : String) (space : Scope.Namespace) (nodes : Nodes) :
    (fresh layers hint).run ⟨space, nodes⟩ =
      let id := Scope.candidate hint space.counter
      if space.has id || binds layers id then
        (fresh layers hint).run ⟨{ space with counter := space.counter + 1 }, nodes⟩
      else pure (id, ⟨space.add id, nodes⟩) := by
  conv_lhs => rw [fresh]
  dsimp only
  by_cases htaken : (space.has (Scope.candidate hint space.counter) ||
      binds layers (Scope.candidate hint space.counter)) = true
  · rw [if_pos htaken, StateT.run_bind]
    exact congrArg (fun m => StateT.run m _) (if_pos htaken)
  · rw [if_neg htaken, StateT.run_bind]
    exact congrArg (fun m => StateT.run m _) (if_neg htaken)

theorem fresh_search
    {visible : List String} (hvisible : forall id, binds layers id = visible.contains id)
    (hint : String) (steps : Nat) (space : Scope.Namespace) (nodes : Nodes)
    (hfree : Scope.candidate hint (Scope.leastFree (space.names ++ visible) hint steps
      space.counter) ∉ space.names ++ visible) :
    (fresh layers hint).run ⟨space, nodes⟩ =
      let k := Scope.leastFree (space.names ++ visible) hint steps space.counter
      pure (Scope.candidate hint k,
        ⟨({ space with counter := k } : Scope.Namespace).add (Scope.candidate hint k), nodes⟩) := by
  have htaken (counter : Nat) (id : String) :
      (({ space with counter := counter } : Scope.Namespace).has id || binds layers id) =
        (space.names ++ visible).contains id := by
    rw [hvisible, List.contains_append]
    rfl
  induction steps generalizing space with
  | zero =>
      rw [fresh_run]
      dsimp only
      rw [if_neg]
      · rfl
      · rw [htaken, List.contains_iff_mem]
        exact hfree
  | succ steps ih =>
      rw [fresh_run]
      dsimp only
      rw [htaken]
      rw [Scope.leastFree] at hfree ⊢
      by_cases hnext : (space.names ++ visible).contains
          (Scope.candidate hint space.counter) = true
      · rw [if_pos hnext] at hfree ⊢
        rw [if_pos hnext]
        exact ih { space with counter := space.counter + 1 } hfree htaken
      · rw [if_neg hnext, if_neg hnext]

theorem fresh_eq
    (h : Matches layers frames) (hint : String) (space : Scope.Namespace) (nodes : Nodes) :
    (fresh layers hint).run ⟨space, nodes⟩ =
      let taken := space.fresh (Scope.identifiers frames) hint
      pure (taken.1, ⟨taken.2, nodes⟩) :=
  fresh_search (binds_eq h) hint _ space nodes (Scope.leastFree_free _ hint space.counter)

theorem fresh_mirrors (h : Matches layers frames) :
    Mirrors Eq (fresh layers "") (Lowering.fresh frames) :=
  fun s => ⟨_, rfl, fresh_eq h "" s.space (.ofTable s.table)⟩

theorem register_mirrors (h : Matches layers frames) (i : Ident) :
    Mirrors (fun x y => x.1 = y.1 ∧ Matches (x.2 :: layers) y.2)
      (register .transparent layers i) (Lowering.declareLet frames i) := by
  intro s
  let taken := s.space.fresh (Scope.identifiers frames) i.name
  have hfresh := fresh_eq h.transparent i.name s.space (.ofTable s.table)
  refine ⟨(taken.1, Layer.transparent.bind i.name taken.1), ⟨rfl, h.cons rfl⟩, ?_⟩
  change (fresh (.transparent :: layers) i.name >>= fun id =>
    pure (id, Layer.transparent.bind i.name id)).run (.ofBuilder s) = _
  rw [StateT.run_bind]
  exact congrArg (· >>= _) hfresh

theorem register_owning
    (layers : List Layer) (bindings : List (String × String)) (i : Ident)
    (space : Scope.Namespace) (nodes : Nodes) :
    (register ⟨Layer.owningKind, bindings⟩ layers i).run ⟨space, nodes⟩ =
      if space.has i.name then throw (.name (.duplicate i.name) i.token)
      else pure ((i.name, ⟨Layer.owningKind, (i.name, i.name) :: bindings⟩),
        ⟨space.add i.name, nodes⟩) := by
  by_cases hhas : space.has i.name = true
  · rw [if_pos hhas]
    exact congrArg (fun m => StateT.run m _) (if_pos hhas)
  · rw [if_neg hhas]
    exact congrArg (fun m => StateT.run m _) (if_neg hhas)

theorem registerAll_run
    (layers : List Layer) (frames : List Frame) (idents : List Ident) {frame : Frame}
    (hkind : frame.kind = .owning) (space : Scope.Namespace) (nodes : Nodes) :
    (registerAll layers ⟨Layer.owningKind, frame.bindings⟩ idents).run ⟨space, nodes⟩ =
      match Lowering.declareAll frames (frame, space) idents with
      | .ok (frame, space) => pure (⟨Layer.owningKind, frame.bindings⟩, ⟨space, nodes⟩)
      | .error e => throw e := by
  induction idents generalizing frame space with
  | nil => rfl
  | cons i rest ih =>
      rw [Lowering.declareAll, Scope.declare, hkind, registerAll, StateT.run_bind, register_owning]
      dsimp only
      by_cases hhas : space.has i.name = true
      · rw [if_pos hhas, if_pos hhas]
        rfl
      · have hbind : (frame.bind i.name i.name).kind = .owning := hkind
        rw [if_neg hhas, if_neg hhas, pure_bind]
        exact ih hbind (space.add i.name)

/-!
## Expressions
-/

/-- All uses of the expression are mirrored, in all scopes. -/
structure Lowers (e : Expr) : Prop where
  into : forall layers frames, Matches layers frames -> forall out,
    Mirrors Eq (lowerExpr out e layers) ((uses frames e).into out)
  operand : forall layers frames, Matches layers frames ->
    Mirrors Eq (lowerOperand e layers) (uses frames e).operand
  call : forall layers frames, Matches layers frames ->
    Mirrors Eq (lowerCall (unwind e []) layers) (uses frames e).call

def LowersAll (es : List Expr) : Prop :=
  forall layers frames, Matches layers frames ->
    Mirrors Eq (lowerOperands es layers) (Lowering.operands frames es)

theorem run_function_eq
    (frames : List Frame) (params : List Ident) (body : List Frame -> Build Unit) (s : Builder) :
    (Lowering.function frames params body).run s =
      match Lowering.declareAll frames (.empty .owning, .empty) params with
      | .error e => .error e
      | .ok (frame, space) =>
          match (body (frame :: frames)).run ⟨space, []⟩ with
          | .error e => .error e
          | .ok (_, inner) => .ok (.func (params.map Ident.name) inner.table, s) := by
  unfold Lowering.function
  rw [StateT.run_bind]
  cases Lowering.declareAll frames (.empty .owning, .empty) params with
  | error e => rfl
  | ok p =>
      rcases p with ⟨frame, space⟩
      change (liftM ((body (frame :: frames)).run ⟨space, []⟩) >>= fun q =>
        pure (.func (params.map Ident.name) q.2.table) : Build Def).run s = _
      rw [StateT.run_bind]
      dsimp only
      cases (body (frame :: frames)).run ⟨space, []⟩ <;> rfl

theorem lowerFunction_mirrors
    (h : Matches layers frames) (params : List Ident) {body : Expr} (hbody : Lowers body) :
    Mirrors (fun n d => n = .ofDef d) (lowerFunction params body layers)
      (Lowering.function frames params fun inner => (uses inner body).into Table.resultId) := by
  intro s
  have hkind : (Frame.empty .owning).kind = .owning := rfl
  have hparams : (registerAll layers .owning params).run ⟨.empty, []⟩ = _ :=
    registerAll_run layers frames params hkind .empty []
  have hmachine : (lowerFunction params body layers).run (.ofBuilder s) =
      ((registerAll layers .owning params).run ⟨.empty, []⟩ >>= fun p =>
        (lowerExpr Table.resultId body (p.1 :: layers)).run p.2 >>= fun q =>
          pure (.func (params.map Ident.name) q.2.nodes, .ofBuilder s)) := by
    rw [lowerFunction]
    rfl
  rw [run_function_eq, hmachine, hparams]
  cases Lowering.declareAll frames (.empty .owning, .empty) params with
  | error e => rfl
  | ok p =>
      rcases p with ⟨frame, space⟩
      have hinner : Matches (⟨Layer.owningKind, frame.bindings⟩ :: layers) (frame :: frames) :=
        h.cons rfl
      have hlower := hbody.into _ _ hinner Table.resultId ⟨space, []⟩
      dsimp only
      rw [pure_bind]
      cases hrun : ((uses (frame :: frames) body).into Table.resultId).run ⟨space, []⟩ with
      | error e =>
          rw [hrun] at hlower
          exact congrArg (· >>= _) hlower
      | ok q =>
          rw [hrun] at hlower
          rcases hlower with ⟨_, _, hlower⟩
          exact ⟨_, rfl, congrArg (· >>= _) hlower⟩

theorem lowerDecl_mirrors
    (h : Matches layers frames) (out : String) (params : List Ident) {body : Expr}
    (hbody : Lowers body) :
    Mirrors Eq (lowerDecl out params body layers)
      (Lowering.declaration frames out params fun frames id => (uses frames body).into id) := by
  rw [lowerDecl]
  unfold Lowering.declaration
  cases hempty : params.isEmpty with
  | true => exact hbody.into _ _ h.transparent out
  | false =>
      refine (lowerFunction_mirrors h params hbody).bind ?_
      rintro _ d rfl
      exact define_mirrors out d

theorem lowerOperand_mirrors
    {e : Expr} {into : String -> Build Unit} (h : Matches layers frames)
    (hname : forall i, e ≠ .ident i)
    (hinto : forall out, Mirrors Eq (lowerExpr out e layers) (into out)) :
    Mirrors Eq (lowerOperand e layers) (Uses.ofInto frames into).operand := by
  rw [lowerOperand.eq_2 e layers hname]
  refine (fresh_mirrors h).bind ?_
  rintro id _ rfl
  refine (hinto id).bind ?_
  intro _ _ _
  exact .pure rfl

theorem lowerOperands_append (es rest : List Expr) (layers : List Layer) :
    lowerOperands (es ++ rest) layers = (do
      let ids ← lowerOperands es layers
      let more ← lowerOperands rest layers
      return ids ++ more) := by
  induction es with
  | nil => simp [lowerOperands]
  | cons e es ih =>
      rw [List.cons_append, lowerOperands, lowerOperands, ih]
      simp

theorem unwind_append (e : Expr) (args : List Expr) :
    unwind e args = ((unwind e []).1, (unwind e []).2 ++ args) := by
  induction e using Expr.chainInduction generalizing args with
  | atomic e he =>
      cases e with
      | binary t left op right =>
          exact absurd (congrArg Chain.rest he) (Expr.chain_rest_ne_nil t left op right)
      | _ => rfl
  | binary t left op right ihleft _ =>
      cases op with
      | apply =>
          rw [unwind, ihleft, unwind, ihleft [right], List.append_assoc]
          rfl
      | named i => rfl

theorem lowerCall_append (e : Expr) (args : List Expr) (layers : List Layer) :
    lowerCall (unwind e args) layers = (do
      let call ← lowerCall (unwind e []) layers
      let ids ← lowerOperands args layers
      return (call.1, call.2 ++ ids)) := by
  rw [unwind_append, lowerCall, lowerCall, lowerOperands_append]
  simp

theorem Lowers.ofInto
    {e : Expr} (hname : forall i, e ≠ .ident i) (hunwind : unwind e [] = (e, []))
    (huses : forall frames, uses frames e = .ofInto frames (uses frames e).into)
    (hinto : forall layers frames, Matches layers frames -> forall out,
      Mirrors Eq (lowerExpr out e layers) ((uses frames e).into out)) : Lowers e where
  into := hinto
  operand layers frames h := by
    rw [huses]
    exact lowerOperand_mirrors h hname (hinto layers frames h)
  call layers frames h := by
    rw [huses, hunwind, lowerCall]
    change Mirrors Eq _ (do return (← (Uses.ofInto frames (uses frames e).into).operand, []))
    refine (lowerOperand_mirrors h hname (hinto layers frames h)).bind ?_
    rintro id _ rfl
    dsimp only
    rw [lowerOperands, pure_bind]
    exact .pure rfl

theorem Lowers.literal
    {e : Expr} {d : Def} (hname : forall i, e ≠ .ident i) (hunwind : unwind e [] = (e, []))
    (huses : forall frames, uses frames e = .ofInto frames fun id => Lowering.define id d)
    (hmachine : forall out layers, lowerExpr out e layers = define out (.ofDef d)) : Lowers e := by
  refine .ofInto hname hunwind (fun frames => by rw [huses]; rfl) fun layers frames _ out => ?_
  rw [huses, hmachine]
  exact define_mirrors out d

theorem Lowers.ident (i : Ident) : Lowers (.ident i) where
  into layers frames h out := by
    rw [lowerExpr]
    refine (resolve_mirrors h i).bind ?_
    rintro id _ rfl
    exact define_mirrors out (.call id [])
  operand layers frames h := by
    rw [lowerOperand]
    exact resolve_mirrors h i
  call layers frames h := by
    rw [unwind, lowerCall, lowerOperand]
    · refine (resolve_mirrors h i).bind ?_
      rintro id _ rfl
      dsimp only
      rw [lowerOperands, pure_bind]
      exact .pure rfl
    · exact fun _ _ _ heq => Expr.noConfusion heq

theorem Lowers.application
    {t : Token} {left right : Expr} (hleft : Lowers left) (hright : Lowers right) :
    Lowers (.binary t left .apply right) := by
  have hcall (layers : List Layer) (frames : List Frame) (h : Matches layers frames) :
      Mirrors Eq (lowerCall (unwind (.binary t left .apply right) []) layers)
        (uses frames (.binary t left .apply right)).call := by
    rw [unwind, lowerCall_append]
    refine (hleft.call layers frames h).bind ?_
    rintro call _ rfl
    rw [lowerOperands, lowerOperands]
    simp only [bind_assoc, pure_bind]
    refine (hright.operand layers frames h).bind ?_
    rintro id _ rfl
    exact .pure rfl
  have hinto (layers : List Layer) (frames : List Frame) (h : Matches layers frames)
      (out : String) : Mirrors Eq (lowerExpr out (.binary t left .apply right) layers)
        ((uses frames (.binary t left .apply right)).into out) := by
    rw [lowerExpr]
    refine (hcall layers frames h).bind ?_
    rintro ⟨target, args⟩ _ rfl
    exact define_mirrors out (.call target args)
  exact {
    into := hinto
    operand := fun layers frames h =>
      lowerOperand_mirrors h (fun _ heq => Expr.noConfusion heq) (hinto layers frames h)
    call := hcall }

theorem Lowers.operation
    {t : Token} {op : Ident} {left right : Expr} (hleft : Lowers left) (hright : Lowers right) :
    Lowers (.binary t left (.named op) right) := by
  refine .ofInto nofun rfl (fun frames => by rw [uses]; rfl) fun layers frames h out => ?_
  have hunwind : unwind (.binary t (.binary op.token (.ident op) .apply left) .apply right) [] =
      (.ident op, [left, right]) := rfl
  rw [lowerExpr, lowerExpr, hunwind, lowerCall, lowerOperand, lowerOperands, lowerOperands,
    lowerOperands, uses]
  simp only [bind_assoc, pure_bind]
  refine (resolve_mirrors h op).bind ?_
  rintro target _ rfl
  refine (hleft.operand layers frames h).bind ?_
  rintro a _ rfl
  refine (hright.operand layers frames h).bind ?_
  rintro b _ rfl
  exact define_mirrors out (.call target [a, b])

theorem Lowers.letIn
    {t : Token} {name : Ident} {params : List Ident} {value body : Expr} (hvalue : Lowers value)
    (hbody : Lowers body) : Lowers (.letIn t name params value body) := by
  refine .ofInto nofun rfl (fun frames => by rw [uses]; rfl) fun layers frames h out => ?_
  rw [lowerExpr, uses]
  refine (register_mirrors h name).bind ?_
  rintro ⟨id, layer⟩ ⟨_, inner⟩ ⟨rfl, hinner⟩
  refine (lowerDecl_mirrors hinner id params hvalue).bind ?_
  intro _ _ _
  exact hbody.into _ _ hinner out

theorem Lowers.cond
    {t : Token} {test yes no : Expr} (htest : Lowers test) (hyes : Lowers yes) (hno : Lowers no) :
    Lowers (.cond t test yes no) := by
  refine .ofInto nofun rfl (fun frames => by rw [uses]; rfl) fun layers frames h out => ?_
  rw [lowerExpr, uses]
  refine (fresh_mirrors h).bind ?_
  rintro testId _ rfl
  refine (fresh_mirrors h).bind ?_
  rintro yesId _ rfl
  refine (fresh_mirrors h).bind ?_
  rintro noId _ rfl
  refine (htest.into _ _ h testId).bind ?_
  intro _ _ _
  refine (hyes.into _ _ h yesId).bind ?_
  intro _ _ _
  refine (hno.into _ _ h noId).bind ?_
  intro _ _ _
  exact define_mirrors out (.switch [⟨some testId, yesId⟩, ⟨none, noId⟩])

theorem Lowers.list {t : Token} {es : List Expr} (hes : LowersAll es) : Lowers (.list t es) := by
  refine .ofInto nofun rfl (fun frames => by rw [uses]; rfl) fun layers frames h out => ?_
  rw [lowerExpr, uses]
  cases Lowering.packed? es with
  | some cells => exact define_mirrors out (.matrix cells)
  | none =>
      refine (hes layers frames h).bind ?_
      rintro items _ rfl
      exact define_mirrors out (.list items)

theorem Lowers.lambda {t : Token} {params : List Ident} {body : Expr} (hbody : Lowers body) :
    Lowers (.lambda t params body) := by
  refine .ofInto nofun rfl (fun frames => by rw [uses]; rfl) fun layers frames h out => ?_
  rw [lowerExpr, uses]
  refine (lowerFunction_mirrors h params hbody).bind ?_
  rintro _ d rfl
  exact define_mirrors out d

theorem Lowers.group {t : Token} {e : Expr} (he : Lowers e) : Lowers (.group t e) := by
  refine .ofInto nofun rfl (fun frames => by rw [uses]; rfl) fun layers frames h out => ?_
  rw [lowerExpr, uses]
  exact he.into _ _ h out

mutual

theorem lowers : (e : Expr) -> e.Whole -> Lowers e
  | .hole, h => h.elim
  | .ident i, _ => .ident i
  | .number _ v, _ =>
      .literal nofun rfl (fun frames => by rw [uses])
        fun out layers => by rw [lowerExpr, Node.ofDef]
  | .string _ v, _ =>
      .literal nofun rfl (fun frames => by rw [uses])
        fun out layers => by rw [lowerExpr, Node.ofDef]
  | .bool _ v, _ =>
      .literal nofun rfl (fun frames => by rw [uses])
        fun out layers => by rw [lowerExpr, Node.ofDef]
  | .null _, _ =>
      .literal nofun rfl (fun frames => by rw [uses])
        fun out layers => by rw [lowerExpr, Node.ofDef]
  | .group _ e, h => .group (lowers e h)
  | .letIn _ _ _ value body, h => .letIn (lowers value h.1) (lowers body h.2)
  | .binary _ left .apply right, h => .application (lowers left h.1) (lowers right h.2)
  | .binary _ left (.named _) right, h => .operation (lowers left h.1) (lowers right h.2)
  | .list _ es, h => .list (lowersAll es h)
  | .cond _ test yes no, h => .cond (lowers test h.1) (lowers yes h.2.1) (lowers no h.2.2)
  | .lambda _ _ body, h => .lambda (lowers body h)

theorem lowersAll : (es : List Expr) -> Expr.AllWhole es -> LowersAll es
  | [], _ => fun layers frames _ => by
      rw [lowerOperands, Lowering.operands]
      exact .pure rfl
  | e :: es, h => fun layers frames hmatches => by
      rw [lowerOperands, Lowering.operands]
      refine ((lowers e h.1).operand layers frames hmatches).bind ?_
      rintro id _ rfl
      refine (lowersAll es h.2 layers frames hmatches).bind ?_
      rintro ids _ rfl
      exact .pure rfl

end

/-!
## Programs
-/

theorem lowerDecls_mirrors
    (h : Matches layers frames) {decls : List Decl}
    (hwhole : forall d, d ∈ decls -> d.body.Whole) :
    Mirrors Eq (lowerDecls layers decls) (Lowering.declarations frames decls) := by
  induction decls with
  | nil => exact .pure rfl
  | cons d rest ih =>
      rw [List.forall_mem_cons] at hwhole
      rw [lowerDecls, Lowering.declarations]
      refine (lowerDecl_mirrors h d.name.name d.params (lowers d.body hwhole.1)).bind ?_
      intro _ _ _
      exact ih hwhole.2

end

/-- On a program without holes the machine ends, without a crash, with the same table or the same
error. -/
theorem lowerProgram_eq {p : Program} (h : p.Whole) (extra : List String) :
    lowerProgram p extra =
      match p.lower extra with
      | .ok t => pure (.ofTable t)
      | .error e => throw e := by
  let root := Scope.root (Builtin.names ++ extra)
  have hkind : root.1.kind = .owning := rfl
  have hglobal := registerAll_run [] [] (p.decls.map Decl.name) hkind root.2 []
  have hmachine : lowerProgram p extra =
      ((registerAll [] ⟨Layer.owningKind, root.1.bindings⟩ (p.decls.map Decl.name)).run
        ⟨root.2, []⟩ >>= fun q =>
          (lowerDecls [q.1] p.decls).run q.2 >>= fun r => pure r.2.nodes) := by
    unfold lowerProgram
    dsimp only
    rw [StateT.run_bind, bind_assoc]
    rfl
  rw [hmachine, hglobal, Program.lower]
  cases Lowering.declareAll [] root (p.decls.map Decl.name) with
  | error e => rfl
  | ok q =>
      rcases q with ⟨frame, space⟩
      have hmatches : Matches [⟨Layer.owningKind, frame.bindings⟩] [frame] := rfl
      have hlower := lowerDecls_mirrors hmatches h ⟨space, []⟩
      dsimp only [bind, Except.bind] at hlower ⊢
      cases hrun : (Lowering.declarations [frame] p.decls).run ⟨space, []⟩ with
      | error e =>
          rw [hrun] at hlower
          exact congrArg (· >>= _) hlower
      | ok r =>
          rw [hrun] at hlower
          rcases hlower with ⟨_, _, hlower⟩
          exact congrArg (· >>= _) hlower

end Machine
end DefTable
