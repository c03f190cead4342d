import DefTable.Proofs.Equality
import DefTable.Proofs.Lowering.Comparison
import DefTable.Proofs.Scope.Fresh

/-!
# Lowering under other names

The names known besides the program are given as a list.  Lowering asks which names are in it, so
their order and their number make no difference.  Further names make none either, unless they are
declared by the program or look like the identifiers that lowering makes up.  The proof compares the
two lowerings, in scopes and namespaces that answer alike.
-/

namespace DefTable

/-!
## Scopes that answer alike
-/

namespace Scope

open Lowering (Accords)

structure Namespace.Alike (space space' : Namespace) : Prop where
  counter : space.counter = space'.counter
  candidates : forall hint k, candidate hint k ∈ space.names <-> candidate hint k ∈ space'.names

theorem Namespace.Alike.refl (space : Namespace) : space.Alike space :=
  ⟨rfl, fun _ _ => Iff.rfl⟩

theorem Namespace.Alike.add
    {space space' : Namespace} (h : space.Alike space') (name : String) :
    (space.add name).Alike (space'.add name) where
  counter := h.counter
  candidates hint k := by
    simp only [Namespace.add, List.mem_cons, h.candidates]

theorem Namespace.Alike.fresh
    {space space' : Namespace} (h : space.Alike space') {visible visible' : List String}
    (hvisible : forall hint k, candidate hint k ∈ visible <-> candidate hint k ∈ visible')
    (hint : String) :
    (space.fresh visible hint).1 = (space'.fresh visible' hint).1 ∧
      (space.fresh visible hint).2.Alike (space'.fresh visible' hint).2 := by
  have htaken : forall k, candidate hint k ∈ space.names ++ visible <->
      candidate hint k ∈ space'.names ++ visible' := by
    intro k
    rw [List.mem_append, List.mem_append, h.candidates, hvisible]
  have hleast := leastFree_congr htaken space.counter
  unfold Namespace.fresh
  dsimp only
  rw [hleast, h.counter]
  constructor
  · rfl
  · apply Namespace.Alike.add
    exact ⟨rfl, h.candidates⟩

/-- The second scopes give every name the identifier that the first ones give it, and the same
candidates are visible in both. -/
structure Serves (strict : Prop) (frames frames' : List Frame) : Prop where
  resolve : forall name, Accords strict id Eq (resolve frames name) (resolve frames' name)
  visible : forall hint k,
    candidate hint k ∈ identifiers frames <-> candidate hint k ∈ identifiers frames'

theorem resolve_cons (frame : Frame) (frames : List Frame) (name : String) :
    resolve (frame :: frames) name =
      if isGlobal name then .ok name
      else match frame.lookup? name with
        | some id => .ok id
        | none => resolve frames name := by
  unfold resolve
  rw [List.findSome?_cons]
  cases isGlobal name with
  | true => rfl
  | false =>
      cases frame.lookup? name with
      | some id => rfl
      | none => rfl

theorem lookup_bind (frame : Frame) (name id asked : String) :
    (frame.bind name id).lookup? asked = if asked = name then some id else frame.lookup? asked := by
  unfold Frame.lookup? Frame.bind
  rw [List.lookup_cons]
  by_cases heq : asked = name
  · rw [beq_iff_eq.mpr heq, if_pos heq]
  · rw [beq_false_of_ne heq, if_neg heq]

section

variable {strict : Prop} {frames frames' : List Frame}

theorem Serves.cons (h : Serves strict frames frames') (frame : Frame) :
    Serves strict (frame :: frames) (frame :: frames') where
  resolve name := by
    rw [resolve_cons, resolve_cons]
    split
    · exact ⟨name, rfl, rfl⟩
    · cases frame.lookup? name with
      | some id => exact ⟨id, rfl, rfl⟩
      | none => exact h.resolve name
  visible hint k := by
    rw [identifiers, identifiers, List.flatMap_cons, List.flatMap_cons, List.mem_append,
      List.mem_append]
    exact or_congr_right (h.visible hint k)

theorem Serves.bind
    {frame frame' : Frame} (h : Serves strict (frame :: frames) (frame' :: frames'))
    (name id : String) :
    Serves strict (frame.bind name id :: frames) (frame'.bind name id :: frames') where
  resolve asked := by
    have hasked := h.resolve asked
    rw [resolve_cons, resolve_cons] at hasked ⊢
    rw [lookup_bind, lookup_bind]
    by_cases heq : asked = name
    · rw [if_pos heq, if_pos heq]
      split
      · exact ⟨asked, rfl, rfl⟩
      · exact ⟨id, rfl, rfl⟩
    · rw [if_neg heq, if_neg heq]
      exact hasked
  visible hint k := by
    have hvisible := h.visible hint k
    rw [identifiers, identifiers, List.flatMap_cons, List.flatMap_cons] at hvisible ⊢
    simp only [Frame.bind, Frame.identifiers, List.map_cons, List.cons_append, List.mem_cons]
      at hvisible ⊢
    rw [hvisible]

end

structure Covers (strict : Prop) (names names' declared : List String) : Prop where
  known : forall name, name ∈ names -> name ∈ names'
  unknown : strict -> forall name, name ∈ names' -> name ∈ names
  declared : forall name, name ∈ declared -> name ∈ names' -> name ∈ names
  candidates : forall hint k, candidate hint k ∈ names' -> candidate hint k ∈ names

theorem lookup_root (names : List String) (name : String) :
    (root names).1.lookup? name = if name ∈ names then some name else none := by
  unfold root Frame.lookup?
  induction names with
  | nil => rfl
  | cons n rest ih =>
      rw [List.map_cons, List.lookup_cons]
      by_cases heq : name = n
      · subst heq
        simp
      · rw [beq_false_of_ne heq]
        dsimp only at ih ⊢
        rw [ih]
        simp [heq]

theorem resolve_root (names : List String) (name : String) :
    resolve [(root names).1] name =
      if isGlobal name = true ∨ name ∈ names then .ok name else .error (.unresolved name) := by
  rw [resolve_cons, lookup_root]
  cases hglobal : isGlobal name with
  | true => simp
  | false =>
      by_cases hmem : name ∈ names
      · simp [hmem]
      · simp [hmem, resolve, hglobal]

section

variable {strict : Prop} {names names' declared : List String}

theorem Covers.serves (h : Covers strict names names' declared) :
    Serves strict [(root names).1] [(root names').1] where
  resolve name := by
    rw [resolve_root, resolve_root]
    by_cases hglobal : isGlobal name = true ∨ name ∈ names
    · have hglobal' := hglobal.imp_right (h.known name)
      rw [if_pos hglobal, if_pos hglobal']
      exact ⟨name, rfl, rfl⟩
    · rw [if_neg hglobal]
      intro hstrict
      have hglobal' : ¬(isGlobal name = true ∨ name ∈ names') :=
        fun hknown => hglobal (hknown.imp_right (h.unknown hstrict name))
      rw [if_neg hglobal']
      rfl
  visible hint k := by
    simp only [identifiers, root, Frame.identifiers, List.flatMap_cons, List.flatMap_nil,
      List.append_nil, List.map_map, Function.comp_def, List.map_id']
    exact ⟨h.known _, h.candidates hint k⟩

theorem Covers.alike (h : Covers strict names names' declared) :
    (root names).2.Alike (root names').2 where
  counter := rfl
  candidates hint k := ⟨h.known _, h.candidates hint k⟩

end

end Scope

namespace Lowering

open Scope (Frame Namespace Serves Covers)

def underNames (strict : Prop) : Comparison Builder Error Builder Error where
  strict := strict
  failure := id
  scopes := Serves strict
  states _ b b' := b.space.Alike b'.space ∧ b.table = b'.table
  states_perm _ h := h

/-!
## The steps
-/

section

variable {strict : Prop} {frames frames' : List Frame}

theorem resolve_underNames (h : Serves strict frames frames') (i : Ident) :
    (underNames strict).Alike [] Eq (fun _ => []) (resolve frames i) (resolve frames' i) := by
  have hresolve := h.resolve i.name
  unfold resolve
  cases hfirst : Scope.resolve frames i.name with
  | ok target =>
      rw [hfirst] at hresolve
      rcases hresolve with ⟨target', hsecond, heq⟩
      rw [hsecond, heq]
      exact .pure rfl
  | error e =>
      rw [hfirst] at hresolve
      intro pending b b' _ hstrict
      rw [hresolve hstrict]
      rfl

theorem declareLet_underNames (h : Serves strict frames frames') (i : Ident) :
    (underNames strict).Alike [] (fun r r' => r.1 = r'.1 ∧ Serves strict r.2 r'.2)
      (fun r => [r.1]) (declareLet frames i) (declareLet frames' i) := by
  intro pending b b' hb
  have hinner := h.cons (.empty .transparent)
  rcases hb.1.fresh hinner.visible i.name with ⟨hid, hspace⟩
  have hframe := congrArg ((Frame.empty .transparent).bind i.name) hid
  exact ⟨_, rfl, ⟨hid, hframe ▸ h.cons _⟩, hspace, hb.2⟩

theorem declareAll_outer
    (outer outer' : List Frame) {frame : Frame} (howning : frame.kind = .owning)
    (space : Namespace) (idents : List Ident) :
    declareAll outer (frame, space) idents = declareAll outer' (frame, space) idents := by
  induction idents generalizing frame space with
  | nil => rfl
  | cons i rest ih =>
      rw [declareAll, declareAll, Scope.declare, Scope.declare, howning]
      cases space.has i.name with
      | true => rfl
      | false =>
          apply ih
          exact howning

theorem function_underNames
    (h : Serves strict frames frames') (params : List Ident)
    {body body' : List Frame -> Build Unit}
    (hbody : forall inner inner', Serves strict inner inner' ->
      (underNames strict).Alike [Table.resultId] Eq (fun _ => []) (body inner) (body' inner')) :
    (underNames strict).Alike [] Eq (fun _ => []) (function frames params body)
      (function frames' params body') := by
  unfold function
  rw [declareAll_outer frames frames' rfl]
  apply Comparison.Alike.bind (.lift (Accords.refl strict _))
  intro state state' heq
  subst heq
  rcases state with ⟨frame, space⟩
  have hrun := hbody _ _ (h.cons frame) [] ⟨space, []⟩ ⟨space, []⟩ ⟨.refl space, rfl⟩
  apply Comparison.Alike.bind (.lift hrun)
  intro made made' hmade
  exact .pure (congrArg (Def.func _) hmade.2.2)

theorem respects_underNames (strict : Prop) :
    (underNames strict).Respects Steps.builder Steps.builder where
  define id d := fun _ _ b' hb =>
    ⟨((), { b' with table := b'.table.insert id d }), rfl, rfl, hb.1,
      congrArg (Table.insert id d) hb.2⟩
  fresh frames frames' hscopes := by
    intro pending b b' hb
    rcases hb.1.fresh hscopes.visible "" with ⟨hid, hspace⟩
    exact ⟨_, rfl, hid, hspace, hb.2⟩
  resolve _ _ i hscopes := resolve_underNames hscopes i
  declareLet _ _ i hscopes := declareLet_underNames hscopes i
  function _ _ params _ _ hscopes hbody := function_underNames hscopes params hbody
  missing _ := fun _ _ _ _ _ => rfl

/-!
## Programs
-/

theorem declareAll_underNames
    {frame frame' : Frame} {space space' : Namespace} {idents : List Ident}
    (howning : frame.kind = .owning) (howning' : frame'.kind = .owning)
    (hscopes : Serves strict [frame] [frame']) (hspace : space.Alike space')
    (hhas : forall i, i ∈ idents -> space.has i.name = space'.has i.name) :
    Accords strict id (fun r r' => Serves strict [r.1] [r'.1] ∧ r.2.Alike r'.2)
      (declareAll [] (frame, space) idents) (declareAll [] (frame', space') idents) := by
  induction idents generalizing frame frame' space space' with
  | nil => exact ⟨(frame', space'), rfl, hscopes, hspace⟩
  | cons i rest ih =>
      have hfirst := hhas i List.mem_cons_self
      rw [declareAll, declareAll, Scope.declare, Scope.declare, howning, howning']
      dsimp only
      rw [hfirst]
      cases htaken : space'.has i.name with
      | true => exact fun _ => rfl
      | false =>
          refine ih ?_ ?_ (hscopes.bind i.name i.name) (hspace.add i.name) ?_
          · exact howning
          · exact howning'
          · intro j hj
            have hrest := hhas j (List.mem_cons_of_mem i hj)
            unfold Namespace.has at hrest ⊢
            simp only [Namespace.add, List.contains_cons, hrest]

end

end Lowering

namespace Program

open Lowering (Accords underNames)

theorem lower_accords
    {strict : Prop} {p : Program} {extra extra' : List String}
    (h : Scope.Covers strict (Builtin.names ++ extra) (Builtin.names ++ extra')
      (p.decls.map fun d => d.name.name)) :
    Accords strict id Eq (p.lower extra) (p.lower extra') := by
  have hhas : forall i, i ∈ p.decls.map Decl.name ->
      (Scope.root (Builtin.names ++ extra)).2.has i.name =
        (Scope.root (Builtin.names ++ extra')).2.has i.name := by
    intro i hi
    rcases List.mem_map.mp hi with ⟨d, hd, heq⟩
    have hname : i.name ∈ p.decls.map fun d => d.name.name :=
      List.mem_map.mpr ⟨d, hd, congrArg Ident.name heq⟩
    rw [Bool.eq_iff_iff]
    unfold Scope.Namespace.has
    rw [List.contains_iff_mem, List.contains_iff_mem]
    exact ⟨h.known i.name, h.declared i.name hname⟩
  unfold lower
  apply (Lowering.declareAll_underNames rfl rfl h.serves h.alike hhas).bind
  intro state state' hstate
  rcases state with ⟨frame, space⟩
  rcases state' with ⟨frame', space'⟩
  have hrun := (Lowering.respects_underNames strict).declarations hstate.1 p.decls []
    ⟨space, []⟩ ⟨space', []⟩ ⟨hstate.2, rfl⟩
  rw [Lowering.declarations_builder, Lowering.declarations_builder] at hrun
  apply hrun.bind
  intro made made' hmade
  exact ⟨_, rfl, hmade.2.2⟩

theorem lower_congr
    (p : Program) {extra extra' : List String}
    (h : forall name, name ∈ extra <-> name ∈ extra') : p.lower extra = p.lower extra' := by
  have hnames : forall name,
      name ∈ Builtin.names ++ extra <-> name ∈ Builtin.names ++ extra' := by
    intro name
    rw [List.mem_append, List.mem_append, h]
  have hcovers : Scope.Covers True (Builtin.names ++ extra) (Builtin.names ++ extra')
      (p.decls.map fun d => d.name.name) :=
    ⟨fun name => (hnames name).mp, fun _ name => (hnames name).mpr,
      fun name _ => (hnames name).mpr, fun _ _ => (hnames _).mpr⟩
  have haccords := lower_accords hcovers
  cases hlower : p.lower extra with
  | error e =>
      rw [hlower] at haccords
      exact (haccords trivial).symm
  | ok t =>
      rw [hlower] at haccords
      rcases haccords with ⟨t', hlower', heq⟩
      rw [hlower', heq]

/-- Names that the program does not declare, and that cannot be taken for made up identifiers, make
no difference to a program that is lowered without them. -/
theorem lower_append
    {p : Program} {extra more : List String} {t : Table}
    (hundeclared : forall name, name ∈ more -> name ∉ p.decls.map fun d => d.name.name)
    (hplain : forall name, name ∈ more -> Scope.isSynthetic name = false)
    (hlower : p.lower extra = .ok t) : p.lower (extra ++ more) = .ok t := by
  have hmem : forall name, name ∈ Builtin.names ++ (extra ++ more) ->
      name ∉ more -> name ∈ Builtin.names ++ extra := by
    intro name hname hnot
    rw [← List.append_assoc] at hname
    exact (List.mem_append.mp hname).resolve_right hnot
  have hcovers : Scope.Covers False (Builtin.names ++ extra) (Builtin.names ++ (extra ++ more))
      (p.decls.map fun d => d.name.name) := by
    constructor
    · intro name hname
      rw [← List.append_assoc]
      exact List.mem_append_left more hname
    · exact False.elim
    · intro name hdeclared hname
      exact hmem name hname fun hmore => hundeclared name hmore hdeclared
    · intro hint k hname
      apply hmem _ hname
      intro hmore
      have hsynthetic := Scope.candidate_isSynthetic hint k
      rw [hplain _ hmore] at hsynthetic
      cases hsynthetic
  have haccords := lower_accords hcovers
  rw [hlower] at haccords
  rcases haccords with ⟨t', hlower', heq⟩
  rw [hlower', heq]

def scalingProgram : Program :=
  let name (s : String) (column : Nat) : Ident := ⟨.synthetic .name s ⟨1, column⟩, s⟩
  ⟨"", [⟨name "f" 1, [],
    .lambda (.synthetic .backslash "\\" ⟨1, 5⟩) [name "q" 6]
      (.letIn (.synthetic .keyLet "let" ⟨1, 11⟩) (name "a" 15) [] (.ident (name "q" 19))
        (.list (.synthetic .openBracket "[" ⟨1, 24⟩)
          [.binary (.synthetic .name "a" ⟨1, 31⟩) (.ident (name "scale" 25)) .apply
            (.ident (name "a" 31))]))⟩]⟩

def scalingTable : Table :=
  [("f", .func ["q"]
    [("=", .list ["_0"]), ("_0", .call "scale" ["_0a"]), ("_0a", .call "q" [])])]

theorem lower_append_scaling :
    scalingProgram.lower (["scale"] ++ ["q", "offset", "a"]) = .ok scalingTable :=
  lower_append (by decide) (by decide) (by decide +kernel)

end Program
end DefTable
