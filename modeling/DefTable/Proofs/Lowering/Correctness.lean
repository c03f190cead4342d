import DefTable.Proofs.Expr.Named
import DefTable.Proofs.Lowering.Resolution

/-!
# The lowering emits what it should

Every successful run of the lowering emits the entries that `Emits` asks for.  The proof follows the
expression: each of the three uses of an expression keeps `Emitting`, and a function closes the
table of its body, at which point the identifiers of that table are known.
-/

namespace DefTable
namespace Lowering

open Scope (Frame candidate)
open Table (Entry)

/-!
## Entries and the identifiers they stand under
-/

def AllHeld (levels : List Level) (out : List Entry) : Prop :=
  forall x, x ∈ out.map Prod.fst -> Held levels x

theorem AllHeld.left
    {levels : List Level} {out₁ out₂ : List Entry} (hheld : AllHeld levels (out₁ ++ out₂)) :
    AllHeld levels out₁ := by
  intro x hx
  apply hheld
  rw [List.map_append]
  exact List.mem_append_left _ hx

theorem AllHeld.right
    {levels : List Level} {out₁ out₂ : List Entry} (hheld : AllHeld levels (out₁ ++ out₂)) :
    AllHeld levels out₂ := by
  intro x hx
  apply hheld
  rw [List.map_append]
  exact List.mem_append_right _ hx

/-!
## The three uses of an expression
-/

/-- What a name has to be so that it is not mistaken for the result of a function or for a name
from outside; parameters moreover satisfy `P`. -/
def plainNames (P : String -> Prop) : NameRules where
  declared n := isGlobal n = false
  parameter q := isGlobal q = false ∧ q ≠ Table.resultId ∧ P q
  reference n := n ≠ Table.resultId
  operator n := n ≠ Table.resultId

/-- The mentions of a lowered expression: the condition `R` follows from what the invariant gives
at each of them. -/
structure Condition (P : String -> Prop) (R : List Level -> Site -> Prop) : Prop where
  holds : forall levels site, (Reaches levels site <-> ¬ Captured levels site) ->
    (forall l, l ∈ levels -> forall q, q ∈ l.params -> P q) -> R levels site

section

variable {names : List String} {decls : List Decl} {P : String -> Prop}
  {R : List Level -> Site -> Prop} {frames : List Frame}

theorem mentions_of_resolved
    {scope : Bindings} {levels : List Level} {name target : String}
    (hR : Condition P R)
    (hmirrors : Mirrors names decls P frames scope levels)
    (hresult : name ≠ Table.resultId)
    (hresolve : Scope.resolve frames name = .ok target) :
    Mentions R scope levels name target := by
  rcases hmirrors.mentions_of_resolve hresult hresolve with ⟨site, hdenotes, hid, hiff⟩
  exact ⟨site, hdenotes, hid, hR.holds levels site hiff hmirrors.params_satisfy⟩

theorem condition_of_held
    {scope : Bindings} {levels : List Level} {k : Nat}
    (hR : Condition P R)
    (hmirrors : Mirrors names decls P frames scope levels)
    (hheld : Held levels (candidate "" k)) :
    R levels (.renamed (innermost levels) "" k) :=
  hR.holds levels _ (reaches_iff_of_held hheld) hmirrors.params_satisfy

variable (names decls P R)

/-- The entries that were added stand under the identifiers `own` and the new ones, each once, and
in the finished tables they are what `Q` says. -/
def Post (frames : List Frame) (own : List String)
    (Q : Bindings -> List Level -> List Entry -> Prop) (new : List String) (out : List Entry) :
    Prop :=
  (out.map Prod.fst).Perm (own ++ new) ∧
    forall scope levels, Mirrors names decls P frames scope levels -> AllHeld levels out ->
      Q scope levels out

structure Lowers (frames : List Frame) (e : Expr) (u : Uses) : Prop where
  into : forall id, Emitting frames (u.into id) fun _ =>
    Post names decls P frames [id] fun scope levels => Emits R scope levels e id
  operand : Emitting frames u.operand fun id =>
    Post names decls P frames [] fun scope levels => EmitsOperand R scope levels e id
  call : Emitting frames u.call fun call =>
    Post names decls P frames [] fun scope levels => EmitsCall R scope levels e call.1 call.2

variable {names decls P R}

theorem operand_of_into
    {e : Expr} {into : String -> Build Unit}
    (hR : Condition P R) (hname : isName e = false)
    (hinto : forall id, Emitting frames (into id) fun _ =>
      Post names decls P frames [id] fun scope levels => Emits R scope levels e id) :
    Emitting frames (Uses.ofInto frames into).operand fun id =>
      Post names decls P frames [] fun scope levels => EmitsOperand R scope levels e id := by
  unfold Uses.ofInto
  refine Emitting.fresh.bind ?_
  rintro id _ _ ⟨⟨k, rfl⟩, rfl, rfl⟩
  refine (hinto _).bind ?_
  rintro _ new out ⟨hperm, hemits⟩
  refine Emitting.pure ⟨?_, ?_⟩
  · simpa using hperm.trans (List.perm_append_singleton _ _).symm
  · intro scope levels hmirrors hheld
    simp only [List.nil_append, List.append_nil] at hheld ⊢
    have hhere : Held levels (candidate "" k) :=
      hheld _ (hperm.mem_iff.mpr List.mem_cons_self)
    exact .other hname (condition_of_held hR hmirrors hhere) (hemits scope levels hmirrors hheld)

theorem call_of_operand
    {e : Expr} {operand : Build String}
    (happ : isApplication e = false)
    (hoperand : Emitting frames operand fun id =>
      Post names decls P frames [] fun scope levels => EmitsOperand R scope levels e id) :
    Emitting frames (operand.map fun id => (id, [])) fun call =>
      Post names decls P frames [] fun scope levels =>
        EmitsCall R scope levels e call.1 call.2 := by
  change Emitting frames (operand >>= fun id => pure (id, [])) _
  refine hoperand.bind ?_
  rintro id new out ⟨hperm, hemits⟩
  refine Emitting.pure ⟨by simpa using hperm, ?_⟩
  intro scope levels hmirrors hheld
  simp only [List.append_nil] at hheld ⊢
  exact .target happ (hemits scope levels hmirrors hheld)

theorem lowers_ofInto
    {e : Expr} {into : String -> Build Unit}
    (hR : Condition P R) (hname : isName e = false) (happ : isApplication e = false)
    (hinto : forall id, Emitting frames (into id) fun _ =>
      Post names decls P frames [id] fun scope levels => Emits R scope levels e id) :
    Lowers names decls P R frames e (Uses.ofInto frames into) := by
  have hoperand := operand_of_into hR hname hinto
  exact ⟨hinto, hoperand, call_of_operand happ hoperand⟩

theorem lowers_define
    {e : Expr} {d : Def}
    (hR : Condition P R) (hname : isName e = false) (happ : isApplication e = false)
    (hemits : forall scope levels id, Emits R scope levels e id [(id, d)]) :
    Lowers names decls P R frames e (Uses.ofInto frames fun id => define id d) := by
  apply lowers_ofInto hR hname happ
  intro id
  refine (Emitting.define id d).mono ?_
  rintro _ _ _ ⟨rfl, rfl⟩
  exact ⟨List.Perm.refl _, fun scope levels _ _ => hemits scope levels id⟩

/-!
## Functions

The body of a function is lowered from an empty table.  When it is done its table is known, and with
it the level that the mentions in the body are looked up in.
-/

theorem function_nodup
    {frame : Frame} {space : Scope.Namespace} {inner : Builder} {params : List String}
    {new : List String} {out : List Entry}
    (hdeclared : Declared (.empty .owning) .empty params frame space)
    (hresult : Table.resultId ∉ params)
    (hgrows : Grows (frame :: frames) ⟨space, []⟩ inner new out)
    (hperm : (out.map Prod.fst).Perm (Table.resultId :: new)) :
    (params ++ out.map Prod.fst).Nodup := by
  have hresultNew : Table.resultId ∉ new := by
    intro hmem
    rcases hgrows.synthetic _ hmem with ⟨hint, k, hk⟩
    exact Scope.candidate_ne_resultId hint k hk.symm
  refine List.Nodup.append hdeclared.nodup ?_ ?_
  · rw [hperm.nodup_iff, List.nodup_cons]
    exact ⟨hresultNew, hgrows.nodup⟩
  · intro x hparam hkey
    rcases List.mem_cons.mp (hperm.mem_iff.mp hkey) with heq | hnew
    · exact hresult (heq ▸ hparam)
    · apply hgrows.not_mem_names x hnew
      rw [hdeclared.names_eq]
      exact List.mem_append_left _ (List.mem_reverse.mpr hparam)

theorem mirrors_function
    {frame : Frame} {space : Scope.Namespace} {inner : Builder} {params : List Ident}
    {new : List String} {out : List Entry} {scope : Bindings} {levels : List Level}
    (hmirrors : Mirrors names decls P frames scope levels)
    (hdeclared : Declared (.empty .owning) .empty (params.map Ident.name) frame space)
    (hparams : forall q, q ∈ params -> (plainNames P).parameter q.name)
    (hgrows : Grows (frame :: frames) ⟨space, []⟩ inner new out)
    (hperm : (out.map Prod.fst).Perm (Table.resultId :: new)) :
    Mirrors names decls P (frame :: frames) (parameterScope levels.length params ++ scope)
      (⟨params.map Ident.name, Table.collect out⟩ :: levels) := by
  refine .function hmirrors ?_ ?_ ?_
  · refine keeps_of_bindings (hdeclared.bindings_eq.trans (List.append_nil _)) ?_
    exact fun x => List.mem_reverse
  · intro q hq
    rcases List.mem_map.mp hq with ⟨i, hi, rfl⟩
    exact ⟨(hparams i hi).1, (hparams i hi).2.2⟩
  · intro x hx
    rw [Table.mem_identifiers_collect] at hx
    rcases List.mem_cons.mp (hperm.mem_iff.mp hx) with heq | hnew
    · exact Or.inl heq
    · refine Or.inr ⟨hgrows.outer.not_mem_frames x hnew, ?_⟩
      rcases hgrows.synthetic x hnew with ⟨hint, k, rfl⟩
      exact Scope.candidate_not_isGlobal hint k

theorem emitting_function
    {params : List Ident} {e : Expr} {body : List Frame -> Build Unit}
    (hparams : forall q, q ∈ params -> (plainNames P).parameter q.name)
    (hbody : forall frame, Emitting (frame :: frames) (body (frame :: frames)) fun _ =>
      Post names decls P (frame :: frames) [Table.resultId] fun scope levels =>
        Emits R scope levels e Table.resultId) :
    Emitting frames (function frames params body) fun d new out =>
      new = [] ∧ out = [] ∧ forall scope levels, Mirrors names decls P frames scope levels ->
        EmitsFunction R scope levels params e d := by
  intro b d b' hrun
  rcases run_function hrun with ⟨rfl, frame, space, inner, hdeclared, hinner, rfl⟩
  rcases hbody frame _ _ _ hinner with ⟨new, out, hgrows, hperm, hemits⟩
  refine ⟨[], [], Grows.refl, rfl, rfl, ?_⟩
  intro scope levels hmirrors
  have hresult : Table.resultId ∉ params.map Ident.name := by
    intro hmem
    rcases List.mem_map.mp hmem with ⟨q, hq, heq⟩
    exact (hparams q hq).2.1 heq
  have hnodup := function_nodup hdeclared hresult hgrows hperm
  have htable : inner.table = Table.collect out := hgrows.table_eq
  rw [htable]
  refine .intro hnodup (hemits _ _ (mirrors_function hmirrors hdeclared hparams hgrows hperm) ?_)
  intro x hx
  exact (Table.mem_identifiers_collect _ x).mpr hx

theorem emitting_declaration
    {params : List Ident} {e : Expr} {body : List Frame -> String -> Build Unit} (id : String)
    (hparams : forall q, q ∈ params -> (plainNames P).parameter q.name)
    (hbody : forall inner id, Emitting inner (body inner id) fun _ =>
      Post names decls P inner [id] fun scope levels => Emits R scope levels e id) :
    Emitting frames (declaration frames id params body) fun _ =>
      Post names decls P frames [id] fun scope levels =>
        EmitsDeclaration R scope levels params e id := by
  unfold declaration
  cases params with
  | nil =>
      refine (hbody frames id).mono ?_
      rintro _ new out ⟨hperm, hemits⟩
      exact ⟨hperm, fun scope levels hmirrors hheld =>
        .constant (hemits scope levels hmirrors hheld)⟩
  | cons q rest =>
      refine (emitting_function hparams fun frame => hbody (frame :: frames) _).bind ?_
      rintro d _ _ ⟨rfl, rfl, hfunction⟩
      refine (Emitting.define id d).mono ?_
      rintro _ _ _ ⟨rfl, rfl⟩
      exact ⟨List.Perm.refl _, fun scope levels hmirrors _ =>
        .function (List.cons_ne_nil q rest) (hfunction scope levels hmirrors)⟩

/-!
## Expressions
-/

theorem lowers_ident
    {i : Ident} (hR : Condition P R) (hname : i.name ≠ Table.resultId) :
    Lowers names decls P R frames (.ident i) (uses frames (.ident i)) := by
  have hmentions : forall target, Scope.resolve frames i.name = .ok target ->
      forall scope levels, Mirrors names decls P frames scope levels ->
        Mentions R scope levels i.name target := by
    intro target hresolve scope levels hmirrors
    exact mentions_of_resolved hR hmirrors hname hresolve
  have hoperand : Emitting frames (resolve frames i) fun id =>
      Post names decls P frames [] fun scope levels =>
        EmitsOperand R scope levels (.ident i) id := by
    refine (Emitting.resolve i).mono ?_
    rintro target _ _ ⟨hresolve, rfl, rfl⟩
    exact ⟨List.Perm.refl _, fun scope levels hmirrors _ =>
      .name (hmentions target hresolve scope levels hmirrors)⟩
  refine ⟨?_, ?_, ?_⟩
  · intro id
    refine (Emitting.resolve i).bind ?_
    rintro target _ _ ⟨hresolve, rfl, rfl⟩
    refine (Emitting.define id _).mono ?_
    rintro _ _ _ ⟨rfl, rfl⟩
    exact ⟨List.Perm.refl _, fun scope levels hmirrors _ =>
      .ident (hmentions target hresolve scope levels hmirrors)⟩
  · exact hoperand
  · refine hoperand.bind ?_
    rintro target new out ⟨hperm, hemits⟩
    refine Emitting.pure ⟨by simpa using hperm, ?_⟩
    intro scope levels hmirrors hheld
    simp only [List.append_nil] at hheld ⊢
    exact .target rfl (hemits scope levels hmirrors hheld)

theorem into_letIn
    (frames : List Frame) (t : Token) (name : Ident) {params : List Ident} {value body : Expr}
    (hparams : forall q, q ∈ params -> (plainNames P).parameter q.name)
    (hvalue : forall inner, Lowers names decls P R inner value (uses inner value))
    (hbody : forall inner, Lowers names decls P R inner body (uses inner body)) :
    forall id, Emitting frames ((uses frames (.letIn t name params value body)).into id) fun _ =>
      Post names decls P frames [id] fun scope levels =>
        Emits R scope levels (.letIn t name params value body) id := by
  intro id
  refine (Emitting.declareLet name).bind ?_
  rintro ⟨bound, inner⟩ _ _ ⟨⟨k, hk⟩, hinner, rfl, rfl⟩
  dsimp only at hk hinner
  subst hk hinner
  refine Emitting.outer ((emitting_declaration _ hparams fun inner id =>
    (hvalue inner).into id).bind ?_)
  rintro _ new₁ out₁ ⟨hperm₁, hdeclaration⟩
  refine ((hbody _).into id).mono ?_
  rintro _ new₂ out₂ ⟨hperm₂, hemits⟩
  refine ⟨?_, ?_⟩
  · rw [List.perm_iff_count]
    intro x
    have h₁ := hperm₁.count_eq x
    have h₂ := hperm₂.count_eq x
    simp only [List.map_append, List.count_append, List.nil_append] at h₁ h₂ ⊢
    omega
  · intro scope levels hmirrors hheld
    rw [List.nil_append] at hheld ⊢
    have hbound : Held levels (candidate name.name k) :=
      hheld.left _ (hperm₁.mem_iff.mpr List.mem_cons_self)
    have hmirrors' := Mirrors.letIn hmirrors hbound
    exact .letIn (hdeclaration _ _ hmirrors' hheld.left) (hemits _ _ hmirrors' hheld.right)

theorem lowers_application
    {t : Token} {left right : Expr}
    (hR : Condition P R)
    (hleft : Lowers names decls P R frames left (uses frames left))
    (hright : Lowers names decls P R frames right (uses frames right)) :
    Lowers names decls P R frames (.binary t left .apply right)
      (uses frames (.binary t left .apply right)) := by
  have hcall : Emitting frames (uses frames (.binary t left .apply right)).call fun call =>
      Post names decls P frames [] fun scope levels =>
        EmitsCall R scope levels (.binary t left .apply right) call.1 call.2 := by
    refine hleft.call.bind ?_
    rintro ⟨target, args⟩ new₁ out₁ ⟨hperm₁, hemits₁⟩
    refine hright.operand.bind ?_
    rintro arg new₂ out₂ ⟨hperm₂, hemits₂⟩
    refine Emitting.pure ⟨?_, ?_⟩
    · rw [List.perm_iff_count]
      intro x
      have h₁ := hperm₁.count_eq x
      have h₂ := hperm₂.count_eq x
      simp only [List.map_append, List.count_append, List.nil_append, List.append_nil] at h₁ h₂ ⊢
      omega
    · intro scope levels hmirrors hheld
      rw [List.append_nil] at hheld ⊢
      exact .argument (hemits₁ scope levels hmirrors hheld.left)
        (hemits₂ scope levels hmirrors hheld.right)
  have hinto : forall id, Emitting frames ((uses frames (.binary t left .apply right)).into id)
      fun _ => Post names decls P frames [id] fun scope levels =>
        Emits R scope levels (.binary t left .apply right) id := by
    intro id
    rw [uses] at hcall ⊢
    refine hcall.bind ?_
    rintro ⟨target, args⟩ new out ⟨hperm, hemits⟩
    refine (Emitting.define id _).mono ?_
    rintro _ _ _ ⟨rfl, rfl⟩
    refine ⟨?_, ?_⟩
    · simpa using (hperm.append_right [id]).trans (List.perm_append_singleton id new)
    · intro scope levels hmirrors hheld
      exact .application (hemits scope levels hmirrors hheld.left)
  refine ⟨hinto, ?_, hcall⟩
  rw [uses] at hinto ⊢
  exact operand_of_into hR rfl hinto

theorem into_operation
    (t : Token) {left right : Expr} {op : Ident}
    (hR : Condition P R) (hop : op.name ≠ Table.resultId)
    (hleft : Lowers names decls P R frames left (uses frames left))
    (hright : Lowers names decls P R frames right (uses frames right)) :
    forall id, Emitting frames ((uses frames (.binary t left (.named op) right)).into id) fun _ =>
      Post names decls P frames [id] fun scope levels =>
        Emits R scope levels (.binary t left (.named op) right) id := by
  intro id
  refine (Emitting.resolve op).bind ?_
  rintro target _ _ ⟨hresolve, rfl, rfl⟩
  refine hleft.operand.bind ?_
  rintro a new₁ out₁ ⟨hperm₁, hemits₁⟩
  refine hright.operand.bind ?_
  rintro b new₂ out₂ ⟨hperm₂, hemits₂⟩
  refine (Emitting.define id _).mono ?_
  rintro _ _ _ ⟨rfl, rfl⟩
  refine ⟨?_, ?_⟩
  · rw [List.perm_iff_count]
    intro x
    have h₁ := hperm₁.count_eq x
    have h₂ := hperm₂.count_eq x
    simp only [List.map_append, List.count_append, List.map_cons, List.map_nil, List.nil_append,
      List.append_nil] at h₁ h₂ ⊢
    omega
  · intro scope levels hmirrors hheld
    simp only [List.nil_append, ← List.append_assoc] at hheld ⊢
    exact .operation (mentions_of_resolved hR hmirrors hop hresolve)
      (hemits₁ scope levels hmirrors hheld.left.left)
      (hemits₂ scope levels hmirrors hheld.left.right)

theorem into_cond
    (t : Token) {test yes no : Expr}
    (hR : Condition P R)
    (htest : Lowers names decls P R frames test (uses frames test))
    (hyes : Lowers names decls P R frames yes (uses frames yes))
    (hno : Lowers names decls P R frames no (uses frames no)) :
    forall id, Emitting frames ((uses frames (.cond t test yes no)).into id) fun _ =>
      Post names decls P frames [id] fun scope levels =>
        Emits R scope levels (.cond t test yes no) id := by
  intro id
  refine Emitting.fresh.bind ?_
  rintro _ _ _ ⟨⟨i, rfl⟩, rfl, rfl⟩
  refine Emitting.fresh.bind ?_
  rintro _ _ _ ⟨⟨j, rfl⟩, rfl, rfl⟩
  refine Emitting.fresh.bind ?_
  rintro _ _ _ ⟨⟨k, rfl⟩, rfl, rfl⟩
  refine (htest.into _).bind ?_
  rintro _ new₁ out₁ ⟨hperm₁, hemits₁⟩
  refine (hyes.into _).bind ?_
  rintro _ new₂ out₂ ⟨hperm₂, hemits₂⟩
  refine (hno.into _).bind ?_
  rintro _ new₃ out₃ ⟨hperm₃, hemits₃⟩
  refine (Emitting.define id _).mono ?_
  rintro _ _ _ ⟨rfl, rfl⟩
  refine ⟨?_, ?_⟩
  · rw [List.perm_iff_count]
    intro x
    have h₁ := hperm₁.count_eq x
    have h₂ := hperm₂.count_eq x
    have h₃ := hperm₃.count_eq x
    simp only [List.map_append, List.count_append, List.map_cons, List.map_nil, List.nil_append]
      at h₁ h₂ h₃ ⊢
    omega
  · intro scope levels hmirrors hheld
    simp only [List.nil_append, ← List.append_assoc] at hheld ⊢
    have hheld₁ := hheld.left.left.left
    have hheld₂ := hheld.left.left.right
    have hheld₃ := hheld.left.right
    exact .cond
      (condition_of_held hR hmirrors (hheld₁ _ (hperm₁.mem_iff.mpr List.mem_cons_self)))
      (condition_of_held hR hmirrors (hheld₂ _ (hperm₂.mem_iff.mpr List.mem_cons_self)))
      (condition_of_held hR hmirrors (hheld₃ _ (hperm₃.mem_iff.mpr List.mem_cons_self)))
      (hemits₁ scope levels hmirrors hheld₁) (hemits₂ scope levels hmirrors hheld₂)
      (hemits₃ scope levels hmirrors hheld₃)

theorem into_list
    (t : Token) {es : List Expr}
    (hoperands : Emitting frames (operands frames es) fun ids =>
      Post names decls P frames [] fun scope levels => EmitsOperands R scope levels es ids) :
    forall id, Emitting frames ((uses frames (.list t es)).into id) fun _ =>
      Post names decls P frames [id] fun scope levels =>
        Emits R scope levels (.list t es) id := by
  intro id
  rw [uses]
  dsimp only [Uses.ofInto]
  cases hpacked : packed? es with
  | some cells =>
      refine (Emitting.define id _).mono ?_
      rintro _ _ _ ⟨rfl, rfl⟩
      exact ⟨List.Perm.refl _, fun _ _ _ _ => .matrix hpacked⟩
  | none =>
      refine hoperands.bind ?_
      rintro ids new out ⟨hperm, hemits⟩
      refine (Emitting.define id _).mono ?_
      rintro _ _ _ ⟨rfl, rfl⟩
      refine ⟨?_, ?_⟩
      · simpa using (hperm.append_right [id]).trans (List.perm_append_singleton id new)
      · intro scope levels hmirrors hheld
        exact .list hpacked (hemits scope levels hmirrors hheld.left)

theorem into_lambda
    (frames : List Frame) (t : Token) {params : List Ident} {body : Expr}
    (hparams : forall q, q ∈ params -> (plainNames P).parameter q.name)
    (hbody : forall inner, Lowers names decls P R inner body (uses inner body)) :
    forall id, Emitting frames ((uses frames (.lambda t params body)).into id) fun _ =>
      Post names decls P frames [id] fun scope levels =>
        Emits R scope levels (.lambda t params body) id := by
  intro id
  refine (emitting_function hparams fun frame => (hbody (frame :: frames)).into _).bind ?_
  rintro d _ _ ⟨rfl, rfl, hfunction⟩
  refine (Emitting.define id d).mono ?_
  rintro _ _ _ ⟨rfl, rfl⟩
  exact ⟨List.Perm.refl _, fun scope levels hmirrors _ =>
    .lambda (hfunction scope levels hmirrors)⟩

mutual

theorem uses_lowers
    (hR : Condition P R) :
    forall (e : Expr), e.Named (plainNames P) -> forall frames,
      Lowers names decls P R frames e (uses frames e)
  | .hole, _, frames => by
      rw [uses]
      apply lowers_ofInto hR rfl rfl
      intro id b u b' hrun
      cases hrun
  | .ident i, hnamed, frames => lowers_ident hR hnamed
  | .number t v, _, frames => by
      rw [uses]
      exact lowers_define hR rfl rfl fun _ _ _ => .number
  | .string t v, _, frames => by
      rw [uses]
      exact lowers_define hR rfl rfl fun _ _ _ => .string
  | .bool t v, _, frames => by
      rw [uses]
      exact lowers_define hR rfl rfl fun _ _ _ => .bool
  | .null t, _, frames => by
      rw [uses]
      exact lowers_define hR rfl rfl fun _ _ _ => .null
  | .group t e, hnamed, frames => by
      rw [uses]
      apply lowers_ofInto hR rfl rfl
      intro id
      refine ((uses_lowers hR e hnamed frames).into id).mono ?_
      rintro _ new out ⟨hperm, hemits⟩
      exact ⟨hperm, fun scope levels hmirrors hheld =>
        .group (hemits scope levels hmirrors hheld)⟩
  | .letIn t name params value body, hnamed, frames => by
      have hinto := into_letIn frames t name hnamed.2.1 (uses_lowers hR value hnamed.2.2.1)
        (uses_lowers hR body hnamed.2.2.2)
      rw [uses] at hinto ⊢
      exact lowers_ofInto hR rfl rfl hinto
  | .binary t left .apply right, hnamed, frames =>
      lowers_application hR (uses_lowers hR left hnamed.1 frames)
        (uses_lowers hR right hnamed.2.2 frames)
  | .binary t left (.named op) right, hnamed, frames => by
      have hinto := into_operation t hR hnamed.2.1 (uses_lowers hR left hnamed.1 frames)
        (uses_lowers hR right hnamed.2.2 frames)
      rw [uses] at hinto ⊢
      exact lowers_ofInto hR rfl rfl hinto
  | .list t es, hnamed, frames => by
      have hinto := into_list t (operands_lowers hR es hnamed frames)
      rw [uses] at hinto ⊢
      exact lowers_ofInto hR rfl rfl hinto
  | .cond t test yes no, hnamed, frames => by
      have hinto := into_cond t hR (uses_lowers hR test hnamed.1 frames)
        (uses_lowers hR yes hnamed.2.1 frames) (uses_lowers hR no hnamed.2.2 frames)
      rw [uses] at hinto ⊢
      exact lowers_ofInto hR rfl rfl hinto
  | .lambda t params body, hnamed, frames => by
      have hinto := into_lambda frames t hnamed.1 (uses_lowers hR body hnamed.2)
      rw [uses] at hinto ⊢
      exact lowers_ofInto hR rfl rfl hinto

theorem operands_lowers
    (hR : Condition P R) :
    forall (es : List Expr), Expr.AllNamed (plainNames P) es -> forall frames,
      Emitting frames (operands frames es) fun ids =>
        Post names decls P frames [] fun scope levels => EmitsOperands R scope levels es ids
  | [], _, frames => by
      rw [operands]
      exact Emitting.pure ⟨List.Perm.refl _, fun _ _ _ _ => .nil⟩
  | e :: es, hnamed, frames => by
      rw [operands]
      refine (uses_lowers hR e hnamed.1 frames).operand.bind ?_
      rintro id new₁ out₁ ⟨hperm₁, hemits₁⟩
      refine (operands_lowers hR es hnamed.2 frames).bind ?_
      rintro ids new₂ out₂ ⟨hperm₂, hemits₂⟩
      refine Emitting.pure ⟨?_, ?_⟩
      · rw [List.perm_iff_count]
        intro x
        have h₁ := hperm₁.count_eq x
        have h₂ := hperm₂.count_eq x
        simp only [List.map_append, List.count_append, List.nil_append, List.append_nil]
          at h₁ h₂ ⊢
        omega
      · intro scope levels hmirrors hheld
        rw [List.append_nil] at hheld ⊢
        exact .cons (hemits₁ scope levels hmirrors hheld.left)
          (hemits₂ scope levels hmirrors hheld.right)

end

/-!
## Programs
-/

theorem emitting_declarations
    (hR : Condition P R) (ds : List Decl) (hnamed : forall d, d ∈ ds -> d.Named (plainNames P)) :
    Emitting frames (declarations frames ds) fun _ =>
      Post names decls P frames (ds.map fun d => d.name.name) fun scope levels =>
        EmitsDeclarations R scope levels ds := by
  induction ds with
  | nil =>
      exact Emitting.pure ⟨List.Perm.refl _, fun _ _ _ _ => .nil⟩
  | cons d ds ih =>
      have hd := hnamed d List.mem_cons_self
      have hbody : forall inner id, Emitting inner ((uses inner d.body).into id) fun _ =>
          Post names decls P inner [id] fun scope levels => Emits R scope levels d.body id :=
        fun inner id => (uses_lowers hR d.body hd.2.2 inner).into id
      refine (emitting_declaration d.name.name hd.2.1 hbody).bind ?_
      rintro _ new₁ out₁ ⟨hperm₁, hemits₁⟩
      refine (ih fun e he => hnamed e (List.mem_cons_of_mem d he)).mono ?_
      rintro _ new₂ out₂ ⟨hperm₂, hemits₂⟩
      refine ⟨?_, ?_⟩
      · rw [List.perm_iff_count]
        intro x
        have h₁ := hperm₁.count_eq x
        have h₂ := hperm₂.count_eq x
        simp only [List.map_append, List.count_append, List.map_cons, List.count_cons,
          List.count_nil] at h₁ h₂ ⊢
        omega
      · intro scope levels hmirrors hheld
        exact .cons (hemits₁ scope levels hmirrors hheld.left)
          (hemits₂ scope levels hmirrors hheld.right)

theorem program_nodup
    {frame : Frame} {space : Scope.Namespace} {b : Builder} {declared : List String}
    {new : List String} {out : List Entry}
    (hdeclared : Declared (Scope.root names).1 (Scope.root names).2 declared frame space)
    (hgrows : Grows [frame] ⟨space, []⟩ b new out)
    (hperm : (out.map Prod.fst).Perm (declared ++ new)) :
    (out.map Prod.fst).Nodup := by
  rw [hperm.nodup_iff]
  refine List.Nodup.append hdeclared.nodup hgrows.nodup ?_
  intro x hx hnew
  apply hgrows.not_mem_names x hnew
  rw [hdeclared.names_eq]
  exact List.mem_append_left _ (List.mem_reverse.mpr hx)

theorem mirrors_program
    {frame : Frame} {space : Scope.Namespace} {b : Builder} {new : List String}
    {out : List Entry}
    (hnamed : forall d, d ∈ decls -> d.Named (plainNames P))
    (hdeclared : Declared (Scope.root names).1 (Scope.root names).2
      (decls.map fun d => d.name.name) frame space)
    (hgrows : Grows [frame] ⟨space, []⟩ b new out)
    (hperm : (out.map Prod.fst).Perm ((decls.map fun d => d.name.name) ++ new)) :
    Mirrors names decls P [frame] (programScope names decls) [⟨[], Table.collect out⟩] := by
  have hkeys : forall x, x ∈ (Table.collect out).identifiers <->
      x ∈ (decls.map fun d => d.name.name) ++ new := by
    intro x
    rw [Table.mem_identifiers_collect]
    exact hperm.mem_iff
  refine .program ?_ ?_ ?_
  · refine keeps_of_bindings (hdeclared.bindings_eq.trans (List.map_append).symm) ?_
    intro x
    rw [List.mem_append, List.mem_append, List.mem_reverse]
    exact Or.comm
  · intro d hd
    exact (hkeys _).mpr (List.mem_append_left _ (List.mem_map_of_mem hd))
  · intro x hx
    rcases List.mem_append.mp ((hkeys x).mp hx) with hdecl | hnew
    · refine ⟨hdeclared.not_mem x hdecl, ?_⟩
      rcases List.mem_map.mp hdecl with ⟨d, hd, rfl⟩
      exact (hnamed d hd).1
    · refine ⟨?_, ?_⟩
      · intro hname
        apply hgrows.not_mem_names x hnew
        rw [hdeclared.names_eq]
        exact List.mem_append_right _ hname
      · rcases hgrows.synthetic x hnew with ⟨hint, k, rfl⟩
        exact Scope.candidate_not_isGlobal hint k

end

theorem lowered_of_lower
    {P : String -> Prop} {R : List Level -> Site -> Prop} {p : Program} {extra : List String}
    {t : Table}
    (hR : Condition P R) (hnamed : p.Named (plainNames P)) (hlower : p.lower extra = .ok t) :
    Lowered R (Builtin.names ++ extra) p.decls t := by
  rcases run_lower hlower with ⟨frame, space, b, hdeclared, hrun, rfl⟩
  rcases emitting_declarations hR p.decls hnamed _ _ _ hrun with ⟨new, out, hgrows, hperm, hemits⟩
  have hnodup := program_nodup hdeclared hgrows hperm
  have htable : b.table = Table.collect out := hgrows.table_eq
  refine ⟨out, hnodup, htable, ?_⟩
  rw [htable]
  refine hemits _ _ (mirrors_program hnamed hdeclared hgrows hperm) ?_
  intro x hx
  exact (Table.mem_identifiers_collect _ x).mpr hx

end Lowering
end DefTable
