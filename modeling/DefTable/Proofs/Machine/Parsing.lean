import DefTable.Proofs.Machine.Agreement

/-!
# The parser reads expressions as the readers do

Function by function the parser agrees with the reader of the same form, for any reader of the
expressions inside of it.  The nesting of expressions is then an induction on what is left of the
depth: the parser counts up to the bound where the reader counts down.
-/

namespace DefTable
namespace Machine

open Parse (Fault Reader)
open Token (Kind)
open Grammar (SoundReader Derives IsOperand leftNested)

attribute [local irreducible] Chain.resolve

/-!
## Forms around an expression
-/

def ReadsAs (w : Piece) (d : Nat) (x : Reader Expr) : Prop :=
  forall j ts fs, w.Left j ts -> Agrees w d fs .expr parseExpression j (x ts)

section

variable {w : Piece} {d : Nat} {fs : List Fault} {x : Reader Expr} {j : Nat} {t : Token}
variable {ts rest : List Token}

theorem parseDecl_agrees (hx : ReadsAs w d x) (h : w.Left j ts) :
    Agrees w d fs .decl parseDecl j (Parse.decl w.stop x ts) := by
  rw [parseDecl]
  cases ts with
  | nil => exact (parseBinding_stop h).failed rfl
  | cons t rest =>
      refine Agrees.bind (parseBinding_agrees h) rfl ?_
      rintro name _ k u - rfl hleft
      refine Agrees.bind (parseParams_agrees hleft []) rfl ?_
      rintro ⟨ps, rest₁⟩ _ k u - rfl hleft
      refine Agrees.bind (expectNext_agrees hleft ⟨Kind.noConfusion, Kind.noConfusion⟩) rfl ?_
      rintro eq _ k u - rfl hleft
      refine .pos rfl (.after (shift_returns w k d fs) ?_)
      refine Agrees.bind (hx _ _ _ hleft.tail) rfl ?_
      rintro body _ k u - ⟨rfl, hhole⟩ hleft
      exact .neg (Bool.eq_false_iff.mp hhole) (.done hleft rfl)

theorem parseLet_agrees (hx : ReadsAs w d x) (h : w.Left j (t :: rest)) :
    Agrees w d fs .expr parseLet j (Parse.letForm w.stop x t rest) := by
  have hcurrent : (w.state j d fs).current = t := state_current h
  rw [parseLet]
  refine Agrees.after (.get _) (.after (shift_returns w j d fs) ?_)
  rw [hcurrent]
  refine Agrees.bind (parseDecl_agrees hx h.tail) rfl ?_
  rintro decl _ k u - rfl hleft
  refine Agrees.bind (expectNext_agrees hleft ⟨Kind.noConfusion, Kind.noConfusion⟩) rfl ?_
  rintro key _ k u - rfl hleft
  refine .pos rfl (.after (shift_returns w k d fs) ?_)
  refine Agrees.bind (hx _ _ _ hleft.tail) rfl ?_
  rintro body _ k u - ⟨rfl, hhole⟩ hleft
  exact .neg (Bool.eq_false_iff.mp hhole) (.done hleft ⟨rfl, rfl⟩)

theorem parseIf_agrees (hx : ReadsAs w d x) (h : w.Left j (t :: rest)) :
    Agrees w d fs .expr parseIf j (Parse.condForm w.stop x t rest) := by
  have hcurrent : (w.state j d fs).current = t := state_current h
  rw [parseIf]
  refine Agrees.after (.get _) (.after (shift_returns w j d fs) ?_)
  rw [hcurrent]
  refine Agrees.bind (hx _ _ _ h.tail) rfl ?_
  rintro test _ k u - ⟨rfl, hhole⟩ hleft
  refine .neg (Bool.eq_false_iff.mp hhole) ?_
  refine Agrees.bind (expectNext_agrees hleft ⟨Kind.noConfusion, Kind.noConfusion⟩) rfl ?_
  rintro key₁ _ k u - rfl hleft
  refine .pos rfl (.after (shift_returns w k d fs) ?_)
  refine Agrees.bind (hx _ _ _ hleft.tail) rfl ?_
  rintro yes _ k u - ⟨rfl, hhole⟩ hleft
  refine .neg (Bool.eq_false_iff.mp hhole) ?_
  refine Agrees.bind (expectNext_agrees hleft ⟨Kind.noConfusion, Kind.noConfusion⟩) rfl ?_
  rintro key₂ _ k u - rfl hleft
  refine .pos rfl (.after (shift_returns w k d fs) ?_)
  refine Agrees.bind (hx _ _ _ hleft.tail) rfl ?_
  rintro no _ k u - ⟨rfl, hhole⟩ hleft
  exact .neg (Bool.eq_false_iff.mp hhole) (.done hleft ⟨rfl, rfl⟩)

theorem parseLambda_agrees (hx : ReadsAs w d x) (h : w.Left j (t :: rest)) :
    Agrees w d fs .expr parseLambda j (Parse.lambdaForm w.stop x t rest) := by
  have hcurrent : (w.state j d fs).current = t := state_current h
  rw [parseLambda]
  refine Agrees.after (.get _) ?_
  rw [hcurrent]
  refine Agrees.bind (parseParams_agrees h []) rfl ?_
  rintro ⟨ps, rest₁⟩ _ k u - rfl hleft
  refine .ite (fun _ => ?_) (fun _ => ?_)
  · have hnext : (w.state k d fs).next = Parse.next w.stop rest₁.1 := state_next hleft
    refine Agrees.after (.get _) ?_
    rw [hnext]
    exact .fault hleft
  · refine Agrees.bind (expectNext_agrees hleft ⟨Kind.noConfusion, Kind.noConfusion⟩) rfl ?_
    rintro key _ k u - rfl hleft
    refine .pos rfl (.after (shift_returns w k d fs) ?_)
    refine Agrees.bind (hx _ _ _ hleft.tail) rfl ?_
    rintro body _ k u - ⟨rfl, hhole⟩ hleft
    exact .neg (Bool.eq_false_iff.mp hhole) (.done hleft ⟨rfl, rfl⟩)

end

/-!
## Atoms
-/

section

variable {w : Piece} {d : Nat} {fs : List Fault} {x : Reader Expr} {j : Nat} {t : Token}
variable {ts rest : List Token}

theorem reference_ahead (h : w.Left j (t :: rest)) :
    ((w.state j d fs).next.kind = .operator ∧
        (tokenAt w.tokens (w.state j d fs).following).kind = .closeParen) <->
      Parse.operatorReference? rest ≠ none := by
  have hnext : (w.state j d fs).next = Parse.next w.stop rest := state_next h
  rw [hnext]
  match rest, h with
  | [], h => exact iff_of_false (fun hkinds => stop_kind_ne (by simp) hkinds.1) (fun hne => hne rfl)
  | [u], h =>
      have hlast : tokenAt w.tokens (j + 2) = w.stop := tokenAt_left h.tail.tail
      refine iff_of_false (fun hkinds => ?_) (fun hne => hne rfl)
      exact stop_kind_ne (by simp) (hlast ▸ hkinds.2)
  | u :: v :: more, h =>
      have hlast : tokenAt w.tokens (j + 2) = v := tokenAt_left h.tail.tail
      change u.kind = .operator ∧ (tokenAt w.tokens (j + 2)).kind = .closeParen <-> _
      rw [hlast, Parse.operatorReference?]
      split <;> simp [*]

theorem parseGroup_agrees (hx : ReadsAs w d x) (h : w.Left j (t :: rest)) :
    Agrees w d fs .expr parseGroup j (Parse.groupForm w.stop x t rest) := by
  have hcurrent : (w.state j d fs).current = t := state_current h
  rw [parseGroup]
  unfold Parse.groupForm
  refine Agrees.after (.get _) ?_
  rw [hcurrent]
  cases hreference : Parse.operatorReference? rest with
  | none =>
      refine .neg (fun hahead => (reference_ahead h).mp hahead hreference) ?_
      refine .after (shift_returns w j d fs) ?_
      refine Agrees.bind (hx _ _ _ h.tail) rfl ?_
      rintro inner _ k u - ⟨rfl, hhole⟩ hleft
      refine .neg (Bool.eq_false_iff.mp hhole) ?_
      refine Agrees.bind (closeWith_agrees hleft ⟨Kind.noConfusion, Kind.noConfusion⟩ t) rfl ?_
      rintro key _ k u - rfl hleft
      exact .pos rfl (.done hleft ⟨rfl, rfl⟩)
  | some e =>
      have hne : Parse.operatorReference? rest ≠ none := by simp [hreference]
      refine .pos ((reference_ahead h).mpr hne) ?_
      unfold Parse.operatorReference? at hreference
      split at hreference
      · rename_i op close more
        rw [Option.ite_none_right_eq_some] at hreference
        rcases hreference with ⟨-, hreference⟩
        cases hreference
        have hop : (w.state (j + 1) d fs).current = op := state_current h.tail
        refine .after (shift_returns w j d fs) (.after (.get _) ?_)
        rw [hop]
        exact .after (shift_returns w (j + 1) d fs) (.done h.tail.tail ⟨rfl, rfl⟩)
      · cases hreference

theorem parseElements_agrees
    {ρ : Type} {S : Reply ρ Expr} (hS : S.absent = .hole) (hx : ReadsAs w d x) (bracket : Token)
    (before : List Expr) (h : w.Left j ts) (k : Parsed (List Expr) ts -> Except Fault ρ)
    (hk : forall es i u, w.Left i (u :: es.rest) ->
      Agrees w d fs S
        (do if ← closeWith .closeBracket bracket then return .list bracket (before ++ es.value)
            else return .hole) i (k es)) :
    Agrees w d fs S (parseElements bracket before) j (Parse.elements x ts >>= k) := by
  induction hlength : ts.length using Nat.strongRecOn generalizing ts before j with
  | _ n ih =>
      rw [parseElements, Parse.elements, bind_assoc]
      refine Agrees.bind (hx _ _ _ h) (by rw [hS]; rfl) ?_
      rintro ⟨_, left, hshorter⟩ e i u - ⟨rfl, hhole⟩ hleft
      have hnext : (w.state i d fs).next = Parse.next w.stop left := state_next hleft
      refine .neg (Bool.eq_false_iff.mp hhole) (.after (.get _) ?_)
      rw [hnext]
      cases left with
      | nil =>
          refine .neg (stop_kind_ne ⟨Kind.noConfusion, Kind.noConfusion⟩) ?_
          exact hk ⟨[e], [], hshorter⟩ i u hleft
      | cons v rest =>
          change Agrees w d fs S _ i ((if v.kind = .comma then _ else _) >>= k)
          rw [List.length_cons] at hshorter
          by_cases hcomma : v.kind = .comma
          · rw [if_pos hcomma, bind_assoc]
            refine .pos hcomma (.after (shift_returns w i d fs) ?_)
            refine .after (shift_returns w (i + 1) d fs) ?_
            refine ih rest.length (by omega) _ hleft.tail.tail _ (fun es i u hleft => ?_) rfl
            rw [pure_bind, List.append_assoc]
            exact hk ⟨e :: es.value, es.rest, _⟩ i u hleft
          · rw [if_neg hcomma]
            exact .neg hcomma (hk ⟨[e], v :: rest, hshorter⟩ i u hleft)

theorem parseList_agrees (hx : ReadsAs w d x) (h : w.Left j (t :: rest)) :
    Agrees w d fs .expr parseList j (Parse.listForm w.stop x t rest) := by
  have hcurrent : (w.state j d fs).current = t := state_current h
  have hnext : (w.state j d fs).next = Parse.next w.stop rest := state_next h
  rw [parseList]
  unfold Parse.listForm
  refine Agrees.after (.get _) ?_
  rw [hcurrent, hnext]
  cases hempty : Parse.emptyList? t rest with
  | none =>
      have hopen : (Parse.next w.stop rest).kind ≠ .closeBracket := by
        cases rest with
        | nil => exact stop_kind_ne (by simp)
        | cons u rest =>
            intro hclose
            rw [Parse.emptyList?, if_pos (show u.kind = .closeBracket from hclose)] at hempty
            cases hempty
      refine .neg hopen (.after (shift_returns w j d fs) ?_)
      refine parseElements_agrees rfl hx t [] h.tail _ fun es i u hleft => ?_
      refine Agrees.bind (closeWith_agrees hleft ⟨Kind.noConfusion, Kind.noConfusion⟩ t) rfl ?_
      rintro key _ k u - rfl hleft
      exact .pos rfl (.done hleft ⟨rfl, rfl⟩)
  | some e =>
      cases rest with
      | nil => cases hempty
      | cons u rest =>
          rw [Parse.emptyList?, Option.ite_none_right_eq_some] at hempty
          rcases hempty with ⟨hclose, hempty⟩
          cases hempty
          exact .pos hclose (.after (shift_returns w j d fs) (.done h.tail ⟨rfl, rfl⟩))

theorem Agrees.lift
    {m : Parsing Expr} {r : Except Fault (Parsed Expr rest)} (hm : Agrees w d fs .expr m j r)
    (t : Token) : Agrees w d fs .expr m j (r.map (Parsed.lift t)) := by
  cases r with
  | error f => exact hm
  | ok p => exact hm

theorem parseSignedNumber_agrees (h : w.Left j (t :: rest)) :
    Agrees w d fs .expr
      (do
        let e ← parseSignedNumber
        if e.isHole then
          report (.expected .expression t)
          return .hole
        else return e)
      j
      (match Parse.signedNumber? t rest with
        | some e => .ok (e.lift t)
        | none => .error (.expected .expression t)) := by
  have hcurrent : (w.state j d fs).current = t := state_current h
  have hnext : (w.state j d fs).next = Parse.next w.stop rest := state_next h
  unfold parseSignedNumber
  rw [bind_assoc]
  refine Agrees.after (.get _) ?_
  rw [hcurrent, hnext]
  cases rest with
  | nil =>
      have hstop : Parse.signed? t w.stop = none := by
        rcases w.stops with hstop | hstop <;> rw [Parse.signed?, hstop]
      dsimp only [Parse.next, List.headD_nil]
      rw [hstop]
      exact .fault h
  | cons u rest =>
      rw [Parse.signedNumber?]
      dsimp only [Parse.next, List.headD_cons]
      cases hsigned : Parse.signed? t u with
      | none => exact .fault h
      | some e =>
          have hhole : e.isHole = false := by
            unfold Parse.signed? at hsigned
            split at hsigned
            · rw [Option.ite_none_right_eq_some] at hsigned
              rw [← Option.some.inj hsigned.2]
              rfl
            · cases hsigned
          rw [bind_assoc]
          refine .after (shift_returns w j d fs) ?_
          rw [pure_bind]
          exact .neg (Bool.eq_false_iff.mp hhole) (.done h.tail ⟨rfl, hhole⟩)

theorem parseAtom_agrees (hx : ReadsAs w d x) (h : w.Left j ts) :
    Agrees w d fs .expr parseAtom j (Parse.atom w.stop x ts) := by
  have hcurrent : (w.state j d fs).current = Parse.next w.stop ts := state_current h
  rw [parseAtom]
  refine Agrees.after (.get _) ?_
  rw [hcurrent]
  cases ts with
  | nil =>
      dsimp only [Parse.next, List.headD_nil]
      rcases w.stops with hstop | hstop
      · rw [hstop]
        exact .fault h
      · rw [hstop]
        exact .fault h
  | cons t rest =>
      rw [Parse.atom]
      dsimp only [Parse.next, List.headD_cons]
      cases t.kind with
      | name => exact .done h ⟨rfl, rfl⟩
      | number v => exact .done h ⟨rfl, rfl⟩
      | string v => exact .done h ⟨rfl, rfl⟩
      | keyTrue => exact .done h ⟨rfl, rfl⟩
      | keyFalse => exact .done h ⟨rfl, rfl⟩
      | keyNull => exact .done h ⟨rfl, rfl⟩
      | openParen => exact (parseGroup_agrees hx h).lift t
      | openBracket => exact (parseList_agrees hx h).lift t
      | operator => exact parseSignedNumber_agrees h
      | _ => exact .fault h

end

/-!
## Chains
-/

def Reply.chain (ts : List Token) (first : Expr) (before : List (Operator × Expr)) :
    Reply (List (Operator × Expr) × { rest : List Token // rest.length ≤ ts.length }) Expr :=
  ⟨fun p => p.2.1,
    fun p e => e = Chain.resolve ⟨first, before ++ p.1⟩ ∧ e.isHole = false, .hole⟩

theorem fixPrecedence_leftNested
    {first : Expr} {more : List (Operator × Expr)} (hfirst : IsOperand first)
    (hmore : forall p, p ∈ more -> IsOperand p.2) :
    fixPrecedence (leftNested first more) = pure (Chain.resolve ⟨first, more⟩) ∧
      (Chain.resolve ⟨first, more⟩).isHole = false := by
  have hchain : (leftNested first more).chain = ⟨first, more⟩ := by
    rw [Grammar.leftNested_chain first fun p hp => (hmore p hp).1, hfirst.1, List.nil_append]
  have hcomplete : Complete ⟨first, more⟩ :=
    ⟨hfirst.2, fun p hp => ⟨trivial, (hmore p hp).2⟩⟩
  have hfixed := fixPrecedence_eq (hchain ▸ hcomplete)
  rw [hchain] at hfixed
  exact ⟨hfixed, hcomplete.resolve fun _ _ _ _ _ _ _ => rfl⟩

section

variable {w : Piece} {d n : Nat} {fs : List Fault} {x : Reader Expr} {j : Nat} {t : Token}
variable {ts rest : List Token}

theorem parseOperand_agrees (hx : ReadsAs w d x) (h : w.Left j ts) :
    Agrees w d fs .expr parseOperand j (Parse.operand w.stop x ts) := by
  have hcurrent : (w.state j d fs).current = Parse.next w.stop ts := state_current h
  rw [parseOperand]
  unfold Parse.operand
  refine Agrees.after (.get _) ?_
  rw [hcurrent]
  cases ts with
  | nil =>
      have hopens : Parse.opensForm w.stop = false := by
        rcases w.stops with hstop | hstop <;> simp [Parse.opensForm, hstop]
      exact .neg (Bool.eq_false_iff.mp hopens) (parseAtom_agrees hx h)
  | cons t rest => exact .ite (fun _ => hx _ _ _ h) (fun _ => parseAtom_agrees hx h)

theorem isOperand_of_operand
    {stop : Token} (hsound : SoundReader x (Derives n)) {r : Parsed Expr ts}
    (h : Parse.operand stop x ts = .ok r) : IsOperand r.value := by
  rcases Grammar.operand_sound hsound h with ⟨used, _, hoperand⟩
  cases hoperand with
  | atom hatom => exact Grammar.atom_isOperand hatom
  | openForm hopens he _ =>
      exact Grammar.isOperand_of_isOpenEnded (Grammar.isOpenEnded_of_opens hopens he)

theorem parseMore_agrees
    (hx : ReadsAs w d x) (hsound : SoundReader x (Derives n)) {j : Nat} {t : Token}
    {ts : List Token} {first : Expr} {before : List (Operator × Expr)} (hfirst : IsOperand first)
    (hbefore : forall p, p ∈ before -> IsOperand p.2) (h : w.Left j (t :: ts)) :
    Agrees w d fs (.chain ts first before) (parseMore (leftNested first before)) j
      (Parse.moreOperands w.stop x ts) := by
  have hnext : (w.state j d fs).next = Parse.next w.stop ts := state_next h
  have joined (op : Operator) (start : { rest : List Token // rest.length ≤ ts.length })
      (i : Nat) (hstart : w.Left i start.1) :
      Agrees w d fs (.chain ts first before)
        (parseJoined (leftNested first before) op) i
        (do
          let e ← Parse.operand w.stop x start.1
          let more ← Parse.moreOperands w.stop x e.rest
          return ((op, e.value) :: more.1, ⟨more.2.1, by
            have h₁ := start.2; have h₂ := e.shorter; have h₃ := more.2.2; omega⟩)) := by
    rw [parseJoined]
    refine Agrees.bind (parseOperand_agrees hx hstart) rfl ?_
    rintro e _ k u hread ⟨rfl, hhole⟩ hleft
    have hless : e.rest.length < ts.length := by
      have h₁ := start.2
      have h₂ := e.shorter
      omega
    have hjoined : forall p, p ∈ before ++ [(op, e.value)] -> IsOperand p.2 := by
      rw [List.forall_mem_append, List.forall_mem_singleton]
      exact ⟨hbefore, isOperand_of_operand hsound hread⟩
    have hnested : leftNested first (before ++ [(op, e.value)]) =
        .binary (leftNested first before).token (leftNested first before) op e.value := by
      rw [leftNested, List.foldl_append]
      rfl
    refine .neg (Bool.eq_false_iff.mp hhole) ?_
    rw [← hnested]
    refine Agrees.map (parseMore_agrees hx hsound hfirst hjoined hleft) _ (fun _ => rfl) ?_ rfl
    rintro p _ ⟨rfl, hhole⟩
    rw [List.append_assoc] at hhole ⊢
    exact ⟨rfl, hhole⟩
  have ended : Agrees w d fs (.chain ts first before)
      (liftM (fixPrecedence (leftNested first before))) j (.ok ([], ⟨ts, Nat.le_refl _⟩)) := by
    rcases fixPrecedence_leftNested hfirst hbefore with ⟨hresolved, hhole⟩
    refine ⟨j, _, t, h, ⟨?_, hhole⟩, .lift hresolved _⟩
    rw [List.append_nil]
  rw [parseMore, Parse.moreOperands]
  refine Agrees.after (.get _) ?_
  rw [hnext]
  cases ts with
  | nil =>
      have hop : Parse.operatorOf? w.stop = none := by
        rcases w.stops with hstop | hstop <;> rw [Parse.operatorOf?, hstop]
      have hstarts : Parse.startsOperand w.stop = false := by
        rcases w.stops with hstop | hstop <;> rw [Parse.startsOperand, hstop]
      dsimp only [Parse.next, List.headD_nil]
      rw [hop]
      exact .neg (Bool.eq_false_iff.mp hstarts) ended
  | cons u ts =>
      dsimp only [Parse.next, List.headD_cons]
      rw [Parse.joint?]
      cases hop : Parse.operatorOf? u with
      | some op =>
          refine .after (shift_returns w j d fs) (.after (shift_returns w (j + 1) d fs) ?_)
          exact joined op ⟨ts, Nat.le_succ _⟩ (j + 2) h.tail.tail
      | none =>
          by_cases hstarts : Parse.startsOperand u = true
          · rw [if_pos hstarts]
            refine .pos hstarts (.after (shift_returns w j d fs) ?_)
            exact joined .apply ⟨u :: ts, Nat.le_refl _⟩ (j + 1) h.tail
          · rw [if_neg hstarts]
            exact .neg hstarts ended
termination_by ts.length

theorem parseChain_agrees
    (hx : ReadsAs w d x) (hsound : SoundReader x (Derives n)) (h : w.Left j ts) :
    Agrees w d fs .expr parseChain j (Parse.chain w.stop x ts) := by
  rw [parseChain]
  unfold Parse.chain
  refine Agrees.bind (parseOperand_agrees hx h) rfl ?_
  rintro first _ k u hread ⟨rfl, hhole⟩ hleft
  refine .neg (Bool.eq_false_iff.mp hhole) ?_
  have hfirst := isOperand_of_operand hsound hread
  have hmore : Agrees w d fs (.chain first.rest first.value []) (parseMore first.value) k
      (Parse.moreOperands w.stop x first.rest) :=
    parseMore_agrees hx hsound hfirst (fun p hp => absurd hp List.not_mem_nil) hleft
  exact hmore.map _ (fun _ => rfl) (fun _ _ hgives => hgives) rfl

/-!
## Expressions
-/

theorem parseBounded_agrees
    (hx : ReadsAs w d x) (hsound : SoundReader x (Derives n)) (hd : d ≤ Parse.maxDepth)
    (h : w.Left j ts) :
    Agrees w d fs .expr parseBounded j (Parse.form w.stop x ts) := by
  have hcurrent : (w.state j d fs).current = Parse.next w.stop ts := state_current h
  rw [parseBounded]
  refine Agrees.after (.get _) (.neg (Nat.not_lt.mpr hd) ?_)
  rw [hcurrent]
  cases ts with
  | nil =>
      dsimp only [Parse.next, List.headD_nil]
      rcases w.stops with hstop | hstop
      · rw [hstop]
        exact parseChain_agrees hx hsound h
      · rw [hstop]
        exact parseChain_agrees hx hsound h
  | cons t rest =>
      dsimp only [Parse.next, List.headD_cons]
      rw [Parse.form]
      cases t.kind with
      | keyLet => exact (parseLet_agrees hx h).lift t
      | keyIf => exact (parseIf_agrees hx h).lift t
      | backslash => exact (parseLambda_agrees hx h).lift t
      | _ => exact parseChain_agrees hx hsound h

theorem parseExpression_agrees
    {r : Except Fault (Parsed Expr ts)} (h : Agrees w (d + 1) fs .expr parseBounded j r) :
    Agrees w d fs .expr parseExpression j r := by
  have counted {e : Expr} {k : Nat} {gs : List Fault}
      (hm : Returns parseBounded (w.state j (d + 1) fs) e (w.state k (d + 1) gs)) :
      Returns parseExpression (w.state j d fs) e (w.state k d gs) := by
    rw [parseExpression]
    exact (Returns.modify _ _).bind (hm.bind ((Returns.modify _ _).bind (.pure _ _)))
  cases r with
  | error f =>
      rcases h with ⟨k, rest, hleft, hm⟩
      exact ⟨k, rest, hleft, counted hm⟩
  | ok p =>
      rcases h with ⟨k, e, t, hleft, hgives, hm⟩
      exact ⟨k, e, t, hleft, hgives, counted hm⟩

theorem parseExpression_reads (w : Piece) {budget d : Nat} (hd : d + budget = Parse.maxDepth) :
    ReadsAs w d (Parse.expr w.stop budget) := by
  induction budget generalizing d with
  | zero =>
      intro j ts fs h
      have hcurrent : (w.state j (d + 1) fs).current = Parse.next w.stop ts := state_current h
      refine parseExpression_agrees ?_
      rw [parseBounded]
      change Agrees w (d + 1) fs .expr _ j (.error (.tooDeep (Parse.next w.stop ts)))
      rw [← hcurrent]
      refine Agrees.after (.get _) (.pos ?_ (.fault h))
      exact hd ▸ Nat.lt_succ_self d
  | succ budget ih =>
      intro j ts fs h
      have hinner : ReadsAs w (d + 1) (Parse.expr w.stop budget) := ih (by omega)
      have hsound := Grammar.expr_sound w.stop budget
      exact parseExpression_agrees (parseBounded_agrees hinner hsound (by omega) h)

end

end Machine
end DefTable
