import DefTable.Proofs.Grammar.Basic

/-!
# Whatever is read is derived

A reader that succeeds has taken tokens from which its result is derived, and it stops only where
no operand can follow.  Each reader is treated apart, for any reader of the expressions inside it
that is sound itself; the nesting of expressions is then an induction on the depth.
-/

namespace DefTable
namespace Grammar

open Parse (Reader)

/-- The reader takes the value from the front of the tokens and leaves the rest. -/
def Reads {α : Type} (x : Reader α) (ts : List Token) (a : α) (rest : List Token) : Prop :=
  exists h, x ts = .ok ⟨a, rest, h⟩

def Ends (rest : List Token) : Prop :=
  Parse.joint? rest = none

/-- What the reader of expressions takes has the given reading. -/
def SoundReader (x : Reader Expr) (E : Reading) : Prop :=
  forall ts e rest, Reads x ts e rest ->
    exists used, ts = used ++ rest ∧ E used e ∧ Ends rest

theorem bind_ok
    {ε α β : Type} {x : Except ε α} {f : α -> Except ε β} {r : β}
    (h : x >>= f = .ok r) :
    exists a, x = .ok a ∧ f a = .ok r := by
  cases x with
  | error e => cases h
  | ok a => exact ⟨a, rfl, h⟩

theorem split_around
    {key : Token} {ts used rest₁ rest₂ more rest : List Token}
    (h₁ : ts = used ++ rest₁) (h₂ : rest₁ = key :: rest₂) (h₃ : rest₂ = more ++ rest) :
    ts = (used ++ key :: more) ++ rest := by
  rw [h₁, h₂, h₃]
  simp

theorem split_trans
    {ts used rest₁ more rest : List Token}
    (h₁ : ts = used ++ rest₁) (h₂ : rest₁ = more ++ rest) :
    ts = (used ++ more) ++ rest := by
  rw [h₁, h₂]
  simp

theorem nonempty_of_shorter
    {ts used rest : List Token} (h : ts = used ++ rest) (hshorter : rest.length < ts.length) :
    used ≠ [] := by
  intro hnil
  rw [h, hnil, List.nil_append] at hshorter
  exact absurd hshorter (Nat.lt_irrefl _)

/-!
## Names and declarations
-/

theorem declarable_of_binding
    {t : Token} {i : Ident} (h : Parse.binding t = .ok i) :
    Declarable t i := by
  unfold Parse.binding at h
  by_cases hkind : t.kind ≠ .name
  · rw [if_pos hkind] at h
    cases h
  · rw [if_neg hkind] at h
    by_cases hglobal : t.lexeme.head? = some (.char '@')
    · rw [if_pos hglobal] at h
      cases h
    · rw [if_neg hglobal] at h
      cases h
      exact ⟨Decidable.not_not.mp hkind, hglobal, rfl⟩

theorem names_of_params
    {ts : List Token} {is : List Ident} {rest : { rest : List Token // rest.length ≤ ts.length }}
    (h : Parse.params ts = .ok (is, rest)) :
    exists used, ts = used ++ rest.1 ∧ Names used is := by
  induction ts generalizing is with
  | nil =>
      cases h
      exact ⟨[], rfl, .nil⟩
  | cons t ts ih =>
      rw [Parse.params] at h
      by_cases hname : t.kind = .name
      · rw [if_pos hname] at h
        rcases bind_ok h with ⟨i, hbinding, h⟩
        rcases bind_ok h with ⟨⟨more, rest'⟩, hparams, h⟩
        cases h
        rcases ih hparams with ⟨used, hsplit, hnames⟩
        exact ⟨t :: used, congrArg (t :: ·) hsplit,
          .cons (declarable_of_binding hbinding) hnames⟩
      · rw [if_neg hname] at h
        cases h
        exact ⟨[], rfl, .nil⟩

theorem expect_ok
    {stop : Token} {kind : Token.Kind} {ts : List Token} {r : Parsed Token ts}
    (h : Parse.expect stop kind ts = .ok r) :
    r.value.kind = kind ∧ ts = r.value :: r.rest := by
  cases ts with
  | nil =>
      cases h
  | cons t rest =>
      rw [Parse.expect] at h
      by_cases hkind : t.kind = kind
      · rw [if_pos hkind] at h
        cases h
        exact ⟨hkind, rfl⟩
      · rw [if_neg hkind] at h
        cases h

theorem close_ok
    {stop bracket : Token} {kind : Token.Kind} {ts : List Token} {r : Parsed Token ts}
    (h : Parse.close stop kind bracket ts = .ok r) :
    r.value.kind = kind ∧ ts = r.value :: r.rest := by
  cases ts with
  | nil =>
      rw [Parse.close] at h
      split at h
      · cases h
      · cases h
  | cons t rest =>
      exact expect_ok (show Parse.expect stop kind (t :: rest) = .ok r from h)

section

variable {x : Reader Expr} {E : Reading} {stop : Token}

theorem SoundReader.result
    (hx : SoundReader x E) {ts : List Token} {r : Parsed Expr ts} (h : x ts = .ok r) :
    exists used, ts = used ++ r.rest ∧ E used r.value ∧ Ends r.rest :=
  hx ts r.value r.rest ⟨r.shorter, h⟩

theorem decl_sound
    (hx : SoundReader x E) {ts : List Token} {r : Parsed Decl ts}
    (h : Parse.decl stop x ts = .ok r) :
    exists used, ts = used ++ r.rest ∧ Declares E used r.value ∧ Ends r.rest := by
  cases ts with
  | nil =>
      cases h
  | cons t ts =>
      rw [Parse.decl] at h
      rcases bind_ok h with ⟨name, hbinding, h⟩
      rcases bind_ok h with ⟨⟨params, rest⟩, hparams, h⟩
      rcases bind_ok h with ⟨eq, hexpect, h⟩
      rcases bind_ok h with ⟨body, hbody, h⟩
      cases h
      rcases names_of_params hparams with ⟨ps, hps, hnames⟩
      rcases expect_ok hexpect with ⟨hkind, heq⟩
      rcases hx.result hbody with ⟨bs, hbs, hE, hends⟩
      exact ⟨t :: ps ++ eq.value :: bs, congrArg (t :: ·) (split_around hps heq hbs),
        .intro (declarable_of_binding hbinding) hnames hkind hE, hends⟩

/-!
## Forms that start with a word
-/

theorem letForm_sound
    (hx : SoundReader x E) {t : Token} (ht : t.kind = .keyLet) {ts : List Token}
    {r : Parsed Expr ts} (h : Parse.letForm stop x t ts = .ok r) :
    exists used, ts = used ++ r.rest ∧ Form E (t :: used) r.value ∧ Ends r.rest := by
  unfold Parse.letForm at h
  rcases bind_ok h with ⟨d, hdecl, h⟩
  rcases bind_ok h with ⟨key, hkey, h⟩
  rcases bind_ok h with ⟨body, hbody, h⟩
  cases h
  rcases decl_sound hx hdecl with ⟨ds, hds, hdeclares, _⟩
  rcases expect_ok hkey with ⟨hkind, hrest⟩
  rcases hx.result hbody with ⟨bs, hbs, hE, hends⟩
  exact ⟨ds ++ key.value :: bs, split_around hds hrest hbs,
    .letIn ht hdeclares hkind hE, hends⟩

theorem condForm_sound
    (hx : SoundReader x E) {t : Token} (ht : t.kind = .keyIf) {ts : List Token}
    {r : Parsed Expr ts} (h : Parse.condForm stop x t ts = .ok r) :
    exists used, ts = used ++ r.rest ∧ Form E (t :: used) r.value ∧ Ends r.rest := by
  unfold Parse.condForm at h
  rcases bind_ok h with ⟨test, htest, h⟩
  rcases bind_ok h with ⟨key₁, hkey₁, h⟩
  rcases bind_ok h with ⟨yes, hyes, h⟩
  rcases bind_ok h with ⟨key₂, hkey₂, h⟩
  rcases bind_ok h with ⟨no, hno, h⟩
  cases h
  rcases hx.result htest with ⟨cs, hcs, hE₁, _⟩
  rcases expect_ok hkey₁ with ⟨hkind₁, hrest₁⟩
  rcases hx.result hyes with ⟨ys, hys, hE₂, _⟩
  rcases expect_ok hkey₂ with ⟨hkind₂, hrest₂⟩
  rcases hx.result hno with ⟨ns, hns, hE₃, hends⟩
  exact ⟨cs ++ key₁.value :: ys ++ key₂.value :: ns,
    split_around (split_around hcs hrest₁ hys) hrest₂ hns,
    .cond ht hE₁ hkind₁ hE₂ hkind₂ hE₃, hends⟩

theorem lambdaForm_sound
    (hx : SoundReader x E) {t : Token} (ht : t.kind = .backslash) {ts : List Token}
    {r : Parsed Expr ts} (h : Parse.lambdaForm stop x t ts = .ok r) :
    exists used, ts = used ++ r.rest ∧ Form E (t :: used) r.value ∧ Ends r.rest := by
  unfold Parse.lambdaForm at h
  rcases bind_ok h with ⟨⟨params, rest⟩, hparams, h⟩
  dsimp only at h
  by_cases hempty : params.isEmpty = true
  · rw [if_pos hempty] at h
    cases h
  · rw [if_neg hempty] at h
    rcases bind_ok h with ⟨key, hkey, h⟩
    rcases bind_ok h with ⟨body, hbody, h⟩
    cases h
    rcases names_of_params hparams with ⟨ps, hps, hnames⟩
    rcases expect_ok hkey with ⟨hkind, hrest⟩
    rcases hx.result hbody with ⟨bs, hbs, hE, hends⟩
    have hnonempty : params ≠ [] := by
      intro hnil
      exact hempty (by rw [hnil]; rfl)
    exact ⟨ps ++ key.value :: bs, split_around hps hrest hbs,
      .lambda ht hnames hnonempty hkind hE, hends⟩

/-!
## Atoms
-/

theorem map_lift_ok
    {t : Token} {ts : List Token} {y : Except Parse.Fault (Parsed Expr ts)}
    {r : Parsed Expr (t :: ts)} (h : y.map (Parsed.lift t) = .ok r) :
    exists s : Parsed Expr ts, y = .ok s ∧ r.value = s.value ∧ r.rest = s.rest := by
  cases y with
  | error f => cases h
  | ok s =>
      cases h
      exact ⟨s, rfl, rfl, rfl⟩

theorem operatorReference_ok
    {t : Token} (ht : t.kind = .openParen) {ts : List Token} {r : Parsed Expr ts}
    (h : Parse.operatorReference? ts = some r) :
    exists used, ts = used ++ r.rest ∧ Atom E (t :: used) r.value := by
  unfold Parse.operatorReference? at h
  split at h
  · rename_i op u rest
    by_cases hkinds : op.kind = .operator ∧ u.kind = .closeParen
    · rw [if_pos hkinds] at h
      cases h
      exact ⟨[op, u], rfl, .reference ht hkinds.1 hkinds.2⟩
    · rw [if_neg hkinds] at h
      cases h
  · cases h

theorem groupForm_sound
    (hx : SoundReader x E) {t : Token} (ht : t.kind = .openParen) {ts : List Token}
    {r : Parsed Expr ts} (h : Parse.groupForm stop x t ts = .ok r) :
    exists used, ts = used ++ r.rest ∧ Atom E (t :: used) r.value := by
  unfold Parse.groupForm at h
  split at h
  · rename_i e hreference
    cases h
    exact operatorReference_ok ht hreference
  · rcases bind_ok h with ⟨inner, hinner, h⟩
    rcases bind_ok h with ⟨key, hkey, h⟩
    cases h
    rcases hx.result hinner with ⟨used, hused, hE, _⟩
    rcases close_ok hkey with ⟨hkind, hrest⟩
    exact ⟨used ++ [key.value], split_around hused hrest rfl, .group ht hE hkind⟩

theorem elements_sound
    (hx : SoundReader x E) {ts : List Token} {r : Parsed (List Expr) ts}
    (h : Parse.elements x ts = .ok r) :
    exists used, ts = used ++ r.rest ∧ Elements E used r.value := by
  induction hlength : ts.length using Nat.strongRecOn generalizing ts with
  | _ n ih =>
      rw [Parse.elements] at h
      rcases bind_ok h with ⟨e, he, h⟩
      rcases hx.result he with ⟨used, hused, hE, _⟩
      split at h
      · rename_i t rest hrest
        by_cases hcomma : t.kind = .comma
        · rw [if_pos hcomma] at h
          rcases bind_ok h with ⟨es, hes, h⟩
          cases h
          have hless : rest.length < n := by
            have hshorter := e.shorter
            rw [hrest, List.length_cons] at hshorter
            omega
          rcases ih rest.length hless hes rfl with ⟨more, hmore, helements⟩
          exact ⟨used ++ t :: more, split_around hused hrest hmore,
            .cons hE hcomma helements⟩
        · rw [if_neg hcomma] at h
          cases h
          exact ⟨used, hused, .last hE⟩
      · cases h
        exact ⟨used, hused, .last hE⟩

theorem listForm_sound
    (hx : SoundReader x E) {t : Token} (ht : t.kind = .openBracket) {ts : List Token}
    {r : Parsed Expr ts} (h : Parse.listForm stop x t ts = .ok r) :
    exists used, ts = used ++ r.rest ∧ Atom E (t :: used) r.value := by
  unfold Parse.listForm at h
  split at h
  · rename_i e hempty
    cases h
    cases ts with
    | nil => cases hempty
    | cons u rest =>
      rw [Parse.emptyList?] at hempty
      by_cases hclose : u.kind = .closeBracket
      · rw [if_pos hclose] at hempty
        cases hempty
        exact ⟨[u], rfl, .emptyList ht hclose⟩
      · rw [if_neg hclose] at hempty
        cases hempty
  · rcases bind_ok h with ⟨es, hes, h⟩
    rcases bind_ok h with ⟨key, hkey, h⟩
    cases h
    rcases elements_sound hx hes with ⟨used, hused, helements⟩
    rcases close_ok hkey with ⟨hkind, hrest⟩
    exact ⟨used ++ [key.value], split_around hused hrest rfl, .list ht helements hkind⟩

theorem signedNumber_ok
    {sign : Token} (hsign : sign.kind = .operator) {ts : List Token} {r : Parsed Expr ts}
    (h : Parse.signedNumber? sign ts = some r) :
    exists used, ts = used ++ r.rest ∧ Atom E (sign :: used) r.value := by
  cases ts with
  | nil => cases h
  | cons t rest =>
      rcases Option.map_eq_some_iff.mp h with ⟨e, hsigned, hr⟩
      subst hr
      refine ⟨[t], rfl, ?_⟩
      unfold Parse.signed? at hsigned
      split at hsigned
      · rename_i v hkind
        by_cases hwritten : (sign.lexeme = [.char '-'] ∨ sign.lexeme = [.char '+']) ∧
            t.position = ⟨sign.position.line, sign.position.column + 1⟩
        · rw [if_pos hwritten] at hsigned
          cases hsigned
          rcases hwritten with ⟨hlexeme | hlexeme, htouches⟩
          · rw [if_pos hlexeme]
            exact .negative hsign hlexeme hkind htouches
          · have hplus : sign.lexeme ≠ [.char '-'] := by
              rw [hlexeme]
              decide
            rw [if_neg hplus]
            exact .positive hsign hlexeme hkind htouches
        · rw [if_neg hwritten] at hsigned
          cases hsigned
      · cases hsigned

theorem atom_sound
    (hx : SoundReader x E) {ts : List Token} {r : Parsed Expr ts}
    (h : Parse.atom stop x ts = .ok r) :
    exists used, ts = used ++ r.rest ∧ Atom E used r.value := by
  cases ts with
  | nil => cases h
  | cons t rest =>
      have lifted
          (hinner : exists s : Parsed Expr rest, r.value = s.value ∧ r.rest = s.rest ∧
            exists used, rest = used ++ s.rest ∧ Atom E (t :: used) s.value) :
          exists used, t :: rest = used ++ r.rest ∧ Atom E used r.value := by
        rcases hinner with ⟨s, hvalue, hrest, used, hused, hatom⟩
        rw [hvalue, hrest]
        exact ⟨t :: used, congrArg (t :: ·) hused, hatom⟩
      rw [Parse.atom] at h
      split at h
      · rename_i hkind
        cases h
        exact ⟨[t], rfl, .name hkind⟩
      · rename_i v hkind
        cases h
        exact ⟨[t], rfl, .number hkind⟩
      · rename_i v hkind
        cases h
        exact ⟨[t], rfl, .string hkind⟩
      · rename_i hkind
        cases h
        exact ⟨[t], rfl, .true hkind⟩
      · rename_i hkind
        cases h
        exact ⟨[t], rfl, .false hkind⟩
      · rename_i hkind
        cases h
        exact ⟨[t], rfl, .null hkind⟩
      · rename_i hkind
        rcases map_lift_ok h with ⟨s, hs, hvalue, hrest⟩
        exact lifted ⟨s, hvalue, hrest, groupForm_sound hx hkind hs⟩
      · rename_i hkind
        rcases map_lift_ok h with ⟨s, hs, hvalue, hrest⟩
        exact lifted ⟨s, hvalue, hrest, listForm_sound hx hkind hs⟩
      · rename_i hkind
        split at h
        · rename_i s hsigned
          cases h
          exact lifted ⟨s, rfl, rfl, signedNumber_ok hkind hsigned⟩
        · cases h
      · cases h
      · cases h

/-!
## Chains
-/

inductive Operand (E : Reading) : List Token -> Expr -> List Token -> Prop where
  | atom {ts e rest} : Atom E ts e -> Operand E ts e rest
  | openForm {t ts e rest} :
      Opens t -> E (t :: ts) e -> Ends rest -> Operand E (t :: ts) e rest

theorem opensForm_iff (t : Token) : Parse.opensForm t = true <-> Opens t := by
  unfold Parse.opensForm Opens
  rw [Bool.or_eq_true, Bool.or_eq_true, decide_eq_true_eq, decide_eq_true_eq, decide_eq_true_eq,
    or_assoc]

theorem operand_sound
    (hx : SoundReader x E) {ts : List Token} {r : Parsed Expr ts}
    (h : Parse.operand stop x ts = .ok r) :
    exists used, ts = used ++ r.rest ∧ Operand E used r.value r.rest := by
  unfold Parse.operand at h
  by_cases hopens : ts.head?.any Parse.opensForm = true
  · rw [if_pos hopens] at h
    rcases hx.result h with ⟨used, hused, hE, hends⟩
    cases ts with
    | nil => cases hopens
    | cons t rest =>
        cases used with
        | nil => exact absurd rfl (nonempty_of_shorter hused r.shorter)
        | cons u used =>
            have hu : t = u := (List.cons.inj hused).1
            subst hu
            exact ⟨t :: used, hused, .openForm ((opensForm_iff t).mp hopens) hE hends⟩
  · rw [if_neg hopens] at h
    rcases atom_sound hx h with ⟨used, hused, hatom⟩
    exact ⟨used, hused, .atom hatom⟩

theorem joins_of_operatorOf
    {t : Token} {op : Operator} (h : Parse.operatorOf? t = some op) (ts : List Token) :
    Joins [t] op ts := by
  unfold Parse.operatorOf? at h
  split at h
  · rename_i hkind
    cases h
    exact .operator hkind
  · rename_i name hkind
    cases h
    exact .quotedName hkind
  · cases h

theorem joint_ok
    {ts : List Token} {op : Operator} {start : { rest : List Token // rest.length ≤ ts.length }}
    (h : Parse.joint? ts = some (op, start)) :
    exists js, ts = js ++ start.1 ∧
      forall used rest, used ≠ [] -> start.1 = used ++ rest -> Joins js op used := by
  cases ts with
  | nil => cases h
  | cons t ts =>
      rw [Parse.joint?] at h
      split at h
      · rename_i op' hop
        cases h
        exact ⟨[t], rfl, fun used _ _ _ => joins_of_operatorOf hop used⟩
      · rename_i hop
        by_cases hstarts : Parse.startsOperand t = true
        · rw [if_pos hstarts] at h
          cases h
          refine ⟨[], rfl, ?_⟩
          intro used rest hused hsplit
          cases used with
          | nil => exact absurd rfl hused
          | cons u used =>
              have hu : t = u := (List.cons.inj hsplit).1
              subst hu
              refine .sideBySide fun hkind => ?_
              rw [Parse.operatorOf?, hkind] at hop
              cases hop
        · rw [if_neg hstarts] at h
          cases h

theorem moreOperands_of_ends
    {ts : List Token} (hends : Ends ts) :
    Parse.moreOperands stop x ts = .ok ([], ⟨ts, Nat.le_refl _⟩) := by
  rw [Parse.moreOperands]
  split
  · rfl
  · rename_i op start hjoint
    exact absurd (hends.symm.trans hjoint) (by simp)

theorem moreOperands_sound
    (hx : SoundReader x E) {ts : List Token} {more : List (Operator × Expr)}
    {rest : { rest : List Token // rest.length ≤ ts.length }}
    (h : Parse.moreOperands stop x ts = .ok (more, rest)) :
    exists used, ts = used ++ rest.1 ∧ More E used more ∧ Ends rest.1 := by
  rw [Parse.moreOperands] at h
  split at h
  · rename_i hjoint
    cases h
    exact ⟨[], rfl, .nil, hjoint⟩
  · rename_i op start hjoint
    rcases bind_ok h with ⟨e, he, h⟩
    rcases bind_ok h with ⟨⟨more', rest'⟩, hmore, h⟩
    cases h
    rcases joint_ok hjoint with ⟨js, hjs, hjoins⟩
    rcases operand_sound hx he with ⟨used, hused, hoperand⟩
    have hless : e.rest.length < ts.length := by
      have h₁ := start.2
      have h₂ := e.shorter
      omega
    have hjoin : Joins js op used := hjoins used e.rest (nonempty_of_shorter hused e.shorter) hused
    cases hoperand with
    | atom hatom =>
        rcases moreOperands_sound hx hmore with ⟨taken, htaken, hMore, hends⟩
        exact ⟨js ++ used ++ taken, split_trans (split_trans hjs hused) htaken, .atom hjoin hatom hMore, hends⟩
    | openForm hopens hE hends =>
        rw [moreOperands_of_ends hends] at hmore
        cases hmore
        exact ⟨js ++ _, split_trans hjs hused, .openForm hjoin hopens hE, hends⟩
termination_by ts.length

/-!
## Expressions
-/

theorem chain_sound
    (hx : SoundReader x E) {ts : List Token} {r : Parsed Expr ts}
    (hatom : ts.head?.any Parse.opensForm = false) (h : Parse.chain stop x ts = .ok r) :
    exists used, ts = used ++ r.rest ∧ Form E used r.value ∧ Ends r.rest := by
  unfold Parse.chain at h
  rcases bind_ok h with ⟨first, hfirst, h⟩
  rcases bind_ok h with ⟨⟨more, rest⟩, hmore, h⟩
  have hr := Except.ok.inj h
  have hvalue : r.value = Chain.resolve ⟨first.value, more⟩ := by rw [← hr]
  have hrest : r.rest = rest.1 := by rw [← hr]
  rw [hvalue, hrest]
  unfold Parse.operand at hfirst
  rw [hatom, if_neg Bool.false_ne_true] at hfirst
  rcases atom_sound hx hfirst with ⟨used, hused, hAtom⟩
  rcases moreOperands_sound hx hmore with ⟨taken, htaken, hMore, hends⟩
  exact ⟨used ++ taken, split_trans hused htaken, .chain hAtom hMore, hends⟩

theorem form_sound
    (hx : SoundReader x E) : SoundReader (Parse.form stop x) (Form E) := by
  intro ts e rest hreads
  rcases hreads with ⟨hshorter, h⟩
  unfold Parse.form at h
  split at h
  · exact chain_sound hx rfl h
  · rename_i t ts'
    have lifted
        (s : Parsed Expr ts') (hvalue : e = s.value) (hrest : rest = s.rest)
        (hinner : exists used, ts' = used ++ s.rest ∧ Form E (t :: used) s.value ∧
          Ends s.rest) :
        exists used, t :: ts' = used ++ rest ∧ Form E used e ∧ Ends rest := by
      rcases hinner with ⟨used, hused, hform, hends⟩
      rw [hvalue, hrest]
      exact ⟨t :: used, congrArg (t :: ·) hused, hform, hends⟩
    split at h
    · rename_i hkind
      rcases map_lift_ok h with ⟨s, hs, hvalue, hrest⟩
      exact lifted s hvalue hrest (letForm_sound hx hkind hs)
    · rename_i hkind
      rcases map_lift_ok h with ⟨s, hs, hvalue, hrest⟩
      exact lifted s hvalue hrest (condForm_sound hx hkind hs)
    · rename_i hkind
      rcases map_lift_ok h with ⟨s, hs, hvalue, hrest⟩
      exact lifted s hvalue hrest (lambdaForm_sound hx hkind hs)
    · rename_i hlet hif hbackslash
      refine chain_sound hx ?_ h
      change Parse.opensForm t = false
      rw [Parse.opensForm, decide_eq_false hlet, decide_eq_false hif, decide_eq_false hbackslash]
      rfl

end

theorem expr_sound (stop : Token) (n : Nat) :
    SoundReader (Parse.expr stop n) (Derives n) := by
  induction n with
  | zero =>
      intro ts e rest hreads
      rcases hreads with ⟨_, h⟩
      cases h
  | succ n ih => exact form_sound ih

/-!
## Programs
-/

theorem segment_decl_sound
    {s : Parse.Segment} {d : Decl} (h : s.decl = .ok d) :
    Declares (Derives Parse.maxDepth) s.tokens d ∧ s.stop.kind = .semicolon := by
  unfold Parse.Segment.decl at h
  rcases bind_ok h with ⟨r, hdecl, h⟩
  by_cases hend : (r.rest.isEmpty && s.stop.kind = .semicolon) = true
  · rw [if_pos hend] at h
    cases h
    rw [Bool.and_eq_true, List.isEmpty_iff, decide_eq_true_eq] at hend
    rcases decl_sound (expr_sound s.stop Parse.maxDepth) hdecl with ⟨used, hused, hdeclares, _⟩
    rw [hend.1, List.append_nil] at hused
    exact ⟨hused ▸ hdeclares, hend.2⟩
  · rw [if_neg hend] at h
    cases h

theorem segments_ne_nil (fin : Token) (ts : List Token) :
    Parse.segments fin ts ≠ [] := by
  cases ts with
  | nil => exact List.cons_ne_nil _ _
  | cons t rest =>
      rw [Parse.segments]
      split
      · exact List.cons_ne_nil _ _
      · split <;> exact List.cons_ne_nil _ _

theorem mem_of_mem_segment
    {fin : Token} {ts : List Token} {s : Parse.Segment} {t : Token}
    (hs : s ∈ Parse.segments fin ts) (ht : t ∈ s.tokens) :
    t ∈ ts := by
  induction ts generalizing s with
  | nil =>
      rw [Parse.segments, List.mem_singleton] at hs
      rw [hs] at ht
      cases ht
  | cons u rest ih =>
      rw [Parse.segments] at hs
      split at hs
      · rcases List.mem_cons.mp hs with hfirst | hlater
        · rw [hfirst] at ht
          cases ht
        · exact List.mem_cons_of_mem u (ih hlater ht)
      · split at hs
        · rename_i first more hmore
          rcases List.mem_cons.mp hs with hfirst | hlater
          · rw [hfirst] at ht
            rcases List.mem_cons.mp ht with hu | hlater
            · exact List.mem_cons.mpr (.inl hu)
            · exact List.mem_cons_of_mem u
                (ih (hmore ▸ List.mem_cons_self) hlater)
          · exact List.mem_cons_of_mem u (ih (hmore ▸ List.mem_cons_of_mem first hlater) ht)
        · rename_i hnil
          exact absurd hnil (segments_ne_nil fin rest)

theorem declares_of_mem_decls
    {ts : List Token} {d : Decl} (hd : d ∈ Parse.decls (Parse.outcomes ts)) :
    exists used, (forall t, t ∈ used -> t ∈ ts) ∧ Declares (Derives Parse.maxDepth) used d := by
  rcases List.mem_filterMap.mp hd with ⟨outcome, houtcome, hd⟩
  rcases List.mem_map.mp houtcome with ⟨s, hs, hdecl⟩
  have hok : s.decl = .ok d := by
    rw [hdecl]
    cases outcome with
    | error f => cases hd
    | ok d' =>
        cases hd
        rfl
  refine ⟨s.tokens, ?_, (segment_decl_sound hok).1⟩
  intro t ht
  have hbody := mem_of_mem_segment ((List.mem_filter.mp hs).1) ht
  exact (List.takeWhile_sublist _).mem hbody

end Grammar
end DefTable
