import DefTable.Proofs.Grammar.Sound

/-!
# Whatever is derived is read

The converse of soundness: tokens that a value is derived from are read as that value, whatever
follows them, as long as no operand follows an expression.  The readers look at most two tokens
ahead, so the proofs need to know with which tokens a derivation can start.
-/

namespace DefTable
namespace Grammar

open Parse (Reader)

/-- What has the reading is taken by the reader of expressions. -/
def CompleteReader (x : Reader Expr) (E : Reading) : Prop :=
  forall used e rest, E used e -> Ends rest -> Reads x (used ++ rest) e rest

/-!
## First tokens
-/

theorem ends_nil : Ends [] :=
  rfl

theorem ends_cons
    {t : Token} {rest : List Token}
    (hoperator : Parse.operatorOf? t = none) (hstarts : Parse.startsOperand t = false) :
    Ends (t :: rest) := by
  rw [Ends, Parse.joint?, hoperator, hstarts]
  rfl

theorem ends_of_kind
    {t : Token} {rest : List Token}
    (h : t.kind ∈ [.keyIn, .keyThen, .keyElse, .comma, .closeParen, .closeBracket, .semicolon]) :
    Ends (t :: rest) := by
  apply ends_cons
  · unfold Parse.operatorOf?
    simp only [List.mem_cons, List.not_mem_nil, or_false] at h
    rcases h with h | h | h | h | h | h | h <;> rw [h]
  · unfold Parse.startsOperand
    simp only [List.mem_cons, List.not_mem_nil, or_false] at h
    rcases h with h | h | h | h | h | h | h <;> rw [h]

/-- What an expression starts with: something that starts an operand, or a sign before its
number. -/
inductive Starts : List Token -> Prop where
  | operand {t ts} : Parse.startsOperand t = true -> Starts (t :: ts)
  | sign {t u ts v} : t.kind = .operator -> u.kind = .number v -> Starts (t :: u :: ts)

theorem Starts.append {ts : List Token} (h : Starts ts) (rest : List Token) :
    Starts (ts ++ rest) := by
  cases h with
  | operand hstarts => exact .operand hstarts
  | sign hsign hnumber => exact .sign hsign hnumber

section

variable {E : Reading}

theorem atom_starts {ts : List Token} {e : Expr} (h : Atom E ts e) : Starts ts := by
  cases h with
  | name hkind => exact .operand (by rw [Parse.startsOperand, hkind])
  | number hkind => exact .operand (by rw [Parse.startsOperand, hkind])
  | string hkind => exact .operand (by rw [Parse.startsOperand, hkind])
  | true hkind => exact .operand (by rw [Parse.startsOperand, hkind])
  | false hkind => exact .operand (by rw [Parse.startsOperand, hkind])
  | null hkind => exact .operand (by rw [Parse.startsOperand, hkind])
  | negative hsign _ hnumber _ => exact .sign hsign hnumber
  | positive hsign _ hnumber _ => exact .sign hsign hnumber
  | reference hkind _ _ => exact .operand (by rw [Parse.startsOperand, hkind])
  | group hkind _ _ => exact .operand (by rw [Parse.startsOperand, hkind])
  | emptyList hkind _ => exact .operand (by rw [Parse.startsOperand, hkind])
  | list hkind _ _ => exact .operand (by rw [Parse.startsOperand, hkind])

theorem form_starts {ts : List Token} {e : Expr} (h : Form E ts e) : Starts ts := by
  cases h with
  | letIn hkind _ _ _ => exact .operand (by rw [Parse.startsOperand, hkind])
  | cond hkind _ _ _ _ _ => exact .operand (by rw [Parse.startsOperand, hkind])
  | lambda hkind _ _ _ _ => exact .operand (by rw [Parse.startsOperand, hkind])
  | chain hfirst _ => exact (atom_starts hfirst).append _

theorem derives_starts {n : Nat} {ts : List Token} {e : Expr} (h : Derives n ts e) :
    Starts ts := by
  cases n with
  | zero => exact h.elim
  | succ n => exact form_starts h

theorem atom_not_opens
    {ts : List Token} {e : Expr} (h : Atom E ts e) (rest : List Token) :
    (ts ++ rest).head?.any Parse.opensForm = false := by
  cases h with
  | name hkind => simp [Parse.opensForm, hkind]
  | number hkind => simp [Parse.opensForm, hkind]
  | string hkind => simp [Parse.opensForm, hkind]
  | true hkind => simp [Parse.opensForm, hkind]
  | false hkind => simp [Parse.opensForm, hkind]
  | null hkind => simp [Parse.opensForm, hkind]
  | negative hsign _ _ _ => simp [Parse.opensForm, hsign]
  | positive hsign _ _ _ => simp [Parse.opensForm, hsign]
  | reference hkind _ _ => simp [Parse.opensForm, hkind]
  | group hkind _ _ => simp [Parse.opensForm, hkind]
  | emptyList hkind _ => simp [Parse.opensForm, hkind]
  | list hkind _ _ => simp [Parse.opensForm, hkind]

end

/-!
## Names and declarations
-/

theorem binding_complete {t : Token} {i : Ident} (h : Declarable t i) :
    Parse.binding t = .ok i := by
  rcases h with ⟨hkind, hhead, rfl⟩
  unfold Parse.binding
  rw [if_neg (by simp [hkind]), if_neg hhead]

theorem params_complete
    {ts rest : List Token} {is : List Ident} (h : Names ts is)
    (hrest : forall t, rest.head? = some t -> t.kind ≠ .name) :
    exists hle, Parse.params (ts ++ rest) = .ok (is, ⟨rest, hle⟩) := by
  induction h with
  | nil =>
      cases rest with
      | nil => exact ⟨Nat.le_refl _, rfl⟩
      | cons t rest =>
          refine ⟨Nat.le_refl _, ?_⟩
          show Parse.params (t :: rest) = _
          rw [Parse.params, if_neg (hrest t rfl)]
  | @cons t i ts is hdeclarable _ ih =>
      rcases ih with ⟨hle, hparams⟩
      refine ⟨Nat.le_succ_of_le hle, ?_⟩
      show Parse.params (t :: (ts ++ rest)) = _
      rw [Parse.params, if_pos hdeclarable.1, binding_complete hdeclarable, hparams]
      rfl

theorem expect_complete
    (stop : Token) {t : Token} {kind : Token.Kind} (h : t.kind = kind) (rest : List Token) :
    Reads (Parse.expect stop kind) (t :: rest) t rest := by
  refine ⟨Nat.lt_succ_self _, ?_⟩
  rw [Parse.expect, if_pos h]

theorem close_complete
    (stop bracket : Token) {t : Token} {kind : Token.Kind} (h : t.kind = kind)
    (rest : List Token) : Reads (Parse.close stop kind bracket) (t :: rest) t rest :=
  expect_complete stop h rest

theorem bind_of_ok
    {ε α β : Type} {x : Except ε α} {a : α} (h : x = .ok a) (f : α -> Except ε β) :
    x >>= f = f a := by
  rw [h]
  rfl

section

variable {x : Reader Expr} {E : Reading} (stop : Token)

theorem decl_complete
    (hx : CompleteReader x E) {ts rest : List Token} {d : Decl} (h : Declares E ts d)
    (hrest : Ends rest) : Reads (Parse.decl stop x) (ts ++ rest) d rest := by
  cases h with
  | @intro t name ps params eq bs body hname hparams heq hbody =>
      have hnext : forall u, (eq :: (bs ++ rest)).head? = some u -> u.kind ≠ .name := by
        intro u hu
        rw [← Option.some.inj hu, heq]
        exact fun hkind => nomatch hkind
      rcases params_complete hparams hnext with ⟨hle, hps⟩
      rcases expect_complete stop heq (bs ++ rest) with ⟨hlt, hexpect⟩
      rcases hx bs body rest hbody hrest with ⟨hshorter, hreads⟩
      have hsplit : t :: ps ++ eq :: bs ++ rest = t :: (ps ++ eq :: (bs ++ rest)) := by simp
      rw [hsplit]
      refine ⟨by simp only [List.length_append, List.length_cons]; omega, ?_⟩
      rw [Parse.decl, bind_of_ok (binding_complete hname), bind_of_ok hps]
      dsimp only
      rw [bind_of_ok hexpect, bind_of_ok hreads]
      rfl

/-!
## Forms that start with a word
-/

theorem letForm_complete
    (hx : CompleteReader x E) (t : Token) {ds bs rest : List Token} {d : Decl} {key : Token}
    {body : Expr} (hd : Declares E ds d) (hkey : key.kind = .keyIn) (hbody : E bs body)
    (hrest : Ends rest) :
    Reads (Parse.letForm stop x t) (ds ++ key :: bs ++ rest)
      (.letIn t d.name d.params d.body body) rest := by
  have hends : Ends (key :: (bs ++ rest)) := ends_of_kind (by rw [hkey]; simp)
  rcases decl_complete stop hx hd hends with ⟨hlt, hdecl⟩
  rcases expect_complete stop hkey (bs ++ rest) with ⟨hlt', hexpect⟩
  rcases hx bs body rest hbody hrest with ⟨hshorter, hreads⟩
  have hsplit : ds ++ key :: bs ++ rest = ds ++ key :: (bs ++ rest) := by simp
  rw [hsplit]
  refine ⟨by simp only [List.length_append, List.length_cons]; omega, ?_⟩
  rw [Parse.letForm, bind_of_ok hdecl, bind_of_ok hexpect, bind_of_ok hreads]
  rfl

theorem condForm_complete
    (hx : CompleteReader x E) (t : Token) {cs ys ns rest : List Token} {key₁ key₂ : Token}
    {test yes no : Expr} (htest : E cs test) (hkey₁ : key₁.kind = .keyThen) (hyes : E ys yes)
    (hkey₂ : key₂.kind = .keyElse) (hno : E ns no) (hrest : Ends rest) :
    Reads (Parse.condForm stop x t) (cs ++ key₁ :: ys ++ key₂ :: ns ++ rest)
      (.cond t test yes no) rest := by
  have hsplit : cs ++ key₁ :: ys ++ key₂ :: ns ++ rest =
      cs ++ key₁ :: (ys ++ key₂ :: (ns ++ rest)) := by simp
  rw [hsplit]
  rcases hx cs test _ htest (ends_of_kind (by rw [hkey₁]; simp)) with ⟨hlt₁, hreads₁⟩
  rcases expect_complete stop hkey₁ (ys ++ key₂ :: (ns ++ rest)) with ⟨hlt₂, hexpect₁⟩
  rcases hx ys yes _ hyes (ends_of_kind (by rw [hkey₂]; simp)) with ⟨hlt₃, hreads₂⟩
  rcases expect_complete stop hkey₂ (ns ++ rest) with ⟨hlt₄, hexpect₂⟩
  rcases hx ns no rest hno hrest with ⟨hlt₅, hreads₃⟩
  refine ⟨by simp only [List.length_append, List.length_cons]; omega, ?_⟩
  rw [Parse.condForm, bind_of_ok hreads₁, bind_of_ok hexpect₁, bind_of_ok hreads₂,
    bind_of_ok hexpect₂, bind_of_ok hreads₃]
  rfl

theorem lambdaForm_complete
    (hx : CompleteReader x E) (t : Token) {ps bs rest : List Token} {arrow : Token}
    {params : List Ident} {body : Expr} (hparams : Names ps params) (hnonempty : params ≠ [])
    (harrow : arrow.kind = .arrow) (hbody : E bs body) (hrest : Ends rest) :
    Reads (Parse.lambdaForm stop x t) (ps ++ arrow :: bs ++ rest)
      (.lambda t params body) rest := by
  have hsplit : ps ++ arrow :: bs ++ rest = ps ++ arrow :: (bs ++ rest) := by simp
  rw [hsplit]
  have hnext : forall u, (arrow :: (bs ++ rest)).head? = some u -> u.kind ≠ .name := by
    intro u hu
    rw [← Option.some.inj hu, harrow]
    exact fun hkind => nomatch hkind
  rcases params_complete hparams hnext with ⟨hle, hps⟩
  rcases expect_complete stop harrow (bs ++ rest) with ⟨hlt, hexpect⟩
  rcases hx bs body rest hbody hrest with ⟨hshorter, hreads⟩
  have hsome : ¬ params.isEmpty = true := by
    intro hempty
    exact hnonempty (List.isEmpty_iff.mp hempty)
  refine ⟨by simp only [List.length_append, List.length_cons]; omega, ?_⟩
  rw [Parse.lambdaForm, bind_of_ok hps]
  dsimp only
  rw [if_neg hsome, bind_of_ok hexpect, bind_of_ok hreads]
  rfl

/-!
## Atoms
-/

theorem map_lift_complete
    {t : Token} {y : Reader Expr} {ts rest : List Token} {e : Expr} (h : Reads y ts e rest) :
    exists hlt, (y ts).map (Parsed.lift t) = .ok ⟨e, rest, hlt⟩ := by
  rcases h with ⟨hlt, hreads⟩
  refine ⟨Nat.lt_succ_of_lt hlt, ?_⟩
  rw [hreads]
  rfl

theorem operatorReference_of_starts
    {ts : List Token} (h : Starts ts) : Parse.operatorReference? ts = none := by
  cases h with
  | @operand t ts hstarts =>
      cases ts with
      | nil => rfl
      | cons u ts =>
          rw [Parse.operatorReference?, if_neg]
          rintro ⟨hkind, _⟩
          rw [Parse.startsOperand, hkind] at hstarts
          cases hstarts
  | sign _ hnumber =>
      rw [Parse.operatorReference?, if_neg]
      rintro ⟨_, hkind⟩
      rw [hnumber] at hkind
      cases hkind

theorem emptyList_of_starts
    {ts : List Token} (h : Starts ts) (t : Token) : Parse.emptyList? t ts = none := by
  cases h with
  | operand hstarts =>
      rw [Parse.emptyList?, if_neg]
      intro hkind
      rw [Parse.startsOperand, hkind] at hstarts
      cases hstarts
  | sign hsign _ =>
      rw [Parse.emptyList?, if_neg]
      intro hkind
      rw [hsign] at hkind
      cases hkind

theorem groupForm_complete
    (hx : CompleteReader x E) (hE : forall ts e, E ts e -> Starts ts) (t : Token)
    {ts : List Token} {e : Expr} {close : Token} (he : E ts e) (hclose : close.kind = .closeParen)
    (rest : List Token) :
    Reads (Parse.groupForm stop x t) (ts ++ close :: rest) (.group t e) rest := by
  have hends : Ends (close :: rest) := ends_of_kind (by rw [hclose]; simp)
  rcases hx ts e _ he hends with ⟨hlt, hreads⟩
  rcases close_complete stop t hclose rest with ⟨hlt', hexpect⟩
  refine ⟨by simp only [List.length_append, List.length_cons]; omega, ?_⟩
  rw [Parse.groupForm, operatorReference_of_starts ((hE ts e he).append _)]
  dsimp only
  rw [bind_of_ok hreads, bind_of_ok hexpect]
  rfl

theorem elements_starts
    (hE : forall ts e, E ts e -> Starts ts) {ts : List Token} {es : List Expr}
    (h : Elements E ts es) : Starts ts := by
  cases h with
  | last he => exact hE _ _ he
  | cons he _ _ => exact (hE _ _ he).append _

theorem elements_complete
    (hx : CompleteReader x E) {ts : List Token} {es : List Expr} (h : Elements E ts es)
    {close : Token} (hclose : close.kind = .closeBracket) (rest : List Token) :
    Reads (Parse.elements x) (ts ++ close :: rest) es (close :: rest) := by
  have hends : Ends (close :: rest) := ends_of_kind (by rw [hclose]; simp)
  induction h with
  | @last ts e he =>
      rcases hx ts e _ he hends with ⟨hlt, hreads⟩
      refine ⟨hlt, ?_⟩
      rw [Parse.elements, bind_of_ok hreads]
      dsimp only
      rw [if_neg (by simp [hclose])]
      rfl
  | @cons ts e comma more es he hcomma _ ih =>
      rcases ih with ⟨hlt, hmore⟩
      have hsplit : ts ++ comma :: more ++ close :: rest = ts ++ comma :: (more ++ close :: rest) := by
        simp
      rw [hsplit]
      have hends : Ends (comma :: (more ++ close :: rest)) := ends_of_kind (by rw [hcomma]; simp)
      rcases hx ts e _ he hends with ⟨hlt', hreads⟩
      refine ⟨by simp only [List.length_append, List.length_cons]; omega, ?_⟩
      rw [Parse.elements, bind_of_ok hreads]
      dsimp only
      rw [if_pos hcomma, bind_of_ok hmore]
      rfl

theorem listForm_complete
    (hx : CompleteReader x E) (hE : forall ts e, E ts e -> Starts ts) (t : Token)
    {ts : List Token} {es : List Expr} {close : Token} (hes : Elements E ts es)
    (hclose : close.kind = .closeBracket) (rest : List Token) :
    Reads (Parse.listForm stop x t) (ts ++ close :: rest) (.list t es) rest := by
  rcases elements_complete hx hes hclose rest with ⟨hlt, helements⟩
  rcases close_complete stop t hclose rest with ⟨hlt', hexpect⟩
  refine ⟨by simp only [List.length_append, List.length_cons]; omega, ?_⟩
  rw [Parse.listForm, emptyList_of_starts ((elements_starts hE hes).append _)]
  dsimp only
  rw [bind_of_ok helements, bind_of_ok hexpect]
  rfl

theorem signed_complete
    {sign t : Token} {v : Number}
    (hlexeme : sign.lexeme = [.char '-'] ∨ sign.lexeme = [.char '+']) (hkind : t.kind = .number v)
    (htouches : Touches sign t) :
    Parse.signed? sign t = some (.number ⟨t.kind, sign.lexeme ++ t.lexeme, sign.position⟩
      (if sign.lexeme = [.char '-'] then -v else v)) := by
  unfold Parse.signed?
  rw [hkind]
  dsimp only
  rw [if_pos ⟨hlexeme, htouches⟩]

theorem atom_complete
    (hx : CompleteReader x E) (hE : forall ts e, E ts e -> Starts ts) {ts : List Token} {e : Expr}
    (h : Atom E ts e) (rest : List Token) : Reads (Parse.atom stop x) (ts ++ rest) e rest := by
  cases h with
  | @name t hkind =>
      refine ⟨Nat.lt_succ_self _, ?_⟩
      show Parse.atom stop x (t :: rest) = _
      rw [Parse.atom, hkind]
  | @number t v hkind =>
      refine ⟨Nat.lt_succ_self _, ?_⟩
      show Parse.atom stop x (t :: rest) = _
      rw [Parse.atom, hkind]
  | @string t v hkind =>
      refine ⟨Nat.lt_succ_self _, ?_⟩
      show Parse.atom stop x (t :: rest) = _
      rw [Parse.atom, hkind]
  | @true t hkind =>
      refine ⟨Nat.lt_succ_self _, ?_⟩
      show Parse.atom stop x (t :: rest) = _
      rw [Parse.atom, hkind]
  | @false t hkind =>
      refine ⟨Nat.lt_succ_self _, ?_⟩
      show Parse.atom stop x (t :: rest) = _
      rw [Parse.atom, hkind]
  | @null t hkind =>
      refine ⟨Nat.lt_succ_self _, ?_⟩
      show Parse.atom stop x (t :: rest) = _
      rw [Parse.atom, hkind]
  | @negative sign t v hsign hlexeme hnumber htouches =>
      refine ⟨Nat.lt_add_of_pos_right (show 0 < 2 by decide), ?_⟩
      show Parse.atom stop x (sign :: t :: rest) = _
      have hsigned := signed_complete (.inl hlexeme) hnumber htouches
      rw [if_pos hlexeme] at hsigned
      rw [Parse.atom, hsign]
      dsimp only
      rw [Parse.signedNumber?, hsigned]
      rfl
  | @positive sign t v hsign hlexeme hnumber htouches =>
      refine ⟨Nat.lt_add_of_pos_right (show 0 < 2 by decide), ?_⟩
      show Parse.atom stop x (sign :: t :: rest) = _
      have hsigned := signed_complete (.inr hlexeme) hnumber htouches
      rw [if_neg (by rw [hlexeme]; decide)] at hsigned
      rw [Parse.atom, hsign]
      dsimp only
      rw [Parse.signedNumber?, hsigned]
      rfl
  | @reference t op close hkind hop hclose =>
      refine ⟨Nat.lt_add_of_pos_right (show 0 < 3 by decide), ?_⟩
      show Parse.atom stop x (t :: op :: close :: rest) = _
      rw [Parse.atom, hkind]
      dsimp only
      rw [Parse.groupForm, Parse.operatorReference?, if_pos ⟨hop, hclose⟩]
      rfl
  | @group t ts e close hkind he hclose =>
      have hsplit : t :: ts ++ [close] ++ rest = t :: (ts ++ close :: rest) := by simp
      rw [hsplit]
      rcases map_lift_complete (groupForm_complete stop hx hE t he hclose rest) with ⟨hlt, hgroup⟩
      refine ⟨hlt, ?_⟩
      rw [Parse.atom, hkind]
      exact hgroup
  | @emptyList t close hkind hclose =>
      refine ⟨Nat.lt_add_of_pos_right (show 0 < 2 by decide), ?_⟩
      show Parse.atom stop x (t :: close :: rest) = _
      rw [Parse.atom, hkind]
      dsimp only
      rw [Parse.listForm, Parse.emptyList?, if_pos hclose]
      rfl
  | @list t ts es close hkind hes hclose =>
      have hsplit : t :: ts ++ [close] ++ rest = t :: (ts ++ close :: rest) := by simp
      rw [hsplit]
      rcases map_lift_complete (listForm_complete stop hx hE t hes hclose rest) with ⟨hlt, hlist⟩
      refine ⟨hlt, ?_⟩
      rw [Parse.atom, hkind]
      exact hlist

/-!
## Chains
-/

theorem operand_of_atom
    (hx : CompleteReader x E) (hE : forall ts e, E ts e -> Starts ts) {ts : List Token} {e : Expr}
    (h : Atom E ts e) (rest : List Token) : Reads (Parse.operand stop x) (ts ++ rest) e rest := by
  rcases atom_complete stop hx hE h rest with ⟨hlt, hatom⟩
  refine ⟨hlt, ?_⟩
  rw [Parse.operand, atom_not_opens h, if_neg Bool.false_ne_true]
  exact hatom

theorem operand_of_openForm
    (hx : CompleteReader x E) {t : Token} {ts rest : List Token} {e : Expr}
    (hopens : Opens t) (he : E (t :: ts) e) (hrest : Ends rest) :
    Reads (Parse.operand stop x) (t :: ts ++ rest) e rest := by
  rcases hx (t :: ts) e rest he hrest with ⟨hlt, hreads⟩
  refine ⟨hlt, ?_⟩
  have hhead : (t :: ts ++ rest).head?.any Parse.opensForm = true := (opensForm_iff t).mpr hopens
  rw [Parse.operand, if_pos hhead]
  exact hreads

theorem operatorOf_of_startsOperand
    {t : Token} (h : Parse.startsOperand t = true) : Parse.operatorOf? t = none := by
  unfold Parse.operatorOf?
  split
  · rename_i hkind
    rw [Parse.startsOperand, hkind] at h
    cases h
  · rename_i hkind
    rw [Parse.startsOperand, hkind] at h
    cases h
  · rfl

theorem joint_complete
    {js ts : List Token} {op : Operator} (h : Joins js op ts) (hts : Starts ts)
    (rest : List Token) :
    exists hle, Parse.joint? (js ++ ts ++ rest) = some (op, ⟨ts ++ rest, hle⟩) := by
  cases h with
  | @operator t ts hkind =>
      refine ⟨Nat.le_succ _, ?_⟩
      show Parse.joint? (t :: (ts ++ rest)) = _
      rw [Parse.joint?, Parse.operatorOf?, hkind]
  | @quotedName t name ts hkind =>
      refine ⟨Nat.le_succ _, ?_⟩
      show Parse.joint? (t :: (ts ++ rest)) = _
      rw [Parse.joint?, Parse.operatorOf?, hkind]
  | @sideBySide t ts hkind =>
      have hstarts : Parse.startsOperand t = true := by
        cases hts with
        | operand hstarts => exact hstarts
        | sign hsign _ => exact absurd hsign hkind
      refine ⟨Nat.le_refl _, ?_⟩
      show Parse.joint? (t :: (ts ++ rest)) = _
      rw [Parse.joint?, operatorOf_of_startsOperand hstarts]
      dsimp only
      rw [if_pos hstarts]
      rfl

theorem starts_of_opens {t : Token} (h : Opens t) (ts : List Token) : Starts (t :: ts) := by
  apply Starts.operand
  rcases h with hkind | hkind | hkind <;> rw [Parse.startsOperand, hkind]

theorem moreOperands_complete
    (hx : CompleteReader x E) (hE : forall ts e, E ts e -> Starts ts) {ts rest : List Token}
    {more : List (Operator × Expr)} (h : More E ts more) (hrest : Ends rest) :
    exists hle, Parse.moreOperands stop x (ts ++ rest) = .ok (more, ⟨rest, hle⟩) := by
  induction h with
  | nil => exact ⟨Nat.le_refl _, moreOperands_of_ends hrest⟩
  | @atom js op ts e later more hjoins hatom _ ih =>
      rcases ih with ⟨hle, hmore⟩
      rcases joint_complete hjoins (atom_starts hatom) (later ++ rest) with ⟨hle', hjoint⟩
      rcases operand_of_atom stop hx hE hatom (later ++ rest) with ⟨hlt, hoperand⟩
      have hsplit : js ++ ts ++ later ++ rest = js ++ ts ++ (later ++ rest) := by simp
      rw [hsplit]
      refine ⟨by simp only [List.length_append]; omega, ?_⟩
      rw [Parse.moreOperands, hjoint]
      dsimp only
      rw [bind_of_ok hoperand]
      dsimp only
      rw [bind_of_ok hmore]
      rfl
  | @openForm js op t ts e hjoins hopens he =>
      rcases joint_complete hjoins (starts_of_opens hopens ts) rest with ⟨hle', hjoint⟩
      rcases operand_of_openForm stop hx hopens he hrest with ⟨hlt, hoperand⟩
      refine ⟨by simp only [List.length_append]; omega, ?_⟩
      rw [Parse.moreOperands, hjoint]
      dsimp only
      rw [bind_of_ok hoperand]
      dsimp only
      rw [bind_of_ok (moreOperands_of_ends hrest)]
      rfl

/-!
## Expressions
-/

theorem chain_complete
    (hx : CompleteReader x E) (hE : forall ts e, E ts e -> Starts ts) {ts later rest : List Token}
    {first : Expr} {more : List (Operator × Expr)} (hfirst : Atom E ts first)
    (hmore : More E later more) (hrest : Ends rest) :
    Reads (Parse.chain stop x) (ts ++ later ++ rest) (Chain.resolve ⟨first, more⟩) rest := by
  rcases operand_of_atom stop hx hE hfirst (later ++ rest) with ⟨hlt, hoperand⟩
  rcases moreOperands_complete stop hx hE hmore hrest with ⟨hle, hoperands⟩
  rw [List.append_assoc]
  refine ⟨by simp only [List.length_append] at hlt hle ⊢; omega, ?_⟩
  rw [Parse.chain, bind_of_ok hoperand]
  dsimp only
  rw [bind_of_ok hoperands]
  rfl

theorem form_of_not_opens
    {ts : List Token} (h : ts.head?.any Parse.opensForm = false) :
    Parse.form stop x ts = Parse.chain stop x ts := by
  cases ts with
  | nil => rfl
  | cons t rest =>
      have hopens : Parse.opensForm t = false := h
      unfold Parse.opensForm at hopens
      rw [Parse.form]
      split
      · rename_i hkind
        rw [hkind] at hopens
        cases hopens
      · rename_i hkind
        rw [hkind] at hopens
        cases hopens
      · rename_i hkind
        rw [hkind] at hopens
        cases hopens
      · rfl

theorem form_complete
    (hx : CompleteReader x E) (hE : forall ts e, E ts e -> Starts ts) :
    CompleteReader (Parse.form stop x) (Form E) := by
  intro used e rest h hrest
  cases h with
  | @letIn t ds d key bs body hkind hd hkey hbody =>
      rcases map_lift_complete (letForm_complete stop hx t hd hkey hbody hrest) with ⟨hlt, hlet⟩
      refine ⟨hlt, ?_⟩
      show Parse.form stop x (t :: (ds ++ key :: bs ++ rest)) = _
      rw [Parse.form, hkind]
      exact hlet
  | @cond t cs test key₁ ys yes key₂ ns no hkind htest hkey₁ hyes hkey₂ hno =>
      rcases map_lift_complete (condForm_complete stop hx t htest hkey₁ hyes hkey₂ hno hrest) with
        ⟨hlt, hcond⟩
      refine ⟨hlt, ?_⟩
      show Parse.form stop x (t :: (cs ++ key₁ :: ys ++ key₂ :: ns ++ rest)) = _
      rw [Parse.form, hkind]
      exact hcond
  | @lambda t ps params arrow bs body hkind hparams hnonempty harrow hbody =>
      rcases map_lift_complete (lambdaForm_complete stop hx t hparams hnonempty harrow hbody hrest)
        with ⟨hlt, hlambda⟩
      refine ⟨hlt, ?_⟩
      show Parse.form stop x (t :: (ps ++ arrow :: bs ++ rest)) = _
      rw [Parse.form, hkind]
      exact hlambda
  | @chain ts first later more hfirst hmore =>
      rcases chain_complete stop hx hE hfirst hmore hrest with ⟨hlt, hchain⟩
      refine ⟨hlt, ?_⟩
      rw [form_of_not_opens]
      · exact hchain
      · rw [List.append_assoc]
        exact atom_not_opens hfirst _

end

theorem expr_complete (stop : Token) (n : Nat) :
    CompleteReader (Parse.expr stop n) (Derives n) := by
  induction n with
  | zero => exact fun used e rest h _ => h.elim
  | succ n ih => exact form_complete stop ih fun _ _ h => derives_starts h

/-!
## Programs
-/

theorem segment_decl_complete
    {s : Parse.Segment} {d : Decl} (h : Declares (Derives Parse.maxDepth) s.tokens d)
    (hstop : s.stop.kind = .semicolon) : s.decl = .ok d := by
  have hreads := decl_complete s.stop (expr_complete s.stop Parse.maxDepth) h ends_nil
  rw [List.append_nil] at hreads
  rcases hreads with ⟨hlt, hdecl⟩
  rw [Parse.Segment.decl, bind_of_ok hdecl, if_pos]
  · rfl
  · simp [hstop]

end Grammar
end DefTable
