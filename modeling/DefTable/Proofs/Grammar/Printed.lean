import DefTable.Proofs.Expr.Writable
import DefTable.Proofs.Expr.Written
import DefTable.Proofs.Grammar.Acceptance
import DefTable.Proofs.Token.Numeral

/-!
# Reading what was printed

A printed expression is scanned to tokens that derive the expression as it was written.  The proof
follows the expression: operands and operators make up the tokens of a chain, and forms in
parentheses are operands again.  The chain is resolved to the written expression, because that one
is ordered.
-/

namespace DefTable

namespace Grammar

/-!
## Chains of operands
-/

inductive Chained (E : Reading) : List Token -> Chain -> Prop where
  | atom {ts e} : Atom E ts e -> Chained E ts ⟨e, []⟩
  | join {ts c js op us d} :
      Chained E ts c -> Joins js op us -> Chained E us d -> Chained E (ts ++ js ++ us) (c.join op d)

theorem atom_ne_nil {E : Reading} {ts : List Token} {e : Expr} (h : Atom E ts e) : ts ≠ [] := by
  cases h <;> exact List.cons_ne_nil _ _

theorem Joins.left {js us rest : List Token} {op : Operator} (h : Joins js op (us ++ rest))
    (hus : us ≠ []) : Joins js op us := by
  cases us with
  | nil => exact absurd rfl hus
  | cons u us =>
      generalize hts : u :: us ++ rest = ts at h
      cases h with
      | operator hkind => exact .operator hkind
      | quotedName hkind => exact .quotedName hkind
      | sideBySide hkind =>
          cases hts
          exact .sideBySide hkind

theorem Chained.split
    {E : Reading} {ts later : List Token} {c : Chain} {more : List (Operator × Expr)}
    (h : Chained E ts c) (hmore : More E later more) :
    exists us rest, ts = us ++ rest ∧ Atom E us c.first ∧
      More E (rest ++ later) (c.rest ++ more) := by
  induction h generalizing later more with
  | @atom ts e hatom => exact ⟨ts, [], (List.append_nil ts).symm, hatom, hmore⟩
  | @join ts c js op us d _ hjoins _ ihleft ihright =>
      rcases ihright hmore with ⟨first, rest, rfl, hfirst, hrest⟩
      have hlater : More E (js ++ first ++ (rest ++ later)) ((op, d.first) :: (d.rest ++ more)) :=
        .atom (hjoins.left (atom_ne_nil hfirst)) hfirst hrest
      rcases ihleft hlater with ⟨us, before, rfl, hatom, hall⟩
      refine ⟨us, before ++ (js ++ (first ++ rest)), by simp, hatom, ?_⟩
      simpa [Chain.join] using hall

theorem Chained.form {E : Reading} {ts : List Token} {c : Chain} (h : Chained E ts c) :
    Form E ts c.resolve := by
  rcases h.split .nil with ⟨us, rest, rfl, hatom, hmore⟩
  rw [List.append_nil, List.append_nil] at hmore
  exact .chain hatom hmore

theorem Chained.isOperand {E : Reading} {ts : List Token} {c : Chain} (h : Chained E ts c) :
    IsOperand c.first ∧ forall p, p ∈ c.rest -> IsOperand p.2 := by
  induction h with
  | atom hatom => exact ⟨atom_isOperand hatom, fun p hp => absurd hp List.not_mem_nil⟩
  | join _ _ _ ihleft ihright =>
      refine ⟨ihleft.1, ?_⟩
      rw [Chain.join, List.forall_mem_append, List.forall_mem_cons]
      exact ⟨ihleft.2, ihright.1, ihright.2⟩

theorem Chained.ne_nil {E : Reading} {ts : List Token} {c : Chain} (h : Chained E ts c) :
    ts ≠ [] := by
  induction h with
  | atom hatom => exact atom_ne_nil hatom
  | join _ _ _ ihleft _ =>
      intro heq
      rw [List.append_assoc] at heq
      exact ihleft (List.append_eq_nil_iff.mp heq).1

/-!
## Expressions up to tokens
-/

def Gives (n : Nat) (e : Expr) (ts : List Token) : Prop :=
  exists e', Derives n ts e' ∧ e'.erased = e

/-- The tokens are those of the chain of an expression.  A sign stands before them only if the chain
starts with a negative number. -/
structure Operands (n : Nat) (e : Expr) (ts : List Token) : Prop where
  chained : exists c, Chained (Derives n) ts c ∧ c.erased = e.chain
  sign : forall t, ts.head? = some t -> t.kind = .operator ->
    Source.isNegativeNumber e.chain.first = true

def GivesElements (n : Nat) (es : List Expr) (ts : List Token) : Prop :=
  exists es', Elements (Derives n) ts es' ∧ Expr.allErased es' = es

def GivesNames (is : List Ident) (ts : List Token) : Prop :=
  exists is', Names ts is' ∧ is'.map Ident.erased = is.map Ident.erased

def GivesDecl (n : Nat) (d : Decl) (ts : List Token) : Prop :=
  exists d', Declares (Derives n) ts d' ∧ d'.erased = d

theorem gives_of_operands
    {n : Nat} {e : Expr} {ts : List Token} (hordered : e.Ordered) (hleftmost : e.Leftmost)
    (h : Operands n e ts) : Gives (n + 1) e ts := by
  rcases h.chained with ⟨c, hc, hchain⟩
  rcases hc.isOperand with ⟨hfirst, hrest⟩
  exact ⟨c.resolve, hc.form,
    Chain.erased_resolve hfirst.1 (fun p hp => (hrest p hp).1) hordered hleftmost hchain⟩

theorem operands_of_atom
    {n : Nat} {e : Expr} {ts : List Token} (h : Atom (Derives n) ts e)
    (hsign : forall t, ts.head? = some t -> t.kind = .operator ->
      Source.isNegativeNumber e.erased = true) : Operands n e.erased ts := by
  have hchain : e.erased.chain = Chain.erased ⟨e, []⟩ := by
    rw [Expr.chain_erased, (atom_isOperand h).1]
  refine ⟨⟨⟨e, []⟩, .atom h, hchain.symm⟩, ?_⟩
  rw [hchain]
  exact hsign

theorem operands_of_unsigned
    {n : Nat} {e : Expr} {t : Token} {ts : List Token} {kind : Token.Kind}
    (h : Atom (Derives n) (t :: ts) e) (ht : t.kind = kind) (hkind : kind ≠ .operator) :
    Operands n e.erased (t :: ts) := by
  refine operands_of_atom h ?_
  rintro t' ht' hoperator
  cases ht'
  exact absurd (ht.symm.trans hoperator) hkind

theorem operands_of_joins
    {n : Nat} {left right : Expr} {ts js us : List Token} {op : Operator} (t : Token)
    (hleft : Operands n left ts) (hjoins : Joins js op us) (hright : Operands n right us) :
    Operands n (.binary t left op.erased right) (ts ++ js ++ us) := by
  rcases hleft.chained with ⟨c, hc, hleftChain⟩
  rcases hright.chained with ⟨d, hd, hrightChain⟩
  refine ⟨⟨c.join op d, .join hc hjoins hd, ?_⟩, ?_⟩
  · rw [Chain.erased_join, hleftChain, hrightChain, Expr.chain]
  · intro t' ht'
    rw [List.append_assoc, List.head?_append_of_ne_nil _ hc.ne_nil] at ht'
    exact hleft.sign t' ht'

end Grammar

namespace Source

open Token (Scans One Both Separated Anything)
open Grammar

/-!
## Forms in a text
-/

theorem scans_openParen : Scans Anything "(" (One .openParen) :=
  Token.scans_mark .openParen (by decide)

theorem scans_closeParen : Scans Anything ")" (One .closeParen) :=
  Token.scans_mark .closeParen (by decide)

theorem scans_enclosed {n : Nat} {s : String} {e : Expr} (h : Scans Separated s (Gives n e)) :
    Scans Anything ("(" ++ s ++ ")") (Operands n (.group .absent e)) := by
  refine (scans_openParen.bracketed h scans_closeParen
    fun rest => Token.separated_cons (by decide)).imp ?_
  rintro ts ⟨t, us, close, rfl, ht, ⟨e', he', rfl⟩, hclose⟩
  exact operands_of_unsigned (.group ht he' hclose) ht (by simp)

/-!
## Names
-/

theorem spelling_eq {t : Token} {s : String} (h : t.lexeme = Text.ofString s) : t.spelling = s := by
  rw [Token.spelling, h, Text.ofString, Token.toString_map_char, String.ofList_toList]

theorem scans_name {s : String} (hword : Token.IsWord s.toList) (hkeyword : ¬ IsKeyword s) :
    Scans Separated s fun ts =>
      exists t, ts = [t] ∧ t.kind = .name ∧ t.lexeme = Text.ofString s := by
  refine (Token.scans_word hword).mono
    (fun rest hrest => hrest.breaks Token.separators_end_words) ?_
  rw [ofWord_of_not_isKeyword hkeyword]
  exact fun ts hts => hts

theorem scans_declared {i : Ident} (h : IsDeclarableName i.name) :
    Scans Separated i.name (GivesNames [i]) := by
  refine (scans_name h.1 h.2).imp ?_
  rintro ts ⟨t, rfl, hkind, hlexeme⟩
  have hat : t.lexeme.head? ≠ some (.char '@') := by
    rcases h.1 with ⟨c, cs, hcs, hstart, _⟩
    rw [hlexeme, Text.ofString, hcs]
    intro heq
    cases heq
    exact (Token.plain_of_isNameStart hstart).2.2.1 rfl
  refine ⟨[⟨t, t.spelling⟩], .cons ⟨hkind, hat, rfl⟩ .nil, ?_⟩
  rw [spelling_eq hlexeme]
  rfl

theorem givesNames_append
    {is js : List Ident} {ts us : List Token} (his : GivesNames is ts) (hjs : GivesNames js us) :
    GivesNames (is ++ js) (ts ++ us) := by
  rcases his with ⟨is', his', hnames⟩
  rcases hjs with ⟨js', hjs', hnames'⟩
  refine ⟨is' ++ js', ?_, by rw [List.map_append, List.map_append, hnames, hnames']⟩
  clear hnames
  induction his' with
  | nil => exact hjs'
  | cons hdeclarable _ ih => exact .cons hdeclarable ih

theorem scans_names {i : Ident} {is : List Ident} (h : forall q, q ∈ i :: is -> IsDeclarableName q.name) :
    Scans Separated (i.name ++ String.join (is.map fun p => " " ++ p.name))
      (GivesNames (i :: is)) := by
  induction is generalizing i with
  | nil =>
      rw [List.map_nil, String.join_nil, String.append_empty]
      exact scans_declared (h i List.mem_cons_self)
  | cons j is ih =>
      rw [List.forall_mem_cons] at h
      rw [List.map_cons, String.join_cons, String.append_assoc]
      refine ((scans_declared h.1).append (ih h.2).afterBlank
        fun rest _ => Token.separated_blank _ rest).imp ?_
      rintro ts ⟨ts₁, ts₂, rfl, hts₁, hts₂⟩
      exact givesNames_append hts₁ hts₂

theorem intercalate_cons (sep s : String) (l : List String) :
    sep.intercalate (s :: l) = s ++ String.join (l.map fun t => sep ++ t) := by
  induction l generalizing s with
  | nil => rw [String.intercalate_singleton, List.map_nil, String.join_nil, String.append_empty]
  | cons u l ih =>
      rw [String.intercalate_cons_cons, ih, List.map_cons, String.join_cons, String.append_assoc,
        String.append_assoc]

theorem scans_parameters
    {params : List Ident} (hne : params ≠ []) (h : forall q, q ∈ params -> IsDeclarableName q.name) :
    Scans Separated (parameters params) (GivesNames params) := by
  cases params with
  | nil => exact absurd rfl hne
  | cons i is =>
      rw [parameters, List.map_cons, intercalate_cons, List.map_map]
      exact scans_names h

theorem scans_sign
    {s : String} (hne : s ≠ "") (hall : s.toList.all Token.operatorChars.contains = true) :
    Scans Separated s (One ((Token.Kind.punctuation? s).getD .operator)) := by
  refine (Token.scans_operator hne hall).mono
    (fun rest hrest => hrest.breaks Token.separators_end_operators) ?_
  rintro ts ⟨t, rfl, hkind, _⟩
  exact ⟨t, rfl, hkind⟩

theorem scans_assign : Scans Separated "=" (One .assign) :=
  scans_sign (by decide) (by decide)

theorem scans_arrow : Scans Separated "->" (One .arrow) :=
  scans_sign (by decide) (by decide)

theorem scans_declaration
    {n : Nat} {name : Ident} {params : List Ident} {s : String} {body : Expr}
    (hname : IsDeclarableName name.name) (hparams : forall q, q ∈ params -> IsDeclarableName q.name)
    (hbody : Scans Separated s (Gives n body)) :
    Scans Separated (header name params ++ s)
      (GivesDecl n ⟨name.erased, params.map Ident.erased, body⟩) := by
  have hassign : Scans Anything " = " (One .assign) := scans_assign.beforeBlank.afterBlank
  have hnames := scans_names (List.forall_mem_cons.mpr ⟨hname, hparams⟩)
  refine ((hnames.append hassign fun rest _ => Token.separated_blank "= " rest).andThen
    hbody).imp ?_
  rintro ts ⟨_, bs, rfl, ⟨ns, _, rfl, ⟨is, his, hnames⟩, eq, rfl, heq⟩, body', hbody', rfl⟩
  cases his with
  | nil => cases hnames
  | @cons t i ps is' hi his' =>
      rcases List.cons.inj hnames with ⟨hi', hparams'⟩
      refine ⟨⟨i, is', body'⟩, ?_, ?_⟩
      · rw [List.append_assoc]
        exact .intro hi his' heq hbody'
      · rw [Decl.erased, hi', hparams']

/-!
## References and operators
-/

theorem operands_reference
    {n : Nat} {t : Token} {s : String} (hkind : t.kind = .name)
    (hlexeme : t.lexeme = Text.ofString s) : Operands n (.ident ⟨.absent, s⟩) [t] := by
  have h := operands_of_unsigned (n := n) (.name hkind) hkind (by simp)
  rw [spelling_eq hlexeme] at h
  exact h

theorem scans_operatorName {s : String} (h : IsOperatorName s) :
    Scans Separated s fun ts =>
      exists t, ts = [t] ∧ t.kind = .operator ∧ t.lexeme = Text.ofString s := by
  refine (Token.scans_operator h.1 h.2.1).mono
    (fun rest hrest => hrest.breaks Token.separators_end_operators) ?_
  rw [punctuation_of_isOperatorName h]
  exact fun ts hts => hts

theorem scans_reference {s : String} (h : writableNames.reference s) (n : Nat) :
    Scans Separated (reference s) (Operands n (.ident ⟨.absent, s⟩)) := by
  unfold reference
  rcases h with hname | hglobal | hoperator
  · rw [isWord_of_isAsciiWord hname.1]
    refine (scans_name hname.1.isWord hname.2).imp ?_
    rintro ts ⟨t, rfl, hkind, hlexeme⟩
    exact operands_reference hkind hlexeme
  · rw [isWord_of_isQuotableName hglobal.isQuotableName]
    rcases hglobal with ⟨cs, hs, hcs⟩
    refine (Token.scans_global hs hcs.isWord).mono
      (fun rest hrest => hrest.breaks Token.separators_end_words) ?_
    rintro ts ⟨t, rfl, hkind, hlexeme⟩
    exact operands_reference hkind hlexeme
  · rw [not_isWord_of_isOperatorName hoperator]
    refine (scans_openParen.bracketed (scans_operatorName hoperator) scans_closeParen
      fun rest => Token.separated_cons (by decide)).mono (fun _ _ => trivial) ?_
    rintro ts ⟨t, _, close, rfl, ht, ⟨op, rfl, hop, hlexeme⟩, hclose⟩
    have h := operands_of_unsigned (n := n) (.reference ht hop hclose) ht (by simp)
    rw [spelling_eq hlexeme] at h
    exact h

def JoinsAlways (op : Operator) (js : List Token) : Prop :=
  exists op', op'.erased = op.erased ∧ forall us, Joins js op' us

theorem scans_operator {i : Ident} (h : writableNames.operator i.name) :
    Scans Anything (operator (.named i)) (JoinsAlways (.named i)) := by
  rw [operator]
  rcases h with hquotable | hoperator
  · have htext : " `" ++ i.name ++ "` " = " " ++ (("`" ++ i.name ++ "`") ++ " ") := by
      rw [show " `" = " " ++ "`" from rfl, show "` " = "`" ++ " " from rfl]
      simp only [String.append_assoc]
    rw [isWord_of_isQuotableName hquotable, if_pos rfl, htext]
    refine ((Token.scans_quotedName hquotable.scannable).mono (fun _ _ => trivial)
      fun ts hts => ?_).beforeBlank.afterBlank
    rcases hts with ⟨t, rfl, hkind⟩
    exact ⟨.named ⟨t, i.name⟩, rfl, fun us => .quotedName hkind⟩
  · rw [not_isWord_of_isOperatorName hoperator, if_neg Bool.false_ne_true, String.append_assoc]
    refine ((scans_operatorName hoperator).imp fun ts hts => ?_).beforeBlank.afterBlank
    rcases hts with ⟨t, rfl, hkind, hlexeme⟩
    refine ⟨.named ⟨t, t.spelling⟩, ?_, fun us => .operator hkind⟩
    rw [spelling_eq hlexeme]
    rfl

theorem separated_operator (op : Operator) (rest : Text) :
    Separated (Text.ofString (operator op) ++ rest) := by
  cases op with
  | apply => exact Token.separated_blank "" rest
  | named i =>
      rw [operator]
      split
      · rw [show " `" = " " ++ "`" from rfl, String.append_assoc, String.append_assoc]
        exact Token.separated_blank _ rest
      · rw [String.append_assoc]
        exact Token.separated_blank _ rest

/-- Two operands and the operator between them.  Side by side, a sign on the right would be an
operator. -/
theorem scans_binary
    {n : Nat} {l r : String} {left right : Expr} {op : Operator} (t : Token)
    (hleft : Scans Separated l (Operands n left)) (hop : op.Named writableNames)
    (hright : Scans Separated r (Operands n right))
    (hsign : op = .apply -> isNegativeNumber right.chain.first = false) :
    Scans Separated (l ++ operator op ++ r) (Operands n (.binary t left op.erased right)) := by
  cases op with
  | apply =>
      have hspaced : Scans Anything (l ++ operator .apply) (Operands n left) := hleft.beforeBlank
      refine (hspaced.andThen hright).imp ?_
      rintro ts ⟨ts, us, rfl, hts, hus⟩
      have hjoins : Joins [] .apply us := by
        cases us with
        | nil =>
            rcases hus.chained with ⟨c, hc, _⟩
            exact absurd rfl hc.ne_nil
        | cons u us =>
            refine .sideBySide fun hkind => ?_
            have hnegative := hus.sign u rfl hkind
            rw [hsign rfl] at hnegative
            cases hnegative
      have h := operands_of_joins t hts hjoins hus
      rw [List.append_nil] at h
      exact h
  | named i =>
      refine ((hleft.append (scans_operator hop) fun rest _ =>
        separated_operator (.named i) rest).andThen hright).imp ?_
      rintro ts ⟨_, us, rfl, ⟨ts, js, rfl, hts, op', hop', hjoins⟩, hus⟩
      rw [← hop']
      exact operands_of_joins t hts (hjoins us) hus

/-!
## Open forms
-/

theorem scans_let
    {n : Nat} {s s' : String} {d : Decl} {body : Expr} (hd : Scans Separated s (GivesDecl n d))
    (hbody : Scans Separated s' (Gives n body)) :
    Scans Separated ("let " ++ s ++ " in " ++ s')
      (Gives (n + 1) (.letIn .absent d.name d.params d.body body)) := by
  have hlet : Scans Anything "let " (One .keyLet) :=
    (Token.scans_keyword (s := "let") (by decide)).beforeBlank
  have hin : Scans Anything " in " (One .keyIn) :=
    (Token.scans_keyword (s := "in") (by decide)).beforeBlank.afterBlank
  refine (((hlet.andThen hd).append hin fun rest _ => Token.separated_blank "in " rest).andThen
    hbody).imp ?_
  rintro ts ⟨_, bs, rfl, ⟨_, _, rfl, ⟨_, ds, rfl, ⟨t, rfl, ht⟩, d', hd', rfl⟩, key, rfl, hkey⟩,
    body', hbody', rfl⟩
  refine ⟨.letIn t d'.name d'.params d'.body body', ?_, rfl⟩
  have h : Derives (n + 1) (t :: ds ++ key :: bs) _ := Form.letIn ht hd' hkey hbody'
  rw [List.append_assoc, List.singleton_append]
  exact h

theorem scans_cond
    {n : Nat} {s₁ s₂ s₃ : String} {test yes no : Expr}
    (htest : Scans Separated s₁ (Gives n test)) (hyes : Scans Separated s₂ (Gives n yes))
    (hno : Scans Separated s₃ (Gives n no)) :
    Scans Separated ("if " ++ s₁ ++ " then " ++ s₂ ++ " else " ++ s₃)
      (Gives (n + 1) (.cond .absent test yes no)) := by
  have hif : Scans Anything "if " (One .keyIf) :=
    (Token.scans_keyword (s := "if") (by decide)).beforeBlank
  have hthen : Scans Anything " then " (One .keyThen) :=
    (Token.scans_keyword (s := "then") (by decide)).beforeBlank.afterBlank
  have helse : Scans Anything " else " (One .keyElse) :=
    (Token.scans_keyword (s := "else") (by decide)).beforeBlank.afterBlank
  have hfront := (hif.andThen htest).append hthen fun rest _ => Token.separated_blank "then " rest
  refine (((hfront.andThen hyes).append helse
    fun rest _ => Token.separated_blank "else " rest).andThen hno).imp ?_
  rintro ts ⟨_, ns, rfl, ⟨_, _, rfl, ⟨_, ys, rfl, ⟨_, _, rfl, ⟨_, cs, rfl, ⟨t, rfl, ht⟩,
    test', htest', rfl⟩, key₁, rfl, hkey₁⟩, yes', hyes', rfl⟩, key₂, rfl, hkey₂⟩, no', hno', rfl⟩
  refine ⟨.cond t test' yes' no', ?_, rfl⟩
  have h : Derives (n + 1) (t :: cs ++ key₁ :: ys ++ key₂ :: ns) _ :=
    Form.cond ht htest' hkey₁ hyes' hkey₂ hno'
  simpa using h

theorem scans_lambda
    {n : Nat} {params : List Ident} {s : String} {body : Expr} (hne : params ≠ [])
    (hparams : forall q, q ∈ params -> IsDeclarableName q.name) (hbody : Scans Separated s (Gives n body)) :
    Scans Separated ("\\" ++ parameters params ++ " -> " ++ s)
      (Gives (n + 1) (.lambda .absent (params.map Ident.erased) body)) := by
  have hbackslash : Scans Anything "\\" (One .backslash) :=
    Token.scans_mark .backslash (by decide)
  have harrow : Scans Anything " -> " (One .arrow) := scans_arrow.beforeBlank.afterBlank
  refine (((hbackslash.andThen (scans_parameters hne hparams)).append harrow
    fun rest _ => Token.separated_blank "-> " rest).andThen hbody).imp ?_
  rintro ts ⟨_, bs, rfl, ⟨_, _, rfl, ⟨_, ps, rfl, ⟨t, rfl, ht⟩, params', hparams', hnames⟩,
    arrow, rfl, harrow⟩, body', hbody', rfl⟩
  have hne' : params' ≠ [] := by
    rintro rfl
    exact hne (List.map_eq_nil_iff.mp hnames.symm)
  refine ⟨.lambda t params' body', ?_, by rw [Expr.erased, hnames]⟩
  have h : Derives (n + 1) (t :: ps ++ arrow :: bs) _ :=
    Form.lambda ht hparams' hne' harrow hbody'
  simpa using h

/-!
## Lists
-/

theorem scans_elements
    {n : Nat} {s s' : String} {e : Expr} {es : List Expr} (he : Scans Separated s (Gives n e))
    (hes : Scans Separated s' (GivesElements n es)) :
    Scans Separated (s ++ ", " ++ s') (GivesElements n (e :: es)) := by
  have hcomma : Scans Anything ", " (One .comma) :=
    ((Token.scans_mark .comma (by decide)).mono (fun _ _ => trivial) fun _ h => h).beforeBlank
  refine ((he.append hcomma fun rest _ => Token.separated_cons (by decide)).andThen hes).imp ?_
  rintro ts ⟨_, us, rfl, ⟨ts, _, rfl, ⟨e', he', rfl⟩, comma, rfl, hcomma⟩, es', hes', rfl⟩
  refine ⟨e' :: es', ?_, rfl⟩
  rw [List.append_assoc]
  exact .cons he' hcomma hes'

theorem scans_openBracket : Scans Anything "[" (One .openBracket) :=
  Token.scans_mark .openBracket (by decide)

theorem scans_closeBracket : Scans Anything "]" (One .closeBracket) :=
  Token.scans_mark .closeBracket (by decide)

theorem scans_emptyList (n : Nat) : Scans Anything "[]" (Operands n (.list .absent [])) := by
  refine (scans_openBracket.andThen scans_closeBracket).imp ?_
  rintro ts ⟨_, _, rfl, ⟨t, rfl, ht⟩, close, rfl, hclose⟩
  exact operands_of_unsigned (.emptyList ht hclose) ht (by simp)

theorem scans_list
    {n : Nat} {s : String} {es : List Expr} (h : Scans Separated s (GivesElements n es)) :
    Scans Anything ("[" ++ s ++ "]") (Operands n (.list .absent es)) := by
  refine (scans_openBracket.bracketed h scans_closeBracket
    fun rest => Token.separated_cons (by decide)).imp ?_
  rintro ts ⟨t, us, close, rfl, ht, ⟨es', hes', rfl⟩, hclose⟩
  exact operands_of_unsigned (.list ht hes' hclose) ht (by simp)

/-!
## Numbers
-/

theorem scans_number {v : Number} (h : v.isFinite = true) (n : Nat) :
    Scans Separated v.text (Operands n (.number .absent v)) := by
  refine (Token.scans_number h).imp ?_
  intro ts hts
  cases hts with
  | plain hkind => exact operands_of_unsigned (.number hkind) hkind (by simp)
  | negative hnegative hsign hlexeme hkind hvalue hposition =>
      have hatom : Atom (Derives n) _ _ := .negative hsign hlexeme hkind hposition
      rw [hvalue] at hatom
      exact operands_of_atom hatom fun _ _ _ => hnegative

theorem scans_literal
    {s : String} {kind : Token.Kind} {e : Expr} (n : Nat) (h : Scans Separated s (One kind))
    (hkind : kind ≠ .operator)
    (hatom : forall t, t.kind = kind -> exists e', Atom (Derives n) [t] e' ∧ e'.erased = e) :
    Scans Separated s (Operands n e) := by
  refine h.imp ?_
  rintro ts ⟨t, rfl, ht⟩
  rcases hatom t ht with ⟨e', he', rfl⟩
  exact operands_of_unsigned he' ht hkind

/-!
## The whole expression
-/

/-- The text of the expression is read as what was written, as an operand and as a whole. -/
structure Printed (style : Style) (e : Expr) : Prop where
  operand : forall level onRight n, level ≤ Operator.maxLevel ->
    nesting style level onRight e ≤ n ->
    Scans Separated (expr style level onRight e) (Operands n (written style level onRight e))
  whole : forall n, nesting style topLevel false e < n ->
    Scans Separated (print style e) (Gives n (written style topLevel false e))

theorem not_topLevel_le : ¬ topLevel ≤ Operator.maxLevel :=
  Nat.not_succ_le_self Operator.maxLevel

theorem scans_gives
    {s : String} {e : Expr} {k : Nat} (hordered : e.Ordered) (hleftmost : e.Leftmost)
    (h : forall n, k ≤ n -> Scans Separated s (Operands n e)) {n : Nat} (hn : k < n) :
    Scans Separated s (Gives n e) := by
  cases n with
  | zero => exact absurd hn (Nat.not_lt_zero k)
  | succ n =>
      exact (h n (Nat.le_of_lt_succ hn)).imp fun ts hts =>
        gives_of_operands hordered hleftmost hts

theorem scans_parenthesised
    {s : String} {e : Expr} {k : Nat} (hordered : e.Ordered) (hleftmost : e.Leftmost)
    (h : forall n, k ≤ n -> Scans Separated s (Operands n e)) (needed : Bool) {n : Nat}
    (hn : deeper needed k ≤ n) :
    Scans Separated (parenthesised needed s) (Operands n (enclosed needed e)) := by
  cases needed with
  | true =>
      exact (scans_enclosed (scans_gives hordered hleftmost h hn)).mono (fun _ _ => trivial)
        fun _ hts => hts
  | false => exact h n hn

theorem printed_of_atom
    {style : Style} {e : Expr} {s : String} {w : Expr} {k : Nat}
    (hexpr : forall level onRight, expr style level onRight e = s)
    (hwritten : forall level onRight, written style level onRight e = w)
    (hnesting : forall level onRight, nesting style level onRight e = k)
    (h : forall n, k ≤ n -> Scans Separated s (Operands n w)) : Printed style e where
  operand level onRight n _ hn := by
    rw [hexpr, hwritten]
    rw [hnesting] at hn
    exact h n hn
  whole n hn := by
    rw [hnesting] at hn
    refine scans_gives (ordered_written style topLevel false e)
      (leftmost_written style topLevel false e) (fun m hm => ?_) hn
    rw [print, hexpr, hwritten]
    exact h m hm

theorem printed_of_open
    {style : Style} {e : Expr} {s : String} {w : Expr} {k : Nat}
    (hexpr : forall level onRight,
      expr style level onRight e = parenthesised (level ≤ Operator.maxLevel) s)
    (hwritten : forall level onRight,
      written style level onRight e = enclosed (level ≤ Operator.maxLevel) w)
    (hnesting : forall level onRight,
      nesting style level onRight e = deeper (level ≤ Operator.maxLevel) k)
    (h : forall n, k < n -> Scans Separated s (Gives n w)) : Printed style e where
  operand level onRight n hlevel hn := by
    rw [hnesting, decide_eq_true hlevel] at hn
    rw [hexpr, hwritten, decide_eq_true hlevel]
    exact (scans_enclosed (h n hn)).mono (fun _ _ => trivial) fun _ hts => hts
  whole n hn := by
    rw [hnesting, decide_eq_false not_topLevel_le] at hn
    rw [print, hexpr, hwritten, decide_eq_false not_topLevel_le]
    exact h n hn

theorem isNegativeNumber_written (style : Style) (e : Expr) :
    isNegativeNumber (written style Operator.apply.level true e).chain.first =
      isNegativeNumber e := by
  cases e with
  | binary t left op right =>
      have hneeded : isEnclosed style Operator.apply.level true op = true := by
        have hlevel : Operator.apply.level ≤ op.level := op.level_pos
        rcases Nat.lt_or_eq_of_le hlevel with hlt | heq
        · rw [isEnclosed, decide_eq_true hlt, Bool.or_true, Bool.true_or]
        · rw [isEnclosed, decide_eq_true heq, Bool.and_true, Bool.or_true]
      rw [written, hneeded]
      rfl
  | _ => rfl

theorem printed_binary
    {style : Style} {left right : Expr} {op : Operator} (t : Token) (hleft : Printed style left)
    (hop : op.Named writableNames) (hright : Printed style right)
    (hsign : op = .apply -> isNegativeNumber right = false) :
    Printed style (.binary t left op right) := by
  have hjoined : forall n, max (nesting style op.level false left)
      (nesting style op.level true right) ≤ n ->
      Scans Separated
        (expr style op.level false left ++ operator op ++ expr style op.level true right)
        (Operands n (.binary .absent (written style op.level false left) op.erased
          (written style op.level true right))) := by
    intro n hn
    rw [Nat.max_le] at hn
    refine scans_binary _ (hleft.operand _ _ n op.level_le hn.1) hop
      (hright.operand _ _ n op.level_le hn.2) ?_
    rintro rfl
    rw [isNegativeNumber_written, hsign rfl]
  have hoperands : forall level onRight n, nesting style level onRight (.binary t left op right) ≤ n ->
      Scans Separated (expr style level onRight (.binary t left op right))
        (Operands n (written style level onRight (.binary t left op right))) := by
    intro level onRight n hn
    rw [nesting] at hn
    rw [expr, written]
    exact scans_parenthesised (ordered_joined style op (ordered_written _ _ _ _) (ordered_written _ _ _ _))
      ⟨(token_written style _ _ left).symm, leftmost_written _ _ _ _, leftmost_written _ _ _ _⟩
      hjoined _ hn
  exact ⟨fun level onRight n _ => hoperands level onRight n,
    fun n hn => scans_gives (ordered_written _ _ _ _) (leftmost_written _ _ _ _)
      (hoperands topLevel false) hn⟩

theorem scans_printedElements
    {style : Style} {e : Expr} {es : List Expr} (h : forall e', e' ∈ e :: es -> Printed style e')
    {n : Nat} (hn : nestingOfAll style (e :: es) ≤ n) :
    Scans Separated (elements style (e :: es)) (GivesElements n (allWritten style (e :: es))) := by
  induction es generalizing e with
  | nil =>
      rw [nestingOfAll, Nat.max_le] at hn
      refine ((h e List.mem_cons_self).whole n hn.1).imp ?_
      rintro ts ⟨e', he', hwritten⟩
      exact ⟨[e'], .last he', congrArg (fun w => [w]) hwritten⟩
  | cons e' es ih =>
      rw [nestingOfAll, Nat.max_le] at hn
      rw [List.forall_mem_cons] at h
      exact scans_elements (h.1.whole n hn.1) (ih h.2 hn.2)

mutual

theorem printed (style : Style) :
    (e : Expr) -> e.Named writableNames -> Writable e -> Printed style e
  | .hole, _, h => h.elim
  | .ident i, h, _ =>
      printed_of_atom (k := 0) (fun _ _ => rfl) (fun _ _ => rfl) (fun _ _ => rfl)
        fun n _ => scans_reference h n
  | .number _ v, _, h =>
      printed_of_atom (k := 0) (fun _ _ => rfl) (fun _ _ => rfl) (fun _ _ => rfl)
        fun n _ => scans_number h n
  | .string _ v, _, h =>
      printed_of_atom (k := 0) (fun _ _ => rfl) (fun _ _ => rfl) (fun _ _ => rfl)
        fun n _ => scans_literal n ((Token.scans_string h).mono (fun _ _ => trivial) fun _ h => h)
          (by simp) fun t ht => ⟨_, .string ht, rfl⟩
  | .bool _ true, _, _ =>
      printed_of_atom (k := 0) (fun _ _ => rfl) (fun _ _ => rfl) (fun _ _ => rfl)
        fun n _ => scans_literal n (Token.scans_keyword (s := "true") (by decide)) (by simp)
          fun t ht => ⟨_, .true ht, rfl⟩
  | .bool _ false, _, _ =>
      printed_of_atom (k := 0) (fun _ _ => rfl) (fun _ _ => rfl) (fun _ _ => rfl)
        fun n _ => scans_literal n (Token.scans_keyword (s := "false") (by decide)) (by simp)
          fun t ht => ⟨_, .false ht, rfl⟩
  | .null _, _, _ =>
      printed_of_atom (k := 0) (fun _ _ => rfl) (fun _ _ => rfl) (fun _ _ => rfl)
        fun n _ => scans_literal n (Token.scans_keyword (s := "null") (by decide)) (by simp)
          fun t ht => ⟨_, .null ht, rfl⟩
  | .group _ e, hnamed, h =>
      printed_of_atom (fun _ _ => rfl) (fun _ _ => rfl) (fun _ _ => rfl)
        fun n hn => (scans_enclosed ((printed style e hnamed h).whole n hn)).mono
          (fun _ _ => trivial) fun _ hts => hts
  | .list _ [], _, _ =>
      printed_of_atom (k := 0) (fun _ _ => rfl) (fun _ _ => rfl) (fun _ _ => rfl)
        fun n _ => (scans_emptyList n).mono (fun _ _ => trivial) fun _ hts => hts
  | .list _ (e :: es), hnamed, h =>
      printed_of_atom (fun _ _ => rfl) (fun _ _ => rfl) (fun _ _ => rfl)
        fun n hn => (scans_list (scans_printedElements (allPrinted style (e :: es) hnamed h)
          hn)).mono (fun _ _ => trivial) fun _ hts => hts
  | .letIn _ name params value body, hnamed, h => by
      refine printed_of_open (fun _ _ => rfl) (fun _ _ => rfl) (fun _ _ => rfl) fun n hn => ?_
      cases n with
      | zero => exact absurd hn (Nat.not_lt_zero _)
      | succ n =>
          have hn := Nat.max_lt.mp (Nat.lt_of_succ_lt_succ hn)
          have htext : "let " ++ header name params ++ expr style topLevel false value =
              "let " ++ (header name params ++ expr style topLevel false value) :=
            String.append_assoc
          rw [htext]
          exact scans_let
            (scans_declaration hnamed.1 hnamed.2.1
              ((printed style value hnamed.2.2.1 h.1).whole n hn.1))
            ((printed style body hnamed.2.2.2 h.2).whole n hn.2)
  | .cond _ test yes no, hnamed, h => by
      refine printed_of_open (fun _ _ => rfl) (fun _ _ => rfl) (fun _ _ => rfl) fun n hn => ?_
      cases n with
      | zero => exact absurd hn (Nat.not_lt_zero _)
      | succ n =>
          have hn := Nat.max_lt.mp (Nat.lt_of_succ_lt_succ hn)
          have hbranches := Nat.max_lt.mp hn.2
          exact scans_cond ((printed style test hnamed.1 h.1).whole n hn.1)
            ((printed style yes hnamed.2.1 h.2.1).whole n hbranches.1)
            ((printed style no hnamed.2.2 h.2.2).whole n hbranches.2)
  | .lambda _ params body, hnamed, h => by
      refine printed_of_open (fun _ _ => rfl) (fun _ _ => rfl) (fun _ _ => rfl) fun n hn => ?_
      cases n with
      | zero => exact absurd hn (Nat.not_lt_zero _)
      | succ n =>
          exact scans_lambda h.1 hnamed.1
            ((printed style body hnamed.2 h.2).whole n (Nat.lt_of_succ_lt_succ hn))
  | .binary t left op right, hnamed, h =>
      printed_binary t (printed style left hnamed.1 h.1) hnamed.2.1
        (printed style right hnamed.2.2 h.2.1) h.2.2

theorem allPrinted (style : Style) :
    (es : List Expr) -> Expr.AllNamed writableNames es -> AllWritable es ->
    forall e, e ∈ es -> Printed style e
  | [], _, _ => fun _ he => absurd he List.not_mem_nil
  | e :: es, hnamed, h =>
      List.forall_mem_cons.mpr
        ⟨printed style e hnamed.1 h.1, allPrinted style es hnamed.2 h.2⟩

end

end Source

end DefTable
