import DefTable.Program.Parse

/-!
# The grammar of programs

The grammar is stated on lists of tokens, apart from any reader: each rule says how the tokens of a
form are put together and which expression they stand for.  Expressions nest, so every rule takes
the reading of the expressions inside as a parameter, and the depth of nesting is the number of
times that the rules are applied to each other.
-/

namespace DefTable
namespace Grammar

/-- Which tokens stand for which expression. -/
abbrev Reading := List Token -> Expr -> Prop

/-!
## Names and declarations
-/

def Declarable (t : Token) (i : Ident) : Prop :=
  t.kind = .name ∧ t.lexeme.head? ≠ some (.char '@') ∧ i = ⟨t, t.spelling⟩

inductive Names : List Token -> List Ident -> Prop where
  | nil : Names [] []
  | cons {t i ts is} : Declarable t i -> Names ts is -> Names (t :: ts) (i :: is)

inductive Declares (E : Reading) : List Token -> Decl -> Prop where
  | intro {t name ps params eq bs body} :
      Declarable t name -> Names ps params -> eq.kind = .assign -> E bs body ->
      Declares E (t :: ps ++ eq :: bs) ⟨name, params, body⟩

/-!
## Atoms
-/

inductive Elements (E : Reading) : List Token -> List Expr -> Prop where
  | last {ts e} : E ts e -> Elements E ts [e]
  | cons {ts e comma rest es} :
      E ts e -> comma.kind = .comma -> Elements E rest es ->
      Elements E (ts ++ comma :: rest) (e :: es)

def Touches (sign t : Token) : Prop :=
  t.position = ⟨sign.position.line, sign.position.column + 1⟩

inductive Atom (E : Reading) : List Token -> Expr -> Prop where
  | name {t} : t.kind = .name -> Atom E [t] (.ident ⟨t, t.spelling⟩)
  | number {t v} : t.kind = .number v -> Atom E [t] (.number t v)
  | string {t v} : t.kind = .string v -> Atom E [t] (.string t v)
  | true {t} : t.kind = .keyTrue -> Atom E [t] (.bool t true)
  | false {t} : t.kind = .keyFalse -> Atom E [t] (.bool t false)
  | null {t} : t.kind = .keyNull -> Atom E [t] (.null t)
  | negative {sign t v} :
      sign.kind = .operator -> sign.lexeme = [.char '-'] -> t.kind = .number v ->
      Touches sign t ->
      Atom E [sign, t] (.number ⟨t.kind, sign.lexeme ++ t.lexeme, sign.position⟩ (-v))
  | positive {sign t v} :
      sign.kind = .operator -> sign.lexeme = [.char '+'] -> t.kind = .number v ->
      Touches sign t ->
      Atom E [sign, t] (.number ⟨t.kind, sign.lexeme ++ t.lexeme, sign.position⟩ v)
  | reference {t op close} :
      t.kind = .openParen -> op.kind = .operator -> close.kind = .closeParen ->
      Atom E [t, op, close] (.ident ⟨op, op.spelling⟩)
  | group {t ts e close} :
      t.kind = .openParen -> E ts e -> close.kind = .closeParen ->
      Atom E (t :: ts ++ [close]) (.group t e)
  | emptyList {t close} :
      t.kind = .openBracket -> close.kind = .closeBracket -> Atom E [t, close] (.list t [])
  | list {t ts es close} :
      t.kind = .openBracket -> Elements E ts es -> close.kind = .closeBracket ->
      Atom E (t :: ts ++ [close]) (.list t es)

/-!
## Chains

An open form takes everything up to the end of the chain, so it can only be the last operand.  A
sign belongs to its number at the start of a chain and after an operator; elsewhere it is an
operator, because no operand that stands side by side with another one starts with it.
-/

/-- How an operand is joined to what stands before it. -/
inductive Joins : List Token -> Operator -> List Token -> Prop where
  | operator {t ts} : t.kind = .operator -> Joins [t] (.named ⟨t, t.spelling⟩) ts
  | quotedName {t name ts} : t.kind = .quotedName name -> Joins [t] (.named ⟨t, name⟩) ts
  | sideBySide {t ts} : t.kind ≠ .operator -> Joins [] .apply (t :: ts)

def Opens (t : Token) : Prop :=
  t.kind = .keyLet ∨ t.kind = .keyIf ∨ t.kind = .backslash

inductive More (E : Reading) : List Token -> List (Operator × Expr) -> Prop where
  | nil : More E [] []
  | atom {js op ts e rest more} :
      Joins js op ts -> Atom E ts e -> More E rest more ->
      More E (js ++ ts ++ rest) ((op, e) :: more)
  | openForm {js op t ts e} :
      Joins js op (t :: ts) -> Opens t -> E (t :: ts) e ->
      More E (js ++ t :: ts) [(op, e)]

theorem More.forall_operand
    {E : Reading} {P : Expr -> Prop} (hatom : forall ts e, Atom E ts e -> P e)
    (hopen : forall t ts e, Opens t -> E (t :: ts) e -> P e) {ts : List Token}
    {more : List (Operator × Expr)} (h : More E ts more) : forall p, p ∈ more -> P p.2 := by
  induction h with
  | nil => exact fun p hp => absurd hp List.not_mem_nil
  | atom _ he _ ih => exact List.forall_mem_cons.mpr ⟨hatom _ _ he, ih⟩
  | openForm _ hopens he => exact List.forall_mem_singleton.mpr (hopen _ _ _ hopens he)

/-!
## Expressions
-/

inductive Form (E : Reading) : List Token -> Expr -> Prop where
  | letIn {t ds d key bs body} :
      t.kind = .keyLet -> Declares E ds d -> key.kind = .keyIn -> E bs body ->
      Form E (t :: ds ++ key :: bs) (.letIn t d.name d.params d.body body)
  | cond {t cs test key₁ ys yes key₂ ns no} :
      t.kind = .keyIf -> E cs test -> key₁.kind = .keyThen -> E ys yes ->
      key₂.kind = .keyElse -> E ns no ->
      Form E (t :: cs ++ key₁ :: ys ++ key₂ :: ns) (.cond t test yes no)
  | lambda {t ps params arrow bs body} :
      t.kind = .backslash -> Names ps params -> params ≠ [] -> arrow.kind = .arrow ->
      E bs body ->
      Form E (t :: ps ++ arrow :: bs) (.lambda t params body)
  | chain {ts first rest more} :
      Atom E ts first -> More E rest more ->
      Form E (ts ++ rest) (Chain.resolve ⟨first, more⟩)

/-- The tokens stand for the expression, and forms nest at most `n` deep. -/
def Derives : Nat -> Reading
  | 0 => fun _ _ => False
  | n + 1 => Form (Derives n)

/-- The declarations of a whole list of tokens, each with its semicolon. -/
inductive Declarations (n : Nat) : List Token -> List Decl -> Prop where
  | nil : Declarations n [] []
  | cons {ts d stop rest ds} :
      Declares (Derives n) ts d -> stop.kind = .semicolon -> Declarations n rest ds ->
      Declarations n (ts ++ stop :: rest) (d :: ds)

end Grammar
end DefTable
