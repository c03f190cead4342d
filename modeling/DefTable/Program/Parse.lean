import DefTable.Expr.Precedence
import DefTable.Parsed
import DefTable.Program.Fault

/-!
# From tokens to a program

The tokens are cut at the semicolons, and each piece is read as one declaration on its own: a fault
in one piece does not reach the next.  Reading a piece knows its tokens and the token that `stop`s
it, which is a semicolon or the end of the input.  Every reader returns the tokens it left, with a
proof that they are fewer, and the depth budget bounds how far expressions nest.
-/

namespace DefTable
namespace Parse

/-- Reads a value from the front of a list of tokens. -/
abbrev Reader (α : Type) := (ts : List Token) → Except Fault (Parsed α ts)

def maxDepth : Nat := 1000

def next (stop : Token) (ts : List Token) : Token :=
  ts.headD stop

def expect (stop : Token) (kind : Token.Kind) : Reader Token
  | [] => .error (.expected (.token kind) stop)
  | t :: rest =>
    if t.kind = kind then .ok ⟨t, rest, by simp⟩ else .error (.expected (.token kind) t)

/-! ## Names -/

def binding (t : Token) : Except Fault Ident :=
  if t.kind ≠ .name then .error (.expected .name t)
  else if t.lexeme.head? = some (.char '@') then .error (.globalName t)
  else .ok ⟨t, t.spelling⟩

/-- Parameters: all names that follow. -/
def params : (ts : List Token) →
    Except Fault (List Ident × { rest : List Token // rest.length ≤ ts.length })
  | [] => .ok ([], ⟨[], by simp⟩)
  | t :: rest =>
    if t.kind = .name then do
      let p ← binding t
      let (ps, more) ← params rest
      return (p :: ps, ⟨more.1, by have hmore := more.2; simp only [List.length_cons]; omega⟩)
    else
      .ok ([], ⟨t :: rest, by simp⟩)

/-! ## Forms around an expression

Each form gets the reader of the expressions inside it.
-/

def decl (stop : Token) (expr : Reader Expr) : Reader Decl
  | [] => .error (.expected .name stop)
  | t :: rest => do
    let name ← binding t
    let (ps, rest₁) ← params rest
    let eq ← expect stop .assign rest₁.1
    let body ← expr eq.rest
    return ⟨⟨name, ps, body.value⟩, body.rest, by
      have h₁ := rest₁.2; have h₂ := eq.shorter; have h₃ := body.shorter
      simp only [List.length_cons]; omega⟩

def letForm (stop : Token) (expr : Reader Expr) (t : Token) : Reader Expr := fun ts => do
  let d ← decl stop expr ts
  let key ← expect stop .keyIn d.rest
  let body ← expr key.rest
  return ⟨.letIn t d.value.name d.value.params d.value.body body.value, body.rest, by
    have h₁ := d.shorter; have h₂ := key.shorter; have h₃ := body.shorter; omega⟩

def condForm (stop : Token) (expr : Reader Expr) (t : Token) : Reader Expr := fun ts => do
  let test ← expr ts
  let key₁ ← expect stop .keyThen test.rest
  let yes ← expr key₁.rest
  let key₂ ← expect stop .keyElse yes.rest
  let no ← expr key₂.rest
  return ⟨.cond t test.value yes.value no.value, no.rest, by
    have h₁ := test.shorter; have h₂ := key₁.shorter; have h₃ := yes.shorter
    have h₄ := key₂.shorter; have h₅ := no.shorter; omega⟩

def lambdaForm (stop : Token) (expr : Reader Expr) (t : Token) : Reader Expr := fun ts => do
  let (ps, rest) ← params ts
  if ps.isEmpty then
    .error (.noParameter (next stop rest.1))
  else
    let key ← expect stop .arrow rest.1
    let body ← expr key.rest
    return ⟨.lambda t ps body.value, body.rest, by
      have h₁ := rest.2; have h₂ := key.shorter; have h₃ := body.shorter; omega⟩

def close (stop : Token) (kind : Token.Kind) (bracket : Token) : Reader Token
  | [] =>
    if stop.kind = .endOfInput then .error (.unclosed bracket)
    else .error (.expected (.token kind) stop)
  | ts => expect stop kind ts

def operatorReference? : (ts : List Token) → Option (Parsed Expr ts)
  | op :: t :: rest =>
    if op.kind = .operator ∧ t.kind = .closeParen then
      some ⟨.ident ⟨op, op.spelling⟩, rest, by simp only [List.length_cons]; omega⟩
    else none
  | _ => none

def groupForm (stop : Token) (expr : Reader Expr) (t : Token) : Reader Expr := fun ts =>
  match operatorReference? ts with
  | some e => .ok e
  | none => do
    let inner ← expr ts
    let key ← close stop .closeParen t inner.rest
    return ⟨.group t inner.value, key.rest, by
      have h₁ := inner.shorter; have h₂ := key.shorter; omega⟩

def elements (expr : Reader Expr) (ts : List Token) : Except Fault (Parsed (List Expr) ts) := do
  let e ← expr ts
  match h : e.rest with
  | t :: rest =>
    if t.kind = .comma then
      have hshorter : rest.length + 1 < ts.length := by
        have he := e.shorter
        rw [h] at he
        simpa using he
      let es ← elements expr rest
      return ⟨e.value :: es.value, es.rest, by have hes := es.shorter; omega⟩
    else
      return ⟨[e.value], e.rest, e.shorter⟩
  | [] => return ⟨[e.value], e.rest, e.shorter⟩
termination_by ts.length
decreasing_by omega

def emptyList? (t : Token) : (ts : List Token) → Option (Parsed Expr ts)
  | [] => none
  | u :: rest => if u.kind = .closeBracket then some ⟨.list t [], rest, by simp⟩ else none

def listForm (stop : Token) (expr : Reader Expr) (t : Token) : Reader Expr := fun ts =>
  match emptyList? t ts with
  | some e => .ok e
  | none => do
    let es ← elements expr ts
    let key ← close stop .closeBracket t es.rest
    return ⟨.list t es.value, key.rest, by
      have h₁ := es.shorter; have h₂ := key.shorter; omega⟩

/-! ## Operands and chains -/

def signed? (sign t : Token) : Option Expr :=
  match t.kind with
  | .number v =>
    if (sign.lexeme = [.char '-'] ∨ sign.lexeme = [.char '+']) ∧
        t.position = ⟨sign.position.line, sign.position.column + 1⟩ then
      some (.number ⟨t.kind, sign.lexeme ++ t.lexeme, sign.position⟩
        (if sign.lexeme = [.char '-'] then -v else v))
    else none
  | _ => none

def signedNumber? (sign : Token) : (ts : List Token) → Option (Parsed Expr ts)
  | [] => none
  | t :: rest => (signed? sign t).map fun e => ⟨e, rest, by simp⟩

def atom (stop : Token) (expr : Reader Expr) : Reader Expr
  | [] => .error (.expected .expression stop)
  | t :: rest =>
    match t.kind with
    | .name => .ok ⟨.ident ⟨t, t.spelling⟩, rest, by simp⟩
    | .number v => .ok ⟨.number t v, rest, by simp⟩
    | .string v => .ok ⟨.string t v, rest, by simp⟩
    | .keyTrue => .ok ⟨.bool t true, rest, by simp⟩
    | .keyFalse => .ok ⟨.bool t false, rest, by simp⟩
    | .keyNull => .ok ⟨.null t, rest, by simp⟩
    | .openParen => (groupForm stop expr t rest).map (Parsed.lift t)
    | .openBracket => (listForm stop expr t rest).map (Parsed.lift t)
    | .operator =>
      match signedNumber? t rest with
      | some e => .ok (e.lift t)
      | none => .error (.expected .expression t)
    | .illegal fault => .error (.illegal t fault)
    | _ => .error (.expected .expression t)

def opensForm (t : Token) : Bool :=
  t.kind = .keyLet || t.kind = .keyIf || t.kind = .backslash

/-- An atom, or one of the forms that take the rest of the chain. -/
def operand (stop : Token) (expr : Reader Expr) : Reader Expr := fun ts =>
  if ts.head?.any opensForm then expr ts else atom stop expr ts

def startsOperand (t : Token) : Bool :=
  match t.kind with
  | .name | .number _ | .string _ | .keyTrue | .keyFalse | .keyNull | .openParen | .openBracket
  | .keyLet | .keyIf | .backslash | .illegal _ => true
  | _ => false

def operatorOf? (t : Token) : Option Operator :=
  match t.kind with
  | .operator => some (.named ⟨t, t.spelling⟩)
  | .quotedName name => some (.named ⟨t, name⟩)
  | _ => none

/-- The operator in front of the next operand and where that operand starts. -/
def joint? : (ts : List Token) →
    Option (Operator × { rest : List Token // rest.length ≤ ts.length })
  | [] => none
  | t :: rest =>
    match operatorOf? t with
    | some op => some (op, ⟨rest, by simp⟩)
    | none => if startsOperand t then some (.apply, ⟨t :: rest, by simp⟩) else none

def moreOperands (stop : Token) (expr : Reader Expr) (ts : List Token) :
    Except Fault (List (Operator × Expr) × { rest : List Token // rest.length ≤ ts.length }) :=
  match joint? ts with
  | none => .ok ([], ⟨ts, by simp⟩)
  | some (op, start) => do
    let e ← operand stop expr start.1
    have hshorter : e.rest.length < ts.length := by
      have h₁ := start.2; have h₂ := e.shorter; omega
    let (more, rest) ← moreOperands stop expr e.rest
    return ((op, e.value) :: more, ⟨rest.1, by have h := rest.2; omega⟩)
termination_by ts.length

def chain (stop : Token) (expr : Reader Expr) : Reader Expr := fun ts => do
  let first ← operand stop expr ts
  let (more, rest) ← moreOperands stop expr first.rest
  return ⟨Chain.resolve ⟨first.value, more⟩, rest.1, by
    have h₁ := first.shorter; have h₂ := rest.2; omega⟩

def form (stop : Token) (expr : Reader Expr) : Reader Expr := fun ts =>
  match ts with
  | [] => chain stop expr []
  | t :: rest =>
    match t.kind with
    | .keyLet => (letForm stop expr t rest).map (Parsed.lift t)
    | .keyIf => (condForm stop expr t rest).map (Parsed.lift t)
    | .backslash => (lambdaForm stop expr t rest).map (Parsed.lift t)
    | _ => chain stop expr (t :: rest)

def expr (stop : Token) : (budget : Nat) → Reader Expr
  | 0 => fun ts => .error (.tooDeep (next stop ts))
  | budget + 1 => form stop (expr stop budget)

/-! ## Programs -/

/-- The tokens between two semicolons, or after the last one, with the token that ends them. -/
structure Segment where
  tokens : List Token
  stop : Token
deriving DecidableEq, Repr

def segments (fin : Token) : List Token → List Segment
  | [] => [⟨[], fin⟩]
  | t :: rest =>
    if t.kind = .semicolon then ⟨[], t⟩ :: segments fin rest
    else match segments fin rest with
      | s :: more => { s with tokens := t :: s.tokens } :: more
      | [] => [⟨[t], fin⟩]

namespace Segment

/-- Nothing stands after the last semicolon. -/
def isBlank (s : Segment) : Bool :=
  s.tokens.isEmpty && s.stop.kind = .endOfInput

def decl (s : Segment) : Except Fault Decl := do
  let d ← Parse.decl s.stop (expr s.stop maxDepth) s.tokens
  if d.rest.isEmpty && s.stop.kind = .semicolon then
    return d.value
  else
    .error (.expected (.token .semicolon) (next s.stop d.rest))

end Segment

def impliedEnd (ts : List Token) : Token :=
  .endAt ((ts.getLast?.map Token.position).getD .nowhere)

/-- The pieces of a token list; what follows the first end mark does not count. -/
def pieces (ts : List Token) : List Segment :=
  let body := ts.takeWhile fun t => t.kind ≠ .endOfInput
  let fin := (ts.drop body.length).headD (impliedEnd ts)
  (segments fin body).filter fun s => !s.isBlank

def outcomes (ts : List Token) : List (Except Fault Decl) :=
  (pieces ts).map Segment.decl

def faults (outcomes : List (Except Fault Decl)) : List Fault :=
  outcomes.filterMap fun
    | .error f => some f
    | .ok _ => none

def decls (outcomes : List (Except Fault Decl)) : List Decl :=
  outcomes.filterMap Except.toOption

end Parse
end DefTable
