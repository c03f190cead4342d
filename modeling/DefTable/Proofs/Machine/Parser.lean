import DefTable.Proofs.Machine.Precedence
import DefTable.Program.Parse

/-!
# A parser with two tokens in hand

The parser looks at the current token and at the next one, and moves through the array of tokens.
Every function starts with the current token on the first token of a construct and ends with it on
the last one.  A function that finds a fault reports it and gives back nothing: no declaration, or
the missing expression.  Its callers have to look for that before they build a node, and a broken
declaration is left by going on to the next semicolon.
-/

namespace DefTable
namespace Machine

open Parse (Fault)
open Token (Kind)

structure Parser where
  tokens : List Token
  following : Nat
  current : Token
  next : Token
  depth : Nat
  faults : List Fault

abbrev Parsing := Action Parser

/-- The token at an index; all tokens behind the last one are end marks. -/
def tokenAt (tokens : List Token) (i : Nat) : Token :=
  tokens[i]?.getD (Parse.impliedEnd tokens)

/-!
## Tokens
-/

def shift : Parsing Unit :=
  modify fun p =>
    { p with current := p.next, next := tokenAt p.tokens p.following, following := p.following + 1 }

def report (f : Fault) : Parsing Unit :=
  modify fun p => { p with faults := p.faults ++ [f] }

def expectNext (kind : Kind) : Parsing Bool := do
  let p ← get
  if p.next.kind = kind then
    shift
    return true
  else
    report (.expected (.token kind) p.next)
    return false

def closeWith (kind : Kind) (bracket : Token) : Parsing Bool := do
  let p ← get
  if p.next.kind = kind then
    shift
    return true
  else if p.next.kind = .endOfInput then
    report (.unclosed bracket)
    return false
  else
    report (.expected (.token kind) p.next)
    return false

/-!
## Names
-/

def parseBinding : Parsing (Option Ident) := do
  let p ← get
  if p.current.kind ≠ .name then
    report (.expected .name p.current)
    return none
  else if p.current.lexeme.head? = some (.char '@') then
    report (.globalName p.current)
    return none
  else
    return some ⟨p.current, p.current.spelling⟩

def parseParams (params : List Ident) : Parsing (Option (List Ident)) :=
  letI parseParams : List Ident -> Parsing (Option (List Ident)) := by apply parseParams
  do
    let p ← get
    if p.next.kind = .name then
      shift
      match ← parseBinding with
      | none => return none
      | some i => parseParams (params ++ [i])
    else
      return some params
partial_fixpoint

/-!
## Expressions
-/

/-- A number right after its sign; without one the missing expression, and nothing is reported. -/
def parseSignedNumber : Parsing Expr := do
  let p ← get
  match Parse.signed? p.current p.next with
  | some e =>
      shift
      return e
  | none => return .hole

mutual

def parseExpression : Parsing Expr :=
  letI parseBounded : Parsing Expr := by apply parseBounded
  do
    modify fun p => { p with depth := p.depth + 1 }
    let e ← parseBounded
    modify fun p => { p with depth := p.depth - 1 }
    return e
partial_fixpoint

def parseBounded : Parsing Expr :=
  letI parseLet : Parsing Expr := by apply parseLet
  letI parseIf : Parsing Expr := by apply parseIf
  letI parseLambda : Parsing Expr := by apply parseLambda
  letI parseChain : Parsing Expr := by apply parseChain
  do
    let p ← get
    if p.depth > Parse.maxDepth then
      report (.tooDeep p.current)
      return .hole
    else
      match p.current.kind with
      | .keyLet => parseLet
      | .keyIf => parseIf
      | .backslash => parseLambda
      | _ => parseChain
partial_fixpoint

def parseDecl : Parsing (Option Decl) :=
  letI parseExpression : Parsing Expr := by apply parseExpression
  do
    match ← parseBinding with
    | none => return none
    | some name =>
        match ← parseParams [] with
        | none => return none
        | some params =>
            if ← expectNext .assign then
              shift
              let body ← parseExpression
              if body.isHole then return none
              else return some ⟨name, params, body⟩
            else return none
partial_fixpoint

def parseLet : Parsing Expr :=
  letI parseExpression : Parsing Expr := by apply parseExpression
  letI parseDecl : Parsing (Option Decl) := by apply parseDecl
  do
    let p ← get
    shift
    match ← parseDecl with
    | none => return .hole
    | some d =>
        if ← expectNext .keyIn then
          shift
          let body ← parseExpression
          if body.isHole then return .hole
          else return .letIn p.current d.name d.params d.body body
        else return .hole
partial_fixpoint

def parseIf : Parsing Expr :=
  letI parseExpression : Parsing Expr := by apply parseExpression
  do
    let p ← get
    shift
    let test ← parseExpression
    if test.isHole then return .hole
    else if ← expectNext .keyThen then
      shift
      let yes ← parseExpression
      if yes.isHole then return .hole
      else if ← expectNext .keyElse then
        shift
        let no ← parseExpression
        if no.isHole then return .hole
        else return .cond p.current test yes no
      else return .hole
    else return .hole
partial_fixpoint

def parseLambda : Parsing Expr :=
  letI parseExpression : Parsing Expr := by apply parseExpression
  do
    let p ← get
    match ← parseParams [] with
    | none => return .hole
    | some params =>
        if params.isEmpty then
          let q ← get
          report (.noParameter q.next)
          return .hole
        else if ← expectNext .arrow then
          shift
          let body ← parseExpression
          if body.isHole then return .hole
          else return .lambda p.current params body
        else return .hole
partial_fixpoint

def parseChain : Parsing Expr :=
  letI parseMore : Expr -> Parsing Expr := by apply parseMore
  letI parseOperand : Parsing Expr := by apply parseOperand
  do
    let first ← parseOperand
    if first.isHole then return .hole
    else parseMore first
partial_fixpoint

def parseMore (chain : Expr) : Parsing Expr :=
  letI parseJoined : Expr -> Operator -> Parsing Expr := by apply parseJoined
  do
    let p ← get
    match Parse.operatorOf? p.next with
    | some op =>
        shift
        shift
        parseJoined chain op
    | none =>
        if Parse.startsOperand p.next then
          shift
          parseJoined chain .apply
        else
          fixPrecedence chain
partial_fixpoint

def parseJoined (chain : Expr) (op : Operator) : Parsing Expr :=
  letI parseMore : Expr -> Parsing Expr := by apply parseMore
  letI parseOperand : Parsing Expr := by apply parseOperand
  do
    let right ← parseOperand
    if right.isHole then return .hole
    else parseMore (.binary chain.token chain op right)
partial_fixpoint

def parseOperand : Parsing Expr :=
  letI parseExpression : Parsing Expr := by apply parseExpression
  letI parseAtom : Parsing Expr := by apply parseAtom
  do
    let p ← get
    if Parse.opensForm p.current then parseExpression else parseAtom
partial_fixpoint

def parseAtom : Parsing Expr :=
  letI parseGroup : Parsing Expr := by apply parseGroup
  letI parseList : Parsing Expr := by apply parseList
  do
    let p ← get
    let t := p.current
    match t.kind with
    | .name => return .ident ⟨t, t.spelling⟩
    | .number v => return .number t v
    | .string v => return .string t v
    | .keyTrue => return .bool t true
    | .keyFalse => return .bool t false
    | .keyNull => return .null t
    | .openParen => parseGroup
    | .openBracket => parseList
    | .operator =>
        let e ← parseSignedNumber
        if e.isHole then
          report (.expected .expression t)
          return .hole
        else return e
    | .illegal fault =>
        report (.illegal t fault)
        return .hole
    | _ =>
        report (.expected .expression t)
        return .hole
partial_fixpoint

def parseGroup : Parsing Expr :=
  letI parseExpression : Parsing Expr := by apply parseExpression
  do
    let p ← get
    if p.next.kind = .operator ∧ (tokenAt p.tokens p.following).kind = .closeParen then
      shift
      let q ← get
      shift
      return .ident ⟨q.current, q.current.spelling⟩
    else
      shift
      let inner ← parseExpression
      if inner.isHole then return .hole
      else if ← closeWith .closeParen p.current then return .group p.current inner
      else return .hole
partial_fixpoint

def parseList : Parsing Expr :=
  letI parseElements : Token -> List Expr -> Parsing Expr := by apply parseElements
  do
    let p ← get
    if p.next.kind = .closeBracket then
      shift
      return .list p.current []
    else
      shift
      parseElements p.current []
partial_fixpoint

def parseElements (bracket : Token) (elements : List Expr) : Parsing Expr :=
  letI parseExpression : Parsing Expr := by apply parseExpression
  letI parseElements : Token -> List Expr -> Parsing Expr := by apply parseElements
  do
    let e ← parseExpression
    if e.isHole then return .hole
    else
      let p ← get
      if p.next.kind = .comma then
        shift
        shift
        parseElements bracket (elements ++ [e])
      else if ← closeWith .closeBracket bracket then return .list bracket (elements ++ [e])
      else return .hole
partial_fixpoint

end

/-!
## Programs
-/

def skipToStop : Parsing Unit :=
  letI skipToStop : Parsing Unit := by apply skipToStop
  do
    let p ← get
    if p.current.kind ≠ .semicolon ∧ p.current.kind ≠ .endOfInput then
      shift
      skipToStop
    else
      return ()
partial_fixpoint

def synchronize : Parsing Unit := do
  skipToStop
  let p ← get
  if p.current.kind = .semicolon then shift else return ()

def parseTerminated : Parsing (Option Decl) := do
  match ← parseDecl with
  | none => return none
  | some d =>
      if ← expectNext .semicolon then return some d
      else return none

def parseDeclarations (decls : List Decl) : Parsing (List Decl) :=
  letI parseDeclarations : List Decl -> Parsing (List Decl) := by apply parseDeclarations
  do
    let p ← get
    if p.current.kind = .endOfInput then
      return decls
    else
      match ← parseTerminated with
      | some d =>
          shift
          parseDeclarations (decls ++ [d])
      | none =>
          synchronize
          parseDeclarations decls
partial_fixpoint

def Parser.start (tokens : List Token) : Parser :=
  ⟨tokens, 0, .absent, .absent, 0, []⟩

def parseProgram (tokens : List Token) : Run (List Decl × List Fault) := do
  let (decls, p) ← (do shift; shift; parseDeclarations [] : Parsing (List Decl)).run (.start tokens)
  return (decls, p.faults)

end Machine
end DefTable
