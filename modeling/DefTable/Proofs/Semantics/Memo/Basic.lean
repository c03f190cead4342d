import DefTable.Proofs.Semantics.Value
import DefTable.Table.Basic

/-!
# Tables whose entries are evaluated once

The frames of a run are kept in a heap, where each is known by its number.  When an entry has been
evaluated, its value is kept in the frame that holds the entry, next to the arguments, and is found
there when it is asked for again.
-/

namespace DefTable
namespace Semantics
namespace Memo

/-- A function with the number of the frame around it. -/
structure Closure where
  params : List String
  body : Table
  frame : Nat

/-- A table, the values that are known of its identifiers, and the number of the frame around it. -/
structure Frame where
  table : Table
  known : List (String × Value Closure)
  outer : Option Nat

abbrev Heap := List Frame

namespace Heap

def remember (heap : Heap) (i : Nat) (id : String) (v : Value Closure) : Heap :=
  heap.modify i fun f => { f with known := (id, v) :: f.known }

/-- The frame of a function that is applied: only its arguments are known. -/
def enter (heap : Heap) (c : Closure) (args : List (Value Closure)) : Heap :=
  heap ++ [⟨c.body, c.params.zip args, some c.frame⟩]

end Heap

def cell : Cell -> Value Closure
  | .number v => .number v
  | .bool v => .bool v

/-!
## Evaluation

The heap is passed on from each call to the next one.
-/

abbrev Lookup := Heap -> Option Nat -> String -> Option (Value Closure × Heap)

abbrev LookupAll := Heap -> Nat -> List String -> Option (List (Value Closure) × Heap)

abbrev Eval := Heap -> Nat -> Def -> Option (Value Closure × Heap)

abbrev Switch := Heap -> Nat -> List Case -> Option (Value Closure × Heap)

abbrev Apply := Heap -> Value Closure -> List (Value Closure) -> Option (Value Closure × Heap)

mutual

def lookup (I : Interpretation) (heap : Heap) (frame : Option Nat) (id : String) :
    Option (Value Closure × Heap) :=
  letI lookup : Lookup := by apply lookup; exact I
  letI eval : Eval := by apply eval; exact I
  match frame with
  | none => (I id).map fun f => (.builtin f, heap)
  | some i => do
    let f <- heap[i]?
    match f.known.lookup id with
    | some v => return (v, heap)
    | none =>
      match f.table.get? id with
      | some d => do
        let (v, heap) <- eval heap i d
        return (v, heap.remember i id v)
      | none => lookup heap f.outer id
partial_fixpoint

def lookupAll (I : Interpretation) (heap : Heap) (i : Nat) (ids : List String) :
    Option (List (Value Closure) × Heap) :=
  letI lookup : Lookup := by apply lookup; exact I
  letI lookupAll : LookupAll := by apply lookupAll; exact I
  match ids with
  | [] => some ([], heap)
  | id :: rest => do
    let (v, heap) <- lookup heap (some i) id
    let (vs, heap) <- lookupAll heap i rest
    return (v :: vs, heap)
partial_fixpoint

def eval (I : Interpretation) (heap : Heap) (i : Nat) (d : Def) :
    Option (Value Closure × Heap) :=
  letI lookup : Lookup := by apply lookup; exact I
  letI lookupAll : LookupAll := by apply lookupAll; exact I
  letI switch : Switch := by apply switch; exact I
  letI apply : Apply := by apply apply; exact I
  match d with
  | .number v => some (.number v, heap)
  | .string v => some (.string v, heap)
  | .bool v => some (.bool v, heap)
  | .null => some (.null, heap)
  | .matrix cells => some (.list (cells.map cell), heap)
  | .list items => do
    let (vs, heap) <- lookupAll heap i items
    return (.list vs, heap)
  | .func params body => some (.closure ⟨params, body, i⟩, heap)
  | .switch cases => switch heap i cases
  | .call target args => do
    let (f, heap) <- lookup heap (some i) target
    if args.isEmpty then return (f, heap)
    else do
      let (vs, heap) <- lookupAll heap i args
      apply heap f vs
partial_fixpoint

def switch (I : Interpretation) (heap : Heap) (i : Nat) (cases : List Case) :
    Option (Value Closure × Heap) :=
  letI lookup : Lookup := by apply lookup; exact I
  letI switch : Switch := by apply switch; exact I
  match cases with
  | [] => none
  | ⟨none, id⟩ :: _ => lookup heap (some i) id
  | ⟨some guard, id⟩ :: rest => do
    let (b, heap) <- lookup heap (some i) guard
    match b with
    | .bool true => lookup heap (some i) id
    | .bool false => switch heap i rest
    | _ => none
partial_fixpoint

def apply (I : Interpretation) (heap : Heap) (f : Value Closure) (args : List (Value Closure)) :
    Option (Value Closure × Heap) :=
  letI lookup : Lookup := by apply lookup; exact I
  letI apply : Apply := by apply apply; exact I
  match f with
  | .builtin f => (Value.applyBuiltin f args).map fun v => (v, heap)
  | .closure c =>
    if args.length < c.params.length then none
    else do
      let (result, heap) <- lookup (heap.enter c args) (some heap.length) Table.resultId
      let rest := args.drop c.params.length
      if rest.isEmpty then return (result, heap) else apply heap result rest
  | _ => none
partial_fixpoint

end

def value? (I : Interpretation) (t : Table) (id : String) : Option (Value Closure) :=
  (lookup I [⟨t, [], none⟩] (some 0) id).map Prod.fst

end Memo
end Semantics
end DefTable
