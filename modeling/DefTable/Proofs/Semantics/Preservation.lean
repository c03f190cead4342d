import DefTable.Proofs.Lowering.Hygiene
import DefTable.Proofs.Semantics.Backward

/-!
# Lowering preserves meaning

A program without parameters like synthetic identifiers and the table it is lowered to give the same
first-order values to the names that the program declares, whatever the names from outside stand
for.
-/

namespace DefTable
namespace Semantics

open Lowering

theorem agrees_of_lowered
    {names : List String} {decls : List Decl} {t : Table} (h : Lowered Reaches names decls t) :
    Agrees [.decls decls] (programScope names decls) [.mk [] t] := by
  rcases h with ⟨out, hnodup, rfl, hemits⟩
  exact .program hnodup hemits

theorem mentions_declared
    {names : List String} {decls : List Decl} {t : Table} (h : Lowered Reaches names decls t)
    {d : Decl} (hd : d ∈ decls) (hglobal : isGlobal d.name.name = false) :
    Mentions Reaches (programScope names decls) (levels [.mk [] t]) d.name.name d.name.name := by
  have hmem : d.name.name ∈ decls.map fun d => d.name.name := List.mem_map_of_mem hd
  refine ⟨.kept 0 d.name.name, ?_, rfl, ?_⟩
  · rw [denotes, hglobal, if_neg Bool.false_ne_true, programScope_lookup, if_pos hmem]
  · rcases h with ⟨out, hnodup, rfl, hemits⟩
    rcases emitsDeclaration_of_mem hemits hd with ⟨out', hsub, hdeclaration⟩
    rcases entry_of_emitsDeclaration hdeclaration with ⟨entry, hentry⟩
    have hkey : d.name.name ∈ (Table.collect out).identifiers :=
      (Table.mem_identifiers_collect _ _).mpr (List.mem_map_of_mem (hsub _ hentry))
    unfold Reaches levels
    rw [List.map_cons, reach, if_pos]
    · rfl
    · exact List.mem_append_right _ hkey

/-- A declared name has the same first-order values in the program and in its table. -/
theorem lower_preserves_values
    {path : String} {source : Text} {extra : List String} {p : Program} {t : Table}
    (hparse : (parseSource path source).program = some p) (hlower : p.lower extra = .ok t)
    (hparams : p.Named ordinaryParameters) {d : Decl} (hd : d ∈ p.decls) (I : Interpretation)
    (v : Datum) :
    Source.value? I p d.name.name = some (.ofDatum v) <->
      Target.value? I t d.name.name = some (.ofDatum v) := by
  have hlowered := lowered_reaches hparse hlower hparams
  have hagrees := agrees_of_lowered hlowered
  have hmentions := mentions_declared hlowered hd (named_of_parse hparse d hd).1
  constructor
  · intro hvalue
    rcases (forward I).1 _ _ _ hvalue _ _ _ hagrees hmentions with ⟨w, hw, hrelated⟩
    exact hw.trans (congrArg some ((related_eq_ofDatum_iff hrelated v).mp rfl))
  · intro hvalue
    rcases ((backward I).1 _ _ _ hvalue).mention _ _ _ hagrees hmentions with ⟨w, hw, hrelated⟩
    exact hw.trans (congrArg some ((related_eq_ofDatum_iff hrelated v).mpr rfl))

/-!
## A program with a function, a call and a `let`
-/

def pairSource : Text :=
  "x = f 3; f a = let b = [a, 2] in b;"

def pairProgram : Program :=
  let two : Number := ⟨0x4000000000000000⟩
  let three : Number := ⟨0x4008000000000000⟩
  let name (s : String) (column : Nat) : Ident := ⟨.synthetic .name s ⟨1, column⟩, s⟩
  let number (v : Number) (s : String) (column : Nat) : Expr :=
    .number (.synthetic (.number v) s ⟨1, column⟩) v
  ⟨"", [
    ⟨name "x" 1, [],
      .binary (name "f" 5).token (.ident (name "f" 5)) .apply (number three "3" 7)⟩,
    ⟨name "f" 10, [name "a" 12],
      .letIn (.synthetic .keyLet "let" ⟨1, 16⟩) (name "b" 20) []
        (.list (.synthetic .openBracket "[" ⟨1, 24⟩) [.ident (name "a" 25), number two "2" 28])
        (.ident (name "b" 34))⟩]⟩

def pairTable : Table :=
  [("_0", .number ⟨0x4008000000000000⟩),
   ("f", .func ["a"]
     [("=", .call "_0b" []), ("_0", .number ⟨0x4000000000000000⟩), ("_0b", .list ["a", "_0"])]),
   ("x", .call "f" ["_0"])]

theorem pair_parse : (parseSource "" pairSource).program = some pairProgram := by
  decide +kernel

theorem pair_lower : pairProgram.lower [] = .ok pairTable := by
  decide +kernel

def pair : Datum :=
  .list [.number ⟨0x4008000000000000⟩, .number ⟨0x4000000000000000⟩]

theorem pair_named : pairProgram.Named ordinaryParameters := by
  intro d hd
  rcases List.mem_cons.mp hd with rfl | hd
  · refine ⟨trivial, ?_, trivial, trivial, trivial⟩
    exact fun q hq => absurd hq List.not_mem_nil
  · rcases List.mem_singleton.mp hd with rfl
    refine ⟨trivial, ?_, trivial, ?_, ⟨trivial, trivial, trivial⟩, trivial⟩
    · intro q hq
      rcases List.mem_singleton.mp hq with rfl
      show Scope.isSynthetic "a" = false
      decide
    · exact fun q hq => absurd hq List.not_mem_nil

theorem pair_value (I : Interpretation) :
    Source.value? I pairProgram "x" = some (.ofDatum pair) := by
  simp [Source.value?, Source.refer, Source.binding?, Source.find?, Source.declared?,
    Source.evalBody, Source.eval, Source.apply, Source.spine, pairProgram, pair, isGlobal,
    Value.ofDatum, Value.ofData]

theorem lower_preserves_values_pair :
    Source.value? (fun _ => none) pairProgram "x" = some (.ofDatum pair) ∧
      Target.value? (fun _ => none) pairTable "x" = some (.ofDatum pair) :=
  ⟨pair_value _, (lower_preserves_values pair_parse pair_lower pair_named List.mem_cons_self _
    pair).mp (pair_value _)⟩

end Semantics
end DefTable
