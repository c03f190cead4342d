import DefTable.Proofs.Data.Yaml.Characters
import DefTable.Proofs.Data.Yaml.Reread

/-!
# A written map is read back

The bytes of a map hold the characters that were written, these are cut into the tokens of its node,
from them the node is read again, and the node stands for the map, apart from the numbers and texts
that come back changed.
-/

namespace DefTable
namespace Yaml

/-!
## All tokens of a text
-/

namespace Scanner

theorem tokensFrom_end
    {column : Nat} {ts : List Token} {s : Scanner} (h : Stands true column ts [column] [] s)
    {fuel : Nat} (hfuel : s.cursor.rest.length < fuel) :
    s.tokensFrom fuel = ts.reverse ++ [.blockEnd, .streamEnd] := by
  rcases h with ⟨hrest, line, level, hidle, hsettle⟩
  have hinside : forall i, [column].head? = some i -> i ≤ column := by
    rintro i ⟨⟩
    exact Nat.le_refl _
  have hinside' : (block true ⟨[], line, column⟩ ts [column] level).settle = _ :=
    settle_block_inside hrest hinside
  have hcut : (block true ⟨[], line, column⟩ ts [column] level).cut =
      some (block false ⟨[], line, column⟩ (.streamEnd :: .blockEnd :: ts) []
        ⟨none, level.opening⟩) := by
    change ((block true ⟨[], line, column⟩ (.blockEnd :: ts) [] level).dropCandidate).map _ = _
    rw [dropCandidate_block hidle]
    rfl
  cases fuel with
  | zero => exact absurd hfuel (Nat.not_lt_zero _)
  | succ fuel =>
      rw [tokensFrom, fetch_eq, hsettle, hinside', hcut]
      simp [block]

theorem stands_start
    {cs : List Char} (hstarts : Starts cs) (hmark : cs.head? ≠ some byteOrderMark) :
    Stands true 0 [] [] cs (start cs) := by
  have hstart : start cs = block true ⟨cs, 0, 0⟩ [] [] ⟨none, none⟩ := by
    rw [start, decide_eq_false hmark]
    rfl
  rw [hstart]
  exact stands_block hstarts (idle_none none 0) true 0 [] []

end Scanner

theorem write_eq_stack {es : List (String × Data)} (hne : es ≠ []) :
    write (.map es) = Writer.stack 0 ((inKeyOrder es).map (entryText 0)) := by
  rw [write, node_map_eq_stack hne]
  cases hlist : inKeyOrder es with
  | nil => exact absurd hlist (inKeyOrder_ne_nil hne)
  | cons a more => exact endLine_stack 0 _ _

theorem stands_write
    {n : Nat} {es : List (String × Data)} (hne : es ≠ []) (h : Storable true n (.map es)) :
    Scanner.Stands true 0 [] []
      ((Writer.stack 0 ((inKeyOrder es).map (entryText 0))).toList ++ (List.replicate 0 ' ' ++ []))
      (Scanner.start (write (.map es)).toList) := by
  have hmark := head_write h
  have hstarts : Starts (write (.map es)).toList := by
    cases h with
    | map _ hkeys _ =>
        have hentries := starts_entries hne (fun e he => (hkeys e he).oneLine) 0 []
        rwa [List.append_nil, ← write_eq_stack hne] at hentries
  rw [List.replicate_zero, List.append_nil, List.append_nil, ← write_eq_stack hne]
  exact Scanner.stands_start hstarts hmark

theorem tokens_write
    {n : Nat} {es : List (String × Data)} (hne : es ≠ []) (h : Storable true n (.map es))
    (htab : ¬ Tabbed (.map es)) (hn : n ≤ Scanner.maxNesting) :
    tokens (write (.map es)).toList = (nodeOf (.map es)).tokens ++ [.streamEnd] := by
  have hstands := stands_write hne h
  cases h with
  | @map _ n _ _ hkeys hvalues =>
      have hparts : forall e, e ∈ inKeyOrder es -> Part 0 .blockMapping n (entryText 0 e)
          (tokensOfEntry e) := by
        intro e he
        have hmem := mem_inKeyOrder.mp he
        have hreads := reads_of_storable (hvalues e hmem) fun hvalue => htab (.map hmem hvalue)
        exact part_entry (hkeys e hmem).oneLine hreads rfl fun _ => rfl
      have hopens : Scanner.Opens 0 .blockMapping [] [] [0] [.blockMapping] :=
        .first (Nat.le_refl 0) (by decide)
      have hdepth : [0].length + n ≤ Scanner.maxNesting := by
        rw [List.length_singleton]
        omega
      rcases leads_stack (inKeyOrder_ne_nil hne) hparts hopens hdepth (Nat.le_refl 0) starts_nil
        hstands with ⟨s', hlead, hs'⟩
      refine (hlead.tokensFrom_eq (fun fuel hfuel => Scanner.tokensFrom_end hs' hfuel) _
        (Nat.lt_succ_self _)).trans ?_
      rw [tokens_nodeOf_map hne]
      simp

/-!
## Reading
-/

theorem tokens_write_nil :
    tokens (write (.map [])).toList = (nodeOf (.map [])).tokens ++ [.streamEnd] := by
  rw [write, Writer.node, nodeOf_map, inKeyOrder, List.mergeSort_nil]
  decide

theorem document_write
    {n : Nat} {es : List (String × Data)} (h : Storable true n (.map es))
    (htab : ¬ Tabbed (.map es)) (hn : n ≤ Scanner.maxNesting) :
    document (Text.bytes (write (.map es))) =
      some ⟨nodeOf (.map es), (nodeOf (.map es)).tokens.length + 2⟩ := by
  have htokens : tokens (write (.map es)).toList = (nodeOf (.map es)).tokens ++ [.streamEnd] := by
    cases hes : es with
    | nil => exact tokens_write_nil
    | cons e rest =>
        rw [← hes]
        exact tokens_write (by rw [hes]; exact List.cons_ne_nil e rest) h htab hn
  rw [document, characters?_write h]
  show firstDocument (tokens (write (.map es)).toList) = _
  rw [htokens, firstDocument_of_bare (bare_of_storable h)]

theorem fields_nodeOf
    {lines : Bool} {n : Nat} {es : List (String × Data)} (h : Storable lines n (.map es))
    {depth : Nat} (hdepth : (nodeOf (.map es)).tokens.length < depth) :
    (Document.mk (nodeOf (.map es)) depth).fields [] (Node.toData depth) =
      pure ((inKeyOrder es).map fun e => (e.1, reread e.2)) := by
  cases h with
  | map hascending hkeys hvalues =>
      cases depth with
      | zero => exact absurd hdepth (Nat.not_lt_zero _)
      | succ depth =>
          rw [nodeOf_map] at hdepth ⊢
          have hsorted : forall e, e ∈ inKeyOrder es -> IsKey e.1 :=
            fun e he => hkeys e (mem_inKeyOrder.mp he)
          have hread : forall e, e ∈ inKeyOrder es ->
              Node.toData (depth + 1) (nodeOf e.2) = pure (reread e.2) := by
            intro e he
            have hlength : (nodeOf e.2).tokens.length < _ :=
              Node.length_tokens_value (List.mem_map_of_mem (f := entryNode) he)
            exact Node.toData_nodeOf (hvalues e (mem_inKeyOrder.mp he)) (by omega)
          rw [Document.fields]
          dsimp only
          rw [Node.collect_entryNodes rfl depth _ hsorted hread
            (Node.differ_inKeyOrder hascending), pure_bind, Node.shown_collected]

theorem read_write
    {n : Nat} {es : List (String × Data)} (h : Storable true n (.map es))
    (htab : ¬ Tabbed (.map es)) (hn : n ≤ Scanner.maxNesting) :
    read (Text.bytes (write (.map es))) = .ok (rereadEntries es) := by
  rcases visitedOnce_of_bare (bare_of_storable h) ((nodeOf (.map es)).tokens.length + 2) ⟨1, 0⟩ rfl
    with ⟨v, hvisit, _⟩
  have hfields := fields_nodeOf h
    (show (nodeOf (.map es)).tokens.length < (nodeOf (.map es)).tokens.length + 2 by omega)
  have hread : (do
      let d ← Reading.need (document (Text.bytes (write (.map es))))
      let _ ← Reading.need (d.root.visit d.depth false ⟨1, 0⟩)
      return Data.ofEntries (← d.fields [] (Node.toData d.depth)) : Reading _) =
      pure (rereadEntries es) := by
    rw [document_write h htab hn]
    show (Reading.need (Node.visit _ false ⟨1, 0⟩ (nodeOf (.map es))) >>= fun _ => _) = _
    rw [hvisit]
    show (Document.fields [] _ _ >>= fun es => pure (Data.ofEntries es)) = _
    rw [hfields, pure_bind, Node.ofEntries_inKeyOrder]
    cases h with
    | map hascending _ _ => exact hascending
  rw [read, hread]
  rfl

end Yaml
end DefTable
