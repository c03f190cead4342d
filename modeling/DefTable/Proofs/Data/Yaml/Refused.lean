import DefTable.Proofs.Data.Yaml.Document

/-!
# A literal block that starts with a tab is not read back

The scanner gets over everything that is written before such a block and stops at the block.  Of the
tokens of the node it has cut off some by then, but not all of them, and from these no document is
read.
-/

namespace DefTable
namespace Yaml

open Scanner (Leads Stands Opens floorOf maxNesting)

/-!
## Where the scanner stops
-/

/-- Behind `s` no token can be cut off from some place on.  By then there are the tokens `ts` and
some of `tokens`, but not all of these. -/
def Stops (s : Scanner) (ts tokens : List Token) : Prop :=
  exists last front back, Leads s last ∧ last.fetch = none ∧ tokens = front ++ back ∧ back ≠ [] ∧
    last.tokens <:+ front.reverse ++ ts

theorem Stops.behind
    {s s' : Scanner} {ts tokens : List Token} (read : List Token) (hlead : Leads s s')
    (h : Stops s' (read.reverse ++ ts) tokens) : Stops s ts (read ++ tokens) := by
  rcases h with ⟨last, front, back, hlast, hfetch, rfl, hback, htokens⟩
  refine ⟨last, read ++ front, back, hlead.trans hlast, hfetch, (List.append_assoc _ _ _).symm,
    hback, ?_⟩
  rwa [List.reverse_append, List.append_assoc]

theorem Stops.before
    {s : Scanner} {ts tokens : List Token} (h : Stops s ts tokens) (more : List Token) :
    Stops s ts (tokens ++ more) := by
  rcases h with ⟨last, front, back, hlast, hfetch, rfl, hback, htokens⟩
  exact ⟨last, front, back ++ more, hlast, hfetch, List.append_assoc _ _ _,
    List.append_ne_nil_of_left_ne_nil hback more, htokens⟩

theorem tokensFrom_of_fetch_none {s : Scanner} (h : s.fetch = none) (fuel : Nat) :
    s.tokensFrom (fuel + 1) = s.tokens.reverse.take s.settledCount := by
  rw [Scanner.tokensFrom, h]

theorem Stops.tokensFrom
    {s : Scanner} {tokens : List Token} (h : Stops s [] tokens) {fuel : Nat}
    (hfuel : s.cursor.rest.length < fuel) :
    exists front back, s.tokensFrom fuel = front ∧ tokens = front ++ back ∧ back ≠ [] := by
  rcases h with ⟨last, front, back, hlast, hfetch, rfl, hback, htokens⟩
  have hfrom : s.tokensFrom fuel = last.tokens.reverse.take last.settledCount :=
    hlast.tokensFrom_eq (fun fuel hfuel => by
      rcases Nat.exists_eq_succ_of_ne_zero (Nat.ne_zero_of_lt hfuel) with ⟨fuel, rfl⟩
      exact tokensFrom_of_fetch_none hfetch fuel) fuel hfuel
  have hfront : last.tokens.reverse <+: front := by
    rw [List.append_nil] at htokens
    rw [← List.reverse_suffix, List.reverse_reverse]
    exact htokens
  rcases (List.take_prefix last.settledCount _).trans hfront with ⟨more, rfl⟩
  exact ⟨_, more ++ back, hfrom, List.append_assoc _ _ _,
    List.append_ne_nil_of_right_ne_nil more hback⟩

/-!
## Data that the scanner does not get over
-/

/-- Where the data stands, the scanner stops before it has all tokens of the data. -/
structure Refuses (n : Nat) (d : Data) : Prop where
  starts : forall indent, Fits true indent -> forall rest,
    Starts ((Writer.node indent d).toList ++ rest)
  stops : forall indent keyAllowed column indents,
    Placed true n indent d keyAllowed column indents -> 0 < floorOf indents -> forall s ts rest,
    Stands keyAllowed column ts indents ((Writer.node indent d).toList ++ rest) s ->
    Stops s ts (nodeOf d).tokens

theorem fetch_literal
    {keyAllowed : Bool} {column indent : Nat} {ts : List Token} {indents : List Nat}
    {cs rest : List Char} {s : Scanner} (htab : cs.head? = some '\t')
    (hs : Stands keyAllowed column ts indents ((Writer.literal indent cs).toList ++ rest) s)
    (hfloor : floorOf indents ≤ column) (hinside : 0 < floorOf indents) :
    s.fetch = none ∧ s.tokens <:+ ts := by
  have hsuffix := Scanner.tokens_suffix_settle s
  rcases hs.settle_eq fun i hi => Scanner.le_of_floorOf hfloor hi with ⟨line, level, _, hsettle⟩
  rw [hsettle] at hsuffix
  refine ⟨?_, hsuffix⟩
  have hscan := blockScalar_tab htab hinside indent rest line column
  rcases toList_literal indent cs with ⟨b, _, hwritten⟩
  rw [Scanner.fetch_eq, hsettle]
  rw [hwritten, List.cons_append] at hscan ⊢
  rw [Scanner.cut_block (Scanner.unmarked_cons (by decide) (by decide) (by decide) column _)]
  exact congrArg (Option.bind · _) hscan

theorem refuses_string {n : Nat} {s : String} (h : TabLed s) : Refuses n (.string s) := by
  rcases h with ⟨hstyle, htab⟩
  refine ⟨fun indent _ => starts_node_literal hstyle indent, ?_⟩
  intro indent keyAllowed column indents hplaced hinside s' ts rest hs
  rw [toList_node_literal hstyle] at hs
  rcases fetch_literal htab hs hplaced.floor hinside with ⟨hfetch, htokens⟩
  refine ⟨s', [], (nodeOf (.string s)).tokens, .refl, hfetch, rfl, ?_, htokens⟩
  rw [nodeOf, textNode]
  exact List.cons_ne_nil _ _

section

variable {n indent : Nat} {indents indents' : List Nat} {ts ts' : List Token} {s : Scanner}
  {rest : List Char}

theorem stops_entry
    {k : String} {d : Data} (hk : OneLine k) (h : Refuses n d) (hfour : indent % 4 = 0)
    (hopens : Opens indent .blockMapping indents ts indents' ts')
    (hdepth : indents'.length + n ≤ maxNesting)
    (hs : Stands true indent ts indents ((entryText indent (k, d)).toList ++ rest) s) :
    Stops s ts' (tokensOfEntry (k, d)) := by
  have heven : indent % 2 = 0 := by omega
  have hdeeper := deeper_spec indent
  have hvalue : Starts ((Writer.node (Writer.deeper indent) d).toList ++ rest) :=
    h.starts _ ⟨by omega, fun _ => ⟨by omega, hdeeper.2.1⟩⟩ rest
  rw [entryText, String.toList_append, String.toList_append, List.append_assoc,
    List.append_assoc] at hs
  rcases leads_value hk heven hopens hvalue hs with
    ⟨s', keyAllowed, column, hlead, hcolumn, hnested, hs'⟩
  rcases hopens.exists_eq with ⟨outside, rfl⟩
  have hplaced : Placed true n (Writer.deeper indent) d keyAllowed column (indent :: outside) :=
    placed_value (fun _ => hfour) hcolumn hnested hdepth
  have hstops := h.stops _ _ _ _ hplaced (Nat.succ_pos indent) s' _ _ hs'
  rw [tokensOfEntry, textNode_of_oneLine hk]
  exact hstops.behind [.key, .scalar (style k = .plain) k, .value] hlead

theorem stops_stack
    {es : List (String × Data)} (hkeys : forall e, e ∈ es -> OneLine e.1)
    (h : forall e, e ∈ es -> Reads true n e.2 ∨ Refuses n e.2)
    (hrefused : exists e, e ∈ es ∧ Refuses n e.2) (hfour : indent % 4 = 0)
    (hopens : Opens indent .blockMapping indents ts indents' ts')
    (hdepth : indents'.length + n ≤ maxNesting)
    (hs : Stands true indent ts indents
      ((Writer.stack indent (es.map (entryText indent))).toList ++ rest) s) :
    Stops s ts' (es.flatMap tokensOfEntry) := by
  have heven : indent % 2 = 0 := by omega
  induction es generalizing s ts indents ts' indents' with
  | nil =>
      rcases hrefused with ⟨_, he, _⟩
      cases he
  | cons e es ih =>
      rw [List.forall_mem_cons] at hkeys h
      rw [List.flatMap_cons]
      by_cases hfirst : Refuses n e.2
      · rcases toList_stack indent (entryText indent e) (es.map (entryText indent)) rest with
          ⟨after, hstack⟩
        rw [List.map_cons, hstack] at hs
        exact (stops_entry hkeys.1 hfirst hfour hopens hdepth hs).before _
      · rcases hrefused with ⟨a, ha, hlater⟩
        have hmem : a ∈ es := by
          rcases List.mem_cons.mp ha with rfl | hmem
          · exact absurd hlater hfirst
          · exact hmem
        have hpart := part_entry hkeys.1 (h.1.resolve_right hfirst) heven fun _ => hfour
        cases es with
        | nil => cases hmem
        | cons b es =>
            have hnext : Starts ((Writer.stack indent ((b :: es).map (entryText indent))).toList ++
                rest) :=
              starts_stack es (starts_entry (d := b.2) (hkeys.2 b List.mem_cons_self) indent)
                indent rest
            rw [List.map_cons, List.map_cons, stack_cons_cons, String.toList_append,
              String.toList_append, toList_spaces, List.append_assoc, List.append_assoc] at hs
            rcases hpart.leads hopens hdepth (Nat.le_refl indent) hnext hs with ⟨s', hlead, hs'⟩
            rcases hopens.exists_eq with ⟨outside, rfl⟩
            exact (ih hkeys.2 h.2 ⟨a, hmem, hlater⟩ .inside hdepth hs').behind _ hlead

theorem stops_map
    {es : List (String × Data)} (hkeys : forall e, e ∈ es -> OneLine e.1)
    (h : forall e, e ∈ es -> Reads true n e.2 ∨ Refuses n e.2)
    (hrefused : exists e, e ∈ es ∧ Refuses n e.2) (hfour : indent % 4 = 0)
    (hfloor : floorOf indents ≤ indent) (hdepth : indents.length + (n + 1) ≤ maxNesting)
    (hs : Stands true indent ts indents
      ((Writer.stack indent ((inKeyOrder es).map (entryText indent))).toList ++ rest) s) :
    Stops s ts (nodeOf (.map es)).tokens := by
  rcases hrefused with ⟨e, he, hvalue⟩
  have hopens : Opens indent .blockMapping indents ts (indent :: indents) (.blockMapping :: ts) :=
    .first hfloor (by omega)
  have hstops := stops_stack (fun e he => hkeys e (mem_inKeyOrder.mp he))
    (fun e he => h e (mem_inKeyOrder.mp he)) ⟨e, mem_inKeyOrder.mpr he, hvalue⟩ hfour hopens
    (by rw [List.length_cons]; omega) hs
  rw [tokens_nodeOf_map (List.ne_nil_of_mem he)]
  exact (hstops.before [.blockEnd]).behind [.blockMapping] .refl

end

theorem refuses_map
    {n : Nat} {es : List (String × Data)} (hkeys : forall e, e ∈ es -> OneLine e.1)
    (h : forall e, e ∈ es -> Reads true n e.2 ∨ Refuses n e.2)
    (hrefused : exists e, e ∈ es ∧ Refuses n e.2) : Refuses (n + 1) (.map es) := by
  rcases hrefused with ⟨e, he, hvalue⟩
  have hne := List.ne_nil_of_mem he
  have hnested : Writer.isNested (.map es) = true := by
    cases es with
    | nil => exact absurd rfl hne
    | cons e es => rfl
  refine ⟨fun indent _ rest => ?_, ?_⟩
  · rw [node_map_eq_stack hne]
    exact starts_entries hne hkeys indent rest
  · intro indent keyAllowed column indents hplaced _ s ts rest hs
    rcases hplaced.nested hnested with ⟨rfl, rfl⟩
    rw [node_map_eq_stack hne] at hs
    exact stops_map hkeys h ⟨e, he, hvalue⟩ (hplaced.fits.lines rfl).2 hplaced.floor hplaced.depth hs

theorem reads_or_refuses
    {n : Nat} {d : Data} (h : Storable true n d)
    (hrefuses : Tabbed d -> Refuses n d) : Reads true n d ∨ Refuses n d := by
  by_cases htab : Tabbed d
  · exact .inr (hrefuses htab)
  · exact .inl (reads_of_storable h htab)

theorem refuses_of_tabbed
    {n : Nat} {d : Data} (h : Storable true n d) (htab : Tabbed d) : Refuses n d := by
  generalize hlines : true = lines at h
  induction h with
  | null => cases htab
  | bool => cases htab
  | number => cases htab
  | string => exact refuses_string (tabbed_string_iff.mp htab)
  | list hitems _ =>
      rcases tabbed_list_iff.mp htab with ⟨d, hd, hitem⟩
      exact absurd hitem (not_tabbed_of_lines (hitems d hd))
  | map _ hkeys hvalues ih =>
      subst hlines
      rcases tabbed_map_iff.mp htab with ⟨e, he, hvalue⟩
      exact refuses_map (fun e he => (hkeys e he).oneLine)
        (fun e he => reads_or_refuses (hvalues e he) fun hled => ih e he hled rfl)
        ⟨e, he, ih e he hvalue rfl⟩

/-!
## Reading
-/

theorem document_write_of_tabbed
    {n : Nat} {es : List (String × Data)} (h : Storable true n (.map es))
    (htab : Tabbed (.map es)) (hn : n ≤ maxNesting) :
    document (Text.bytes (write (.map es))) = none := by
  rcases tabbed_map_iff.mp htab with ⟨e, he, hvalue⟩
  have hstands := stands_write (List.ne_nil_of_mem he) h
  have hstops : Stops (Scanner.start (write (.map es)).toList) [] (nodeOf (.map es)).tokens := by
    cases h with
    | map _ hkeys hvalues =>
        exact stops_map (fun e he => (hkeys e he).oneLine)
          (fun e he => reads_or_refuses (hvalues e he) (refuses_of_tabbed (hvalues e he)))
          ⟨e, he, refuses_of_tabbed (hvalues e he) hvalue⟩ rfl (Nat.le_refl 0) (by simpa using hn)
          hstands
  rcases hstops.tokensFrom (Nat.lt_succ_self _) with ⟨front, back, hfrom, htokens, hback⟩
  rw [document, characters?_write h]
  show firstDocument (tokens (write (.map es)).toList) = none
  rw [tokens]
  exact hfrom ▸ firstDocument_of_refused (bare_of_storable h) htokens hback

theorem read_write_of_tabbed
    {n : Nat} {es : List (String × Data)} (h : Storable true n (.map es))
    (htab : Tabbed (.map es)) (hn : n ≤ maxNesting) :
    read (Text.bytes (write (.map es))) = .error .unreadable := by
  rw [read, document_write_of_tabbed h htab hn]
  rfl

end Yaml
end DefTable
