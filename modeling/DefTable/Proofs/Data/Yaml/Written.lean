import DefTable.Proofs.Data.Yaml.Nodes
import DefTable.Proofs.Data.Yaml.Numbers
import DefTable.Proofs.Data.Yaml.Steps

/-!
# Written data is cut into the tokens of its node

The scanner that stands where data was written gets to what follows it, and has the tokens of the
node that the data is written as.  The parts of a collection stand in one column and are cut off one
after the other.
-/

namespace DefTable
namespace Yaml

open Scanner (Leads Stands Opens Brackets Separator floorOf maxNesting)

/-!
## Lines
-/

theorem toList_spaces (n : Nat) : (Writer.spaces n).toList = List.replicate n ' ' := by
  rw [Writer.spaces, String.toList_ofList]

theorem toList_endLine (s : String) (m : Nat) (rest : List Char) :
    (Writer.endLine s).toList ++ (List.replicate m ' ' ++ rest) =
      s.toList ++ afterBlock (s.toList.getLast?.any isBreak) m rest := by
  unfold Writer.endLine afterBlock
  cases s.toList.getLast?.any isBreak with
  | true => rfl
  | false => simp

theorem isBreak_last_endLine (s : String) :
    (Writer.endLine s).toList.getLast?.any isBreak = true := by
  unfold Writer.endLine
  cases h : s.toList.getLast?.any isBreak with
  | true =>
      rw [if_pos rfl]
      exact h
  | false =>
      rw [if_neg Bool.false_ne_true, String.toList_append]
      simp [isBreak]

theorem endLine_append
    {p : String} (hp : p.toList.getLast?.any isBreak = false) (s : String) :
    Writer.endLine (p ++ s) = p ++ Writer.endLine s := by
  have hlast : (p ++ s).toList.getLast?.any isBreak = s.toList.getLast?.any isBreak := by
    rw [String.toList_append]
    cases hs : s.toList with
    | nil => rw [List.append_nil, hp]; rfl
    | cons c cs => rw [List.getLast?_append_cons]
  unfold Writer.endLine
  rw [hlast]
  split
  · rfl
  · rw [String.append_assoc]

/-!
## Parts of a collection
-/

/-- A part of the collections in a column, with its tokens: nothing but the part is passed over, and
it may open the collection. -/
structure Part (column : Nat) (opening : Token) (n : Nat) (text : String) (tokens : List Token) :
    Prop where
  starts : forall rest, Starts (text.toList ++ rest)
  leads : forall {s ts indents indents' ts' m rest},
    Opens column opening indents ts indents' ts' -> indents'.length + n ≤ maxNesting ->
    m ≤ column -> Starts rest ->
    Stands true column ts indents
      ((Writer.endLine text).toList ++ (List.replicate m ' ' ++ rest)) s ->
    exists s', Leads s s' ∧ Stands true m (tokens.reverse ++ ts') indents' rest s'

section

variable {α : Type} {column : Nat} {opening : Token} {n : Nat} {text : α -> String}
  {tokens : α -> List Token}

theorem stack_cons_cons (indent : Nat) (p q : String) (ps : List String) :
    Writer.stack indent (p :: q :: ps) =
      Writer.endLine p ++ Writer.spaces indent ++ Writer.stack indent (q :: ps) :=
  String.intercalate_cons_cons

theorem stack_singleton (indent : Nat) (p : String) :
    Writer.stack indent [p] = Writer.endLine p :=
  String.intercalate_singleton

theorem endLine_stack (indent : Nat) (p : String) (ps : List String) :
    Writer.endLine (Writer.stack indent (p :: ps)) = Writer.stack indent (p :: ps) := by
  have hlast : (Writer.stack indent (p :: ps)).toList.getLast?.any isBreak = true := by
    induction ps generalizing p with
    | nil =>
        rw [stack_singleton]
        exact isBreak_last_endLine p
    | cons q ps ih =>
        have hq := ih q
        rw [stack_cons_cons, String.toList_append]
        cases hs : (Writer.stack indent (q :: ps)).toList with
        | nil =>
            rw [hs] at hq
            cases hq
        | cons c cs =>
            rw [List.getLast?_append_cons, ← hs]
            exact hq
  rw [Writer.endLine, if_pos hlast]

theorem toList_stack (indent : Nat) (p : String) (ps : List String) (rest : List Char) :
    exists after, (Writer.stack indent (p :: ps)).toList ++ rest = p.toList ++ after := by
  have hline : forall rest, exists after, (Writer.endLine p).toList ++ rest = p.toList ++ after :=
    fun rest => ⟨_, toList_endLine p 0 rest⟩
  cases ps with
  | nil =>
      rw [stack_singleton]
      exact hline rest
  | cons q ps =>
      rw [stack_cons_cons, String.toList_append, String.toList_append, List.append_assoc,
        List.append_assoc]
      exact hline _

theorem starts_stack
    {a : α} (parts : List α) (h : forall rest, Starts ((text a).toList ++ rest)) (indent : Nat)
    (rest : List Char) :
    Starts ((Writer.stack indent ((a :: parts).map text)).toList ++ rest) := by
  rcases toList_stack indent (text a) (parts.map text) rest with ⟨after, hstack⟩
  rw [List.map_cons, hstack]
  exact h after

theorem leads_stack
    {parts : List α} (hne : parts ≠ [])
    (h : forall a, a ∈ parts -> Part column opening n (text a) (tokens a))
    {s : Scanner} {indents indents' : List Nat} {ts ts' : List Token} {m : Nat} {rest : List Char}
    (hopens : Opens column opening indents ts indents' ts')
    (hdepth : indents'.length + n ≤ maxNesting) (hm : m ≤ column) (hrest : Starts rest)
    (hs : Stands true column ts indents
      ((Writer.stack column (parts.map text)).toList ++ (List.replicate m ' ' ++ rest)) s) :
    exists s', Leads s s' ∧
      Stands true m ((parts.flatMap tokens).reverse ++ ts') indents' rest s' := by
  induction parts generalizing s ts indents ts' indents' with
  | nil => exact absurd rfl hne
  | cons a parts ih =>
      rw [List.forall_mem_cons] at h
      cases parts with
      | nil =>
          rw [List.map_cons, List.map_nil, stack_singleton] at hs
          rw [List.flatMap_cons, List.flatMap_nil, List.append_nil]
          exact h.1.leads hopens hdepth hm hrest hs
      | cons b parts =>
          have hnext := starts_stack parts (h.2 b List.mem_cons_self).starts column
            (List.replicate m ' ' ++ rest)
          rw [List.map_cons, List.map_cons, stack_cons_cons, String.toList_append,
            String.toList_append, toList_spaces, List.append_assoc, List.append_assoc] at hs
          rcases h.1.leads hopens hdepth (Nat.le_refl column) hnext hs with ⟨s', hlead, hs'⟩
          rcases hopens.exists_eq with ⟨outside, rfl⟩
          rcases ih (List.cons_ne_nil b parts) h.2 .inside hdepth hs' with ⟨s'', hlead', hs''⟩
          refine ⟨s'', hlead.trans hlead', ?_⟩
          rw [List.flatMap_cons, List.reverse_append, List.append_assoc]
          exact hs''

end

/-!
## Data where it stands
-/

/-- An indentation that occurs; texts of several lines occur only where it is a multiple of four. -/
structure Fits (lines : Bool) (indent : Nat) : Prop where
  even : indent % 2 = 0
  lines : lines = true -> 0 < indent ∧ indent % 4 = 0

/-- A place where data can stand.  A collection in block style starts at its indentation; where texts
may have several lines, that lies four columns behind the collection around it. -/
structure Placed (lines : Bool) (n indent : Nat) (d : Data) (keyAllowed : Bool) (column : Nat)
    (indents : List Nat) : Prop where
  nested : Writer.isNested d = true -> keyAllowed = true ∧ column = indent
  fits : Fits lines indent
  lines : lines = true -> indent = floorOf indents + 3
  floor : floorOf indents ≤ column
  depth : indents.length + n ≤ maxNesting

/-- The scanner gets from the data to what follows it. -/
structure Reads (lines : Bool) (n : Nat) (d : Data) : Prop where
  starts : forall indent, Fits lines indent -> forall rest,
    Starts ((Writer.node indent d).toList ++ rest)
  leads : forall indent keyAllowed column indents,
    Placed lines n indent d keyAllowed column indents -> forall s ts m rest,
    m < floorOf indents -> Starts rest ->
    Stands keyAllowed column ts indents
      ((Writer.endLine (Writer.node indent d)).toList ++ (List.replicate m ' ' ++ rest)) s ->
    exists s', Leads s s' ∧ Stands true m ((nodeOf d).tokens.reverse ++ ts) indents rest s'

/-!
## Scalars
-/

theorem not_isBreak_last_inline
    {w : List Char} {plain : Bool} {text : String} (h : Inline w plain text) :
    w.getLast?.any isBreak = false := by
  cases h with
  | plain hplain =>
      cases hlast : w.getLast? with
      | none => rfl
      | some c => exact hplain.noBreak c (List.mem_of_getLast? hlast)
  | quoted hquote hlast _ =>
      rename_i quote cs _
      have hwhole : (quote :: cs).getLast? = some quote := by
        cases cs with
        | nil => rfl
        | cons c cs => rw [List.getLast?_cons_cons, hlast]
      rw [hwhole]
      rcases hquote with rfl | rfl <;> rfl

theorem reads_of_inline
    {lines : Bool} (n : Nat) {d : Data} (plain : Bool) (text : String)
    (hnode : nodeOf d = .scalar plain "" text)
    (h : forall indent, Fits lines indent ->
      Inline (Writer.node indent d).toList plain text) : Reads lines n d where
  starts indent hfits rest := Scanner.starts_of_inline (h indent hfits) rest
  leads := by
    intro indent keyAllowed column indents hplaced s ts m rest hm hrest hs
    have hinline := h indent hplaced.fits
    rw [toList_endLine, not_isBreak_last_inline hinline] at hs
    rcases Scanner.leads_inline hinline hs hplaced.floor hm hrest with ⟨s', hlead, hs'⟩
    exact ⟨s', hlead, by rw [hnode]; exact hs'⟩

theorem getLast?_lined (margin : Nat) (atStart : Bool) (cs : List Char) :
    (lined margin atStart cs).getLast? = cs.getLast? := by
  induction cs generalizing atStart with
  | nil => rfl
  | cons c cs ih =>
      have hlast : forall front : List Char, (front ++ c :: lined margin (isBreak c) cs).getLast? =
          (c :: cs).getLast? := by
        intro front
        rw [List.getLast?_append_cons, List.getLast?_cons, List.getLast?_cons, ih]
      rw [lined, Writer.withMargin]
      cases hc : isBreak c with
      | true =>
          rw [hc] at hlast
          exact hlast []
      | false =>
          rw [hc] at hlast
          rw [if_neg Bool.false_ne_true, List.append_assoc]
          exact hlast _

theorem getLast?_literal {cs : List Char} (hne : cs ≠ []) (margin : Nat) :
    (Writer.literal margin cs).toList.getLast? = cs.getLast? := by
  have hlined := getLast?_lined margin true cs
  rw [Writer.literal, String.toList_append, String.toList_ofList]
  change (_ ++ lined margin true cs).getLast? = _
  cases htext : lined margin true cs with
  | nil =>
      rw [htext] at hlined
      exact absurd (List.getLast?_eq_none_iff.mp hlined.symm) hne
  | cons c rest => rw [List.getLast?_append_cons, ← htext, hlined]

theorem toList_node_literal {s : String} (hstyle : style s = .literal) (indent : Nat) :
    (Writer.node indent (.string s)).toList = (Writer.literal indent s.toList).toList := by
  rw [Writer.node, Writer.text, hstyle]

theorem starts_node_literal
    {s : String} (hstyle : style s = .literal) (indent : Nat) (rest : List Char) :
    Starts ((Writer.node indent (.string s)).toList ++ rest) := by
  rcases toList_literal indent s.toList with ⟨b, _, htext⟩
  rw [toList_node_literal hstyle, htext]
  exact starts_cons rfl rfl (by decide) _

theorem reads_literal
    {n : Nat} {s : String} (hstyle : style s = .literal) (htab : s.toList.head? ≠ some '\t') :
    Reads true n (.string s) := by
  rcases literal_of_style hstyle with ⟨hne, hkeeps⟩
  refine ⟨fun indent _ => starts_node_literal hstyle indent, ?_⟩
  intro indent keyAllowed column indents hplaced s' ts m rest hm hrest hs
  rw [toList_endLine, toList_node_literal hstyle, getLast?_literal hne] at hs
  have hindent := hplaced.lines rfl
  rcases Scanner.leads_literal hne hkeeps htab (by omega) (fun _ => hindent) hs hplaced.floor hm
    hrest with ⟨s'', hlead, hs''⟩
  refine ⟨s'', hlead, ?_⟩
  rw [nodeOf, textNode, keptText, if_pos hstyle, decide_eq_false (by rw [hstyle]; decide)]
  exact hs''

theorem reads_string
    {lines : Bool} (n : Nat) {s : String} (hlines : lines = false -> OneLine s)
    (htab : style s = .literal -> s.toList.head? ≠ some '\t') : Reads lines n (.string s) := by
  by_cases hstyle : style s = .literal
  · cases lines with
    | true => exact reads_literal hstyle (htab hstyle)
    | false => exact absurd (hlines rfl) (not_oneLine_of_literal hstyle)
  · refine reads_of_inline n (style s = .plain) s ?_ fun indent hfits => ?_
    · rw [nodeOf, textNode, keptText, if_neg hstyle]
    · rw [Writer.node]
      refine inline_text hstyle ?_
      cases lines with
      | true => exact .inl (hfits.lines rfl).1
      | false => exact .inr (hlines rfl)

theorem inline_ofList {s : String} (h : PlainText s.toList) : Inline s.toList true s := by
  have hinline := Inline.plain h
  rwa [String.ofList_toList] at hinline

theorem plainText_null : PlainText "null".toList := by
  decide

theorem plainText_bool (b : Bool) : PlainText (toString b).toList := by
  cases b <;> decide

/-!
## Collections
-/

theorem reads_empty
    {lines : Bool} (n : Nat) {d : Data} {left right : Char} {t t' : Token}
    (hbrackets : Brackets left right t t')
    (htext : forall indent, (Writer.node indent d).toList = [left, right])
    (htokens : (nodeOf d).tokens = [t, t']) : Reads lines n d where
  starts indent _ rest := by
    rw [htext]
    cases hbrackets <;> exact starts_cons rfl rfl (by decide) _
  leads := by
    intro indent keyAllowed column indents hplaced s ts m rest hm hrest hs
    have hlast : ([left, right] : List Char).getLast?.any isBreak = false := by
      cases hbrackets <;> rfl
    rw [toList_endLine, htext, hlast] at hs
    rw [htokens]
    exact Scanner.leads_brackets hbrackets hs hplaced.floor
      (Nat.lt_of_lt_of_le (Nat.zero_lt_of_lt hm) hplaced.floor) hrest

theorem reads_of_parts
    {α : Type} {lines : Bool} {n : Nat} {d : Data} {opening : Token} {parts : List α}
    (text : Nat -> α -> String) (tokens : α -> List Token) (hne : parts ≠ [])
    (hnested : Writer.isNested d = true)
    (htext : forall indent, Writer.node indent d = Writer.stack indent (parts.map (text indent)))
    (htokens : (nodeOf d).tokens = opening :: (parts.flatMap tokens ++ [.blockEnd]))
    (h : forall indent, indent % 2 = 0 -> (lines = true -> indent % 4 = 0) ->
      forall a, a ∈ parts -> Part indent opening n (text indent a) (tokens a)) :
    Reads lines (n + 1) d where
  starts indent hfits rest := by
    have hparts := h indent hfits.even fun hlines => (hfits.lines hlines).2
    rw [htext]
    cases parts with
    | nil => exact absurd rfl hne
    | cons a parts => exact starts_stack parts (hparts a List.mem_cons_self).starts indent rest
  leads := by
    intro indent keyAllowed column indents hplaced s ts m rest hm hrest hs
    rcases hplaced.nested hnested with ⟨rfl, rfl⟩
    have hparts := h column hplaced.fits.even fun hlines => (hplaced.fits.lines hlines).2
    have hdepth := hplaced.depth
    have hstack : Writer.endLine (Writer.node column d) =
        Writer.stack column (parts.map (text column)) := by
      rw [htext]
      cases parts with
      | nil => exact absurd rfl hne
      | cons a parts => exact endLine_stack column _ _
    rw [hstack] at hs
    have hfloor := hplaced.floor
    have hopens : Opens column opening indents ts (column :: indents) (opening :: ts) :=
      .first hfloor (by omega)
    rcases leads_stack hne hparts hopens (by rw [List.length_cons]; omega) (by omega) hrest hs with
      ⟨s', hlead, hs'⟩
    refine ⟨s', hlead, ?_⟩
    have hend := hs'.out (by omega)
    rw [htokens]
    simpa using hend

theorem items_eq_map (indent : Nat) (ds : List Data) :
    Writer.items indent ds = ds.map fun d => "- " ++ Writer.node (indent + 2) d := by
  induction ds with
  | nil => rfl
  | cons d ds ih => rw [Writer.items, ih, List.map_cons]

theorem part_item
    {n indent : Nat} {d : Data} (h : Reads false n d) (heven : indent % 2 = 0) :
    Part indent .blockSequence n ("- " ++ Writer.node (indent + 2) d)
      (.item :: (nodeOf d).tokens) where
  starts rest := by
    rw [String.toList_append, List.append_assoc]
    exact starts_cons (show isBlank '-' = false from rfl) rfl (by decide) _
  leads := by
    intro s ts indents indents' ts' m rest hopens hdepth hm hrest hs
    have hfits : Fits false (indent + 2) := ⟨by omega, nofun⟩
    rcases hopens.exists_eq with ⟨outside, rfl⟩
    have hplaced : Placed false n (indent + 2) d true (indent + 2) (indent :: outside) :=
      ⟨fun _ => ⟨rfl, rfl⟩, hfits, nofun, Nat.le_succ _, hdepth⟩
    have hitem : Starts ((Writer.endLine (Writer.node (indent + 2) d)).toList ++
        (List.replicate m ' ' ++ rest)) := by
      rw [toList_endLine]
      exact h.starts (indent + 2) hfits _
    rw [endLine_append rfl, String.toList_append] at hs
    rcases Scanner.leads_item hopens hs hitem with ⟨s', hlead, hs'⟩
    rcases h.leads _ _ _ _ hplaced s' _ m rest (Nat.lt_succ_of_le hm) hrest hs' with
      ⟨s'', hlead', hs''⟩
    refine ⟨s'', hlead.trans hlead', ?_⟩
    simpa using hs''

theorem reads_list
    {lines : Bool} {n : Nat} {ds : List Data} (h : forall d, d ∈ ds -> Reads false n d) :
    Reads lines (n + 1) (.list ds) := by
  cases ds with
  | nil => exact reads_empty (n + 1) .sequence (fun _ => by rw [Writer.node]; rfl) rfl
  | cons d ds =>
      refine reads_of_parts (fun indent d => "- " ++ Writer.node (indent + 2) d)
        (fun d => .item :: (nodeOf d).tokens) (List.cons_ne_nil d ds) rfl (fun indent => ?_) ?_
        fun indent heven _ a ha => part_item (h a ha) heven
      · rw [Writer.node, items_eq_map]
      · rw [nodeOf, nodesOf_eq_map, List.map_cons, Node.tokens, ← List.map_cons,
          Node.itemTokens_eq, List.flatMap_map]

/-!
## Entries
-/

theorem not_isBreak_last_spaces (cs : List Char) {n : Nat} (hn : 0 < n) :
    (cs ++ List.replicate n ' ').getLast?.any isBreak = false := by
  cases n with
  | zero => exact absurd hn (Nat.lt_irrefl 0)
  | succ n =>
      rw [List.replicate_succ', ← List.append_assoc, List.getLast?_concat]
      rfl

theorem deeper_spec (indent : Nat) :
    indent < Writer.deeper indent ∧ Writer.deeper indent % 4 = 0 ∧
      (indent % 4 = 0 -> Writer.deeper indent = indent + 4) ∧
      (indent % 2 = 0 -> indent + 1 < Writer.deeper indent) := by
  unfold Writer.deeper
  omega

def entryText (indent : Nat) (e : String × Data) : String :=
  Writer.key indent e.1 ++ Writer.separator indent e.1 e.2 ++
    Writer.node (Writer.deeper indent) e.2

def tokensOfEntry (e : String × Data) : List Token :=
  .key :: ((textNode e.1).tokens ++ .value :: (nodeOf e.2).tokens)

section

variable {lines : Bool} {n indent : Nat} {k : String} {d : Data}

theorem placed_value
    {keyAllowed : Bool} {column : Nat} {outside : List Nat}
    (hlines : lines = true -> indent % 4 = 0) (hcolumn : indent + 1 ≤ column)
    (hnested : Writer.isNested d = true -> keyAllowed = true ∧ column = Writer.deeper indent)
    (hdepth : (indent :: outside).length + n ≤ maxNesting) :
    Placed lines n (Writer.deeper indent) d keyAllowed column (indent :: outside) := by
  rcases deeper_spec indent with ⟨hlt, hfour, hsum, _⟩
  refine ⟨hnested, ⟨by omega, fun h => ⟨by omega, hfour⟩⟩, fun h => ?_, hcolumn, hdepth⟩
  rw [hsum (hlines h)]
  rfl

theorem separator_cases (indent : Nat) (k : String) (d : Data) (heven : indent % 2 = 0) :
    (Writer.isSimpleKey k = true ∧ Writer.isNested d = true ∧
        (Writer.separator indent k d).toList =
          '\n' :: List.replicate (Writer.deeper indent) ' ') ∨
      exists gap, 0 < gap ∧ (Writer.separator indent k d).toList = List.replicate gap ' ' ∧
        (Writer.isNested d = true ->
          Writer.isSimpleKey k = false ∧ indent + 1 + gap = Writer.deeper indent) := by
  have hdeeper := (deeper_spec indent).2.2.2 heven
  unfold Writer.separator
  cases hnested : Writer.isNested d with
  | false => exact .inr ⟨1, Nat.one_pos, by rw [Bool.not_false, if_pos rfl]; rfl, nofun⟩
  | true =>
      rw [if_neg (by simp)]
      cases hsimple : Writer.isSimpleKey k with
      | true =>
          refine .inl ⟨rfl, rfl, ?_⟩
          rw [if_pos rfl, String.toList_append, toList_spaces]
          rfl
      | false =>
          refine .inr ⟨Writer.deeper indent - indent - 1, by omega, ?_, fun _ => ⟨rfl, by omega⟩⟩
          rw [if_neg Bool.false_ne_true, toList_spaces]

theorem toList_key (hk : OneLine k) (indent : Nat) :
    (Writer.isSimpleKey k = true ∧
        (Writer.key indent k).toList = (Writer.text indent k).toList ++ [':']) ∨
      (Writer.isSimpleKey k = false ∧
        (Writer.key indent k).toList =
          '?' :: ' ' :: ((Writer.text (Writer.deeper indent) k).toList ++
            newline indent [':'])) := by
  unfold Writer.key
  cases hsimple : Writer.isSimpleKey k with
  | true => exact .inl ⟨rfl, by rw [if_pos rfl, String.toList_append]; rfl⟩
  | false =>
      refine .inr ⟨rfl, ?_⟩
      have hinline : Inline (Writer.text (Writer.deeper indent) k).toList _ k :=
        inline_text (fun hstyle => not_oneLine_of_literal hstyle hk) (.inr hk)
      have hline := toList_endLine (Writer.text (Writer.deeper indent) k) indent [':']
      rw [not_isBreak_last_inline hinline] at hline
      rw [if_neg Bool.false_ne_true, endLine_append rfl, String.toList_append, String.toList_append,
        String.toList_append, toList_spaces, List.append_assoc, List.append_assoc,
        show "? ".toList = ['?', ' '] from rfl, show ":".toList = [':'] from rfl, hline]
      rfl

theorem length_simpleKey_le
    (hk : OneLine k) (hsimple : Writer.isSimpleKey k = true) (margin : Nat) :
    (Writer.text margin k).toList.length ≤ Scanner.maxKeyLength := by
  have hlength := length_text_le margin hk
  rw [Writer.isSimpleKey, Bool.and_eq_true, decide_eq_true_eq] at hsimple
  unfold Scanner.maxKeyLength
  omega

theorem leads_value
    {indents indents' : List Nat} {ts ts' : List Token} {s : Scanner} {value : List Char}
    (hk : OneLine k) (heven : indent % 2 = 0)
    (hopens : Opens indent .blockMapping indents ts indents' ts') (hvalue : Starts value)
    (hs : Stands true indent ts indents
      ((Writer.key indent k).toList ++ ((Writer.separator indent k d).toList ++ value)) s) :
    exists s' keyAllowed column, Leads s s' ∧ indent + 1 ≤ column ∧
      (Writer.isNested d = true -> keyAllowed = true ∧ column = Writer.deeper indent) ∧
      Stands keyAllowed column (.value :: .scalar (style k = .plain) k :: .key :: ts') indents'
        value s' := by
  have hinline : forall margin, Inline (Writer.text margin k).toList (style k = .plain) k :=
    fun margin => inline_text (fun hstyle => not_oneLine_of_literal hstyle hk) (.inr hk)
  rcases toList_key hk indent with ⟨hsimple, hkey⟩ | ⟨hlong, hkey⟩
  · have hlength := length_simpleKey_le hk hsimple indent
    rw [hkey, List.append_assoc, List.singleton_append] at hs
    rcases separator_cases indent k d heven with ⟨_, _, hseparator⟩ | ⟨gap, hgap, hseparator, hflat⟩
    · rw [hseparator] at hs
      rcases Scanner.leads_key (hinline indent) hk hlength hopens hs
        (Scanner.separator_newline _ value) with ⟨line, hlead⟩
      refine ⟨_, true, _, hlead, (deeper_spec indent).1, fun _ => ⟨rfl, rfl⟩, ?_⟩
      exact Scanner.stands_newline hvalue (Scanner.idle_none _ _) _ _ _ _ _
    · rcases Nat.exists_eq_succ_of_ne_zero (Nat.ne_of_gt hgap) with ⟨g, rfl⟩
      rw [hseparator] at hs
      rcases Scanner.leads_key (hinline indent) hk hlength hopens hs
        (Scanner.separator_spaces hvalue g) with ⟨line, hlead⟩
      refine ⟨_, false, _, hlead, by omega, fun hnested => ?_,
        Scanner.stands_spaces hvalue (Scanner.idle_none _ _) _ _ _ _ _⟩
      exact nomatch (hflat hnested).1.symm.trans hsimple
  · rw [hkey] at hs
    rcases separator_cases indent k d heven with ⟨hsimple, _⟩ | ⟨gap, hgap, hseparator, hflat⟩
    · exact nomatch hlong.symm.trans hsimple
    · rcases Nat.exists_eq_succ_of_ne_zero (Nat.ne_of_gt hgap) with ⟨g, rfl⟩
      have hcolon : '?' :: ' ' :: ((Writer.text (Writer.deeper indent) k).toList ++
          newline indent [':']) ++ ((Writer.separator indent k d).toList ++ value) =
          '?' :: ' ' :: ((Writer.text (Writer.deeper indent) k).toList ++
            newline indent (':' :: (List.replicate (g + 1) ' ' ++ value))) := by
        rw [hseparator]
        simp [newline]
      rw [hcolon] at hs
      rcases Scanner.leads_announced (hinline (Writer.deeper indent)) hopens hs
        (Scanner.separator_spaces hvalue g) with ⟨line, level, hidle, hlead⟩
      refine ⟨_, true, _, hlead, by omega, fun hnested => ⟨rfl, (hflat hnested).2⟩, ?_⟩
      exact Scanner.stands_spaces hvalue hidle _ _ _ _ _

theorem not_isBreak_last_separator
    (indent : Nat) (k : String) (d : Data) (heven : indent % 2 = 0) :
    (Writer.key indent k ++ Writer.separator indent k d).toList.getLast?.any isBreak = false := by
  rw [String.toList_append]
  rcases separator_cases indent k d heven with ⟨_, _, hseparator⟩ | ⟨gap, hgap, hseparator, _⟩
  · have hdeeper := (deeper_spec indent).1
    rw [hseparator, ← List.singleton_append, ← List.append_assoc]
    exact not_isBreak_last_spaces _ (by omega)
  · rw [hseparator]
    exact not_isBreak_last_spaces _ hgap

theorem starts_key (hk : OneLine k) (indent : Nat) (rest : List Char) :
    Starts ((Writer.key indent k).toList ++ rest) := by
  rcases toList_key hk indent with ⟨_, hkey⟩ | ⟨_, hkey⟩
  · have hinline : Inline (Writer.text indent k).toList _ k :=
      inline_text (fun hstyle => not_oneLine_of_literal hstyle hk) (.inr hk)
    rw [hkey, List.append_assoc]
    exact Scanner.starts_of_inline hinline _
  · rw [hkey]
    exact starts_cons rfl rfl (by decide) _

theorem starts_entry (hk : OneLine k) (indent : Nat) (rest : List Char) :
    Starts ((entryText indent (k, d)).toList ++ rest) := by
  rw [entryText, String.toList_append, String.toList_append, List.append_assoc, List.append_assoc]
  exact starts_key hk indent _

theorem part_entry
    (hk : OneLine k) (h : Reads lines n d) (heven : indent % 2 = 0)
    (hlines : lines = true -> indent % 4 = 0) :
    Part indent .blockMapping n (entryText indent (k, d)) (tokensOfEntry (k, d)) where
  starts := starts_entry hk indent
  leads := by
    intro s ts indents indents' ts' m rest hopens hdepth hm hrest hs
    rcases deeper_spec indent with ⟨hlt, hfour, _, _⟩
    have hfits : Fits lines (Writer.deeper indent) := ⟨by omega, fun _ => ⟨by omega, hfour⟩⟩
    have hvalue : Starts ((Writer.endLine (Writer.node (Writer.deeper indent) d)).toList ++
        (List.replicate m ' ' ++ rest)) := by
      rw [toList_endLine]
      exact h.starts _ hfits _
    rw [entryText, endLine_append (not_isBreak_last_separator indent k d heven),
      String.toList_append, String.toList_append, List.append_assoc, List.append_assoc] at hs
    rcases leads_value hk heven hopens hvalue hs with
      ⟨s', keyAllowed, column, hlead, hcolumn, hnested, hs'⟩
    rcases hopens.exists_eq with ⟨outside, rfl⟩
    rcases h.leads _ _ _ _ (placed_value hlines hcolumn hnested hdepth) s' _ m rest
      (Nat.lt_succ_of_le hm) hrest hs' with ⟨s'', hlead', hs''⟩
    refine ⟨s'', hlead.trans hlead', ?_⟩
    rw [tokensOfEntry, textNode_of_oneLine hk]
    simpa [Node.tokens] using hs''

end

theorem entries_eq_map (indent : Nat) (es : List (String × Data)) :
    Writer.entries indent es = es.map fun e => (e.1, entryText indent e) := by
  induction es with
  | nil => rfl
  | cons e es ih =>
      rw [Writer.entries, ih, List.map_cons]
      rfl

theorem sortEntries_eq (indent : Nat) (es : List (String × Data)) :
    Writer.sortEntries (Writer.entries indent es) = (inKeyOrder es).map (entryText indent) := by
  have hsorted : (es.map fun e => (e.1, entryText indent e)).mergeSort
      (fun a b => keyLe a.1 b.1) = (inKeyOrder es).map fun e => (e.1, entryText indent e) := by
    rw [inKeyOrder, List.map_mergeSort]
    exact fun _ _ _ _ => rfl
  rw [Writer.sortEntries, entries_eq_map, hsorted, List.map_map]
  rfl

theorem node_map_eq_stack {es : List (String × Data)} (hne : es ≠ []) (indent : Nat) :
    Writer.node indent (.map es) =
      Writer.stack indent ((inKeyOrder es).map (entryText indent)) := by
  cases es with
  | nil => exact absurd rfl hne
  | cons e es => rw [Writer.node, sortEntries_eq]

theorem starts_entries
    {es : List (String × Data)} (hne : es ≠ []) (hkeys : forall e, e ∈ es -> OneLine e.1)
    (indent : Nat) (rest : List Char) :
    Starts ((Writer.stack indent ((inKeyOrder es).map (entryText indent))).toList ++ rest) := by
  cases hlist : inKeyOrder es with
  | nil => exact absurd hlist (inKeyOrder_ne_nil hne)
  | cons a more =>
      have hmem : a ∈ inKeyOrder es := hlist ▸ List.mem_cons_self
      exact starts_stack more (starts_entry (d := a.2) (hkeys a (mem_inKeyOrder.mp hmem)) indent)
        indent rest

theorem tokens_nodeOf_map {es : List (String × Data)} (hne : es ≠ []) :
    (nodeOf (.map es)).tokens =
      .blockMapping :: ((inKeyOrder es).flatMap tokensOfEntry ++ [.blockEnd]) := by
  rw [nodeOf_map]
  cases hsorted : inKeyOrder es with
  | nil => exact absurd hsorted (inKeyOrder_ne_nil hne)
  | cons a more =>
      rw [List.map_cons, Node.tokens, ← List.map_cons, Node.entryTokens_eq, List.flatMap_map]
      rfl

theorem reads_map
    {lines : Bool} {n : Nat} {es : List (String × Data)}
    (hkeys : forall e, e ∈ es -> OneLine e.1) (h : forall e, e ∈ es -> Reads lines n e.2) :
    Reads lines (n + 1) (.map es) := by
  cases es with
  | nil =>
      refine reads_empty (n + 1) .mapping (fun _ => by rw [Writer.node]; rfl) ?_
      rw [nodeOf_map, inKeyOrder, List.mergeSort_nil]
      rfl
  | cons e es =>
      have hne : e :: es ≠ [] := List.cons_ne_nil e es
      exact reads_of_parts entryText tokensOfEntry (inKeyOrder_ne_nil hne) rfl
        (node_map_eq_stack hne) (tokens_nodeOf_map hne) fun indent heven hlines a ha =>
          part_entry (hkeys a (mem_inKeyOrder.mp ha)) (h a (mem_inKeyOrder.mp ha)) heven hlines

/-- Data that comes back is cut into the tokens of its node. -/
theorem reads_of_storable
    {lines : Bool} {n : Nat} {d : Data} (h : Storable lines n d) (htab : ¬ Tabbed d) :
    Reads lines n d := by
  induction h with
  | null =>
      refine reads_of_inline _ true "null" rfl fun indent _ => ?_
      rw [Writer.node]
      exact inline_ofList plainText_null
  | bool b =>
      refine reads_of_inline _ true (toString b) rfl fun indent _ => ?_
      rw [Writer.node]
      exact inline_ofList (plainText_bool b)
  | @number _ _ x _ =>
      refine reads_of_inline _ true (Writer.layout.write x) rfl fun indent _ => ?_
      rw [Writer.node]
      exact inline_ofList (plainText_write x)
  | string hlines => exact reads_string _ hlines fun hstyle hhead => htab (.string ⟨hstyle, hhead⟩)
  | list _ ih => exact reads_list fun d hd => ih d hd fun hitem => htab (.list hd hitem)
  | map _ hkeys _ ih =>
      exact reads_map (fun e he => (hkeys e he).oneLine)
        fun e he => ih e he fun hvalue => htab (.map he hvalue)

end Yaml
end DefTable
