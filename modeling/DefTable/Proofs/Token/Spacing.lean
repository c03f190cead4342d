import DefTable.Proofs.Token.Layout
import DefTable.Proofs.Token.NumeralGrammar

/-!
# Tokens do not depend on layout

A token that is no fault is scanned again wherever its lexeme stands before something that goes on
no token.  Blanks and comments go on none, so the tokens of a text can be taken apart and spaced
anew.  The same ones are scanned, as long as something is left between any two of them and no comment
in front of a token holds a NUL, which ends the input.
-/

namespace DefTable
namespace Token

/-!
## Gaps
-/

theorem blankLength_inside {inside : Text} (h : .char '\n' ∉ inside) (rest : Text) :
    blankLength true (inside ++ .char '\n' :: rest) =
      inside.length + 1 + blankLength false rest := by
  induction inside with
  | nil => simp [blankLength, Nat.add_comm]
  | cons g inside ih =>
      rw [List.mem_cons, not_or] at h
      rw [List.cons_append, blankLength, if_pos rfl, decide_eq_true (Ne.symm h.1), ih h.2,
        List.length_cons]
      omega

theorem blankLength_gap {gap : Text} (h : Gap gap) (rest : Text) :
    blankLength false (gap ++ rest) = gap.length + blankLength false rest := by
  induction h with
  | nil => simp
  | @blank g more hblank _ ih =>
      rw [List.cons_append, blankLength, if_neg Bool.false_ne_true,
        if_pos ((isBlank_iff g).mpr hblank), ih, List.length_cons]
      omega
  | @comment inside more hinside _ ih =>
      have hstart : isBlank (.char '#') = false := rfl
      rw [List.append_assoc, List.cons_append, List.cons_append, List.cons_append, blankLength,
        if_neg Bool.false_ne_true, hstart, if_neg Bool.false_ne_true, if_pos rfl,
        blankLength_inside hinside, ih]
      simp only [List.length_append, List.length_cons]
      omega

theorem scanFrom_gap {gap : Text} (h : Gap gap) (beyond : Text) (p : Position) (rest : Text) :
    scanFrom beyond p (gap ++ rest) = scanFrom beyond (p.after gap) rest := by
  rw [scanFrom_eq beyond p, scanFrom_eq beyond (p.after gap), blankLength_gap h,
    List.drop_length_add_append, List.take_length_add_append, after_append]

theorem Gap.apart {gap rest : Text} (h : Gap gap) (hempty : gap = [] -> Apart rest) :
    Apart (gap ++ rest) := by
  cases h with
  | nil => exact hempty rfl
  | blank hblank _ =>
      have hwords : forall g, g ∈ blanks -> isWordGlyph g = false := by decide
      have hoperators : forall g, g ∈ blanks -> isOperatorGlyph g = false := by decide
      exact ⟨fun _ hg => Option.some.inj hg ▸ hwords _ hblank,
        fun _ hg => Option.some.inj hg ▸ hoperators _ hblank⟩
  | comment _ _ =>
      exact ⟨fun _ hg => Option.some.inj hg ▸ rfl, fun _ hg => Option.some.inj hg ▸ rfl⟩

theorem Gap.startsWhole {gap : Text} (h : Gap gap) : gap.StartsWhole := by
  cases h with
  | nil => exact Text.startsWhole_nil
  | blank hblank _ =>
      intro b hb
      cases hb
      simp [blanks] at hblank
  | comment _ _ => exact Text.startsWhole_char '#' _

theorem blankLength_take (inComment : Bool) (t : Text) (n : Nat) :
    blankLength inComment (t.take n) = min n (blankLength inComment t) := by
  induction t generalizing inComment n with
  | nil => simp [blankLength]
  | cons g rest ih =>
      cases n with
      | zero => simp [blankLength]
      | succ n =>
          simp only [List.take_succ_cons, blankLength, ih]
          split_ifs <;> omega

theorem scanFrom_cut_gap
    {gap : Text} (h : Gap gap) (keep : Glyph -> Bool) (beyond : Text) (p : Position) :
    scanFrom beyond p (gap.takeWhile keep) = [endAt (p.after (gap.takeWhile keep))] := by
  have hwhole : blankLength false gap = gap.length := by
    have hgap := blankLength_gap h []
    rwa [List.append_nil] at hgap
  have htaken : gap.takeWhile keep = gap.take (gap.takeWhile keep).length :=
    List.prefix_iff_eq_take.mp (List.takeWhile_prefix keep)
  have hlength : blankLength false (gap.takeWhile keep) = (gap.takeWhile keep).length := by
    rw [htaken, blankLength_take, hwhole, List.length_take]
  rw [scanFrom_eq, hlength, List.drop_length, List.take_length]

theorem Apart.takeWhile {rest : Text} (h : Apart rest) (keep : Glyph -> Bool) :
    Apart (rest.takeWhile keep) := by
  cases rest with
  | nil => exact h
  | cons g rest =>
      rw [List.takeWhile_cons]
      split
      · exact ⟨fun _ hg => h.words _ hg, fun _ hg => h.operators _ hg⟩
      · exact apart_nil

/-!
## Tokens that are scanned again
-/

theorem runLength_again
    {p : Glyph -> Bool} {more : Text} (t : Text) (hmore : Breaks p more) :
    runLength p (t.take (runLength p t) ++ more) = (t.take (runLength p t)).length :=
  runLength_append (all_take_runLength p t) hmore

theorem startsName_again {t : Text} (h : startsName t = true) (more : Text) :
    startsName (t.take (runLength isWordGlyph t) ++ more) = true := by
  cases t with
  | nil => cases h
  | cons g t =>
      have hstart : isNameStart g.toChar = true := h
      rw [take_runLength, List.takeWhile_cons_of_pos (isWordGlyph_of_start hstart)]
      exact hstart

theorem closingQuote_again {t : Text} {n : Nat} (h : closingQuote? t = some n) (more : Text) :
    n ≤ t.length ∧ closingQuote? (t.take n ++ more) = some n := by
  fun_induction closingQuote? t generalizing n with
  | case1 => cases h
  | case2 rest =>
      cases h
      exact ⟨Nat.le_add_left 1 _, rfl⟩
  | case3 e rest ih =>
      rcases Option.map_eq_some_iff.mp h with ⟨m, hm, rfl⟩
      rcases ih hm with ⟨hle, hagain⟩
      refine ⟨Nat.add_le_add_right hle 2, ?_⟩
      rw [List.take_succ_cons, List.take_succ_cons, List.cons_append, List.cons_append,
        closingQuote?, hagain]
      rfl
  | case4 c rest hquote hescape ih =>
      rcases Option.map_eq_some_iff.mp h with ⟨m, hm, rfl⟩
      rcases ih hm with ⟨hle, hagain⟩
      have hplain := ne_backslash_of_closed hm hescape
      refine ⟨Nat.add_le_add_right hle 1, ?_⟩
      rw [List.take_succ_cons, List.cons_append, closingQuote?, hagain]
      · rfl
      · exact hquote
      · exact fun _ _ heq => absurd heq hplain

theorem Shape.again
    {g : Glyph} {rest more : Text} {e : Extent} (h : Shape g rest e)
    (hlegal : forall f, e.kind ≠ .illegal f) (hmore : Apart more) :
    extent g (rest.take e.more ++ more) = ⟨e.kind, (rest.take e.more).length⟩ := by
  cases h with
  | @string _ n v hclosed hread =>
      rcases closingQuote_again hclosed more with ⟨hle, hagain⟩
      have hlength : (rest.take n).length = n := List.length_take_of_le hle
      change stringExtent (rest.take n ++ more) = _
      rw [stringExtent, hagain]
      dsimp only
      rw [List.take_left' hlength, hread, hlength]
  | @quotedName _ tail _ hfirst hrun hclosed =>
      subst hrun
      dsimp only
      rw [List.take_succ_cons, List.take_add_one, hclosed, List.cons_append, List.append_assoc]
      rw [show (some (Glyph.char '`')).toList ++ more = .char '`' :: more from rfl,
        extent_quotedName hfirst (all_take_runLength isWordGlyph tail)]
      simp
  | global hstarts =>
      change (if startsName (rest.take (runLength isWordGlyph rest) ++ more) = true then
        (⟨.name, runLength isWordGlyph _⟩ : Extent) else _) = _
      rw [if_pos (startsName_again hstarts more), runLength_again rest hmore.words]
  | word hstart hrun =>
      subst hrun
      rw [extent_word hstart, runLength_again rest hmore.words, List.take_left]
  | numeral hdigit _ hread =>
      -- Its length before the old text says nothing about the new one, but what was read does.
      rcases Numeral.read_sound hread with ⟨cs, _, hchars⟩
      cases cs with
      | nil => cases hchars
      | cons c cs =>
          rcases List.cons.inj hchars with ⟨rfl, hrest⟩
          have hc : c.isDigit = true := hdigit
          dsimp only
          rw [hchars] at hread
          rw [hrest, extent_numeral hc hread hmore, List.length_map]
  | operator hoperator hrun =>
      subst hrun
      rw [extent_operator hoperator, runLength_again rest hmore.operators, List.take_left]
  | mark hmark hlabel =>
      rcases extent_mark hmark with ⟨d, hd, _, _, _, hextent⟩
      rw [hlabel, String.toList_singleton] at hd
      cases hd
      exact hextent more
  | _ => exact absurd rfl (hlegal _)

theorem Shape.start
    {g : Glyph} {rest : Text} {e : Extent} (h : Shape g rest e)
    (hlegal : forall f, e.kind ≠ .illegal f) :
    (exists c, g = .char c) ∧ isBlank g = false ∧ g ≠ .char '#' := by
  have hchar : forall {p : Char -> Bool}, p g.toChar = true -> p '\uFFFD' = false ->
      exists c, g = .char c := by
    intro p hg hstray
    cases g with
    | char c => exact ⟨c, rfl⟩
    | stray b => exact Bool.noConfusion (hstray.symm.trans hg)
  cases h with
  | string => exact ⟨⟨_, rfl⟩, rfl, by decide⟩
  | quotedName => exact ⟨⟨_, rfl⟩, rfl, by decide⟩
  | global => exact ⟨⟨_, rfl⟩, rfl, by decide⟩
  | word hstart =>
      rcases hchar hstart (by decide +kernel) with ⟨c, rfl⟩
      rcases plain_of_isNameStart hstart with ⟨_, _, _, hcomment, hblank⟩
      exact ⟨⟨c, rfl⟩, hblank, fun heq => hcomment (Glyph.char.inj heq)⟩
  | numeral hdigit =>
      rcases hchar hdigit (by decide) with ⟨c, rfl⟩
      exact ⟨⟨c, rfl⟩, not_blank_of_isDigit hdigit⟩
  | operator hoperator =>
      rcases hchar hoperator (by decide) with ⟨c, rfl⟩
      rcases plain_of_operatorChar hoperator with ⟨_, _, _, hcomment, hblank, _⟩
      exact ⟨⟨c, rfl⟩, hblank, fun heq => hcomment (Glyph.char.inj heq)⟩
  | mark hmark hlabel =>
      rcases extent_mark hmark with ⟨d, hd, _, hblank, hcomment, _⟩
      rw [hlabel, String.toList_singleton] at hd
      cases hd
      exact ⟨⟨_, rfl⟩, hblank, fun heq => hcomment (Glyph.char.inj heq)⟩
  | _ => exact absurd rfl (hlegal _)

/-- The lexeme can be put somewhere else, where it is scanned to the token again. -/
structure Movable (t : Token) : Prop where
  readable : t.lexeme.Readable
  whole : t.lexeme.StartsWhole
  noNul : .char '\x00' ∉ t.lexeme
  again : forall beyond p more, Apart more ->
    scanFrom beyond p (t.lexeme ++ more) =
      ⟨t.kind, t.lexeme, p⟩ :: scanFrom beyond (p.after t.lexeme) more

theorem movable_of_mem_scan
    {input : List UInt8} {t : Token} (ht : t ∈ scan (Text.decode input))
    (hend : t.kind ≠ .endOfInput) (hlegal : forall f, t.kind ≠ .illegal f) : t.Movable := by
  rcases mem_scanFrom ht with ⟨q, rfl⟩ | ⟨front, g, rest, q, hbody, rfl⟩
  · exact absurd rfl hend
  · have hlexeme := lexemeOf_legal hlegal
    have hshape := shape_extent g rest
    generalize extent g rest = e at hlegal hlexeme hshape ⊢
    have hpieces : g :: rest = g :: rest.take e.more ++ rest.drop e.more := by
      rw [List.cons_append, List.take_append_drop]
    have hreadable := Text.readable_decode input
    rw [← List.takeWhile_append_dropWhile (l := Text.decode input), hbody, hpieces] at hreadable
    have hnul := nul_not_mem_takeWhile (Text.decode input)
    rw [hbody, hpieces] at hnul
    rcases hshape.start hlegal with ⟨⟨c, rfl⟩, hblank, hcomment⟩
    rw [hlexeme]
    exact {
      readable := hreadable.left.right.left
      whole := Text.startsWhole_char c _
      noNul := fun hmem => hnul (List.mem_append_right front (List.mem_append_left _ hmem))
      again := fun beyond p more hmore =>
        scanFrom_token hblank hcomment (hshape.again hlegal hmore) hlegal beyond p }

/-!
## Pieces behind separators
-/

/-- The pieces one behind the other, each one behind a separator of its own. -/
def spaced {α : Type} : (Nat -> List α) -> List (List α) -> List α
  | _, [] => []
  | sep, piece :: pieces => sep 0 ++ piece ++ spaced (fun i => sep (i + 1)) pieces

theorem spaced_end {α : Type} (sep : Nat -> List α) : spaced sep [[]] = sep 0 := by
  rw [spaced, spaced, List.append_nil, List.append_nil]

theorem startsWhole_spaced {sep : Nat -> Text} {pieces : List Text}
    (hsep : forall i, (sep i).StartsWhole) (hpieces : forall t, t ∈ pieces -> t.StartsWhole) :
    Text.StartsWhole (spaced sep pieces) := by
  induction pieces generalizing sep with
  | nil => exact Text.startsWhole_nil
  | cons piece pieces ih =>
      rw [List.forall_mem_cons] at hpieces
      exact ((hsep 0).append hpieces.1).append (ih (fun i => hsep (i + 1)) hpieces.2)

theorem decode_spaced {sep : Nat -> List UInt8} {pieces : List Text}
    (hsep : forall i, (Text.decode (sep i)).StartsWhole)
    (hpieces : forall t, t ∈ pieces -> t.Readable ∧ t.StartsWhole) :
    Text.decode (spaced sep (pieces.map Text.bytes)) =
      spaced (fun i => Text.decode (sep i)) pieces := by
  induction pieces generalizing sep with
  | nil => rfl
  | cons piece pieces ih =>
      rw [List.forall_mem_cons] at hpieces
      have hrest := ih (fun i => hsep (i + 1)) hpieces.2
      have hwhole : Text.StartsWhole
          (Text.decode (spaced (fun i => sep (i + 1)) (pieces.map Text.bytes))) := by
        rw [hrest]
        exact startsWhole_spaced (fun i => hsep (i + 1)) fun t ht => (hpieces.2 t ht).2
      have hpiece : Text.decode piece.bytes = piece := hpieces.1.1
      have hfirst : (Text.decode piece.bytes).StartsWhole := by
        rw [hpiece]
        exact hpieces.1.2
      rw [List.map_cons, spaced, Text.decode_append _ hwhole, Text.decode_append _ hfirst, hrest,
        hpiece]
      rfl

/-!
## Tokens that are spaced
-/

def content (t : Token) : Kind × Text :=
  (t.kind, t.lexeme)

/-- The part of a text that is scanned. -/
def beforeNul (t : Text) : Text :=
  t.takeWhile (· ≠ .char '\x00')

theorem scan_eq_beforeNul (t : Text) :
    scan t = scanFrom (t.drop (beforeNul t).length) .start (beforeNul t) :=
  rfl

theorem beforeNul_append {t : Text} (h : .char '\x00' ∉ t) (rest : Text) :
    beforeNul (t ++ rest) = t ++ beforeNul rest := by
  apply List.takeWhile_append_of_pos
  intro g hg
  apply decide_eq_true
  rintro rfl
  exact h hg

theorem beforeNul_append_of_mem {t : Text} (h : .char '\x00' ∈ t) (rest : Text) :
    beforeNul (t ++ rest) = beforeNul t := by
  have hcut : (beforeNul t).length ≠ t.length := by
    intro hlength
    have hwhole : beforeNul t = t := (List.takeWhile_prefix _).eq_of_length hlength
    have hnone : .char '\x00' ∉ beforeNul t := nul_not_mem_takeWhile t
    rw [hwhole] at hnone
    exact hnone h
  exact List.takeWhile_append.trans (if_neg hcut)

theorem apart_spaced
    {ts : List Token} {gap : Nat -> Text} (h : Gap (gap 0)) (hne : ts ≠ [] -> gap 0 ≠ []) :
    Apart (spaced gap (ts.map Token.lexeme ++ [[]])) := by
  cases ts with
  | nil =>
      have hlast := h.apart fun _ => apart_nil
      rw [List.append_nil] at hlast
      rw [List.map_nil, List.nil_append, spaced_end]
      exact hlast
  | cons t ts =>
      rw [List.map_cons, List.cons_append, spaced, List.append_assoc]
      exact h.apart fun hempty => absurd hempty (hne (List.cons_ne_nil t ts))

theorem scanFrom_spaced
    {ts : List Token} (hts : forall t, t ∈ ts -> t.Movable) {gap : Nat -> Text}
    (hgap : forall i, Gap (gap i)) (hne : forall i, 0 < i -> i < ts.length -> gap i ≠ [])
    (beyond : Text) (p : Position) :
    exists us q,
      scanFrom beyond p (beforeNul (spaced gap (ts.map Token.lexeme ++ [[]]))) = us ++ [endAt q] ∧
        (us.map content = ts.map content <->
          forall i, i < ts.length -> .char '\x00' ∉ gap i) := by
  induction ts generalizing gap p with
  | nil =>
      rw [List.map_nil, List.nil_append, spaced_end]
      exact ⟨[], _, scanFrom_cut_gap (hgap 0) _ beyond p, by simp⟩
  | cons t ts ih =>
      rw [List.forall_mem_cons] at hts
      rw [List.map_cons, List.cons_append, spaced, List.append_assoc]
      by_cases hnul : .char '\x00' ∈ gap 0
      · rw [beforeNul_append_of_mem hnul]
        refine ⟨[], _, scanFrom_cut_gap (hgap 0) _ beyond p, ?_⟩
        constructor
        · intro hnone
          cases hnone
        · intro hall
          exact absurd hnul (hall 0 (Nat.succ_pos ts.length))
      · have hlater : forall i, 0 < i -> i < ts.length -> gap (i + 1) ≠ [] :=
          fun i _ hi => hne (i + 1) (Nat.succ_pos i) (Nat.succ_lt_succ hi)
        have hbehind : Apart (spaced (fun i => gap (i + 1)) (ts.map Token.lexeme ++ [[]])) :=
          apart_spaced (hgap 1) fun hmore =>
            hne 1 Nat.one_pos (Nat.succ_lt_succ (List.length_pos_of_ne_nil hmore))
        have hapart :
            Apart (beforeNul (spaced (fun i => gap (i + 1)) (ts.map Token.lexeme ++ [[]]))) :=
          hbehind.takeWhile _
        rcases ih hts.2 (fun i => hgap (i + 1)) hlater
          ((p.after (gap 0)).after t.lexeme) with ⟨us, q, hscan, hus⟩
        refine ⟨⟨t.kind, t.lexeme, p.after (gap 0)⟩ :: us, q, ?_, ?_⟩
        · rw [beforeNul_append hnul, beforeNul_append hts.1.noNul, scanFrom_gap (hgap 0),
            hts.1.again _ _ _ hapart, hscan, List.cons_append]
        · rw [List.length_cons, Nat.forall_lt_succ_left, ← hus, List.map_cons, List.map_cons]
          constructor
          · intro heq
            exact ⟨hnul, (List.cons.inj heq).2⟩
          · intro hrest
            exact congrArg (t.content :: ·) hrest.2

theorem not_illegal_of_label {k : Kind} (h : k.label ≠ "ILLEGAL") : forall f, k ≠ .illegal f := by
  rintro f rfl
  exact h rfl

/-- The tokens of an input without a fault are scanned again, whatever blanks and comments take the
place of those between them, exactly if none in front of a token holds a NUL. -/
theorem scan_spaced_iff
    {input : List UInt8} {sep : Nat -> List UInt8}
    (hlegal : forall t, t ∈ scan (Text.decode input) -> forall f, t.kind ≠ .illegal f)
    (hgap : forall i, Gap (Text.decode (sep i)))
    (hne : forall i, 0 < i -> i + 1 < (scan (Text.decode input)).length -> sep i ≠ []) :
    (scan (Text.decode (spaced sep
      ((scan (Text.decode input)).map fun t => t.lexeme.bytes)))).map content =
      (scan (Text.decode input)).map content <->
      forall i, i + 1 < (scan (Text.decode input)).length ->
        .char '\x00' ∉ Text.decode (sep i) := by
  rcases scan_proper (Text.decode input) with ⟨ts, q, hscan, hproper⟩
  have hts : forall t, t ∈ ts -> t.Movable := by
    intro t ht
    have hmem : t ∈ scan (Text.decode input) := by
      rw [hscan]
      exact List.mem_append_left _ ht
    exact movable_of_mem_scan hmem (hproper t ht).ne_endOfInput (hlegal t hmem)
  have hpieces : forall u, u ∈ ts.map Token.lexeme ++ [[]] ->
      Text.Readable u ∧ Text.StartsWhole u := by
    intro u hu
    rcases List.mem_append.mp hu with hlexeme | hend
    · rcases List.mem_map.mp hlexeme with ⟨t, ht, rfl⟩
      exact ⟨(hts t ht).readable, (hts t ht).whole⟩
    · rw [List.mem_singleton.mp hend]
      exact ⟨rfl, Text.startsWhole_nil⟩
  have hlexemes : (scan (Text.decode input)).map (fun t => t.lexeme.bytes) =
      (ts.map Token.lexeme ++ [[]]).map Text.bytes := by
    rw [hscan, List.map_append, List.map_append, List.map_map]
    rfl
  have hlength : (scan (Text.decode input)).length = ts.length + 1 := by
    rw [hscan, List.length_append, List.length_singleton]
  have hbetween : forall i, 0 < i -> i < ts.length -> Text.decode (sep i) ≠ [] := by
    intro i hpos hi hempty
    have hbytes := Text.bytes_decode (sep i)
    rw [hempty] at hbytes
    exact hne i hpos (by omega) hbytes.symm
  rcases scanFrom_spaced hts hgap hbetween _ .start with ⟨us, r, hagain, hus⟩
  rw [hlength, hlexemes, decode_spaced (fun i => (hgap i).startsWhole) hpieces, scan_eq_beforeNul,
    hagain, hscan, List.map_append, List.map_append]
  simp only [Nat.add_lt_add_iff_right]
  rw [← hus]
  exact List.append_left_inj _

theorem scan_spaced_comments :
    let input := Text.bytes (Text.ofString "x=0x1E+2e+1;\"#\"")
    let sep : Nat -> List UInt8 := fun i =>
      Text.bytes (Text.ofString (if i < 7 then "#-\n" else "#\x00\n"))
    (scan (Text.decode (spaced sep
      ((scan (Text.decode input)).map fun t => t.lexeme.bytes)))).map content =
      (scan (Text.decode input)).map content := by
  intro input sep
  have hlabels : forall t, t ∈ scan (Text.decode input) -> t.kind.label ≠ "ILLEGAL" := by
    decide +kernel
  have hlegal : forall t, t ∈ scan (Text.decode input) -> forall f, t.kind ≠ .illegal f :=
    fun t ht => not_illegal_of_label (hlabels t ht)
  have hlength : (scan (Text.decode input)).length = 8 := by
    decide +kernel
  have hgap : forall i, Gap (Text.decode (sep i)) := by
    intro i
    rw [Text.decode_bytes_ofString]
    split_ifs
    · have hinside : Glyph.char '\n' ∉ [Glyph.char '-'] := by decide
      exact .comment hinside .nil
    · have hinside : Glyph.char '\n' ∉ [Glyph.char '\x00'] := by decide
      exact .comment hinside .nil
  have hne : forall i, sep i ≠ [] := by
    intro i
    dsimp only [sep]
    split_ifs <;> decide
  apply (scan_spaced_iff hlegal hgap fun i _ _ => hne i).mpr
  intro i hi
  rw [hlength] at hi
  rw [Text.decode_bytes_ofString, if_pos (Nat.lt_of_succ_lt_succ hi)]
  decide

/-- A NUL inside of a comment is taken for the end of the input, so the token behind it is lost. -/
theorem scan_spaced_nul :
    let input := Text.bytes (Text.ofString "x y")
    let sep : Nat -> List UInt8 := fun i =>
      if i = 1 then Text.bytes (Text.ofString "#a\x00b\n") else []
    let pieces := (scan (Text.decode input)).map fun t => t.lexeme.bytes
    (forall t, t ∈ scan (Text.decode input) -> forall f, t.kind ≠ .illegal f) ∧
      (forall i, Gap (Text.decode (sep i))) ∧
      (forall i, 0 < i -> i + 1 < (scan (Text.decode input)).length -> sep i ≠ []) ∧
      spaced sep pieces = Text.bytes (Text.ofString "x#a\x00b\ny") ∧
      (scan (Text.decode (spaced sep pieces))).map content ≠
        (scan (Text.decode input)).map content := by
  intro input sep pieces
  have hlabels : forall t, t ∈ scan (Text.decode input) -> t.kind.label ≠ "ILLEGAL" := by
    decide +kernel
  have hlength : (scan (Text.decode input)).length = 3 := by
    decide +kernel
  refine ⟨fun t ht => not_illegal_of_label (hlabels t ht), ?_, ?_, by decide +kernel, ?_⟩
  · intro i
    dsimp only [sep]
    split_ifs
    · have hinside : Glyph.char '\n' ∉ [Glyph.char 'a', .char '\x00', .char 'b'] := by decide
      rw [Text.decode_bytes_ofString]
      exact .comment hinside .nil
    · exact .nil
  · intro i hpos hi
    rw [hlength] at hi
    have hone : i = 1 := by omega
    subst hone
    decide
  · intro heq
    have hshorter := congrArg List.length heq
    revert hshorter
    decide +kernel

end Token
end DefTable
