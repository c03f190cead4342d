import DefTable.Proofs.Data.Yaml.Cut

/-!
# From one token to the next

The scanner that stands at a scalar, at empty brackets, at a key or at the dash of an item gets over
it, and the tokens it has then are those it had before with the ones that were written.
-/

namespace DefTable
namespace Yaml
namespace Scanner

section

variable {keyAllowed : Bool} {column m : Nat} {ts : List Token} {indents : List Nat}
  {rest : List Char} {s : Scanner}

theorem length_newline (m : Nat) (rest : List Char) : rest.length < (newline m rest).length := by
  rw [newline, List.length_cons, List.length_append]
  omega

/-!
## Scalars
-/

theorem leads_inline
    {w : List Char} {plain : Bool} {text : String} (h : Inline w plain text)
    (hs : Stands keyAllowed column ts indents (w ++ newline m rest) s)
    (hfloor : floorOf indents ≤ column) (hm : m < floorOf indents) (hrest : Starts rest) :
    exists s', Leads s s' ∧ Stands true m (.scalar plain text :: ts) indents rest s' := by
  rcases hs.cut fun i hi => le_of_floorOf hfloor hi with ⟨line, level, hidle, hcut⟩
  have hlength := length_newline m rest
  have hinline := h
  cases h with
  | plain hplain =>
      have hscan : Yaml.plain false (floorOf indents) ⟨w ++ newline m rest, line, column⟩ = _ :=
        hplain.plain_line hm hrest
      have hnext := cut_inline keyAllowed ts indents hinline
        (fun a ha => by cases ha; decide) hidle ((if_pos rfl).trans hscan) nofun
      rw [if_pos rfl] at hnext
      refine ⟨_, hcut _ hnext nofun ?_, ?_⟩
      · change rest.length < _
        rw [List.length_append]
        omega
      · exact stands_block hrest
          (idle_levelAt (hidle.mono (Nat.le_succ line)) (Nat.lt_succ_self line) hfloor) _ _ _ _
  | @quoted quote cs _ hquote _ hread =>
      rcases hread (newline m rest) line column nofun with ⟨line', column', hscan, hline, _⟩
      have hnext := cut_inline keyAllowed ts indents hinline
        (fun a ha => by cases ha; decide) hidle ((if_neg Bool.false_ne_true).trans hscan)
        (fun _ => rfl)
      rw [if_neg Bool.false_ne_true] at hnext
      have hcomment := pastComment_block false line' column' (.scalar false text :: ts) indents
        (levelAt keyAllowed line column ts indents level) (uncommented_newline m rest) 0
      rw [List.replicate_zero, List.nil_append] at hcomment
      rw [hcomment] at hnext
      refine ⟨_, hcut _ hnext nofun ?_, ?_⟩
      · change (newline m rest).length < _
        rw [List.length_append, List.length_cons]
        omega
      · exact stands_newline hrest
          (idle_levelAt (hidle.mono (by omega)) (by omega) hfloor) _ _ _ _ _

theorem leads_literal
    {cs : List Char} (hne : cs ≠ []) (hkeeps : forall c, c ∈ cs -> isBreak c = true -> Keeps c)
    (htab : cs.head? ≠ some '\t') {indent : Nat} (hindent : floorOf indents ≤ indent)
    (htold : cs.head?.any isEdge = true -> indent = floorOf indents + 3)
    (hs : Stands keyAllowed column ts indents
      ((Writer.literal indent cs).toList ++ afterBlock (cs.getLast?.any isBreak) m rest) s)
    (hfloor : floorOf indents ≤ column) (hm : m < floorOf indents) (hrest : Starts rest) :
    exists s', Leads s s' ∧
      Stands true m (.scalar false (String.ofList (kept cs)) :: ts) indents rest s' := by
  rcases hs.cut fun i hi => le_of_floorOf hfloor hi with ⟨line, level, hidle, hcut⟩
  rcases blockScalar_literal hne hkeeps htab hindent hm htold hrest line column with ⟨line', hscan⟩
  rcases toList_literal indent cs with ⟨b, _, hwritten⟩
  generalize htext : (Writer.literal indent cs).toList ++
    afterBlock (cs.getLast?.any isBreak) m rest = text at hscan hcut
  have hshort : rest.length < text.length := by
    rw [← htext, hwritten, afterBlock]
    simp only [List.length_append, List.length_cons]
    omega
  rw [hwritten, List.cons_append] at htext
  subst htext
  generalize hint (cs.head?.any isEdge) ++ ((chompOf cs).mark ++ b :: lined indent true (kept cs)) ++
    afterBlock (cs.getLast?.any isBreak) m rest = more at hscan hcut hshort
  have hnext : (block keyAllowed ⟨'|' :: more, line, column⟩ ts indents level).cut =
      (do
        let found ← blockScalar (floorOf indents) ⟨'|' :: more, line, column⟩
        (block keyAllowed ⟨'|' :: more, line, column⟩ ts indents level).blockToken
          (.scalar false found.text) found.cursor) :=
    cut_block (unmarked_cons (by decide) (by decide) (by decide) column more)
  rw [hscan] at hnext
  have hblock := blockToken_block keyAllowed ts indents hidle
    (.scalar false (String.ofList (kept cs))) ⟨'|' :: more, line, column⟩ ⟨rest, line', m⟩
  refine ⟨_, hcut _ (hnext.trans hblock) (fun hend => by cases hend) hshort, ?_⟩
  exact stands_block hrest (idle_none _ _) _ _ _ _

/-!
## Empty collections
-/

inductive Brackets : Char -> Char -> Token -> Token -> Prop where
  | sequence : Brackets '[' ']' .flowSequence .flowSequenceEnd
  | mapping : Brackets '\x7b' '\x7d' .flowMapping .flowMappingEnd

def bracketed (c : Cursor) (ts : List Token) (indents : List Nat) (level : Level) : Scanner :=
  ⟨c, ts, ts.length, indents, true, ⟨none, some (ts.length - 1)⟩, [level], false⟩

variable (keyAllowed rest ts indents) in
theorem cut_opening
    {left right : Char} {t t' : Token} (hbrackets : Brackets left right t t') {level : Level}
    {line : Nat} (hidle : Idle level line) (hfloor : 0 < column) :
    (block keyAllowed ⟨left :: right :: rest, line, column⟩ ts indents level).cut =
      some (bracketed ⟨right :: rest, line, column + 1⟩ (t :: ts) indents
        (levelAt keyAllowed line column ts indents level)) := by
  have hmarked : Unmarked column (left :: right :: rest) :=
    fun hcolumn => absurd hcolumn (Nat.ne_of_gt hfloor)
  have hopen : (block keyAllowed ⟨left :: right :: rest, line, column⟩ ts indents level).openBracket
      t = some (bracketed ⟨right :: rest, line, column + 1⟩ (t :: ts) indents
        (levelAt keyAllowed line column ts indents level)) := by
    rw [openBracket, keepCandidate_block hidle]
    rfl
  have hcomment : (bracketed ⟨right :: rest, line, column + 1⟩ (t :: ts) indents
      (levelAt keyAllowed line column ts indents level)).pastComment =
      bracketed ⟨right :: rest, line, column + 1⟩ (t :: ts) indents
        (levelAt keyAllowed line column ts indents level) := by
    cases hbrackets <;> rfl
  rw [cut_block hmarked]
  have htoken : (block keyAllowed ⟨left :: right :: rest, line, column⟩ ts indents level).tokenAt
      left (right :: rest) = ((block keyAllowed ⟨left :: right :: rest, line, column⟩ ts indents
        level).openBracket t).map pastComment := by
    cases hbrackets <;> rfl
  rw [htoken, hopen, Option.map_some, hcomment]

theorem leads_brackets
    {left right : Char} {t t' : Token} (hbrackets : Brackets left right t t')
    (hs : Stands keyAllowed column ts indents (left :: right :: newline m rest) s)
    (hfloor : floorOf indents ≤ column) (hcolumn : 0 < column) (hrest : Starts rest) :
    exists s', Leads s s' ∧ Stands true m (t' :: t :: ts) indents rest s' := by
  rcases hs.cut fun i hi => le_of_floorOf hfloor hi with ⟨line, level, hidle, hcut⟩
  have hopen := cut_opening keyAllowed ts indents (newline m rest) hbrackets hidle hcolumn
  have hlead := hcut _ hopen (by cases hbrackets <;> exact nofun) (Nat.lt_succ_self _)
  have hkept : Idle (levelAt keyAllowed line column ts indents level) (line + 1) :=
    idle_levelAt (hidle.mono (Nat.le_succ line)) (Nat.lt_succ_self line) hfloor
  generalize levelAt keyAllowed line column ts indents level = kept at hkept hlead
  have hright : Starts (right :: newline m rest) := by
    cases hbrackets <;> exact starts_cons rfl rfl (by decide) _
  have hsettle : (bracketed ⟨right :: newline m rest, line, column + 1⟩ (t :: ts) indents
      kept).settle =
      bracketed ⟨right :: newline m rest, line, column + 1⟩ (t :: ts) indents kept := by
    unfold settle
    dsimp only [bracketed, inFlow]
    rw [gapFrom_starts hright]
    rfl
  have hclose : (bracketed ⟨right :: newline m rest, line, column + 1⟩ (t :: ts) indents kept).cut =
      some (block false ⟨newline m rest, line, column + 1 + 1⟩ (t' :: t :: ts) indents
        ⟨kept.candidate.map (Candidate.afterLevel (some ts.length)), kept.opening⟩) := by
    cases hbrackets <;> rfl
  have hidle' : Idle ⟨kept.candidate.map (Candidate.afterLevel (some ts.length)), kept.opening⟩
      (line + 1) := by
    intro c hc
    rcases Option.map_eq_some_iff.mp hc with ⟨c', hc', rfl⟩
    exact hkept c' hc'
  have hlead' := leads_of_cut hsettle hclose (by cases hbrackets <;> exact nofun)
    (Nat.lt_succ_self _)
  exact ⟨_, hlead.trans hlead', stands_newline hrest hidle' _ _ _ _ _⟩

/-!
## Keys
-/

structure Separator (rest : List Char) : Prop where
  endsWord : Cursor.endsWord rest = true
  uncommented : exists n cs, rest = List.replicate n ' ' ++ cs ∧ Uncommented cs

theorem Separator.pastComment
    (h : Separator rest) (line : Nat) (level : Level) :
    (block keyAllowed ⟨rest, line, column⟩ ts indents level).pastComment =
      block keyAllowed ⟨rest, line, column⟩ ts indents level := by
  rcases h.uncommented with ⟨n, cs, rfl, hcs⟩
  exact pastComment_block _ _ _ _ _ _ hcs n

theorem separator_spaces {cs : List Char} (h : Starts cs) (n : Nat) :
    Separator (List.replicate (n + 1) ' ' ++ cs) :=
  ⟨rfl, n + 1, cs, rfl, uncommented_of_starts h⟩

theorem separator_newline (m : Nat) (cs : List Char) : Separator (newline m cs) :=
  ⟨rfl, 0, newline m cs, rfl, uncommented_newline m cs⟩

theorem tokenAt_colon (h : Separator rest) (s : Scanner) :
    s.tokenAt ':' rest = s.colon.map pastComment := by
  unfold tokenAt
  dsimp only
  rw [h.endsWord]
  simp

/-- A short key stands before its colon. -/
theorem leads_key
    {indents' : List Nat} {ts' : List Token} {w : List Char} {plain : Bool} {text : String}
    (h : Inline w plain text) (hline : OneLine text) (hlength : w.length ≤ maxKeyLength)
    (hopens : Opens column .blockMapping indents ts indents' ts')
    (hs : Stands true column ts indents (w ++ ':' :: rest) s) (hrest : Separator rest) :
    exists line, Leads s (block false ⟨rest, line, column + w.length + 1⟩
      (.value :: .scalar plain text :: .key :: ts') indents' ⟨none, none⟩) := by
  rcases hs.cut fun i hi => hopens.head_le hi with ⟨line, level, hidle, hcut⟩
  have hfound : (if plain then Yaml.plain false (floorOf indents) ⟨w ++ ':' :: rest, line, column⟩
      else quoted ⟨w ++ ':' :: rest, line, column⟩) =
      some ⟨text, ⟨':' :: rest, line, column + w.length⟩, false⟩ := by
    cases h with
    | plain hplain => exact (if_pos rfl).trans (hplain.plain_key hrest.endsWord)
    | quoted _ _ hread =>
        rcases hread (':' :: rest) line column nofun with ⟨line', column', hscan, _, hplace⟩
        rcases hplace hline with ⟨rfl, rfl⟩
        exact (if_neg Bool.false_ne_true).trans hscan
  have hnext := cut_inline true ts indents h (fun a ha => by cases ha; decide) hidle hfound
    fun _ => rfl
  rw [if_neg Bool.false_ne_true] at hnext
  have hcomment : Uncommented (':' :: rest) := fun c hc => by cases hc; exact ⟨rfl, by decide⟩
  have hpast := pastComment_block false line (column + w.length) (.scalar plain text :: ts) indents
    (levelAt true line column ts indents level) hcomment 0
  rw [List.replicate_zero, List.nil_append] at hpast
  dsimp only at hnext
  rw [hpast] at hnext
  have hpos : 0 < w.length := by
    cases h with
    | plain hplain => exact List.length_pos_iff.mpr hplain.ne_nil
    | quoted _ _ _ => exact Nat.succ_pos _
  have hlead := hcut _ hnext nofun (by
    change (':' :: rest).length < _
    rw [List.length_append]
    omega)
  have hstarts : Starts (':' :: rest) := starts_cons rfl rfl (by decide) rest
  have hsettle : (block false ⟨':' :: rest, line, column + w.length⟩ (.scalar plain text :: ts)
      indents (levelAt true line column ts indents level)).settle = _ :=
    settle_block_inside hstarts fun i hi => Nat.le_add_right_of_le (hopens.head_le hi)
  have hcolon : (block false ⟨':' :: rest, line, column + w.length⟩ (.scalar plain text :: ts)
      indents (levelAt true line column ts indents level)).cut =
      some (block false ⟨rest, line, column + w.length + 1⟩
        (.value :: .scalar plain text :: .key :: ts') indents' ⟨none, none⟩) := by
    rw [cut_block fun hzero => absurd hzero (by omega), tokenAt_colon hrest]
    refine (congrArg (Option.map Scanner.pastComment) (colon_block hopens hlength)).trans ?_
    exact congrArg some (hrest.pastComment line ⟨none, none⟩)
  exact ⟨line, hlead.trans (leads_of_cut hsettle hcolon nofun (Nat.lt_succ_self _))⟩

/-- Any other key stands on a line of its own after a question mark, before the line of its colon. -/
theorem leads_announced
    {indents' : List Nat} {ts' : List Token} {w : List Char} {plain : Bool} {text : String}
    (h : Inline w plain text) (hopens : Opens column .blockMapping indents ts indents' ts')
    (hs : Stands true column ts indents ('?' :: ' ' :: (w ++ newline column (':' :: rest))) s)
    (hrest : Separator rest) :
    exists line level, Idle level line ∧ Leads s (block true ⟨rest, line, column + 1⟩
      (.value :: .scalar plain text :: .key :: ts') indents' level) := by
  rcases hs.cut fun i hi => hopens.head_le hi with ⟨line, level, hidle, hcut⟩
  have hfloor : floorOf indents' = column + 1 := by
    rcases hopens.exists_eq with ⟨outside, rfl⟩
    rfl
  have hw : Starts (w ++ newline column (':' :: rest)) := starts_of_inline h _
  have hquestion : (block true ⟨'?' :: ' ' :: (w ++ newline column (':' :: rest)), line, column⟩ ts
      indents level).cut =
      some (block true ⟨' ' :: (w ++ newline column (':' :: rest)), line, column + 1⟩
        (.key :: ts') indents' ⟨none, level.opening⟩) := by
    have hmarked : Unmarked column ('?' :: ' ' :: (w ++ newline column (':' :: rest))) :=
      unmarked_cons (by decide) (by decide) (by decide) column _
    rw [cut_block hmarked]
    refine (congrArg (Option.map Scanner.pastComment) (question_block hopens hidle)).trans ?_
    exact congrArg some (pastComment_block _ _ _ _ _ _ (uncommented_of_starts hw) 1)
  have hlead := hcut _ hquestion nofun (Nat.lt_succ_self _)
  have hstands : Stands true (column + 2) (.key :: ts') indents'
      (w ++ newline column (':' :: rest)) _ :=
    stands_spaces (n := 1) hw (idle_none level.opening line) true (column + 1) (.key :: ts') indents'
  have hcolonStarts : Starts (':' :: rest) := starts_cons rfl rfl (by decide) rest
  rcases leads_inline h hstands (by omega) (by omega) hcolonStarts with ⟨s', hlead', hs'⟩
  have hinside : forall i, indents'.head? = some i -> i ≤ column := by
    rcases hopens.exists_eq with ⟨outside, rfl⟩
    rintro i ⟨⟩
    exact Nat.le_refl _
  rcases hs'.cut hinside with ⟨line', level', hidle', hcut'⟩
  have hcolon : (block true ⟨':' :: rest, line', column⟩ (.scalar plain text :: .key :: ts') indents'
      level').cut =
      some (block true ⟨rest, line', column + 1⟩ (.value :: .scalar plain text :: .key :: ts')
        indents' ⟨none, level'.opening⟩) := by
    have hmarked : Unmarked column (':' :: rest) :=
      unmarked_cons (by decide) (by decide) (by decide) column rest
    rw [cut_block hmarked, tokenAt_colon hrest]
    rcases hopens.exists_eq with ⟨outside, rfl⟩
    refine (congrArg (Option.map Scanner.pastComment) (colon_block_of_idle hidle')).trans ?_
    exact congrArg some (hrest.pastComment line' ⟨none, level'.opening⟩)
  refine ⟨line', _, idle_none level'.opening line', ?_⟩
  exact hlead.trans (hlead'.trans (hcut' _ hcolon nofun (Nat.lt_succ_self _)))

/-!
## Items
-/

theorem leads_item
    {indents' : List Nat} {ts' : List Token}
    (hopens : Opens column .blockSequence indents ts indents' ts')
    (hs : Stands true column ts indents ('-' :: ' ' :: rest) s) (hrest : Starts rest) :
    exists s', Leads s s' ∧ Stands true (column + 2) (.item :: ts') indents' rest s' := by
  rcases hs.cut fun i hi => hopens.head_le hi with ⟨line, level, hidle, hcut⟩
  have hdash : (block true ⟨'-' :: ' ' :: rest, line, column⟩ ts indents level).cut =
      some (block true ⟨' ' :: rest, line, column + 1⟩ (.item :: ts') indents'
        ⟨none, level.opening⟩) := by
    have hmarked : Unmarked column ('-' :: ' ' :: rest) :=
      fun _ => ⟨by simp, by simp [startsLikeDocument, List.isPrefixOf]⟩
    rw [cut_block hmarked]
    exact dash_block hopens hidle
  refine ⟨_, hcut _ hdash (fun hend => by cases hend) (Nat.lt_succ_self _), ?_⟩
  exact stands_spaces (n := 1) hrest (idle_none level.opening line) true (column + 1) (.item :: ts')
    indents'

end

end Scanner
end Yaml
end DefTable
