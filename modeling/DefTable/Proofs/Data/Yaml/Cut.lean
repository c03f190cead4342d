import DefTable.Proofs.Data.Yaml.Scan

/-!
# The tokens of what is written

What is written for a key, for the start of an item and for a scalar is cut off as the tokens it
stands for.  Where a block collection starts, its own token stands in front of them.
-/

namespace DefTable
namespace Yaml
namespace Scanner

/-- Items and entries belong to the block collection in their own column, which the first of them
opens. -/
inductive Opens (column : Nat) (opening : Token) :
    List Nat -> List Token -> List Nat -> List Token -> Prop where
  | inside {indents ts} : Opens column opening (column :: indents) ts (column :: indents) ts
  | first {indents ts} :
      floorOf indents ≤ column -> indents.length < maxNesting ->
      Opens column opening indents ts (column :: indents) (opening :: ts)

section

variable {keyAllowed : Bool} {rest : List Char} {line column : Nat} {ts : List Token}
  {indents : List Nat} {level : Level}

/-!
## Places of keys
-/

/-- What is known of the keys after a token that may be one. -/
def levelAt (keyAllowed : Bool) (line column : Nat) (ts : List Token) (indents : List Nat)
    (level : Level) : Level :=
  if keyAllowed then ⟨some ⟨ts.length, line, column, indents.head? = some column, false⟩, none⟩
  else level

theorem dropCandidate_block (h : Idle level line) (c : Cursor) :
    (block keyAllowed c ts indents level).dropCandidate =
      some (block keyAllowed c ts indents ⟨none, level.opening⟩) := by
  rw [dropCandidate]
  change (if level.candidate.any Candidate.required = true then none else _) = _
  rw [h.not_required, if_neg Bool.false_ne_true]
  rfl

theorem keepCandidate_block (h : Idle level line) :
    (block keyAllowed ⟨rest, line, column⟩ ts indents level).keepCandidate =
      some (block keyAllowed ⟨rest, line, column⟩ ts indents
        (levelAt keyAllowed line column ts indents level)) := by
  cases keyAllowed with
  | false => rfl
  | true =>
      rw [keepCandidate]
      dsimp only
      rw [dropCandidate_block h]
      rfl

theorem inlineToken_block (h : Idle level line) (t : Token) (stop : Cursor) (keyAllowed' : Bool) :
    (block keyAllowed ⟨rest, line, column⟩ ts indents level).inlineToken t stop keyAllowed' =
      some (block keyAllowed' stop (t :: ts) indents
        (levelAt keyAllowed line column ts indents level)) := by
  rw [inlineToken, keepCandidate_block h]
  rfl

variable (keyAllowed ts indents) in
theorem blockToken_block (h : Idle level line) (t : Token) (c stop : Cursor) :
    (block keyAllowed c ts indents level).blockToken t stop =
      some (block true stop (t :: ts) indents ⟨none, level.opening⟩) := by
  rw [blockToken, dropCandidate_block h]
  rfl

theorem idle_levelAt
    {line' : Nat} (h : Idle level line') (hline : line < line') (hfloor : floorOf indents ≤ column) :
    Idle (levelAt keyAllowed line column ts indents level) line' := by
  cases keyAllowed with
  | false => exact h
  | true =>
      intro c hc
      cases hc
      refine ⟨?_, hline⟩
      cases indents with
      | nil => rfl
      | cons i indents =>
          have hlt : i < column := hfloor
          simp [Nat.ne_of_lt hlt]

theorem Idle.mono {line' : Nat} (h : Idle level line) (hline : line ≤ line') : Idle level line' :=
  fun c hc => ⟨(h c hc).1, Nat.lt_of_lt_of_le (h c hc).2 hline⟩

theorem le_of_floorOf {i : Nat} (hfloor : floorOf indents ≤ column) (hi : indents.head? = some i) :
    i ≤ column := by
  cases indents with
  | nil => cases hi
  | cons j indents =>
      cases hi
      exact Nat.le_of_succ_le hfloor

/-!
## Comments
-/

def Uncommented (cs : List Char) : Prop :=
  forall c, cs.head? = some c -> isBlank c = false ∧ c ≠ '#'

theorem uncommented_of_starts {cs : List Char} (h : Starts cs) : Uncommented cs :=
  fun c hc => ⟨(h c hc).1, (h c hc).2.2⟩

theorem uncommented_newline (m : Nat) (cs : List Char) : Uncommented (newline m cs) := by
  intro c hc
  cases hc
  exact ⟨rfl, by decide⟩

variable (keyAllowed line column ts indents level) in
theorem pastComment_block
    {cs : List Char} (h : Uncommented cs) (n : Nat) :
    (block keyAllowed ⟨List.replicate n ' ' ++ cs, line, column⟩ ts indents level).pastComment =
      block keyAllowed ⟨List.replicate n ' ' ++ cs, line, column⟩ ts indents level := by
  have hblanks : (List.replicate n ' ' ++ cs).takeWhile isBlank = List.replicate n ' ' := by
    have hnone : cs.takeWhile isBlank = [] := by
      cases cs with
      | nil => rfl
      | cons c cs => exact List.takeWhile_cons_of_neg (by simp [(h c rfl).1])
    rw [List.takeWhile_append_of_pos fun c hc => by rw [List.eq_of_mem_replicate hc]; rfl, hnone,
      List.append_nil]
  have hcomment : cs.head? ≠ some '#' := fun hhash => (h '#' hhash).2 rfl
  have hsame : lineComment ⟨List.replicate n ' ' ++ cs, line, column⟩ =
      ⟨List.replicate n ' ' ++ cs, line, column⟩ := by
    rw [lineComment]
    dsimp only
    rw [hblanks, List.drop_left' rfl]
    simp [hcomment]
  exact congrArg (fun c => block keyAllowed c ts indents level) hsame

/-!
## Tokens by their first character
-/

def Unmarked (column : Nat) (cs : List Char) : Prop :=
  column = 0 -> cs.head? ≠ some '%' ∧ startsLikeDocument cs = false

theorem cut_block
    {c : Char} {cs : List Char} (h : Unmarked column (c :: cs)) :
    (block keyAllowed ⟨c :: cs, line, column⟩ ts indents level).cut =
      (block keyAllowed ⟨c :: cs, line, column⟩ ts indents level).tokenAt c cs := by
  have hdirective : (decide (column = 0) && decide (c = '%')) = false := by
    by_cases hcolumn : column = 0
    · have hc : c ≠ '%' := fun heq => (h hcolumn).1 (congrArg some heq)
      rw [decide_eq_false hc, Bool.and_false]
    · rw [decide_eq_false hcolumn, Bool.false_and]
  have hmarker : Cursor.atMarker ⟨c :: cs, line, column⟩ = false := by
    by_cases hcolumn : column = 0
    · rw [Cursor.atMarker, (h hcolumn).2, Bool.and_false, Bool.false_and]
    · exact atMarker_of_column (Nat.pos_of_ne_zero hcolumn)
  exact (if_neg (Bool.eq_false_iff.mp hdirective)).trans (if_neg (Bool.eq_false_iff.mp hmarker))

theorem unmarked_cons
    {c : Char} (hdirective : c ≠ '%') (hdash : c ≠ '-') (hdot : c ≠ '.') (column : Nat)
    (cs : List Char) : Unmarked column (c :: cs) :=
  fun _ => ⟨fun heq => hdirective (Option.some.inj heq), not_startsLikeDocument hdash hdot cs⟩

theorem unmarked_of_inline
    {w after text} {plain : Bool} (h : Inline w plain text)
    (hafter : forall a, after.head? = some a -> '-' ≠ a ∧ '.' ≠ a) (column : Nat) :
    Unmarked column (w ++ after) := by
  cases h with
  | plain hplain =>
      refine fun _ => ⟨?_, startsLikeDocument_append hplain.marker hafter⟩
      cases w with
      | nil => exact absurd rfl hplain.ne_nil
      | cons c cs =>
          rintro ⟨⟩
          exact nomatch hplain.first.1
  | quoted hquote _ _ =>
      rcases hquote with rfl | rfl
      · exact unmarked_cons (by decide) (by decide) (by decide) column _
      · exact unmarked_cons (by decide) (by decide) (by decide) column _

theorem starts_of_inline {w text} {plain : Bool} (h : Inline w plain text) (after : List Char) :
    Starts (w ++ after) := by
  cases h with
  | plain hplain =>
      cases w with
      | nil => exact absurd rfl hplain.ne_nil
      | cons c cs =>
          refine starts_cons (hplain.isBlank_head rfl) (hplain.noBreak c List.mem_cons_self) ?_ _
          rintro rfl
          exact nomatch hplain.first.1
  | quoted hquote _ _ =>
      rcases hquote with rfl | rfl
      · exact starts_cons rfl rfl (by decide) _
      · exact starts_cons rfl rfl (by decide) _

theorem tokenAt_plain
    {c : Char} {cs after : List Char} (h : PlainText (c :: cs)) (s : Scanner)
    (hflow : s.inFlow = false) :
    s.tokenAt c (cs ++ after) = (do
      let found ← plain false s.floor s.cursor
      let s ← s.inlineToken (.scalar true found.text) found.cursor found.crossed
      return if found.crossed then s else s.pastComment) := by
  rcases h.first with ⟨hleads, hword, _⟩
  have hne : forall d, leadsBadly d = true -> c ≠ d := by
    rintro d hd rfl
    exact nomatch hleads.symm.trans hd
  have hends : forall d, d = '?' ∨ d = ':' ∨ d = '-' ->
      (decide (c = d) && Cursor.endsWord (cs ++ after)) = false := by
    intro d hd
    by_cases hc : c = d
    · subst hc
      rw [hword hd, Bool.and_false]
    · rw [decide_eq_false hc, Bool.false_and]
  have hstarts : startsPlain false c (cs ++ after) = true := by
    have hblank := h.isBlank_head rfl
    have hbreak := h.noBreak c List.mem_cons_self
    unfold startsPlain
    rw [hblank, hbreak, Bool.false_or, if_neg Bool.false_ne_true]
    split
    · rename_i hc
      rw [hword (.inr (.inr hc))]
      rfl
    · split
      · rename_i hc
        rw [Bool.or_eq_true, decide_eq_true_eq, decide_eq_true_eq] at hc
        rw [hword (hc.imp_right .inl)]
        rfl
      · rw [hleads]
        rfl
  unfold tokenAt
  dsimp only
  rw [hflow, Bool.false_or, hends '-' (by simp), hends '?' (by simp), hends ':' (by simp), hstarts]
  simp only [hne '[' rfl, hne ']' rfl, hne '\x7b' rfl, hne '\x7d' rfl, hne ',' rfl, hne '*' rfl,
    hne '&' rfl, hne '!' rfl, hne '|' rfl, hne '>' rfl, hne '\'' rfl, hne '"' rfl, if_false,
    Bool.false_eq_true, decide_false, Bool.or_false, Bool.false_and, if_true]

theorem tokenAt_quoted
    {quote : Char} (hquote : quote = '\'' ∨ quote = '"') (cs : List Char) (s : Scanner) :
    s.tokenAt quote cs = (do
      let found ← quoted s.cursor
      (s.inlineToken (.scalar false found.text) found.cursor false).map pastComment) := by
  rcases hquote with rfl | rfl <;> rfl

variable (keyAllowed ts indents) in
theorem cut_inline
    {w after : List Char} {plain : Bool} {text : String} {found : Scanned} (h : Inline w plain text)
    (hafter : forall a, after.head? = some a -> '-' ≠ a ∧ '.' ≠ a) (hidle : Idle level line)
    (hfound : (if plain then Yaml.plain false (floorOf indents) ⟨w ++ after, line, column⟩
      else quoted ⟨w ++ after, line, column⟩) = some found)
    (hcrossed : plain = false -> found.crossed = false) :
    (block keyAllowed ⟨w ++ after, line, column⟩ ts indents level).cut =
      some (if found.crossed then
          block found.crossed found.cursor (.scalar plain found.text :: ts) indents
            (levelAt keyAllowed line column ts indents level)
        else (block found.crossed found.cursor (.scalar plain found.text :: ts) indents
            (levelAt keyAllowed line column ts indents level)).pastComment) := by
  have hmarked := unmarked_of_inline h hafter column
  cases h with
  | plain hplain =>
      rw [if_pos rfl] at hfound
      cases w with
      | nil => exact absurd rfl hplain.ne_nil
      | cons c cs =>
          rw [List.cons_append] at hfound hmarked ⊢
          rw [cut_block hmarked, tokenAt_plain hplain _ rfl]
          change (Yaml.plain false (floorOf indents) ⟨c :: (cs ++ after), line, column⟩).bind _ = _
          rw [hfound, Option.bind_some, inlineToken_block hidle]
          rfl
  | quoted hquote _ _ =>
      rename_i quote cs _ _
      rw [if_neg Bool.false_ne_true] at hfound
      rw [List.cons_append] at hfound hmarked ⊢
      rw [cut_block hmarked, tokenAt_quoted hquote]
      change (quoted ⟨quote :: (cs ++ after), line, column⟩).bind _ = _
      rw [hfound, Option.bind_some, inlineToken_block hidle, hcrossed rfl]
      rfl

/-!
## Collections
-/

theorem Opens.head_le
    {opening : Token} {indents' : List Nat} {ts' : List Token}
    (h : Opens column opening indents ts indents' ts') {i : Nat} (hi : indents.head? = some i) :
    i ≤ column := by
  cases h with
  | inside =>
      cases hi
      exact Nat.le_refl _
  | first hfloor _ => exact le_of_floorOf hfloor hi

theorem Opens.exists_eq
    {opening : Token} {indents' : List Nat} {ts' : List Token}
    (h : Opens column opening indents ts indents' ts') :
    exists outside, indents' = column :: outside := by
  cases h with
  | inside => exact ⟨_, rfl⟩
  | first _ _ => exact ⟨_, rfl⟩

theorem insert_block (front : List Token) (c : Cursor) (t : Token) :
    (block keyAllowed c (front ++ ts) indents level).insert ts.length t =
      block keyAllowed c (front ++ t :: ts) indents level := by
  have hlater : (front ++ ts).length - ts.length = front.length := by simp
  unfold insert
  dsimp only [block]
  rw [hlater, List.take_left' rfl, List.drop_left' rfl]
  simp only [List.length_append, List.length_cons, Nat.add_assoc]

variable (keyAllowed level) in
theorem startBlock_block
    {opening : Token} {indents' : List Nat} {ts' : List Token}
    (h : Opens column opening indents ts indents' ts') (front : List Token) (c : Cursor) :
    (block keyAllowed c (front ++ ts) indents level).startBlock column ts.length opening =
      some (block keyAllowed c (front ++ ts') indents' level) := by
  unfold startBlock
  cases h with
  | inside => rw [if_pos (by simp [block, inFlow, floor])]
  | first hfloor hdepth =>
      have hfloor' : ¬ column < (block keyAllowed c (front ++ ts) indents level).floor :=
        Nat.not_lt.mpr hfloor
      rw [if_neg (by simpa [block, inFlow] using hfloor')]
      refine (if_neg (Nat.not_le.mpr hdepth)).trans ?_
      exact congrArg some (insert_block front c opening)

theorem colon_block
    {opening : Option Nat} {indents' : List Nat} {ts' : List Token} {t : Token} {n : Nat}
    {required : Bool} (h : Opens column .blockMapping indents ts indents' ts')
    (hn : n ≤ maxKeyLength) :
    (block keyAllowed ⟨':' :: rest, line, column + n⟩ (t :: ts) indents
        ⟨some ⟨ts.length, line, column, required, false⟩, opening⟩).colon =
      some (block false ⟨rest, line, column + n + 1⟩ (.value :: t :: .key :: ts') indents'
        ⟨none, opening⟩) := by
  have hinsert : (block keyAllowed ⟨':' :: rest, line, column + n⟩ (t :: ts) indents
      ⟨some ⟨ts.length, line, column, required, false⟩, opening⟩).insert ts.length .key = _ :=
    insert_block [t] ⟨':' :: rest, line, column + n⟩ .key
  have hannounce : (block keyAllowed ⟨':' :: rest, line, column + n⟩ (t :: ts) indents
      ⟨some ⟨ts.length, line, column, required, false⟩, opening⟩).announce
        ⟨ts.length, line, column, required, false⟩ =
      some (block keyAllowed ⟨':' :: rest, line, column + n⟩ (t :: .key :: ts') indents'
        ⟨some ⟨ts.length, line, column, required, false⟩, opening⟩) := by
    rw [announce, if_neg (by simp [isPast]), hinsert]
    exact startBlock_block keyAllowed _ h [t, .key] _
  have hnear : (block keyAllowed ⟨':' :: rest, line, column + n⟩ (t :: ts) indents
      ⟨some ⟨ts.length, line, column, required, false⟩, opening⟩).isNear
        ⟨ts.length, line, column, required, false⟩ = true := by
    simp [isNear, block, hn]
  refine (if_pos hnear).trans ?_
  rw [hannounce]
  rfl

theorem colon_block_of_idle {outside : List Nat} (hidle : Idle level line) :
    (block true ⟨':' :: rest, line, column⟩ ts (column :: outside) level).colon =
      some (block true ⟨rest, line, column + 1⟩ (.value :: ts) (column :: outside)
        ⟨none, level.opening⟩) := by
  have hstart := startBlock_block true ⟨none, level.opening⟩
    (.inside : Opens column .blockMapping (column :: outside) ts (column :: outside) ts) []
    ⟨':' :: rest, line, column⟩
  rw [List.nil_append] at hstart
  have hloose : (block true ⟨':' :: rest, line, column⟩ ts (column :: outside)
      ⟨none, level.opening⟩).looseColon =
      some (block true ⟨rest, line, column + 1⟩ (.value :: ts) (column :: outside)
        ⟨none, level.opening⟩) := by
    rw [looseColon, if_neg (by simp [block])]
    exact (congrArg (fun x : Option Scanner => x.bind _) hstart).trans rfl
  rw [← hloose]
  rcases level with ⟨candidate, opening⟩
  cases candidate with
  | none => rfl
  | some c =>
      rcases hidle c rfl with ⟨hrequired, hearlier⟩
      have hfar : (block true ⟨':' :: rest, line, column⟩ ts (column :: outside)
          ⟨some c, opening⟩).isNear c = false := by
        simp [isNear, block, Nat.ne_of_lt hearlier]
      refine (if_neg (Bool.eq_false_iff.mp hfar)).trans ?_
      rw [hrequired, if_neg Bool.false_ne_true]
      rfl

/-- A mark that starts a block collection is taken, whatever token it gives. -/
theorem mark_block
    (allows : Scanner -> Bool) {opening : Token} {indents' : List Nat} {ts' : List Token} {c : Char}
    (h : Opens column opening indents ts indents' ts') (hidle : Idle level line)
    (hallows : allows (block true ⟨c :: rest, line, column⟩ ts' indents' ⟨none, level.opening⟩) = true)
    (token : Token) :
    ((block true ⟨c :: rest, line, column⟩ ts indents level).startBlock column ts.length
        opening).bind
          (fun s => s.dropCandidate.bind fun s =>
            some ({ s with keyAllowed := allows s }.take token 1)) =
      some (block true ⟨rest, line, column + 1⟩ (token :: ts') indents' ⟨none, level.opening⟩) := by
  have hstart := startBlock_block true level h [] ⟨c :: rest, line, column⟩
  rw [List.nil_append, List.nil_append] at hstart
  rw [hstart, Option.bind_some, dropCandidate_block hidle, Option.bind_some, hallows]
  rfl

theorem question_block
    {indents' : List Nat} {ts' : List Token}
    (h : Opens column .blockMapping indents ts indents' ts') (hidle : Idle level line) :
    (block true ⟨'?' :: rest, line, column⟩ ts indents level).question =
      some (block true ⟨rest, line, column + 1⟩ (.key :: ts') indents' ⟨none, level.opening⟩) := by
  rw [question, if_neg (by simp [block])]
  exact mark_block (fun s => !s.inFlow) h hidle rfl .key

theorem dash_block
    {indents' : List Nat} {ts' : List Token}
    (h : Opens column .blockSequence indents ts indents' ts') (hidle : Idle level line) :
    (block true ⟨'-' :: rest, line, column⟩ ts indents level).dash =
      some (block true ⟨rest, line, column + 1⟩ (.item :: ts') indents' ⟨none, level.opening⟩) := by
  rw [dash, if_neg (by simp [block])]
  exact mark_block (fun _ => true) h hidle rfl .item

end

end Scanner
end Yaml
end DefTable
