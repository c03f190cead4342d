import DefTable.Data.Yaml.Scan
import DefTable.Proofs.Data.Yaml.Style

/-!
# How the scanner moves over what is written

Between two tokens the scanner passes over a gap, and the column behind it tells which block
collections end there.  What is written for a key, for a dash or for a scalar is cut off as exactly
the tokens it stands for, and the scanner then stands at the next token.
-/

namespace DefTable
namespace Yaml
namespace Scanner

/-!
## Gaps
-/

/-- Pass over the gap before the next token, and end the block collections that end there. -/
def settle (s : Scanner) : Scanner :=
  let c := s.cursor
  let gap := gapFrom ⟨s.inFlow, s.marked⟩ .space s.keyAllowed c.line c.column c.rest
  let s := { s with
    cursor := gap.cursor
    keyAllowed := gap.keyAllowed
    marked := s.marked && !(gap.cursor.rest.drop 3).isEmpty }
  s.endBlocks fun column => gap.cursor.column < column

/-- Cut off the token at the cursor. -/
def cut (s : Scanner) : Option Scanner :=
  match s.cursor.rest with
  | [] => s.finish
  | c :: rest =>
    if s.cursor.column = 0 && c = '%' then do
      let (t, stop) ← directive s.cursor
      let s ← (s.endBlocks fun _ => true).dropCandidate
      return { s.push t with cursor := stop, keyAllowed := false }
    else if s.cursor.atMarker then
      s.separator (if c = '-' then .documentStart else .documentEnd)
    else s.tokenAt c rest

theorem fetch_eq (s : Scanner) : s.fetch = s.settle.cut := rfl

theorem gapFrom_starts
    {rest : List Char} (hrest : Starts rest) (flow keyAllowed : Bool) (line column : Nat) :
    gapFrom ⟨flow, false⟩ .space keyAllowed line column rest =
      ⟨⟨rest, line, column⟩, keyAllowed⟩ := by
  cases rest with
  | nil => rfl
  | cons c rest =>
      rcases hrest c rfl with ⟨hblank, hbreak, hcomment⟩
      rw [isBlank, Bool.or_eq_false_iff, decide_eq_false_iff_not, decide_eq_false_iff_not] at hblank
      rw [gapFrom]
      simp [hbreak, hblank, hcomment]

theorem gapFrom_spaces (keyAllowed : Bool) (line column n : Nat) (rest : List Char) :
    gapFrom ⟨false, false⟩ .space keyAllowed line column (List.replicate n ' ' ++ rest) =
      gapFrom ⟨false, false⟩ .space keyAllowed line (column + n) rest := by
  induction n generalizing column with
  | zero => rfl
  | succ n ih =>
      rw [List.replicate_succ, List.cons_append, gapFrom]
      simp only [Bool.false_and, Bool.false_eq_true, if_false, decide_true, Bool.true_or, if_true]
      rw [if_neg (by decide), ih, Nat.add_assoc, Nat.add_comm 1]

theorem gapFrom_newline (keyAllowed : Bool) (line column m : Nat) (rest : List Char) :
    gapFrom ⟨false, false⟩ .space keyAllowed line column (newline m rest) =
      gapFrom ⟨false, false⟩ .space true (line + 1) m rest := by
  have hbreak : gapFrom ⟨false, false⟩ .space keyAllowed line column (newline m rest) =
      gapFrom ⟨false, false⟩ .space (keyAllowed || true) (line + 1) 0
        (List.replicate m ' ' ++ rest) := by
    rw [newline, gapFrom]
    simp [isBreak]
  rw [hbreak, Bool.or_true, gapFrom_spaces, Nat.zero_add]

theorem length_gapFrom_le
    (rule : LineRule) (filling : Filling) (keyAllowed : Bool) (line column : Nat)
    (cs : List Char) :
    (gapFrom rule filling keyAllowed line column cs).cursor.rest.length ≤ cs.length := by
  induction cs generalizing filling keyAllowed line column with
  | nil => exact Nat.le_of_eq (by rw [gapFrom])
  | cons c cs ih =>
      have hstep : forall filling keyAllowed line column,
          (gapFrom rule filling keyAllowed line column cs).cursor.rest.length ≤
            (c :: cs).length :=
        fun filling keyAllowed line column =>
          Nat.le_succ_of_le (ih filling keyAllowed line column)
      cases filling with
      | comment =>
          rw [gapFrom]
          split
          · exact hstep _ _ _ _
          · split <;> exact hstep _ _ _ _
      | between =>
          rw [gapFrom]
          split
          · exact hstep _ _ _ _
          · split <;> exact hstep _ _ _ _
      | space =>
          rw [gapFrom]
          split
          · exact hstep _ _ _ _
          · split
            · exact hstep _ _ _ _
            · split
              · exact hstep _ _ _ _
              · split
                · exact hstep _ _ _ _
                · exact Nat.le_refl _

theorem cursor_endBlocks (ends : Nat -> Bool) (s : Scanner) : (s.endBlocks ends).cursor = s.cursor := by
  have hfold : forall (ended : List Nat) (s : Scanner),
      (ended.foldl (fun s _ => s.push .blockEnd) s).cursor = s.cursor := by
    intro ended
    induction ended with
    | nil => exact fun _ => rfl
    | cons i ended ih => exact fun s => (ih _).trans rfl
  unfold endBlocks
  split
  · rfl
  · exact hfold _ _

theorem tokens_suffix_endBlocks (ends : Nat -> Bool) (s : Scanner) :
    s.tokens <:+ (s.endBlocks ends).tokens := by
  have hfold : forall (ended : List Nat) (s : Scanner),
      s.tokens <:+ (ended.foldl (fun s _ => s.push .blockEnd) s).tokens := by
    intro ended
    induction ended with
    | nil => exact fun _ => List.suffix_rfl
    | cons i ended ih =>
        intro s
        have hpush : s.tokens <:+ (s.push .blockEnd).tokens := List.suffix_cons _ _
        exact hpush.trans (ih (s.push .blockEnd))
  unfold endBlocks
  split
  · exact List.suffix_rfl
  · exact hfold (s.indents.takeWhile ends)
      { s with indents := s.indents.drop (s.indents.takeWhile ends).length }

theorem tokens_suffix_settle (s : Scanner) : s.tokens <:+ s.settle.tokens := by
  unfold settle
  dsimp only
  refine List.IsSuffix.trans ?_ (tokens_suffix_endBlocks _ _)
  exact List.suffix_rfl

theorem length_settle_le (s : Scanner) :
    s.settle.cursor.rest.length ≤ s.cursor.rest.length := by
  unfold settle
  rw [cursor_endBlocks]
  exact length_gapFrom_le _ _ _ _ _ _

/-!
## Outside of brackets
-/

def block (keyAllowed : Bool) (c : Cursor) (ts : List Token) (indents : List Nat) (level : Level) :
    Scanner :=
  ⟨c, ts, ts.length, indents, keyAllowed, level, [], false⟩

def floorOf : List Nat -> Nat
  | [] => 0
  | column :: _ => column + 1

section

variable {keyAllowed : Bool} {c : Cursor} {ts : List Token} {indents : List Nat} {level : Level}

theorem settle_block_spaces {line column n : Nat} {rest : List Char} :
    (block keyAllowed ⟨List.replicate n ' ' ++ rest, line, column⟩ ts indents level).settle =
      (block keyAllowed ⟨rest, line, column + n⟩ ts indents level).settle := by
  unfold settle
  dsimp only [block, inFlow]
  rw [show (!([] : List Level).isEmpty) = false from rfl, gapFrom_spaces]

theorem settle_block_newline {line column m : Nat} {rest : List Char} :
    (block keyAllowed ⟨newline m rest, line, column⟩ ts indents level).settle =
      (block true ⟨rest, line + 1, m⟩ ts indents level).settle := by
  unfold settle
  dsimp only [block, inFlow]
  rw [show (!([] : List Level).isEmpty) = false from rfl, gapFrom_newline]

theorem settle_block_starts (hrest : Starts c.rest) :
    (block keyAllowed c ts indents level).settle =
      (block keyAllowed c ts indents level).endBlocks fun column => c.column < column := by
  unfold settle
  dsimp only [block, inFlow]
  rw [show (!([] : List Level).isEmpty) = false from rfl, gapFrom_starts hrest]
  rfl

theorem settle_block_inside
    (hrest : Starts c.rest) (h : forall i, indents.head? = some i -> i ≤ c.column) :
    (block keyAllowed c ts indents level).settle = block keyAllowed c ts indents level := by
  rw [settle_block_starts hrest, endBlocks, if_neg (by simp [block, inFlow])]
  have hnone : (block keyAllowed c ts indents level).indents.takeWhile
      (fun column => c.column < column) = [] := by
    change indents.takeWhile _ = []
    cases indents with
    | nil => rfl
    | cons i is => exact List.takeWhile_cons_of_neg (by simpa using h i rfl)
  dsimp only
  rw [hnone]
  rfl

theorem settle_block_out {i : Nat} (hrest : Starts c.rest) (h : c.column < i) :
    (block keyAllowed c ts (i :: indents) level).settle =
      (block keyAllowed c (.blockEnd :: ts) indents level).settle := by
  rw [settle_block_starts hrest, settle_block_starts hrest, endBlocks, endBlocks]
  rw [if_neg (by simp [block, inFlow]), if_neg (by simp [block, inFlow])]
  have hended : (block keyAllowed c ts (i :: indents) level).indents.takeWhile
      (fun column => c.column < column) =
      i :: indents.takeWhile fun column => c.column < column :=
    List.takeWhile_cons_of_pos (by simpa using h)
  dsimp only
  rw [hended]
  rfl

end

/-!
## Runs of the scanner
-/

/-- Some tokens are cut off from the first scanner on to arrive at the second one. -/
inductive Leads : Scanner -> Scanner -> Prop where
  | refl {s} : Leads s s
  | step {s next last} :
      s.fetch = some next -> next.tokens.head? ≠ some .streamEnd ->
      next.cursor.rest.length < s.cursor.rest.length -> Leads next last -> Leads s last

theorem Leads.trans {s s' s'' : Scanner} (h : Leads s s') (h' : Leads s' s'') : Leads s s'' := by
  induction h with
  | refl => exact h'
  | step hfetch hend hlength _ ih => exact .step hfetch hend hlength (ih h')

theorem Leads.tokensFrom_eq
    {s last : Scanner} {ts : List Token} (h : Leads s last)
    (hlast : forall fuel, last.cursor.rest.length < fuel -> last.tokensFrom fuel = ts) :
    forall fuel, s.cursor.rest.length < fuel -> s.tokensFrom fuel = ts := by
  induction h with
  | refl => exact hlast
  | @step s next last hfetch hend hlength _ ih =>
      intro fuel hfuel
      cases fuel with
      | zero => exact absurd hfuel (Nat.not_lt_zero _)
      | succ fuel =>
          rw [tokensFrom, hfetch]
          dsimp only
          rw [if_neg hend]
          exact ih hlast fuel (by omega)

theorem leads_of_cut
    {s at' next : Scanner} (hs : s.settle = at') (hcut : at'.cut = some next)
    (hend : next.tokens.head? ≠ some .streamEnd)
    (hlength : next.cursor.rest.length < at'.cursor.rest.length) : Leads s next := by
  have hsettle := length_settle_le s
  rw [hs] at hsettle
  refine .step ?_ hend (Nat.lt_of_lt_of_le hlength hsettle) .refl
  rw [fetch_eq, hs, hcut]

/-!
## Standing at a token
-/

/-- No key can be announced any more at the place that is kept. -/
def Idle (level : Level) (line : Nat) : Prop :=
  forall c, level.candidate = some c -> c.required = false ∧ c.line < line

theorem idle_none (opening : Option Nat) (line : Nat) : Idle ⟨none, opening⟩ line :=
  fun _ h => nomatch h

theorem Idle.not_required {level : Level} {line : Nat} (h : Idle level line) :
    level.candidate.any Candidate.required = false := by
  cases hc : level.candidate with
  | none => rfl
  | some c => exact (h c hc).1

/-- Up to the gap before it, the scanner stands outside of brackets at a token in the given column. -/
structure Stands (keyAllowed : Bool) (column : Nat) (ts : List Token) (indents : List Nat)
    (rest : List Char) (s : Scanner) : Prop where
  starts : Starts rest
  settled : exists line level, Idle level line ∧
    s.settle = (block keyAllowed ⟨rest, line, column⟩ ts indents level).settle

theorem stands_block
    {level : Level} {line : Nat} {rest : List Char} (hrest : Starts rest) (hidle : Idle level line)
    (keyAllowed : Bool) (column : Nat) (ts : List Token) (indents : List Nat) :
    Stands keyAllowed column ts indents rest
      (block keyAllowed ⟨rest, line, column⟩ ts indents level) :=
  ⟨hrest, line, level, hidle, rfl⟩

theorem stands_spaces
    {level : Level} {line : Nat} {rest : List Char} (hrest : Starts rest) (hidle : Idle level line)
    (keyAllowed : Bool) (column n : Nat) (ts : List Token) (indents : List Nat) :
    Stands keyAllowed (column + n) ts indents rest
      (block keyAllowed ⟨List.replicate n ' ' ++ rest, line, column⟩ ts indents level) :=
  ⟨hrest, line, level, hidle, settle_block_spaces⟩

theorem stands_newline
    {level : Level} {line : Nat} {rest : List Char} (hrest : Starts rest)
    (hidle : Idle level (line + 1)) (keyAllowed : Bool) (column m : Nat) (ts : List Token)
    (indents : List Nat) :
    Stands true m ts indents rest
      (block keyAllowed ⟨newline m rest, line, column⟩ ts indents level) :=
  ⟨hrest, line + 1, level, hidle, settle_block_newline⟩

theorem Stands.out
    {keyAllowed : Bool} {column i : Nat} {ts : List Token} {indents : List Nat} {rest : List Char}
    {s : Scanner} (h : Stands keyAllowed column ts (i :: indents) rest s) (hcolumn : column < i) :
    Stands keyAllowed column (.blockEnd :: ts) indents rest s := by
  rcases h with ⟨hrest, line, level, hidle, hsettle⟩
  exact ⟨hrest, line, level, hidle, hsettle.trans (settle_block_out hrest hcolumn)⟩

theorem Stands.settle_eq
    {keyAllowed : Bool} {column : Nat} {ts : List Token} {indents : List Nat} {rest : List Char}
    {s : Scanner} (h : Stands keyAllowed column ts indents rest s)
    (hcolumn : forall i, indents.head? = some i -> i ≤ column) :
    exists line level, Idle level line ∧
      s.settle = block keyAllowed ⟨rest, line, column⟩ ts indents level := by
  rcases h with ⟨hrest, line, level, hidle, hsettle⟩
  exact ⟨line, level, hidle, hsettle.trans (settle_block_inside hrest hcolumn)⟩

theorem Stands.cut
    {keyAllowed : Bool} {column : Nat} {ts : List Token} {indents : List Nat} {rest : List Char}
    {s : Scanner} (h : Stands keyAllowed column ts indents rest s)
    (hcolumn : forall i, indents.head? = some i -> i ≤ column) :
    exists line level, Idle level line ∧ forall next,
      (block keyAllowed ⟨rest, line, column⟩ ts indents level).cut = some next ->
      next.tokens.head? ≠ some .streamEnd -> next.cursor.rest.length < rest.length ->
        Leads s next := by
  rcases h.settle_eq hcolumn with ⟨line, level, hidle, hsettle⟩
  exact ⟨line, level, hidle, fun next hcut hend hlength =>
    leads_of_cut hsettle hcut hend hlength⟩

end Scanner
end Yaml
end DefTable
