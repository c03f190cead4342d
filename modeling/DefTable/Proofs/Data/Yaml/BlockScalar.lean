import DefTable.Data.Yaml.BlockScalar
import DefTable.Proofs.Data.Yaml.Inline

/-!
# Literal blocks are read as they are written

The lines of a literal block are taken without their margin, and the header says how many of the line
breaks at the end belong to the text.  One thing goes wrong: a line break that the text starts with
ends the line of the header, so it is lost.
-/

namespace DefTable
namespace Yaml

def Keeps (b : Char) : Prop :=
  isBreak b = true ∧ readBreak b = b

/-!
## Margins
-/

theorem marginFrom_spaces
    {indent : Nat} (breaks : List Char) (widest line column n : Nat) (rest : List Char)
    (h : indent = 0 ∨ column + n ≤ indent) :
    marginFrom indent breaks widest line column (List.replicate n ' ' ++ rest) =
      marginFrom indent breaks widest line (column + n) rest := by
  induction n generalizing column with
  | zero => rfl
  | succ n ih =>
      have hinside : (decide (indent = 0) || decide (column < indent)) = true := by
        rw [Bool.or_eq_true, decide_eq_true_eq, decide_eq_true_eq]
        omega
      rw [List.replicate_succ, List.cons_append, marginFrom, hinside, if_pos (by decide),
        ih (column + 1) (by omega), Nat.add_assoc, Nat.add_comm 1]

theorem marginFrom_break
    (indent : Nat) (breaks : List Char) (widest line column : Nat) {b : Char} (hb : Keeps b)
    (rest : List Char) :
    marginFrom indent breaks widest line column (b :: rest) =
      marginFrom indent (breaks ++ [b]) (max widest column) (line + 1) 0 rest := by
  have hne : b ≠ ' ' ∧ b ≠ '\t' := by
    constructor
    · rintro rfl
      exact nomatch hb.1
    · rintro rfl
      exact nomatch hb.1
  rw [marginFrom, if_neg (by simp [hne.1]), if_neg (by simp [hne.2]), if_pos hb.1, hb.2]

theorem marginFrom_breaks
    (indent : Nat) (breaks : List Char) (widest line : Nat) {bs : List Char}
    (hbs : forall b, b ∈ bs -> Keeps b) (rest : List Char) :
    exists widest' line', (bs = [] -> widest' = widest) ∧
      marginFrom indent breaks widest line 0 (bs ++ rest) =
        marginFrom indent (breaks ++ bs) widest' line' 0 rest := by
  induction bs generalizing breaks widest line with
  | nil =>
      refine ⟨widest, line, fun _ => rfl, ?_⟩
      rw [List.append_nil]
      rfl
  | cons b bs ih =>
      rw [List.forall_mem_cons] at hbs
      rcases ih (breaks ++ [b]) (max widest 0) (line + 1) hbs.2 with ⟨widest', line', _, heq⟩
      refine ⟨widest', line', fun hnil => absurd hnil (List.cons_ne_nil b bs), ?_⟩
      rw [List.cons_append, marginFrom_break indent breaks widest line 0 hbs.1, heq,
        List.append_assoc]
      rfl

theorem marginFrom_stop
    {indent : Nat} (breaks : List Char) (widest line column : Nat) {rest : List Char}
    (h : forall c, rest.head? = some c -> isBreak c = false ∧
      (isBlank c = false ∨ 0 < indent ∧ indent ≤ column)) :
    marginFrom indent breaks widest line column rest =
      some ⟨breaks, max widest column, rest, line, column⟩ := by
  cases rest with
  | nil => rw [marginFrom]
  | cons c rest =>
      rcases h c rfl with ⟨hbreak, hblank⟩
      have hspace : (decide (c = ' ') && (decide (indent = 0) || decide (column < indent))) = false ∧
          (decide (c = '\t') && (decide (indent = 0) || decide (column < indent))) = false := by
        rcases hblank with hblank | hinside
        · rw [isBlank, Bool.or_eq_false_iff] at hblank
          rw [hblank.1, hblank.2]
          exact ⟨rfl, rfl⟩
        · have houtside : (decide (indent = 0) || decide (column < indent)) = false := by
            rw [decide_eq_false (by omega : ¬ indent = 0),
              decide_eq_false (by omega : ¬ column < indent)]
            rfl
          rw [houtside]
          exact ⟨Bool.and_false _, Bool.and_false _⟩
      rw [marginFrom, hspace.1, if_neg Bool.false_ne_true, hspace.2, if_neg Bool.false_ne_true,
        if_neg (by simp [hbreak])]

theorem marginFrom_line
    {indent n : Nat} (line : Nat) {bs tail : List Char} (hbs : forall b, b ∈ bs -> Keeps b)
    (hindent : indent = 0 ∨ n ≤ indent)
    (htail : forall c, tail.head? = some c -> isBreak c = false ∧
      (isBlank c = false ∨ 0 < indent ∧ indent ≤ n)) :
    exists widest line', (bs = [] -> widest = n) ∧
      marginFrom indent [] 0 line 0 (bs ++ (List.replicate n ' ' ++ tail)) =
        some ⟨bs, widest, tail, line', n⟩ := by
  rcases marginFrom_breaks indent [] 0 line hbs (List.replicate n ' ' ++ tail) with
    ⟨widest, line', hwidest, heq⟩
  refine ⟨max widest n, line', fun hnil => by rw [hwidest hnil, Nat.zero_max], ?_⟩
  rw [heq, marginFrom_spaces _ _ _ _ _ _ (by omega), Nat.zero_add, marginFrom_stop _ _ _ _ htail]
  rfl

/-!
## Lines
-/

/-- Lines that start with one that is not empty, the text up to the last line that is not empty, and
the line breaks after it. -/
inductive Block : List Char -> List Char -> List Char -> Prop where
  | last {line trail} :
      line ≠ [] -> (forall c, c ∈ line -> isBreak c = false) -> (forall b, b ∈ trail -> Keeps b) ->
      Block (line ++ trail) line trail
  | more {line b bs cs body trail} :
      line ≠ [] -> (forall c, c ∈ line -> isBreak c = false) -> Keeps b ->
      (forall b, b ∈ bs -> Keeps b) -> Block cs body trail ->
      Block (line ++ b :: (bs ++ cs)) (line ++ b :: (bs ++ body)) trail

theorem Block.head {cs body trail : List Char} (h : Block cs body trail) :
    exists c rest, cs = c :: rest ∧ isBreak c = false := by
  have hline : forall line rest : List Char, line ≠ [] ->
      (forall c, c ∈ line -> isBreak c = false) ->
      exists c more, line ++ rest = c :: more ∧ isBreak c = false := by
    intro line rest hne hline
    cases line with
    | nil => exact absurd rfl hne
    | cons c line => exact ⟨c, line ++ rest, rfl, hline c List.mem_cons_self⟩
  cases h with
  | last hne hno _ => exact hline _ _ hne hno
  | more hne hno _ _ _ => exact hline _ _ hne hno

theorem Block.eq_append {cs body trail : List Char} (h : Block cs body trail) :
    cs = body ++ trail := by
  induction h with
  | last _ _ _ => rfl
  | more _ _ _ _ _ ih =>
      rw [ih]
      simp

theorem Block.trail {cs body trail : List Char} (h : Block cs body trail) :
    forall b, b ∈ trail -> Keeps b := by
  induction h with
  | last _ _ htrail => exact htrail
  | more _ _ _ _ _ ih => exact ih

theorem Block.last_body {cs body trail : List Char} (h : Block cs body trail) :
    exists before c, body = before ++ [c] ∧ isBreak c = false := by
  induction h with
  | @last line trail hne hno _ =>
      exact ⟨line.dropLast, line.getLast hne, (List.dropLast_concat_getLast hne).symm,
        hno _ (List.getLast_mem hne)⟩
  | @more line b bs _ _ _ _ _ _ _ _ ih =>
      rcases ih with ⟨before, c, rfl, hc⟩
      exact ⟨line ++ b :: (bs ++ before), c, by simp, hc⟩

theorem Block.cons {c : Char} {cs body trail : List Char} (hc : isBreak c = false)
    (h : Block cs body trail) : Block (c :: cs) (c :: body) trail := by
  cases h with
  | last _ hno htrail =>
      exact .last (List.cons_ne_nil _ _) (List.forall_mem_cons.mpr ⟨hc, hno⟩) htrail
  | more _ hno hb hbs hblock =>
      exact .more (List.cons_ne_nil _ _) (List.forall_mem_cons.mpr ⟨hc, hno⟩) hb hbs hblock

theorem exists_block
    {cs : List Char} (hkeeps : forall c, c ∈ cs -> isBreak c = true -> Keeps c) :
    exists bs lines, cs = bs ++ lines ∧ (forall b, b ∈ bs -> Keeps b) ∧
      (lines = [] ∨ exists body trail, Block lines body trail) := by
  induction cs with
  | nil => exact ⟨[], [], rfl, fun _ hb => absurd hb List.not_mem_nil, .inl rfl⟩
  | cons c cs ih =>
      rw [List.forall_mem_cons] at hkeeps
      rcases ih hkeeps.2 with ⟨bs, lines, rfl, hbs, hlines⟩
      cases hc : isBreak c with
      | true => exact ⟨c :: bs, lines, rfl, List.forall_mem_cons.mpr ⟨hkeeps.1 hc, hbs⟩, hlines⟩
      | false =>
          refine ⟨[], c :: (bs ++ lines), rfl, fun _ hb => absurd hb List.not_mem_nil, .inr ?_⟩
          have hline : forall d, d ∈ [c] -> isBreak d = false := List.forall_mem_singleton.mpr hc
          rcases hlines with rfl | ⟨body, trail, hblock⟩
          · rw [List.append_nil]
            exact ⟨[c], bs, .last (List.cons_ne_nil _ _) hline hbs⟩
          · cases bs with
            | nil => exact ⟨c :: body, trail, hblock.cons hc⟩
            | cons b bs =>
                rw [List.forall_mem_cons] at hbs
                exact ⟨_, trail, .more (List.cons_ne_nil _ _) hline hbs.1 hbs.2 hblock⟩

/-!
## Margins as they are written
-/

abbrev lined (margin : Nat) (atStart : Bool) (cs : List Char) : List Char :=
  Writer.withMargin margin (fun c => [c]) atStart cs

theorem lined_line
    (margin : Nat) {line : List Char} (h : forall c, c ∈ line -> isBreak c = false)
    (rest : List Char) : lined margin false (line ++ rest) = line ++ lined margin false rest := by
  induction line with
  | nil => rfl
  | cons c line ih =>
      rw [List.forall_mem_cons] at h
      rw [List.cons_append, lined, Writer.withMargin, if_neg (by simp [h.1])]
      exact congrArg (c :: ·) (ih h.2)

theorem lined_breaks
    (margin : Nat) {bs : List Char} (h : forall b, b ∈ bs -> isBreak b = true) (rest : List Char) :
    lined margin true (bs ++ rest) = bs ++ lined margin true rest := by
  induction bs with
  | nil => rfl
  | cons b bs ih =>
      rw [List.forall_mem_cons] at h
      rw [List.cons_append, lined, Writer.withMargin, if_pos h.1]
      exact congrArg (b :: ·) (ih h.2)

theorem lined_start
    (margin : Nat) {c : Char} (hc : isBreak c = false) (cs : List Char) :
    lined margin true (c :: cs) = List.replicate margin ' ' ++ lined margin false (c :: cs) := by
  have hstart : forall atStart, lined margin atStart (c :: cs) =
      (if atStart then List.replicate margin ' ' else []) ++ [c] ++ lined margin false cs := by
    intro atStart
    rw [lined, Writer.withMargin, if_neg (by simp [hc])]
  rw [hstart true, hstart false]
  simp

theorem lined_break
    (margin : Nat) (atStart : Bool) {b : Char} (hb : isBreak b = true) (cs : List Char) :
    lined margin atStart (b :: cs) = b :: lined margin true cs := by
  rw [lined, Writer.withMargin, if_pos hb]

theorem length_le_lined (margin : Nat) (atStart : Bool) (cs : List Char) :
    cs.length ≤ (lined margin atStart cs).length := by
  induction cs generalizing atStart with
  | nil => exact Nat.zero_le _
  | cons c cs ih =>
      rw [lined, Writer.withMargin]
      split
      · exact Nat.succ_le_succ (ih true)
      · have hle : cs.length ≤ (Writer.withMargin margin (fun c => [c]) false cs).length := ih false
        simp only [List.length_append, List.length_cons, List.length_nil]
        omega

/-!
## Reading the lines
-/

/-- What follows a literal block: a line break, unless the text ends with one, and the indentation
of the next line. -/
def afterBlock (ended : Bool) (m : Nat) (rest : List Char) : List Char :=
  (if ended then [] else ['\n']) ++ (List.replicate m ' ' ++ rest)

theorem blockLines_line
    (fuel : Nat) {indent line : Nat} (t : BlockText) (breaks : List Char) (widest : Nat)
    {taken below : List Char} {b : Char} (hne : taken ≠ [])
    (hno : forall c, c ∈ taken -> isBreak c = false) (hb : Keeps b) {next : Margin}
    (hnext : marginFrom indent [] 0 (line + 1) 0 below = some next) :
    exists blank, blockLines (fuel + 1) false indent t
        ⟨breaks, widest, ⟨taken ++ b :: below, line, indent⟩⟩ =
      blockLines fuel false indent
        ⟨taken.reverse ++ (t.ended ++ breaks).reverse ++ t.done, [b], blank⟩ next := by
  cases taken with
  | nil => exact absurd rfl hne
  | cons c taken =>
      have htake : (c :: (taken ++ b :: below)).takeWhile (fun d => !isBreak d) = c :: taken := by
        rw [← List.cons_append, List.takeWhile_append_of_pos (by simpa using hno),
          List.takeWhile_cons_of_neg (by simp [hb.1]), List.append_nil]
      have hdrop : (c :: (taken ++ b :: below)).drop (c :: taken).length = b :: below :=
        List.drop_left' rfl
      refine ⟨isBlank c, ?_⟩
      rw [List.cons_append, blockLines]
      dsimp only
      rw [if_neg (fun h => h rfl), htake, hdrop]
      dsimp only
      rw [hnext, hb.2]
      rfl

theorem blockLines_stop
    {fuel indent : Nat} (t : BlockText) {m : Margin} (h : m.cursor.column ≠ indent) :
    blockLines (fuel + 1) false indent t m = some (t, m) := by
  rw [blockLines]
  split
  · rfl
  · rw [if_pos h]

theorem lined_last
    {taken trail : List Char} (margin m : Nat) (rest : List Char)
    (hno : forall c, c ∈ taken -> isBreak c = false) (htrail : forall b, b ∈ trail -> Keeps b) :
    exists b bs, b :: bs = (if trail.isEmpty then ['\n'] else trail) ∧ Keeps b ∧
      (forall b, b ∈ bs -> Keeps b) ∧
      lined margin false (taken ++ trail) ++ afterBlock (!trail.isEmpty) m rest =
        taken ++ b :: (bs ++ (List.replicate m ' ' ++ rest)) := by
  cases trail with
  | nil =>
      refine ⟨'\n', [], rfl, ⟨rfl, rfl⟩, fun _ hb => absurd hb List.not_mem_nil, ?_⟩
      rw [lined_line margin hno, lined, Writer.withMargin, List.append_nil]
      rfl
  | cons b bs =>
      rw [List.forall_mem_cons] at htrail
      have hbreaks := lined_breaks margin (fun c hc => (htrail.2 c hc).1) []
      rw [List.append_nil] at hbreaks
      refine ⟨b, bs, rfl, htrail.1, htrail.2, ?_⟩
      rw [lined_line margin hno, lined_break margin false htrail.1.1, hbreaks]
      simp [lined, Writer.withMargin, afterBlock]

theorem blockLines_block
    {cs body trail rest : List Char} {indent m : Nat} (fuel line widest : Nat) (t : BlockText)
    (breaks : List Char) (h : Block cs body trail) (hm : m < indent) (hrest : Starts rest)
    (hfuel : cs.length < fuel) :
    exists t' b bs widest' line',
      blockLines fuel false indent t
          ⟨breaks, widest,
            ⟨lined indent false cs ++ afterBlock (!trail.isEmpty) m rest, line, indent⟩⟩ =
        some (t', ⟨bs, widest', rest, line', m⟩) ∧
      t'.done.reverse = t.done.reverse ++ (t.ended ++ breaks) ++ body ∧ t'.ended = [b] ∧
      b :: bs = (if trail.isEmpty then ['\n'] else trail) := by
  have hstop : forall c, rest.head? = some c -> isBreak c = false ∧
      (isBlank c = false ∨ 0 < indent ∧ indent ≤ m) :=
    fun c hc => ⟨(hrest c hc).2.1, .inl (hrest c hc).1⟩
  induction h generalizing fuel line widest t breaks with
  | @last taken trail hne hno htrail =>
      have hlength : 2 ≤ fuel := by
        have hpos := List.length_pos_iff.mpr hne
        rw [List.length_append] at hfuel
        omega
      rcases Nat.exists_eq_add_of_le' hlength with ⟨fuel', rfl⟩
      rcases lined_last indent m rest hno htrail with ⟨b, bs, htrail', hb, hbs, htext⟩
      rcases marginFrom_line (line + 1) hbs (.inr (Nat.le_of_lt hm)) hstop with
        ⟨widest', line', _, hmargin⟩
      rcases blockLines_line (fuel' + 1) t breaks widest hne hno hb hmargin with ⟨blank, hstep⟩
      have hend := hstep.trans (blockLines_stop _ (Nat.ne_of_lt hm))
      rw [← htext] at hend
      exact ⟨_, b, bs, widest', line', hend, by simp, rfl, htrail'⟩
  | @more taken b bs cs body trail hne hno hb hbs hblock ih =>
      rcases hblock.head with ⟨c, more, hcs, hc⟩
      rcases Nat.exists_eq_succ_of_ne_zero (Nat.ne_of_gt (Nat.zero_lt_of_lt hfuel)) with
        ⟨fuel', rfl⟩
      have hfuel' : cs.length < fuel' := by
        simp only [List.length_append, List.length_cons] at hfuel
        omega
      have hinner : forall d, (lined indent false cs ++ afterBlock (!trail.isEmpty) m rest).head? =
          some d -> isBreak d = false ∧ (isBlank d = false ∨ 0 < indent ∧ indent ≤ indent) := by
        intro d hd
        rw [hcs, lined, Writer.withMargin, if_neg (by simp [hc])] at hd
        cases hd
        exact ⟨hc, .inr ⟨Nat.zero_lt_of_lt hm, Nat.le_refl _⟩⟩
      rcases marginFrom_line (line + 1) hbs (.inr (Nat.le_refl indent)) hinner with
        ⟨widest', line', _, hmargin⟩
      rcases blockLines_line fuel' t breaks widest hne hno hb hmargin with ⟨blank, hstep⟩
      rcases ih fuel' line' widest' ⟨_, [b], blank⟩ bs hfuel' with
        ⟨t', b', bs', widest'', line'', hrun, hdone, hended, hbreaks⟩
      have htext : lined indent false (taken ++ b :: (bs ++ cs)) =
          taken ++ b :: (bs ++ (List.replicate indent ' ' ++ lined indent false cs)) := by
        rw [lined_line indent hno, lined_break indent false hb.1,
          lined_breaks indent (fun d hd => (hbs d hd).1), hcs, lined_start indent hc]
      have hend := hstep.trans hrun
      refine ⟨t', b', bs', widest'', line'', ?_, ?_, hended, hbreaks⟩
      · rw [htext]
        simpa using hend
      · rw [hdone]
        simp

/-!
## Headers
-/

def Chomp.mark : Chomp -> List Char
  | .strip => ['-']
  | .clip => []
  | .keep => ['+']

def Chomp.tail (ended more : List Char) : Chomp -> List Char
  | .strip => []
  | .clip => ended
  | .keep => ended ++ more

/-- The indentation that is told where the first line does not show it. -/
def hint (told : Bool) : List Char :=
  if told then ['4'] else []

def chompOf (cs : List Char) : Chomp :=
  match cs.reverse with
  | [] => .strip
  | c :: before =>
    if !isBreak c then .strip
    else if before.isEmpty || before.head?.any isBreak then .keep
    else .clip

theorem toList_literalHeader (cs : List Char) :
    (Writer.literalHeader cs).toList =
      '|' :: (hint (cs.head?.any isEdge) ++ (chompOf cs).mark) := by
  unfold Writer.literalHeader chompOf
  cases cs.reverse with
  | nil => cases cs.head?.any isEdge <;> rfl
  | cons c before =>
      dsimp only
      cases cs.head?.any isEdge <;> cases isBreak c <;>
        cases before.isEmpty || before.head?.any isBreak <;> rfl

theorem blockHeader_written (told : Bool) (chomp : Chomp) {b : Char} (hb : isBreak b = true)
    (rest : List Char) :
    blockHeader (hint told ++ (chomp.mark ++ b :: rest)) =
      some (⟨chomp, if told then 4 else 0⟩, (hint told ++ chomp.mark).length) := by
  have hnone : chomp? b = none ∧ increment? b = none := by
    simp only [isBreak, Bool.or_eq_true, decide_eq_true_eq] at hb
    rcases hb with (((rfl | rfl) | rfl) | rfl) | rfl <;> exact ⟨rfl, rfl⟩
  have hstrip : chomp? '-' = some .strip := rfl
  have hkeep : chomp? '+' = some .keep := rfl
  have hfour : chomp? '4' = none ∧ increment? '4' = some 4 := ⟨rfl, rfl⟩
  cases told with
  | false =>
      cases chomp with
      | strip => simp [hint, Chomp.mark, blockHeader, hstrip, hnone]
      | clip => simp [hint, Chomp.mark, blockHeader, hnone]
      | keep => simp [hint, Chomp.mark, blockHeader, hkeep, hnone]
  | true =>
      cases chomp with
      | strip => simp [hint, Chomp.mark, blockHeader, hfour, hstrip]
      | clip => simp [hint, Chomp.mark, blockHeader, hfour, hnone]
      | keep => simp [hint, Chomp.mark, blockHeader, hfour, hkeep]

/-!
## Whole blocks
-/

/-- What a literal block says of a text: a line break at its start is lost. -/
def kept (cs : List Char) : List Char :=
  if cs.head?.any isBreak then cs.tail else cs

theorem toList_literal (margin : Nat) (cs : List Char) :
    exists b, isBreak b = true ∧
      (Writer.literal margin cs).toList =
        '|' :: (hint (cs.head?.any isEdge) ++ ((chompOf cs).mark ++
          b :: lined margin true (kept cs))) := by
  have hheader := toList_literalHeader cs
  cases hlead : cs.head?.any isBreak with
  | false =>
      refine ⟨'\n', rfl, ?_⟩
      rw [Writer.literal, hlead, kept, hlead]
      simp [String.toList_append, hheader]
  | true =>
      cases cs with
      | nil => cases hlead
      | cons b cs =>
          refine ⟨b, hlead, ?_⟩
          rw [Writer.literal, hlead, kept, hlead, String.toList_append, String.toList_append,
            hheader, String.toList_ofList, ← lined_break margin true hlead]
          simp

theorem chompOf_append (before : List Char) {c b : Char} {bs trail : List Char}
    (hc : isBreak c = false) (htrail : forall b, b ∈ trail -> Keeps b)
    (h : b :: bs = if trail.isEmpty then ['\n'] else trail) :
    (chompOf (before ++ c :: trail)).tail [b] bs = trail := by
  rcases List.eq_nil_or_concat trail with rfl | ⟨init, d, rfl⟩
  · have hlast : chompOf (before ++ [c]) = .strip := by
      simp [chompOf, hc]
    rw [hlast]
    rfl
  · have hd : isBreak d = true := (htrail d (by simp)).1
    rw [if_neg (by simp)] at h
    rcases List.eq_nil_or_concat init with rfl | ⟨init', e, rfl⟩
    · have hlast : chompOf (before ++ c :: [].concat d) = .clip := by
        simp [chompOf, hc, hd]
      rw [hlast]
      exact congrArg (fun d => [d]) (List.cons.inj h).1
    · have he : isBreak e = true := (htrail e (by simp)).1
      have hlast : chompOf (before ++ c :: (init'.concat e).concat d) = .keep := by
        simp [chompOf, hd, he]
      rw [hlast]
      exact h

theorem chompOf_breaks {b : Char} {bs : List Char} (hb : isBreak b = true)
    (hbs : forall b, b ∈ bs -> Keeps b) : chompOf (b :: bs) = .keep := by
  rcases List.eq_nil_or_concat bs with rfl | ⟨init, d, rfl⟩
  · simp [chompOf, hb]
  · have hd : isBreak d = true := (hbs d (by simp)).1
    rcases List.eq_nil_or_concat init with rfl | ⟨init', e, rfl⟩
    · simp [chompOf, hb, hd]
    · have he : isBreak e = true := (hbs e (by simp)).1
      simp [chompOf, hd, he]

theorem blockScalar_written
    (told : Bool) (chomp : Chomp) {b : Char} (hb : isBreak b = true) {floor : Nat}
    (hfloor : 0 < floor) (below : List Char) (line column : Nat) :
    blockScalar floor ⟨'|' :: (hint told ++ (chomp.mark ++ b :: below)), line, column⟩ =
      (marginFrom (if told then floor + 3 else 0) [] 0 (line + 1) 0 below).bind fun m =>
        (blockLines (below.length + 1) false
          (if told then floor + 3 else max (max m.widest floor) 1) .empty m).bind fun found =>
            some ⟨String.ofList (found.1.done.reverse ++
              chomp.tail found.1.ended found.2.breaks), found.2.cursor, true⟩ := by
  have hsigns : (hint told ++ (chomp.mark ++ b :: below)).drop
      (hint told ++ chomp.mark).length = b :: below := by
    rw [← List.append_assoc]
    exact List.drop_left' rfl
  have hblank : isBlank b = false := isBlank_eq_false_of_isBreak hb
  have hcomment : b ≠ '#' := by
    rintro rfl
    cases hb
  have hnext : forall l k, nextLine? ⟨b :: below, l, k⟩ = some ⟨below, l + 1, 0⟩ := by
    intro l k
    simp [nextLine?, Cursor.advance, hblank, hcomment, hb]
  have hfixed : (if (if told then 4 else 0) = 0 then 0 else
      floor - 1 + (if told then 4 else 0)) = if told then floor + 3 else 0 := by
    cases told with
    | false => rfl
    | true =>
        simp only [if_true]
        rw [if_neg (by decide)]
        omega
  have hindent : forall m : Margin, (if (if told then floor + 3 else 0) = 0 then
      max (max m.widest floor) 1 else if told then floor + 3 else 0) =
      if told then floor + 3 else max (max m.widest floor) 1 := by
    intro m
    cases told <;> rfl
  unfold blockScalar
  simp only [Cursor.advance, List.drop_one, List.tail_cons, blockHeader_written told chomp hb,
    Option.bind_eq_bind, Option.bind_some, hsigns, hnext, hfixed, hindent, List.head?_cons]
  cases chomp <;> rfl

theorem blockScalar_header
    (told : Bool) (chomp : Chomp) {b : Char} (hb : isBreak b = true) {floor indent : Nat}
    {below : List Char} (line column : Nat) {m m' : Margin} {t : BlockText}
    (hfloor : 0 < floor) (hfirst : marginFrom (if told then floor + 3 else 0) [] 0 (line + 1) 0
      below = some m)
    (hindent : (if told then floor + 3 else max (max m.widest floor) 1) = indent)
    (hlines : blockLines (below.length + 1) false indent .empty m = some (t, m')) :
    blockScalar floor ⟨'|' :: (hint told ++ (chomp.mark ++ b :: below)), line, column⟩ =
      some ⟨String.ofList (t.done.reverse ++ chomp.tail t.ended m'.breaks), m'.cursor, true⟩ := by
  rw [blockScalar_written told chomp hb hfloor, hfirst, Option.bind_some, hindent, hlines,
    Option.bind_some]

theorem exists_append_kept (cs : List Char) : exists lost, cs = lost ++ kept cs := by
  unfold kept
  split
  · rename_i hlead
    cases cs with
    | nil => cases hlead
    | cons b cs => exact ⟨[b], rfl⟩
  · exact ⟨[], rfl⟩

theorem mem_of_mem_kept {c : Char} {cs : List Char} (h : c ∈ kept cs) : c ∈ cs := by
  rcases exists_append_kept cs with ⟨lost, hlost⟩
  rw [hlost]
  exact List.mem_append_right lost h

theorem exists_cons_kept
    {cs : List Char} (hne : cs ≠ []) (h : forall b, b ∈ kept cs -> isBreak b = true) :
    exists b, isBreak b = true ∧ cs = b :: kept cs := by
  cases cs with
  | nil => exact absurd rfl hne
  | cons b cs =>
      cases hb : isBreak b with
      | true => exact ⟨b, hb, by rw [kept, if_pos (by simp [hb])]; rfl⟩
      | false =>
          rw [kept, if_neg (by simp [hb])] at h
          exact nomatch (h b List.mem_cons_self).symm.trans hb

theorem getLast?_any_isBreak
    (before : List Char) {d : Char} {trail : List Char} (hd : isBreak d = false)
    (htrail : forall b, b ∈ trail -> Keeps b) :
    (before ++ d :: trail).getLast?.any isBreak = !trail.isEmpty := by
  rcases List.eq_nil_or_concat trail with rfl | ⟨init, e, rfl⟩
  · simp [hd]
  · have he : isBreak e = true := (htrail e (by simp)).1
    rw [List.concat_eq_append, ← List.cons_append, ← List.append_assoc, List.getLast?_concat]
    simp [he]

theorem unedged_head
    {cs bs lines more : List Char} {c : Char} (hsplit : kept cs = bs ++ lines)
    (hbreaks : forall b, b ∈ bs -> isBreak b = true) (hlines : lines = c :: more)
    (htab : cs.head? ≠ some '\t') (hedge : cs.head?.any isEdge = false) :
    bs = [] ∧ isBlank c = false := by
  cases cs with
  | nil =>
      rw [hlines] at hsplit
      cases bs <;> cases hsplit
  | cons e cs =>
      have he : e ≠ ' ' ∧ isBreak e = false := by simpa [isEdge] using hedge
      rw [kept, if_neg (by simp [he.2]), hlines] at hsplit
      cases bs with
      | nil =>
          cases hsplit
          refine ⟨rfl, isBlank_of_ne ?_ he.1⟩
          rintro rfl
          exact htab rfl
      | cons b bs =>
          rw [(List.cons.inj hsplit).1, hbreaks b List.mem_cons_self] at he
          exact nomatch he.2

theorem marginFrom_first
    {told : Bool} {bs lines more : List Char} {c : Char} {floor indent : Nat} (line : Nat)
    (after : List Char) (hbs : forall b, b ∈ bs -> Keeps b) (hhead : lines = c :: more)
    (hc : isBreak c = false) (hpos : 0 < floor) (hindent : floor ≤ indent)
    (htold : told = true -> indent = floor + 3)
    (hplain : told = false -> bs = [] ∧ isBlank c = false) :
    exists widest line',
      marginFrom (if told then floor + 3 else 0) [] 0 line 0
          (bs ++ (lined indent true lines ++ after)) =
        some ⟨bs, widest, lined indent false lines ++ after, line', indent⟩ ∧
      (if told then floor + 3 else max (max widest floor) 1) = indent := by
  have hinside : forall d, (lined indent false lines ++ after).head? = some d ->
      isBreak d = false ∧ (isBlank d = false ∨
        0 < (if told then floor + 3 else 0) ∧ (if told then floor + 3 else 0) ≤ indent) := by
    intro d hd
    rw [hhead, lined, Writer.withMargin, if_neg (by simp [hc])] at hd
    cases hd
    refine ⟨hc, ?_⟩
    cases told with
    | true => exact .inr ⟨Nat.succ_pos _, Nat.le_of_eq (htold rfl).symm⟩
    | false => exact .inl (hplain rfl).2
  have hfixed : (if told then floor + 3 else 0) = 0 ∨
      indent ≤ (if told then floor + 3 else 0) := by
    cases told with
    | true => exact .inr (Nat.le_of_eq (htold rfl))
    | false => exact .inl rfl
  rcases marginFrom_line line hbs hfixed hinside with ⟨widest, line', hwidest, hmargin⟩
  refine ⟨widest, line', ?_, ?_⟩
  · rw [← hmargin, hhead, lined_start indent hc, List.append_assoc]
  · cases told with
    | true => exact (htold rfl).symm
    | false =>
        have hshown := hwidest (hplain rfl).1
        rw [if_neg Bool.false_ne_true]
        omega

theorem blockScalar_breaks
    {b : Char} (hb : isBreak b = true) {bs rest : List Char} (hbs : forall b, b ∈ bs -> Keeps b)
    {floor m : Nat} (hm : m < floor) (hrest : Starts rest) (line column : Nat) :
    exists line', blockScalar floor
        ⟨'|' :: (hint true ++ (Chomp.keep.mark ++ b :: (bs ++ (List.replicate m ' ' ++ rest)))),
          line, column⟩ =
      some ⟨String.ofList bs, ⟨rest, line', m⟩, true⟩ := by
  rcases marginFrom_line (line + 1) hbs (.inr (by omega : m ≤ floor + 3))
    (fun c hc => ⟨(hrest c hc).2.1, .inl (hrest c hc).1⟩) with ⟨widest, line', _, hmargin⟩
  have hstop : blockLines ((bs ++ (List.replicate m ' ' ++ rest)).length + 1) false (floor + 3)
      .empty ⟨bs, widest, rest, line', m⟩ = some (.empty, ⟨bs, widest, rest, line', m⟩) :=
    blockLines_stop .empty (Nat.ne_of_lt (by omega : m < floor + 3))
  exact ⟨line', blockScalar_header true .keep hb line column (Nat.zero_lt_of_lt hm) hmargin rfl
    hstop⟩

theorem blockScalar_block
    {told : Bool} {b : Char} {bs lines body trail more : List Char} {c : Char}
    (chomp : Chomp) (hb : isBreak b = true) (hbs : forall b, b ∈ bs -> Keeps b)
    (hblock : Block lines body trail) (hhead : lines = c :: more) (hc : isBreak c = false)
    {floor indent m : Nat} (hindent : floor ≤ indent) (hm : m < floor)
    (htold : told = true -> indent = floor + 3)
    (hplain : told = false -> bs = [] ∧ isBlank c = false) {rest : List Char} (hrest : Starts rest)
    (line column : Nat) :
    exists line' e es, e :: es = (if trail.isEmpty then ['\n'] else trail) ∧
      blockScalar floor
          ⟨'|' :: (hint told ++ (chomp.mark ++ b ::
            (bs ++ (lined indent true lines ++ afterBlock (!trail.isEmpty) m rest)))),
            line, column⟩ =
        some ⟨String.ofList (bs ++ body ++ chomp.tail [e] es), ⟨rest, line', m⟩, true⟩ := by
  have hpos : 0 < floor := Nat.zero_lt_of_lt hm
  rcases marginFrom_first (line + 1) (afterBlock (!trail.isEmpty) m rest) hbs hhead hc hpos hindent
    htold hplain with ⟨widest, line', hmargin, hshown⟩
  have hlength : lines.length <
      (bs ++ (lined indent true lines ++ afterBlock (!trail.isEmpty) m rest)).length + 1 := by
    have hle := length_le_lined indent true lines
    rw [List.length_append, List.length_append]
    omega
  rcases blockLines_block _ line' widest .empty bs hblock (Nat.lt_of_lt_of_le hm hindent) hrest
    hlength with ⟨t, e, es, widest', line'', hrun, hdone, hended, htrail⟩
  refine ⟨line'', e, es, htrail, ?_⟩
  refine (blockScalar_header told chomp hb line column hpos hmargin hshown hrun).trans ?_
  rw [hended, hdone]
  rfl

/-- A literal block that neither starts with a tab nor is told a wrong indentation is read up to the
next line, less the line break it starts with. -/
theorem blockScalar_literal
    {cs : List Char} (hne : cs ≠ []) (hkeeps : forall c, c ∈ cs -> isBreak c = true -> Keeps c)
    (htab : cs.head? ≠ some '\t') {floor indent m : Nat} (hindent : floor ≤ indent)
    (hm : m < floor) (htold : cs.head?.any isEdge = true -> indent = floor + 3) {rest : List Char}
    (hrest : Starts rest) (line column : Nat) :
    exists line', blockScalar floor
        ⟨(Writer.literal indent cs).toList ++ afterBlock (cs.getLast?.any isBreak) m rest,
          line, column⟩ =
      some ⟨String.ofList (kept cs), ⟨rest, line', m⟩, true⟩ := by
  rcases toList_literal indent cs with ⟨b₀, hb₀, hwritten⟩
  rcases exists_block fun c hc => hkeeps c (mem_of_mem_kept hc) with
    ⟨bs, lines, hsplit, hbs, hlines⟩
  have hbreaks : forall b, b ∈ bs -> isBreak b = true := fun b hb => (hbs b hb).1
  have htext : (Writer.literal indent cs).toList ++ afterBlock (cs.getLast?.any isBreak) m rest =
      '|' :: (hint (cs.head?.any isEdge) ++ ((chompOf cs).mark ++ b₀ ::
        (bs ++ (lined indent true lines ++ afterBlock (cs.getLast?.any isBreak) m rest)))) := by
    rw [hwritten, hsplit, lined_breaks indent hbreaks]
    simp
  rw [htext]
  rcases hlines with rfl | ⟨body, trail, hblock⟩
  · rw [List.append_nil] at hsplit
    rw [hsplit]
    rcases exists_cons_kept hne (by rwa [hsplit]) with ⟨b, hb, hcs⟩
    rw [hsplit] at hcs
    subst hcs
    have hedge : (b :: bs).head?.any isEdge = true := by simp [isEdge, hb]
    have hlast : (b :: bs).getLast?.any isBreak = true := by
      have hall : forall c, c ∈ b :: bs -> isBreak c = true :=
        List.forall_mem_cons.mpr ⟨hb, hbreaks⟩
      exact hall _ (List.getLast_mem (List.cons_ne_nil b bs))
    rw [hedge, hlast, chompOf_breaks hb hbs]
    exact blockScalar_breaks hb₀ hbs hm hrest line column
  · rcases hblock.head with ⟨c, more, hhead, hc⟩
    rcases hblock.last_body with ⟨before, d, hbody, hd⟩
    rcases exists_append_kept cs with ⟨lost, hlost⟩
    have hcs : cs = (lost ++ bs ++ before) ++ d :: trail := by
      rw [hlost, hsplit, hblock.eq_append, hbody]
      simp
    have hlast : cs.getLast?.any isBreak = !trail.isEmpty := by
      rw [hcs]
      exact getLast?_any_isBreak _ hd hblock.trail
    rcases blockScalar_block (chompOf cs) hb₀ hbs hblock hhead hc hindent hm htold
      (unedged_head hsplit hbreaks hhead htab) hrest line column with
      ⟨line', e, es, htrail, hscan⟩
    have hend := chompOf_append (lost ++ bs ++ before) hd hblock.trail htrail
    rw [← hcs] at hend
    refine ⟨line', ?_⟩
    rw [hlast, hscan, hend, hsplit, hblock.eq_append, List.append_assoc]

/-!
## Blocks that start with a tab
-/

theorem marginFrom_tab
    (breaks : List Char) (widest line column n : Nat) (rest : List Char) :
    marginFrom 0 breaks widest line column (List.replicate n ' ' ++ '\t' :: rest) = none := by
  rw [marginFrom_spaces breaks widest line column n ('\t' :: rest) (.inl rfl), marginFrom]
  simp

/-- The header tells no indentation before a tab, so the block is refused. -/
theorem blockScalar_tab
    {cs : List Char} (htab : cs.head? = some '\t') {floor : Nat} (hfloor : 0 < floor)
    (indent : Nat) (after : List Char) (line column : Nat) :
    blockScalar floor ⟨(Writer.literal indent cs).toList ++ after, line, column⟩ = none := by
  rcases toList_literal indent cs with ⟨b, hb, hwritten⟩
  cases cs with
  | nil => cases htab
  | cons c cs =>
      cases htab
      have hkept : kept ('\t' :: cs) = '\t' :: cs := rfl
      have hbelow : lined indent true ('\t' :: cs) =
          List.replicate indent ' ' ++ '\t' :: lined indent false cs := by
        rw [lined_start indent rfl]
        rfl
      have htext : (Writer.literal indent ('\t' :: cs)).toList ++ after =
          '|' :: (hint false ++ ((chompOf ('\t' :: cs)).mark ++
            b :: (List.replicate indent ' ' ++ '\t' :: (lined indent false cs ++ after)))) := by
        rw [hwritten, hkept, hbelow]
        simp [isEdge, isBreak]
      rw [htext, blockScalar_written false _ hb hfloor]
      exact congrArg (Option.bind · _) (marginFrom_tab [] 0 (line + 1) 0 indent _)

end Yaml
end DefTable
