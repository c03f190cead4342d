import DefTable.Proofs.Data.Yaml.Inline
import Mathlib.Algebra.Group.Nat.Defs

/-!
# Quoted scalars are read as they are written

Between single quotes a quote is doubled and everything else stands for itself; line breaks are
folded, but not the separators of lines and paragraphs, which are the only ones written there.
Between double quotes stands one line, with escapes for what cannot stand as it is.
-/

namespace DefTable
namespace Yaml

/-!
## Single quotes
-/

theorem singleFrom_doubled (done : List Char) (p : Pending) (line column : Nat)
    (rest : List Char) :
    singleFrom done p line column ('\'' :: '\'' :: rest) =
      singleFrom ('\'' :: (p.folded.reverse ++ done)) .none line (column + 2) rest := by
  rw [singleFrom]

theorem singleFrom_close
    {done : List Char} {p : Pending} {line column : Nat} {rest : List Char}
    (h : rest.head? ≠ some '\'') :
    singleFrom done p line column ('\'' :: rest) =
      some ⟨String.ofList (p.folded.reverse ++ done).reverse, ⟨rest, line, column + 1⟩, false⟩ := by
  rw [singleFrom]
  intro more heq
  rw [heq] at h
  exact h rfl

theorem singleFrom_char
    {done : List Char} {p : Pending} {line column : Nat} {c : Char} {rest : List Char}
    (hc : c ≠ '\'') (hmarker : Cursor.atMarker ⟨c :: rest, line, column⟩ = false) :
    singleFrom done p line column (c :: rest) =
      if isBreak c then singleFrom done (p.push c) (line + 1) 0 rest
      else if isBlank c then singleFrom done (p.push c) line (column + 1) rest
      else singleFrom (c :: (p.folded.reverse ++ done)) .none line (column + 1) rest := by
  rw [singleFrom, hmarker]
  · rfl
  · exact fun more heq _ => hc heq
  · exact hc

def doubled (c : Char) : List Char :=
  if c = '\'' then ['\'', '\''] else [c]

/-- A text that can stand between single quotes, on one line or on several. -/
structure SingleText (cs : List Char) : Prop where
  noSpaceAfter : hasPair isBreak (· = ' ') cs = false
  noSpaceBefore : hasPair (· = ' ') isBreak cs = false
  noTab : forall c, c ∈ cs -> c ≠ '\t'
  separators : forall c, c ∈ cs -> isBreak c = true -> c = '\u2028' ∨ c = '\u2029'

theorem SingleText.tail {c : Char} {cs : List Char} (h : SingleText (c :: cs)) : SingleText cs := by
  have hpair : forall first second, hasPair first second (c :: cs) = false ->
      hasPair first second cs = false := by
    intro first second hnone
    cases cs with
    | nil => rfl
    | cons d cs =>
        rw [hasPair, Bool.or_eq_false_iff] at hnone
        exact hnone.2
  exact ⟨hpair _ _ h.noSpaceAfter, hpair _ _ h.noSpaceBefore,
    fun d hd => h.noTab d (List.mem_cons_of_mem c hd),
    fun d hd => h.separators d (List.mem_cons_of_mem c hd)⟩

/-- What waits between single quotes is either blanks or separators, and stands for itself. -/
structure Held (p : Pending) (next : List Char) : Prop where
  separators : forall c, c ∈ p.breaks -> c = '\u2028' ∨ c = '\u2029'
  blanks : p.breaks ≠ [] -> p.blanks = [] ∧ next.head? ≠ some ' '
  noBreak : p.blanks ≠ [] -> forall c, next.head? = some c -> isBreak c = false

theorem Held.folded {p : Pending} {next : List Char} (h : Held p next) :
    p.folded = p.blanks ++ p.breaks := by
  rcases p with ⟨blanks, breaks⟩
  unfold Pending.folded
  dsimp only
  split
  · exact (List.append_nil blanks).symm
  · rcases h.separators '\n' (List.mem_singleton_self _) with heq | heq <;> cases heq
  · rcases h.separators '\n' List.mem_cons_self with heq | heq <;> cases heq
  · rename_i hne _ _
    rw [show blanks = [] from (h.blanks hne).1]
    rfl

theorem singleFrom_spaces
    {done : List Char} {p : Pending} {line : Nat} (hcrossed : p.breaks ≠ []) (margin column : Nat)
    (rest : List Char) :
    singleFrom done p line column (List.replicate margin ' ' ++ rest) =
      singleFrom done p line (column + margin) rest := by
  induction margin generalizing column with
  | zero => rfl
  | succ margin ih =>
      have hpush : p.push ' ' = p := by
        have hp : p.crossed = true := by
          rw [Pending.crossed, List.isEmpty_eq_false_iff.mpr hcrossed]
          rfl
        rw [Pending.push, if_neg (by decide), if_pos hp]
      rw [List.replicate_succ, List.cons_append, singleFrom_char (by decide) (by
          simp [Cursor.atMarker, startsLikeDocument, List.isPrefixOf]), if_neg (by decide),
        if_pos (by decide), hpush, ih, Nat.add_assoc, Nat.add_comm 1]

theorem held_none (next : List Char) : Held .none next where
  separators _ h := nomatch h
  blanks h := absurd rfl h
  noBreak h := absurd rfl h

theorem head_of_hasPair
    {first second : Char -> Bool} {c d : Char} {cs : List Char}
    (h : hasPair first second (c :: cs) = false) (hc : first c = true) (hd : cs.head? = some d) :
    second d = false := by
  cases cs with
  | nil => cases hd
  | cons e cs =>
      cases hd
      rw [hasPair, Bool.or_eq_false_iff, hc, Bool.true_and] at h
      exact h.1

theorem singleFrom_margin
    {margin column : Nat} (line : Nat) (done : List Char) {p : Pending}
    (hmargin : 0 < margin ∨ p.breaks = []) (hcolumn : 0 < column ∨ p.breaks ≠ []) :
    exists column', 0 < column' ∧ (p.breaks = [] -> column' = column) ∧ forall rest,
      singleFrom done p line column
          ((if !p.breaks.isEmpty then List.replicate margin ' ' else []) ++ rest) =
        singleFrom done p line column' rest := by
  cases hbreaks : p.breaks with
  | nil => exact ⟨column, hcolumn.resolve_right (absurd hbreaks), fun _ => rfl, fun _ => rfl⟩
  | cons b breaks =>
      have hne : p.breaks ≠ [] := hbreaks ▸ List.cons_ne_nil b breaks
      have hpos : 0 < margin := hmargin.resolve_right hne
      refine ⟨column + margin, by omega, fun heq => absurd heq (List.cons_ne_nil b breaks), ?_⟩
      exact singleFrom_spaces hne margin column

theorem singleFrom_doubledChar
    {column : Nat} (line : Nat) (done : List Char) {p : Pending} {c : Char} {cs : List Char}
    (hbreak : isBreak c = false) (htext : SingleText (c :: cs)) (hheld : Held p (c :: cs))
    (hcolumn : 0 < column) :
    exists done' p', Held p' cs ∧ p'.breaks = [] ∧
      done'.reverse ++ p'.blanks = done.reverse ++ (p.blanks ++ p.breaks) ++ [c] ∧
      forall rest, singleFrom done p line column (doubled c ++ rest) =
        singleFrom done' p' line (column + (doubled c).length) rest := by
  have hmarker : forall rest, Cursor.atMarker ⟨c :: rest, line, column⟩ = false :=
    fun rest => atMarker_of_column hcolumn
  by_cases hquote : c = '\''
  · refine ⟨'\'' :: (p.folded.reverse ++ done), .none, held_none cs, rfl, ?_, fun rest => ?_⟩
    · rw [hheld.folded, hquote]
      simp [Pending.none]
    · rw [doubled, if_pos hquote]
      exact singleFrom_doubled done p line column rest
  · by_cases hspace : c = ' '
    · have hbreaks : p.breaks = [] := by
        refine Decidable.byContradiction fun hne => ?_
        exact (hheld.blanks hne).2 (congrArg some hspace)
      have hpush : p.push c = ⟨p.blanks ++ [c], []⟩ := by
        rw [Pending.push, if_neg (by simp [hbreak]), if_neg (by simp [Pending.crossed, hbreaks])]
      have hheld' : Held ⟨p.blanks ++ [c], []⟩ cs := by
        refine ⟨fun _ hmem => absurd hmem List.not_mem_nil, fun hne => absurd rfl hne, ?_⟩
        exact fun _ d hd => head_of_hasPair htext.noSpaceBefore (decide_eq_true hspace) hd
      refine ⟨done, ⟨p.blanks ++ [c], []⟩, hheld', rfl, by simp [hbreaks], fun rest => ?_⟩
      rw [doubled, if_neg hquote, List.singleton_append, singleFrom_char hquote (hmarker rest),
        if_neg (by simp [hbreak]), if_pos (by simp [isBlank, hspace]), hpush]
      rfl
    · have hblank : isBlank c = false := isBlank_of_ne (htext.noTab c List.mem_cons_self) hspace
      refine ⟨c :: (p.folded.reverse ++ done), .none, held_none cs, rfl, ?_, fun rest => ?_⟩
      · rw [hheld.folded]
        simp [Pending.none]
      · rw [doubled, if_neg hquote, List.singleton_append, singleFrom_char hquote (hmarker rest),
          if_neg (by simp [hbreak]), if_neg (by simp [hblank])]
        rfl

theorem singleFrom_separator
    (line column : Nat) (done : List Char) {p : Pending} {c : Char} {cs : List Char}
    (hbreak : isBreak c = true) (htext : SingleText (c :: cs)) (hheld : Held p (c :: cs)) :
    Held ⟨[], p.breaks ++ [c]⟩ cs ∧ p.blanks = [] ∧ forall rest,
      singleFrom done p line column (c :: rest) =
        singleFrom done ⟨[], p.breaks ++ [c]⟩ (line + 1) 0 rest := by
  have hseparator := htext.separators c List.mem_cons_self hbreak
  have hblanks : p.blanks = [] := by
    refine Decidable.byContradiction fun hne => ?_
    exact nomatch (hheld.noBreak hne c rfl).symm.trans hbreak
  have hheld' : Held ⟨[], p.breaks ++ [c]⟩ cs := by
    refine ⟨?_, fun _ => ⟨rfl, fun hspace => ?_⟩, fun hne => absurd rfl hne⟩
    · intro d hd
      rcases List.mem_append.mp hd with hold | hnew
      · exact hheld.separators d hold
      · rwa [List.mem_singleton.mp hnew]
    · exact nomatch head_of_hasPair htext.noSpaceAfter hbreak hspace
  have hread : readBreak c = c := by
    rcases hseparator with rfl | rfl <;> rfl
  have hother : c ≠ '\'' ∧ c ≠ '-' ∧ c ≠ '.' := by
    rcases hseparator with rfl | rfl <;> decide
  refine ⟨hheld', hblanks, fun rest => ?_⟩
  have hmarker : Cursor.atMarker ⟨c :: rest, line, column⟩ = false := by
    rw [Cursor.atMarker, not_startsLikeDocument hother.2.1 hother.2.2, Bool.and_false,
      Bool.false_and]
  rw [singleFrom_char hother.1 hmarker, if_pos hbreak, Pending.push, if_pos hbreak, hread]

/-- What is left of a single-quoted text is scanned up to its quote.  The cursor stays on the line
if there is no separator. -/
theorem singleFrom_rest
    {margin : Nat} (line column : Nat) {cs after : List Char} (done : List Char) {p : Pending}
    (hmargin : 0 < margin ∨ p.breaks = [] ∧ forall c, c ∈ cs -> isBreak c = false)
    (htext : SingleText cs) (hheld : Held p cs) (hcolumn : 0 < column ∨ p.breaks ≠ [])
    (hafter : after.head? ≠ some '\'') :
    exists line' column',
      singleFrom done p line column
          (Writer.withMargin margin doubled (!p.breaks.isEmpty) cs ++ '\'' :: after) =
        some ⟨String.ofList (done.reverse ++ (p.blanks ++ p.breaks) ++ cs),
          ⟨after, line', column'⟩, false⟩ ∧
      line ≤ line' ∧
      (p.breaks = [] -> (forall c, c ∈ cs -> isBreak c = false) ->
        line' = line ∧ column' = column + (cs.flatMap doubled).length + 1) := by
  induction cs generalizing p done line column with
  | nil =>
      refine ⟨line, column + 1, ?_, Nat.le_refl line, fun _ _ => ⟨rfl, rfl⟩⟩
      change singleFrom done p line column ('\'' :: after) = _
      rw [singleFrom_close hafter, hheld.folded]
      simp
  | cons c cs ih =>
      rw [Writer.withMargin]
      cases hbreak : isBreak c with
      | true =>
          have hnone : ¬ forall d, d ∈ c :: cs -> isBreak d = false :=
            fun hnone => nomatch (hnone c List.mem_cons_self).symm.trans hbreak
          have hpos : 0 < margin := hmargin.resolve_right fun h => hnone h.2
          rcases singleFrom_separator line column done hbreak htext hheld with
            ⟨hheld', hblanks, hstep⟩
          rcases ih (line + 1) 0 done (.inl hpos) htext.tail hheld' (.inr (by simp)) with
            ⟨line', column', hscan, hline, _⟩
          refine ⟨line', column', ?_, Nat.le_of_succ_le hline, fun _ h => absurd h hnone⟩
          rw [show (!(p.breaks ++ [c]).isEmpty) = true by simp] at hscan
          rw [if_pos rfl, List.cons_append, hstep, hscan, hblanks]
          simp
      | false =>
          rcases singleFrom_margin line done (hmargin.imp_right And.left) hcolumn with
            ⟨start, hpos, hsame, hstart⟩
          rcases singleFrom_doubledChar line done hbreak htext hheld hpos with
            ⟨done', p', hheld', hbreaks, hdone, hstep⟩
          rcases ih line (start + (doubled c).length) done'
            (hmargin.imp_right fun h => ⟨hbreaks, fun d hd => h.2 d (List.mem_cons_of_mem c hd)⟩)
            htext.tail hheld' (.inl (by omega)) with ⟨line', column', hscan, hline, hplace⟩
          refine ⟨line', column', ?_, hline, fun hp hnone => ?_⟩
          · rw [hbreaks] at hscan
            rw [if_neg Bool.false_ne_true, List.append_assoc, List.append_assoc, hstart, hstep]
            refine hscan.trans ?_
            rw [List.append_nil, hdone, List.append_assoc]
            rfl
          · rcases hplace hbreaks fun d hd => hnone d (List.mem_cons_of_mem c hd) with ⟨hl, hc⟩
            refine ⟨hl, ?_⟩
            rw [hc, hsame hp, List.flatMap_cons, List.length_append]
            omega

theorem quoted_single
    {margin line column : Nat} {cs after : List Char} (htext : SingleText cs)
    (hmargin : 0 < margin ∨ forall c, c ∈ cs -> isBreak c = false)
    (hafter : after.head? ≠ some '\'') :
    exists line' column',
      quoted ⟨(Writer.single margin cs).toList ++ after, line, column⟩ =
        some ⟨String.ofList cs, ⟨after, line', column'⟩, false⟩ ∧
      line ≤ line' ∧
      ((forall c, c ∈ cs -> isBreak c = false) ->
        line' = line ∧ column' = column + (cs.flatMap doubled).length + 2) := by
  have hwritten : (Writer.single margin cs).toList ++ after =
      '\'' :: (Writer.withMargin margin doubled false cs ++ '\'' :: after) := by
    rw [Writer.single, String.toList_ofList, List.append_assoc]
    rfl
  rcases singleFrom_rest line (column + 1) [] (p := .none)
    (hmargin.imp_right fun h => ⟨rfl, h⟩) htext (held_none cs) (.inl (Nat.succ_pos column)) hafter
    with ⟨line', column', hscan, hline, hplace⟩
  refine ⟨line', column', ?_, hline, fun hnone => ?_⟩
  · rw [hwritten]
    exact hscan
  · rcases hplace rfl hnone with ⟨hl, hc⟩
    exact ⟨hl, by omega⟩

/-!
## Escapes
-/

theorem digitValue_upper :
    forall d, d < 16 -> Numeral.digitValue? (Quoted.hexDigit d).toUpper = some d := by
  decide

def addDigit (n : Nat) (c : Char) : Option Nat := do
  let d ← Numeral.digitValue? c
  if d < 16 then some (n * 16 + d) else none

theorem foldlM_upperHex (width n start : Nat) :
    (Writer.upperHex width n).foldlM addDigit start =
      some (start * 16 ^ width + n % 16 ^ width) := by
  induction width generalizing n with
  | zero => simp [Writer.upperHex, Quoted.hex, Nat.mod_one]
  | succ width ih =>
      have hdigit : n % 16 < 16 := Nat.mod_lt _ (by decide)
      have hsplit : Writer.upperHex (width + 1) n =
          Writer.upperHex width (n / 16) ++ [(Quoted.hexDigit (n % 16)).toUpper] := by
        rw [Writer.upperHex, Quoted.hex, List.map_append]
        rfl
      have hadd : forall m, addDigit m (Quoted.hexDigit (n % 16)).toUpper =
          some (m * 16 + n % 16) := by
        intro m
        simp [addDigit, digitValue_upper _ hdigit, hdigit]
      rw [hsplit, List.foldlM_append, ih]
      simp only [Option.bind_eq_bind, Option.bind_some, List.foldlM_cons, List.foldlM_nil, hadd,
        Option.pure_def, Option.some.injEq]
      rw [Nat.pow_succ, Nat.mul_comm (16 ^ width) 16, Nat.mod_mul, Nat.add_mul, Nat.mul_assoc,
        Nat.mul_comm (16 ^ width) 16]
      omega

theorem length_upperHex (width n : Nat) : (Writer.upperHex width n).length = width := by
  rw [Writer.upperHex, List.length_map, Quoted.length_hex]

theorem radixValue?_upperHex {width n : Nat} (hwidth : 0 < width) (hn : n < 16 ^ width) :
    radixValue? 16 (Writer.upperHex width n) = some n := by
  have hne : (Writer.upperHex width n).isEmpty = false := by
    rw [List.isEmpty_eq_false_iff_exists_mem, ← List.length_pos_iff_exists_mem, length_upperHex]
    exact hwidth
  have hfold := foldlM_upperHex width n 0
  rw [Nat.zero_mul, Nat.zero_add, Nat.mod_eq_of_lt hn] at hfold
  rw [radixValue?, hne, if_neg Bool.false_ne_true]
  exact hfold

theorem escape?_upperHex
    {mark c : Char} {width : Nat} (hmark : codeWidth? mark = some width) (hwidth : 0 < width)
    (hc : c.toNat < 16 ^ width) (rest : List Char) :
    escape? (mark :: (Writer.upperHex width c.toNat ++ rest)) = some (c, width + 1) := by
  have htake : (Writer.upperHex width c.toNat ++ rest).take width =
      Writer.upperHex width c.toNat :=
    List.take_left' (length_upperHex width c.toNat)
  have hvalid : c.toNat.isValidChar := c.valid
  rw [escape?, hmark]
  dsimp only
  rw [htake, radixValue?_upperHex hwidth hc, length_upperHex]
  simp [hvalid, Char.ofNat_toNat]

theorem simpleEscape?_named {c e : Char} (h : Writer.named? c = some e) :
    simpleEscape? e = some c ∧ codeWidth? e = none ∧ isBreak e = false := by
  have hof : forall d : Char, c.toNat = d.toNat -> d = c := by
    intro d heq
    rw [← Char.ofNat_toNat c, heq, Char.ofNat_toNat]
  unfold Writer.named? at h
  split at h <;> cases h <;> rename_i hc <;> exact ⟨congrArg some (hof _ hc), rfl, rfl⟩

theorem isBreak_upper : forall d, d < 16 -> isBreak (Quoted.hexDigit d).toUpper = false := by
  decide

theorem escaped_eq (c : Char) :
    exists e more, Writer.escaped c = '\\' :: e :: more ∧ isBreak e = false ∧
      (forall d, d ∈ more -> isBreak d = false) ∧
      forall rest, escape? (e :: (more ++ rest)) = some (c, more.length + 1) := by
  have hdigits : forall width n d, d ∈ Writer.upperHex width n -> isBreak d = false := by
    intro width n d hd
    rcases List.mem_map.mp hd with ⟨digit, hdigit, rfl⟩
    rcases Quoted.mem_hex hdigit with ⟨k, hk, rfl⟩
    exact isBreak_upper k hk
  have hnumeric : forall mark width, codeWidth? mark = some width -> 0 < width ->
      isBreak mark = false -> c.toNat < 16 ^ width ->
      isBreak mark = false ∧
        (forall d, d ∈ Writer.upperHex width c.toNat -> isBreak d = false) ∧
        forall rest, escape? (mark :: (Writer.upperHex width c.toNat ++ rest)) =
          some (c, (Writer.upperHex width c.toNat).length + 1) := by
    intro mark width hmark hwidth hbreak hc
    refine ⟨hbreak, hdigits width c.toNat, fun rest => ?_⟩
    rw [escape?_upperHex hmark hwidth hc, length_upperHex]
  unfold Writer.escaped
  cases hnamed : Writer.named? c with
  | some e =>
      rcases simpleEscape?_named hnamed with ⟨hsimple, hcode, hbreak⟩
      refine ⟨e, [], rfl, hbreak, fun _ hd => absurd hd List.not_mem_nil, fun rest => ?_⟩
      rw [escape?, hcode]
      dsimp only
      rw [hsimple]
      rfl
  | none =>
      dsimp only
      split
      · exact ⟨'x', _, rfl, hnumeric 'x' 2 rfl (by decide) rfl (by omega)⟩
      · split
        · exact ⟨'u', _, rfl, hnumeric 'u' 4 rfl (by decide) rfl (by omega)⟩
        · have hc : c.toNat < 16 ^ 8 := by
            have hvalid : c.toNat.isValidChar := c.valid
            unfold Nat.isValidChar at hvalid
            omega
          exact ⟨'U', _, rfl, hnumeric 'U' 8 rfl (by decide) rfl hc⟩

/-!
## Double quotes
-/

theorem doubleFrom_skip
    (state : Double) (line column : Nat) {skipped : List Char}
    (h : forall c, c ∈ skipped -> isBreak c = false) (rest : List Char) :
    doubleFrom state skipped.length line column (skipped ++ rest) =
      doubleFrom state 0 line (column + skipped.length) rest := by
  induction skipped generalizing column with
  | nil => rfl
  | cons c skipped ih =>
      rw [List.forall_mem_cons] at h
      rw [List.cons_append, List.length_cons, doubleFrom, if_neg (by simp [h.1]), ih _ h.2,
        Nat.add_assoc, Nat.add_comm 1]

structure Calm (s : Double) : Prop where
  joined : s.joined = false
  breaks : s.pending.breaks = []

theorem calm_add (s : Double) (c : Char) : Calm (s.add c) ∧ (s.add c).settled = c :: s.settled :=
  ⟨⟨rfl, rfl⟩, rfl⟩

theorem Calm.push {s : Double} (h : Calm s) {c : Char} (hbreak : isBreak c = false) :
    Calm (s.push c) ∧ (s.push c).settled = c :: s.settled := by
  rcases s with ⟨done, ⟨blanks, breaks⟩, joined⟩
  rcases h with ⟨hjoined, hbreaks⟩
  change joined = false at hjoined
  change breaks = [] at hbreaks
  subst hjoined hbreaks
  have hpush : Double.push ⟨done, ⟨blanks, []⟩, false⟩ c = ⟨done, ⟨blanks ++ [c], []⟩, false⟩ := by
    simp [Double.push, Pending.push, Pending.crossed, hbreak]
  rw [hpush]
  refine ⟨⟨rfl, rfl⟩, ?_⟩
  simp [Double.settled, Pending.folded]

inductive Spells (c : Char) : List Char -> Prop where
  | itself : isBreak c = false -> c ≠ '"' -> c ≠ '\\' -> Spells c [c]
  | escaped : Spells c (Writer.escaped c)

theorem spells_doubleChar (c : Char) : Spells c (Writer.doubleChar c) := by
  unfold Writer.doubleChar
  split
  · rename_i h
    simp only [Bool.and_eq_true, Bool.not_eq_true', decide_eq_true_eq, ne_eq] at h
    exact .itself h.1.1.2 h.1.2 h.2
  · exact .escaped

theorem doubleFrom_spells
    {s : Double} (line : Nat) {column : Nat} {c : Char} {cs : List Char} (hs : Calm s)
    (hc : Spells c cs) (hcolumn : 0 < column) :
    exists s', Calm s' ∧ s'.settled = c :: s.settled ∧ forall rest,
      doubleFrom s 0 line column (cs ++ rest) = doubleFrom s' 0 line (column + cs.length) rest := by
  have hmarker : forall rest, Cursor.atMarker ⟨rest, line, column⟩ = false :=
    fun rest => atMarker_of_column hcolumn
  cases hc with
  | itself hbreak hquote hback =>
      cases hblank : isBlank c with
      | true =>
          rcases hs.push hbreak with ⟨hcalm, hsettled⟩
          refine ⟨s.push c, hcalm, hsettled, fun rest => ?_⟩
          rw [List.singleton_append, doubleFrom]
          simp [hquote, hback, hbreak, hblank, hmarker]
      | false =>
          rcases calm_add s c with ⟨hcalm, hsettled⟩
          refine ⟨s.add c, hcalm, hsettled, fun rest => ?_⟩
          rw [List.singleton_append, doubleFrom]
          simp [hquote, hback, hbreak, hblank, hmarker]
  | escaped =>
      rcases escaped_eq c with ⟨e, more, hwritten, hbreak, hmore, hescape⟩
      rcases calm_add s c with ⟨hcalm, hsettled⟩
      refine ⟨s.add c, hcalm, hsettled, fun rest => ?_⟩
      have hskip := doubleFrom_skip (s.add c) line (column + 1)
        (List.forall_mem_cons.mpr ⟨hbreak, hmore⟩) rest
      rw [hwritten, List.cons_append, List.cons_append, doubleFrom]
      simp only [hmarker, hescape, List.head?_cons, Option.any_some, hbreak]
      rw [if_neg (by decide), if_neg Bool.false_ne_true, if_pos trivial, if_neg Bool.false_ne_true]
      refine hskip.trans ?_
      rw [List.length_cons, List.length_cons, List.length_cons, Nat.add_assoc, Nat.add_comm 1]

theorem doubleFrom_rest
    {char : Char -> List Char} (hchar : forall c, Spells c (char c)) {s : Double}
    {line column : Nat} (hs : Calm s) (hcolumn : 0 < column) (cs after : List Char) :
    doubleFrom s 0 line column (cs.flatMap char ++ '"' :: after) =
      some ⟨String.ofList (s.settled.reverse ++ cs),
        ⟨after, line, column + (cs.flatMap char).length + 1⟩, false⟩ := by
  induction cs generalizing s column with
  | nil =>
      rw [List.flatMap_nil, List.nil_append, doubleFrom, if_pos rfl, List.append_nil]
      rfl
  | cons c cs ih =>
      rcases doubleFrom_spells line hs (hchar c) hcolumn with
        ⟨s', hcalm, hsettled, hstep⟩
      rw [List.flatMap_cons, List.append_assoc, hstep, ih hcalm (by omega), hsettled]
      simp [Nat.add_assoc]

def doubleCharOf (cs : List Char) : Char -> List Char :=
  if cs.head? = some byteOrderMark then Writer.escaped else Writer.doubleChar

theorem spells_doubleCharOf (cs : List Char) (c : Char) : Spells c (doubleCharOf cs c) := by
  unfold doubleCharOf
  split
  · exact .escaped
  · exact spells_doubleChar c

theorem quoted_double (cs after : List Char) (line column : Nat) :
    quoted ⟨(Writer.double cs).toList ++ after, line, column⟩ =
      some ⟨String.ofList cs,
        ⟨after, line, column + (cs.flatMap (doubleCharOf cs)).length + 2⟩, false⟩ := by
  have hwritten : (Writer.double cs).toList ++ after =
      '"' :: (cs.flatMap (doubleCharOf cs) ++ '"' :: after) := by
    rw [Writer.double, String.toList_ofList, List.append_assoc]
    rfl
  rw [hwritten]
  refine (doubleFrom_rest (spells_doubleCharOf cs) (s := ⟨[], .none, false⟩) ⟨rfl, rfl⟩
    (Nat.succ_pos column) cs after).trans ?_
  rw [show column + 1 + (cs.flatMap (doubleCharOf cs)).length + 1 =
    column + (cs.flatMap (doubleCharOf cs)).length + 2 by omega]
  rfl

end Yaml
end DefTable
