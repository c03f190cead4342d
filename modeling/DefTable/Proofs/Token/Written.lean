import DefTable.Proofs.Token.Spelling

/-!
# Scanning what was written

A text that was written token by token is scanned token by token, if each token ends where the next
one starts.  `Scans` says of a string what it is scanned to wherever it stands, under a condition on
what follows; such statements are put together along the string.
-/

namespace DefTable
namespace Token

/-!
## What may follow a token
-/

def Breaks (p : Glyph -> Bool) (rest : Text) : Prop :=
  forall g, rest.head? = some g -> p g = false

theorem breaks_nil {p : Glyph -> Bool} : Breaks p [] :=
  fun _ hg => nomatch hg

def separators : List Glyph :=
  [.char ' ', .char '\n', .char ')', .char ']', .char ',', .char ';']

def Separated (rest : Text) : Prop :=
  forall g, rest.head? = some g -> g ∈ separators

def Anything (_ : Text) : Prop := True

/-- What comes next, if anything does, goes on no word, no numeral and no operator. -/
structure Apart (rest : Text) : Prop where
  words : Breaks isWordGlyph rest
  operators : Breaks isOperatorGlyph rest

theorem apart_nil : Apart [] where
  words := breaks_nil
  operators := breaks_nil

theorem Apart.ne_point {rest : Text} (h : Apart rest) (more : Text) : rest ≠ .char '.' :: more := by
  rintro rfl
  have hpoint := h.operators _ rfl
  revert hpoint
  decide

theorem separated_nil : Separated [] :=
  fun _ hg => nomatch hg

theorem separated_cons {g : Glyph} {rest : Text} (h : g ∈ separators) : Separated (g :: rest) := by
  intro g' hg'
  cases hg'
  exact h

theorem Separated.breaks
    {p : Glyph -> Bool} {rest : Text} (h : Separated rest)
    (hp : forall g, g ∈ separators -> p g = false) : Breaks p rest :=
  fun g hg => hp g (h g hg)

theorem separators_end_words : forall g, g ∈ separators -> isWordGlyph g = false := by
  decide

theorem separators_end_operators : forall g, g ∈ separators -> isOperatorGlyph g = false := by
  decide

theorem Separated.apart {rest : Text} (h : Separated rest) : Apart rest where
  words := h.breaks separators_end_words
  operators := h.breaks separators_end_operators

theorem runLength_append
    {p : Glyph -> Bool} {run rest : Text} (hrun : forall g, g ∈ run -> p g = true)
    (hrest : Breaks p rest) : runLength p (run ++ rest) = run.length := by
  have hnone : rest.takeWhile p = [] := by
    cases rest with
    | nil => rfl
    | cons g rest => exact List.takeWhile_cons_of_neg (Bool.eq_false_iff.mp (hrest g rfl))
  rw [runLength, List.takeWhile_append_of_pos hrun, hnone, List.append_nil]

/-!
## One step of the scanner
-/

theorem scanFrom_eq (beyond : Text) (p : Position) (t : Text) :
    scanFrom beyond p t =
      match t.drop (blankLength false t) with
      | [] => [endAt (p.after (t.take (blankLength false t)))]
      | g :: rest =>
          ⟨(extent g rest).kind, lexemeOf beyond (extent g rest) g rest,
              p.after (t.take (blankLength false t))⟩ ::
            scanFrom beyond ((p.after (t.take (blankLength false t))).after
              (g :: rest.take (extent g rest).more)) (rest.drop (extent g rest).more) := by
  rw [scanFrom]
  split
  · rename_i hdrop
    rw [hdrop]
  · rename_i g rest hdrop
    simp only [hdrop]

theorem nul_not_mem_takeWhile (t : Text) : .char '\x00' ∉ t.takeWhile (· ≠ .char '\x00') := by
  intro hmem
  have hne := List.all_eq_true.mp List.all_takeWhile _ hmem
  exact absurd hne (by decide)

theorem scan_of_noNul {t : Text} (h : .char '\x00' ∉ t) : scan t = scanFrom [] .start t := by
  have hall : forall g, g ∈ t -> decide (g ≠ .char '\x00') = true := by
    intro g hg
    refine decide_eq_true ?_
    rintro rfl
    exact h hg
  have hbody : (t ++ []).takeWhile (fun g => decide (g ≠ Glyph.char '\x00')) = t := by
    rw [List.takeWhile_append_of_pos hall]
    exact List.append_nil t
  rw [List.append_nil] at hbody
  unfold scan
  dsimp only
  rw [hbody, List.drop_length]

theorem scanFrom_nil (beyond : Text) (p : Position) : scanFrom beyond p [] = [endAt p] := by
  rw [scanFrom_eq]
  rfl

theorem scanFrom_blank
    {g : Glyph} (hg : isBlank g = true) (beyond : Text) (p : Position) (rest : Text) :
    scanFrom beyond p (g :: rest) = scanFrom beyond (p.after [g]) rest := by
  have hlength : blankLength false (g :: rest) = blankLength false rest + 1 := by
    rw [blankLength, if_neg Bool.false_ne_true, if_pos hg]
  rw [scanFrom_eq beyond p, scanFrom_eq beyond (p.after [g]), hlength]
  rfl

theorem lexemeOf_legal
    {e : Extent} (h : forall f, e.kind ≠ .illegal f) (beyond : Text) (g : Glyph) (rest : Text) :
    lexemeOf beyond e g rest = g :: rest.take e.more := by
  unfold lexemeOf
  split
  · rename_i hkind
    exact absurd hkind (h _)
  · rename_i c hkind
    exact absurd hkind (h _)
  · rfl

theorem scanFrom_token
    {g : Glyph} {more rest : Text} {kind : Kind} (hblank : isBlank g = false)
    (hcomment : g ≠ .char '#') (hextent : extent g (more ++ rest) = ⟨kind, more.length⟩)
    (hlegal : forall f, kind ≠ .illegal f) (beyond : Text) (p : Position) :
    scanFrom beyond p (g :: more ++ rest) =
      ⟨kind, g :: more, p⟩ :: scanFrom beyond (p.after (g :: more)) rest := by
  have hlength : blankLength false (g :: (more ++ rest)) = 0 := by
    rw [blankLength, if_neg Bool.false_ne_true, hblank, if_neg Bool.false_ne_true,
      if_neg hcomment]
  have hlexeme : lexemeOf beyond ⟨kind, more.length⟩ g (more ++ rest) = g :: more := by
    rw [lexemeOf_legal hlegal, List.take_left]
  rw [List.cons_append, scanFrom_eq, hlength]
  simp only [List.drop_zero, hextent, hlexeme, List.take_left, List.drop_left]
  rfl

/-!
## Strings and their tokens
-/

/-- Wherever the string stands before a text that satisfies `after`, it is scanned to tokens of
which `post` is true, and the scanner goes on behind it. -/
structure Scans (after : Text -> Prop) (s : String) (post : List Token -> Prop) : Prop where
  noNul : '\x00' ∉ s.toList
  scan : forall beyond p rest, after rest -> exists ts,
    scanFrom beyond p (Text.ofString s ++ rest) =
        ts ++ scanFrom beyond (p.after (Text.ofString s)) rest ∧
      post ts

def Both (first second : List Token -> Prop) (ts : List Token) : Prop :=
  exists ts₁ ts₂, ts = ts₁ ++ ts₂ ∧ first ts₁ ∧ second ts₂

def One (kind : Kind) (ts : List Token) : Prop :=
  exists t, ts = [t] ∧ t.kind = kind

theorem ofString_append (s s' : String) :
    Text.ofString (s ++ s') = Text.ofString s ++ Text.ofString s' := by
  simp [Text.ofString]

section

variable {after after' : Text -> Prop} {s s' : String} {post post' : List Token -> Prop}

theorem Scans.append
    (h : Scans after s post) (h' : Scans after' s' post')
    (hafter : forall rest, after' rest -> after (Text.ofString s' ++ rest)) :
    Scans after' (s ++ s') (Both post post') where
  noNul := by
    rw [String.toList_append, List.mem_append, not_or]
    exact ⟨h.noNul, h'.noNul⟩
  scan beyond p rest hrest := by
    rcases h.scan beyond p _ (hafter rest hrest) with ⟨ts₁, hscan₁, hpost₁⟩
    rcases h'.scan beyond (p.after (Text.ofString s)) rest hrest with ⟨ts₂, hscan₂, hpost₂⟩
    refine ⟨ts₁ ++ ts₂, ?_, ts₁, ts₂, rfl, hpost₁, hpost₂⟩
    rw [ofString_append, List.append_assoc, hscan₁, hscan₂, List.append_assoc, Position.after,
      Position.after, Position.after, List.foldl_append]

theorem Scans.mono
    (h : Scans after s post) (hafter : forall rest, after' rest -> after rest)
    (hpost : forall ts, post ts -> post' ts) : Scans after' s post' where
  noNul := h.noNul
  scan beyond p rest hrest := by
    rcases h.scan beyond p rest (hafter rest hrest) with ⟨ts, hscan, hts⟩
    exact ⟨ts, hscan, hpost ts hts⟩

theorem Scans.imp (h : Scans after s post) (hpost : forall ts, post ts -> post' ts) :
    Scans after s post' :=
  h.mono (fun _ hrest => hrest) hpost

theorem Scans.andThen (h : Scans Anything s post) (h' : Scans after' s' post') :
    Scans after' (s ++ s') (Both post post') :=
  h.append h' fun _ _ => trivial

end

theorem scans_token
    {after : Text -> Prop} {s : String} {c : Char} {cs : List Char} (kind : Kind)
    (hs : s.toList = c :: cs) (hnul : '\x00' ∉ s.toList) (hblank : isBlank (.char c) = false)
    (hcomment : c ≠ '#') (hlegal : forall f, kind ≠ .illegal f)
    (hextent : forall rest, after rest ->
      extent (.char c) (cs.map Glyph.char ++ rest) = ⟨kind, cs.length⟩) :
    Scans after s fun ts => exists t, ts = [t] ∧ t.kind = kind ∧ t.lexeme = Text.ofString s where
  noNul := hnul
  scan beyond p rest hrest := by
    have htext : Text.ofString s = .char c :: cs.map Glyph.char := by
      rw [Text.ofString, hs, List.map_cons]
    have hextent : extent (.char c) (cs.map Glyph.char ++ rest) =
        ⟨kind, (cs.map Glyph.char).length⟩ := by
      rw [hextent rest hrest, List.length_map]
    rw [htext, scanFrom_token hblank (by simpa using hcomment) hextent hlegal]
    exact ⟨[_], rfl, _, rfl, rfl, rfl⟩

/-!
## Words
-/

theorem nul_not_mem_of_all
    {p : Char -> Bool} {cs : List Char} (hp : p '\x00' = false) (h : cs.all p = true) :
    '\x00' ∉ cs := by
  intro hmem
  rw [List.all_eq_true.mp h _ hmem] at hp
  cases hp

theorem IsWord.all {cs : List Char} (h : IsWord cs) : cs.all isNameChar = true := by
  rcases h with ⟨c, rest, rfl, hstart, hrest⟩
  rw [List.all_cons, hrest, Bool.and_true, isNameChar, hstart, Bool.true_or]

theorem runLength_word
    {cs : List Char} {rest : Text} (hcs : cs.all isNameChar = true)
    (hrest : Breaks isWordGlyph rest) :
    runLength isWordGlyph (cs.map Glyph.char ++ rest) = cs.length := by
  rw [runLength_append _ hrest, List.length_map]
  intro g hg
  rcases List.mem_map.mp hg with ⟨c, hc, rfl⟩
  exact List.all_eq_true.mp hcs c hc

theorem toString_map_char (cs : List Char) :
    Text.toString (cs.map Glyph.char) = String.ofList cs := by
  rw [Text.toString, Text.chars, List.map_map]
  exact congrArg String.ofList (List.map_id cs)

theorem spelling_of_run {s : String} {c : Char} {cs : List Char} (hs : s.toList = c :: cs)
    (rest : Text) : Text.toString (.char c :: (cs.map Glyph.char ++ rest).take cs.length) = s := by
  have htake : (cs.map Glyph.char ++ rest).take cs.length = cs.map Glyph.char :=
    List.take_left' (List.length_map _)
  rw [htake, ← List.map_cons, toString_map_char, ← hs, String.ofList_toList]

theorem plain_of_isNameStart
    {c : Char} (h : isNameStart c = true) :
    c ≠ '"' ∧ c ≠ '`' ∧ c ≠ '@' ∧ c ≠ '#' ∧ isBlank (.char c) = false := by
  have hne : forall d, isNameStart d = false -> c ≠ d := by
    rintro d hd rfl
    rw [h] at hd
    cases hd
  refine ⟨hne _ rfl, hne _ rfl, hne _ rfl, hne _ rfl, ?_⟩
  simp [isBlank, hne ' ' rfl, hne '\t' rfl, hne '\r' rfl, hne '\n' rfl]

theorem extent_word {g : Glyph} (h : isNameStart g.toChar = true) (rest : Text) :
    extent g rest =
      ⟨Kind.ofWord (Text.toString (g :: rest.take (runLength isWordGlyph rest))),
        runLength isWordGlyph rest⟩ := by
  rcases plain_of_isNameStart h with ⟨hquote, hbacktick, hat, _⟩
  simp only [extent, hquote, hbacktick, hat, h, if_false, if_true]

theorem scans_word {s : String} (h : IsWord s.toList) :
    Scans (Breaks isWordGlyph) s fun ts =>
      exists t, ts = [t] ∧ t.kind = Kind.ofWord s ∧ t.lexeme = Text.ofString s := by
  have hnul := nul_not_mem_of_all rfl h.all
  rcases h with ⟨c, cs, hs, hstart, hcs⟩
  rcases plain_of_isNameStart hstart with ⟨_, _, _, hcomment, hblank⟩
  refine scans_token _ hs hnul hblank hcomment (plain_ofWord s).legal ?_
  intro rest hrest
  have hword : isNameStart (Glyph.char c).toChar = true := hstart
  rw [extent_word hword, runLength_word hcs hrest, spelling_of_run hs rest]

theorem scans_global {s : String} {cs : List Char} (hs : s.toList = '@' :: cs) (h : IsWord cs) :
    Scans (Breaks isWordGlyph) s fun ts =>
      exists t, ts = [t] ∧ t.kind = .name ∧ t.lexeme = Text.ofString s := by
  have hnul : '\x00' ∉ s.toList := by
    rw [hs, List.mem_cons, not_or]
    exact ⟨by decide, nul_not_mem_of_all rfl h.all⟩
  refine scans_token _ hs hnul rfl (by decide) (fun f hf => nomatch hf) ?_
  intro rest hrest
  have hstarts : startsName (cs.map Glyph.char ++ rest) = true := by
    rcases h with ⟨c, cs', rfl, hstart, _⟩
    exact hstart
  change (if startsName (cs.map Glyph.char ++ rest) = true then
    (⟨.name, runLength isWordGlyph (cs.map Glyph.char ++ rest)⟩ : Extent) else _) = _
  rw [if_pos hstarts, runLength_word h.all hrest]

/-!
## Operators and punctuation
-/

theorem plain_of_operatorChar
    {c : Char} (h : operatorChars.contains c = true) :
    c ≠ '"' ∧ c ≠ '`' ∧ c ≠ '@' ∧ c ≠ '#' ∧ isBlank (.char c) = false ∧ isNameStart c = false ∧
      c.isDigit = false := by
  have hall : operatorChars.all (fun c => c ≠ '"' ∧ c ≠ '`' ∧ c ≠ '@' ∧ c ≠ '#' ∧
      isBlank (.char c) = false ∧ isNameStart c = false ∧ c.isDigit = false) = true := by
    decide
  exact of_decide_eq_true (List.all_eq_true.mp hall c (List.contains_iff_mem.mp h))

theorem extent_operator {g : Glyph} (h : isOperatorGlyph g = true) (rest : Text) :
    extent g rest =
      ⟨(Kind.punctuation? (Text.toString
          (g :: rest.take (runLength isOperatorGlyph rest)))).getD .operator,
        runLength isOperatorGlyph rest⟩ := by
  rcases plain_of_operatorChar h with ⟨hquote, hbacktick, hat, _, _, hstart, hdigit⟩
  simp only [extent, hquote, hbacktick, hat, hstart, hdigit, h, if_false, if_true,
    Bool.false_eq_true]

theorem scans_operator
    {s : String} (hne : s ≠ "") (hall : s.toList.all operatorChars.contains = true) :
    Scans (Breaks isOperatorGlyph) s fun ts =>
      exists t, ts = [t] ∧ t.kind = (Kind.punctuation? s).getD .operator ∧
        t.lexeme = Text.ofString s := by
  have hnul := nul_not_mem_of_all (by decide) hall
  cases hs : s.toList with
  | nil =>
      rw [String.toList_eq_nil_iff] at hs
      exact absurd hs hne
  | cons c cs =>
      rw [hs, List.all_cons, Bool.and_eq_true] at hall
      rcases plain_of_operatorChar hall.1 with ⟨_, _, _, hcomment, hblank, _, _⟩
      refine scans_token _ hs hnul hblank hcomment (plain_operator s).legal ?_
      intro rest hrest
      have hrun : runLength isOperatorGlyph (cs.map Glyph.char ++ rest) = cs.length := by
        rw [runLength_append _ hrest, List.length_map]
        intro g hg
        rcases List.mem_map.mp hg with ⟨d, hd, rfl⟩
        exact List.all_eq_true.mp hall.2 d hd
      have hoperator : isOperatorGlyph (.char c) = true := hall.1
      rw [extent_operator hoperator, hrun, spelling_of_run hs rest]

def marks : List Kind :=
  [.backslash, .comma, .semicolon, .openParen, .closeParen, .openBracket, .closeBracket]

theorem plain_mark {kind : Kind} (h : kind ∈ marks) : kind.Plain := by
  have hmarks : forall k, k ∈ marks -> k ∈ Kind.punctuation := by decide
  exact (fixed_mark (hmarks kind h)).plain

theorem extent_mark {kind : Kind} (h : kind ∈ marks) :
    exists c, kind.label.toList = [c] ∧ '\x00' ≠ c ∧ isBlank (.char c) = false ∧ c ≠ '#' ∧
      forall rest, extent (.char c) rest = ⟨kind, 0⟩ := by
  simp only [marks, List.mem_cons, List.not_mem_nil, or_false] at h
  rcases h with rfl | rfl | rfl | rfl | rfl | rfl | rfl
  all_goals exact ⟨_, rfl, by decide, rfl, by decide, fun _ => rfl⟩

theorem scans_mark (kind : Kind) (h : kind ∈ marks) : Scans Anything kind.label (One kind) := by
  rcases extent_mark h with ⟨c, hlabel, hnul, hblank, hcomment, hextent⟩
  have hmem : '\x00' ∉ kind.label.toList := by
    rw [hlabel, List.mem_singleton]
    exact hnul
  refine (scans_token kind hlabel hmem hblank hcomment (plain_mark h).legal
    fun rest _ => hextent rest).imp ?_
  rintro ts ⟨t, rfl, hkind, _⟩
  exact ⟨t, rfl, hkind⟩

theorem scans_blank {s : String} {c : Char} (hs : s.toList = [c]) (hnul : '\x00' ≠ c)
    (hblank : isBlank (.char c) = true) : Scans Anything s fun ts => ts = [] where
  noNul := by
    rw [hs, List.mem_singleton]
    exact hnul
  scan beyond p rest _ := by
    have htext : Text.ofString s = [.char c] := by rw [Text.ofString, hs, List.map_singleton]
    rw [htext]
    exact ⟨[], scanFrom_blank hblank beyond p rest, rfl⟩

theorem separated_blank (s : String) (rest : Text) : Separated (Text.ofString (" " ++ s) ++ rest) := by
  rw [ofString_append]
  exact separated_cons (by decide)

theorem Scans.beforeBlank {s : String} {post : List Token -> Prop} (h : Scans Separated s post) :
    Scans Anything (s ++ " ") post := by
  have hblank : Scans Anything " " fun ts => ts = [] := scans_blank rfl (by decide) rfl
  refine (h.append hblank fun rest _ => separated_blank "" rest).imp ?_
  rintro ts ⟨ts₁, ts₂, rfl, hts₁, rfl⟩
  rw [List.append_nil]
  exact hts₁

theorem Scans.afterBlanks
    {after : Text -> Prop} {blanks s : String} {post : List Token -> Prop}
    (hblanks : Scans Anything blanks fun ts => ts = []) (h : Scans after s post) :
    Scans after (blanks ++ s) post := by
  refine (hblanks.andThen h).imp ?_
  rintro ts ⟨ts₁, ts₂, rfl, rfl, hts₂⟩
  exact hts₂

theorem Scans.afterBlank
    {after : Text -> Prop} {s : String} {post : List Token -> Prop} (h : Scans after s post) :
    Scans after (" " ++ s) post :=
  .afterBlanks (scans_blank rfl (by decide) rfl) h

theorem Scans.bracketed
    {l r s : String} {left right : Kind} {post : List Token -> Prop}
    (hl : Scans Anything l (One left)) (h : Scans Separated s post)
    (hr : Scans Anything r (One right)) (hseparated : forall rest, Separated (Text.ofString r ++ rest)) :
    Scans Anything (l ++ s ++ r) fun ts => exists t us close,
      ts = t :: us ++ [close] ∧ t.kind = left ∧ post us ∧ close.kind = right := by
  refine ((hl.andThen h).append hr fun rest _ => hseparated rest).imp ?_
  rintro ts ⟨ts₁, ts₂, rfl, ⟨ts₃, us, rfl, ⟨t, rfl, ht⟩, hus⟩, close, rfl, hclose⟩
  exact ⟨t, us, close, rfl, ht, hus, hclose⟩

theorem scans_keyword {s : String} {kind : Kind} (h : (s, kind) ∈ Kind.keywords) :
    Scans Separated s (One kind) := by
  have hword : IsWord s.toList ∧ Kind.ofWord s = kind := by
    simp only [Kind.keywords, List.mem_cons, Prod.mk.injEq, List.not_mem_nil, or_false] at h
    rcases h with ⟨rfl, rfl⟩ | ⟨rfl, rfl⟩ | ⟨rfl, rfl⟩ | ⟨rfl, rfl⟩ | ⟨rfl, rfl⟩ | ⟨rfl, rfl⟩ |
      ⟨rfl, rfl⟩ | ⟨rfl, rfl⟩
    all_goals exact ⟨⟨_, _, rfl, rfl, rfl⟩, rfl⟩
  refine (scans_word hword.1).mono (fun rest hrest => hrest.breaks separators_end_words) ?_
  rintro ts ⟨t, rfl, hkind, _⟩
  exact ⟨t, rfl, hkind.trans hword.2⟩

/-!
## Names between backticks
-/

theorem extent_quotedName
    {g : Glyph} {run : Text} (hfirst : (isNameStart g.toChar || g = .char '@') = true)
    (hrun : forall g, g ∈ run -> isWordGlyph g = true) (rest : Text) :
    extent (.char '`') (g :: (run ++ .char '`' :: rest)) =
      ⟨.quotedName (Text.toString (g :: run)), run.length + 2⟩ := by
  have hlength : runLength isWordGlyph (run ++ .char '`' :: rest) = run.length :=
    runLength_append hrun fun g hg => by cases hg; rfl
  have hclosing : (g :: (run ++ Glyph.char '`' :: rest))[run.length + 1]? = some (.char '`') := by
    simp
  have hextent : forall t, extent (.char '`') t = quotedNameExtent t := fun _ => rfl
  rw [hextent, quotedNameExtent, if_pos hfirst]
  dsimp only
  rw [hlength, if_pos hclosing, List.take_succ_cons, List.take_left]

theorem scans_quotedName
    {s : String}
    (h : IsWord s.toList ∨ exists cs, s.toList = '@' :: cs ∧ cs.all isNameChar = true) :
    Scans Anything ("`" ++ s ++ "`") (One (.quotedName s)) := by
  have hparts : exists c cs, s.toList = c :: cs ∧
      (isNameStart (Glyph.char c).toChar || Glyph.char c = .char '@') = true ∧
      cs.all isNameChar = true ∧ '\x00' ≠ c := by
    rcases h with ⟨c, cs, hs, hstart, hcs⟩ | ⟨cs, hs, hcs⟩
    · refine ⟨c, cs, hs, Bool.or_eq_true_iff.mpr (Or.inl hstart), hcs, ?_⟩
      rintro rfl
      cases hstart
    · exact ⟨'@', cs, hs, rfl, hcs, by decide⟩
  rcases hparts with ⟨c, cs, hs, hstart, hcs, hc⟩
  have hlist : ("`" ++ s ++ "`").toList = '`' :: (c :: cs ++ ['`']) := by
    rw [String.toList_append, String.toList_append, hs]
    rfl
  have hnul : '\x00' ∉ ("`" ++ s ++ "`").toList := by
    rw [hlist]
    simp [hc, nul_not_mem_of_all rfl hcs]
  refine (scans_token (.quotedName s) hlist hnul rfl (by decide) (fun f hf => nomatch hf) ?_).imp ?_
  · intro rest _
    have hrun : forall g, g ∈ cs.map Glyph.char -> isWordGlyph g = true := by
      intro g hg
      rcases List.mem_map.mp hg with ⟨d, hd, rfl⟩
      exact List.all_eq_true.mp hcs d hd
    have htext : (c :: cs ++ ['`']).map Glyph.char ++ rest =
        .char c :: (cs.map Glyph.char ++ .char '`' :: rest) := by
      simp
    have hname : Text.toString (.char c :: cs.map Glyph.char) = s := by
      rw [← List.map_cons, toString_map_char, ← hs, String.ofList_toList]
    rw [htext, extent_quotedName hstart hrun, hname]
    simp
  · rintro ts ⟨t, rfl, hkind, _⟩
    exact ⟨t, rfl, hkind⟩

/-!
## String literals
-/

theorem writeChar_cases (c : Char) :
    (exists d, StringLiteral.writeChar c = ['\\', d] ∧ StringLiteral.escaped d = c ∧ '\x00' ≠ d) ∨
      (StringLiteral.writeChar c = [c] ∧ c ≠ '"' ∧ c ≠ '\\') := by
  unfold StringLiteral.writeChar
  split
  case h_6 hquote hbackslash _ _ _ => exact Or.inr ⟨rfl, hquote, hbackslash⟩
  all_goals exact Or.inl ⟨_, rfl, rfl, by decide⟩

theorem nul_not_mem_writeChar {c : Char} (h : '\x00' ≠ c) :
    '\x00' ∉ StringLiteral.writeChar c := by
  rcases writeChar_cases c with ⟨d, hwrite, _, hd⟩ | ⟨hwrite, _, _⟩
  · simp [hwrite, hd]
  · simp [hwrite, h]

theorem closingQuote_writeChar (c : Char) (rest : Text) :
    closingQuote? ((StringLiteral.writeChar c).map Glyph.char ++ rest) =
      (closingQuote? rest).map (· + (StringLiteral.writeChar c).length) := by
  rcases writeChar_cases c with ⟨d, hwrite, _, _⟩ | ⟨hwrite, hquote, hbackslash⟩
  · rw [hwrite]
    rfl
  · rw [hwrite]
    change closingQuote? (.char c :: rest) = _
    rw [closingQuote?]
    · rfl
    · simpa using hquote
    · intro _ _ heq
      exact absurd (Glyph.char.inj heq) hbackslash

theorem unescape_writeChar (c : Char) (rest : Text) :
    StringLiteral.unescape ((StringLiteral.writeChar c).map Glyph.char ++ rest) =
      (StringLiteral.unescape rest).map (c :: ·) := by
  rcases writeChar_cases c with ⟨d, hwrite, hescaped, _⟩ | ⟨hwrite, _, hbackslash⟩
  · rw [hwrite, ← hescaped]
    rfl
  · rw [hwrite]
    change StringLiteral.unescape (.char c :: rest) = _
    rw [StringLiteral.unescape]
    · rfl
    · intro heq
      exact absurd (Glyph.char.inj heq) hbackslash
    · intro _ _ heq
      exact absurd (Glyph.char.inj heq) hbackslash

theorem closingQuote_written (cs : List Char) (rest : Text) :
    closingQuote? ((cs.flatMap StringLiteral.writeChar).map Glyph.char ++ .char '"' :: rest) =
      some ((cs.flatMap StringLiteral.writeChar).length + 1) := by
  induction cs with
  | nil => rfl
  | cons c cs ih =>
      rw [List.flatMap_cons, List.map_append, List.append_assoc, closingQuote_writeChar, ih,
        Option.map_some, List.length_append]
      congr 1
      omega

theorem unescape_written (cs : List Char) :
    StringLiteral.unescape ((cs.flatMap StringLiteral.writeChar).map Glyph.char) = some cs := by
  induction cs with
  | nil => rfl
  | cons c cs ih =>
      rw [List.flatMap_cons, List.map_append, unescape_writeChar, ih, Option.map_some]

theorem content?_quoted (body : Text) :
    StringLiteral.content? (.char '"' :: (body ++ [.char '"'])) = some body := by
  simp [StringLiteral.content?]

theorem read_written (s : String) :
    StringLiteral.read (.char '"' ::
      ((s.toList.flatMap StringLiteral.writeChar).map Glyph.char ++ [.char '"'])) = .ok s := by
  rw [StringLiteral.read, content?_quoted]
  dsimp only
  rw [unescape_written]
  exact congrArg Except.ok String.ofList_toList

theorem scans_string {v : String} (hv : '\x00' ∉ v.toList) :
    Scans Anything (StringLiteral.write v) (One (.string v)) := by
  have hlist : (StringLiteral.write v).toList =
      '"' :: (v.toList.flatMap StringLiteral.writeChar ++ ['"']) := by
    rw [StringLiteral.write, String.toList_ofList]
    rfl
  have hnul : '\x00' ∉ (StringLiteral.write v).toList := by
    rw [hlist]
    simp only [List.mem_cons, List.mem_append, List.mem_flatMap, not_or, List.not_mem_nil]
    refine ⟨by decide, ?_, by decide, not_false⟩
    rintro ⟨c, hc, hmem⟩
    exact nul_not_mem_writeChar (fun heq => hv (heq ▸ hc)) hmem
  refine (scans_token (.string v) hlist hnul rfl (by decide) (fun f hf => nomatch hf) ?_).imp
    ?_
  · intro rest _
    change stringExtent _ = _
    have hsplit : (v.toList.flatMap StringLiteral.writeChar ++ ['"']).map Glyph.char ++ rest =
        (v.toList.flatMap StringLiteral.writeChar).map Glyph.char ++ .char '"' :: rest := by
      rw [List.map_append, List.append_assoc]
      rfl
    rw [stringExtent, hsplit, closingQuote_written]
    dsimp only
    have htake : ((v.toList.flatMap StringLiteral.writeChar).map Glyph.char ++
        .char '"' :: rest).take ((v.toList.flatMap StringLiteral.writeChar).length + 1) =
        (v.toList.flatMap StringLiteral.writeChar).map Glyph.char ++ [.char '"'] := by
      rw [List.append_cons]
      exact List.take_left' (by simp)
    rw [htake, read_written, List.length_append]
    rfl
  · rintro ts ⟨t, rfl, hkind, _⟩
    exact ⟨t, rfl, hkind⟩

end Token
end DefTable
