import DefTable.Proofs.Data.Depth
import DefTable.Proofs.Data.Json.Scalars

/-!
# JSON is read back

Lists and maps are written without blanks between two symbols, with commas between their items.  An
item is read up to the comma or the closing symbol after it, so items that are read one by one are
read together, and data that was written is read back as it was.
-/

namespace DefTable
namespace Json

open Struct (Readable AllReadable EntriesReadable)

/-!
## Readers of parts
-/

section

variable {α : Type}

theorem run_spaced (read : Reader α) (t : Text) : run (spaced read) t = run read (skipSpace t) := by
  unfold run spaced
  cases read (skipSpace t) <;> rfl

theorem skipSpace_of_not_isSpace {g : Glyph} (h : isSpace g = false) (rest : Text) :
    skipSpace (g :: rest) = g :: rest :=
  List.dropWhile_cons_of_neg (Bool.eq_false_iff.mp h)

theorem run_symbol {c : Char} (h : isSpace (.char c) = false) (rest : Text) :
    run (symbol c) (.char c :: rest) = some ((), rest) := by
  unfold symbol
  rw [run_spaced, skipSpace_of_not_isSpace h, run]
  dsimp only
  rw [if_pos rfl]
  rfl

theorem run_symbol_of_ne {c : Char} {g : Glyph} (h : isSpace g = false) (hne : g ≠ .char c)
    (rest : Text) : run (symbol c) (g :: rest) = none := by
  unfold symbol
  rw [run_spaced, skipSpace_of_not_isSpace h, run]
  dsimp only
  rw [if_neg hne]
  rfl

theorem run_items (close : Char) (item : Reader α) (t : Text) :
    run (items close item) t = (run item t).bind fun first =>
      match run (symbol ',') first.2 with
      | some comma =>
          (run (items close item) comma.2).map fun more => (first.1 :: more.1, more.2)
      | none => (run (symbol close) first.2).map fun closed => ([first.1], closed.2) := by
  unfold run
  rw [items]
  cases item t with
  | none => rfl
  | some first =>
      simp only [Option.bind_eq_bind, Option.bind_some, Option.map_some]
      cases symbol ',' first.rest with
      | none =>
          simp only [Option.map_none]
          cases symbol close first.rest <;> rfl
      | some comma =>
          simp only [Option.map_some]
          cases items close item comma.rest <;> rfl

theorem run_enclosed (opening close : Char) (item : Reader α) (t : Text) :
    run (enclosed opening close item) t = (run (symbol opening) t).bind fun start =>
      match run (symbol close) start.2 with
      | some closed => some ([], closed.2)
      | none => run (items close item) start.2 := by
  unfold run enclosed
  cases symbol opening t with
  | none => rfl
  | some start =>
      simp only [Option.bind_eq_bind, Option.bind_some, Option.map_some]
      cases symbol close start.rest with
      | some closed => rfl
      | none =>
          simp only [Option.map_none]
          cases items close item start.rest <;> rfl

theorem run_member (value : Reader Data) (t : Text) :
    run (member value) t = (run (spaced string) t).bind fun key =>
      (run (symbol ':') key.2).bind fun colon =>
        (run value colon.2).map fun v => ((key.1, v.1), v.2) := by
  unfold run member
  cases spaced string t with
  | none => rfl
  | some key =>
      simp only [Option.bind_eq_bind, Option.bind_some, Option.map_some]
      cases symbol ':' key.rest with
      | none => rfl
      | some colon =>
          simp only [Option.bind_some, Option.map_some]
          cases value colon.rest <;> rfl

theorem run_value_zero (t : Text) : run (value 0) t = run scalar (skipSpace t) :=
  run_spaced scalar t

theorem run_value_succ (n : Nat) (t : Text) :
    run (value (n + 1)) t = (run scalar (skipSpace t)).or
      (((run (enclosed '[' ']' (value n)) t).map fun p => (Data.list p.1, p.2)).or
        ((run (enclosed '\x7b' '\x7d' (member (value n))) t).map fun p =>
          (Data.map (Data.ofEntries p.1), p.2))) := by
  rw [← run_spaced, ← run_map _ Data.list,
    ← run_map _ fun es : List (String × Data) => Data.map (Data.ofEntries es), ← run_or, ← run_or]
  rfl

/-!
## Items that are read together
-/

def Opening (c : Char) : Prop :=
  isSpace (.char c) = false ∧ c ≠ ']' ∧ c ≠ '\x7d'

def Opens (s : String) : Prop :=
  exists c cs, s.toList = c :: cs ∧ Opening c

theorem Opens.skipSpace {s : String} (h : Opens s) (rest : Text) :
    skipSpace (Text.ofString s ++ rest) = Text.ofString s ++ rest := by
  rcases h with ⟨c, cs, hs, hopening⟩
  rw [Text.ofString, hs]
  exact skipSpace_of_not_isSpace hopening.1 _

theorem Opens.append {s : String} (h : Opens s) (s' : String) : Opens (s ++ s') := by
  rcases h with ⟨c, cs, hs, hopening⟩
  refine ⟨c, cs ++ s'.toList, ?_, hopening⟩
  rw [String.toList_append, hs, List.cons_append]

/-- The string is read as the value where a comma or a closing symbol follows, or nothing. -/
structure Reads (read : Reader α) (s : String) (v : α) : Prop where
  opens : Opens s
  reads : forall rest, Closed rest -> run read (Text.ofString s ++ rest) = some (v, rest)

def Closing (c : Char) : Prop :=
  c = ']' ∨ c = '\x7d'

theorem Closing.closed {close : Char} (h : Closing close) (rest : Text) :
    Closed (.char close :: rest) := by
  rcases h with rfl | rfl
  · exact closed_cons (by decide) rest
  · exact closed_cons (by decide) rest

theorem Closing.run_symbol {close : Char} (h : Closing close) (rest : Text) :
    run (symbol close) (.char close :: rest) = some ((), rest) := by
  rcases h with rfl | rfl
  · exact Json.run_symbol rfl rest
  · exact Json.run_symbol rfl rest

theorem Closing.run_comma {close : Char} (h : Closing close) (rest : Text) :
    run (symbol ',') (.char close :: rest) = none := by
  rcases h with rfl | rfl
  · exact run_symbol_of_ne rfl (by decide) rest
  · exact run_symbol_of_ne rfl (by decide) rest

theorem Reads.not_closed
    {read : Reader α} {s : String} {v : α} {close : Char} (h : Reads read s v)
    (hclose : Closing close) (rest : Text) :
    run (symbol close) (Text.ofString s ++ rest) = none := by
  rcases h.opens with ⟨c, cs, hs, hopening⟩
  rw [Text.ofString, hs]
  refine run_symbol_of_ne hopening.1 (fun heq => ?_) _
  rcases hclose with rfl | rfl
  · exact hopening.2.1 (Glyph.char.inj heq)
  · exact hopening.2.2 (Glyph.char.inj heq)

variable {item : Reader α} {close : Char}

theorem run_items_joined
    {s : String} {ss : List String} {v : α} {vs : List α} (hclose : Closing close)
    (hfirst : Reads item s v) (h : List.Forall₂ (Reads item) ss vs) (rest : Text) :
    run (items close item) (Text.ofString (",".intercalate (s :: ss)) ++ .char close :: rest) =
      some (v :: vs, rest) := by
  induction h generalizing s v with
  | nil =>
      rw [String.intercalate_singleton, run_items, hfirst.reads _ (hclose.closed rest),
        Option.bind_some]
      dsimp only
      rw [hclose.run_comma, hclose.run_symbol]
      rfl
  | @cons s' v' ss vs hs _ ih =>
      have htext : Text.ofString (",".intercalate (s :: s' :: ss)) ++ .char close :: rest =
          Text.ofString s ++ .char ',' ::
            (Text.ofString (",".intercalate (s' :: ss)) ++ .char close :: rest) := by
        rw [String.intercalate_cons_cons, Token.ofString_append, Token.ofString_append,
          List.append_assoc, List.append_assoc]
        rfl
      rw [htext, run_items, hfirst.reads _ (closed_cons (by decide) _), Option.bind_some]
      dsimp only
      rw [run_symbol rfl]
      dsimp only
      rw [ih hs]
      rfl

theorem run_enclosed_joined
    {opening : Char} {ss : List String} {vs : List α} (hopening : isSpace (.char opening) = false)
    (hclose : Closing close) (h : List.Forall₂ (Reads item) ss vs) (rest : Text) :
    run (enclosed opening close item)
        (.char opening :: (Text.ofString (",".intercalate ss) ++ .char close :: rest)) =
      some (vs, rest) := by
  rw [run_enclosed, run_symbol hopening, Option.bind_some]
  dsimp only
  cases h with
  | nil =>
      rw [String.intercalate_nil]
      change (match run (symbol close) (.char close :: rest) with
        | some closed => _
        | none => _) = _
      rw [hclose.run_symbol]
  | @cons s v ss vs hs hss =>
      have hnot : run (symbol close)
          (Text.ofString (",".intercalate (s :: ss)) ++ .char close :: rest) = none := by
        cases ss with
        | nil =>
            rw [String.intercalate_singleton]
            exact hs.not_closed hclose _
        | cons s' ss =>
            rw [String.intercalate_cons_cons, String.append_assoc, Token.ofString_append,
              List.append_assoc]
            exact hs.not_closed hclose _
      rw [hnot]
      exact run_items_joined hclose hs hss rest

end

/-!
## Values
-/

theorem run_value_of_scalar
    (n : Nat) {s : String} {rest : Text} {p : Data × Text}
    (hs : Opens s) (h : run scalar (Text.ofString s ++ rest) = some p) :
    run (value n) (Text.ofString s ++ rest) = some p := by
  cases n with
  | zero => rw [run_value_zero, hs.skipSpace, h]
  | succ n =>
      rw [run_value_succ, hs.skipSpace, h]
      rfl

theorem reads_of_scalar
    (n : Nat) {s : String} {d : Data} (hs : Opens s)
    (h : forall rest, Closed rest -> run scalar (Text.ofString s ++ rest) = some (d, rest)) :
    Reads (value n) s d :=
  ⟨hs, fun rest hrest => run_value_of_scalar n hs (h rest hrest)⟩

theorem reads_word (n : Nat) {w : String × Data} (hw : w ∈ words) : Reads (value n) w.1 w.2 := by
  refine reads_of_scalar n ?_ fun rest _ => run_scalar_word hw rest
  simp only [words, List.mem_cons, List.not_mem_nil, or_false] at hw
  rcases hw with rfl | rfl | rfl
  · exact ⟨'n', ['u', 'l', 'l'], rfl, by decide, by decide, by decide⟩
  · exact ⟨'t', ['r', 'u', 'e'], rfl, by decide, by decide, by decide⟩
  · exact ⟨'f', ['a', 'l', 's', 'e'], rfl, by decide, by decide, by decide⟩

theorem opens_writeString (s : String) : Opens (writeString s) :=
  ⟨'"', s.toList.flatMap writeChar ++ ['"'], String.toList_ofList, by decide, by decide, by decide⟩

theorem reads_string (n : Nat) (s : String) : Reads (value n) (writeString s) (.string s) :=
  reads_of_scalar n (opens_writeString s) fun rest _ => run_scalar_string s rest

theorem reads_number (n : Nat) {x : Number} (hfinite : x.isFinite = true) :
    Reads (value n) (layout.write x) (.number x) := by
  refine reads_of_scalar n ?_ fun rest hrest => run_scalar_number hfinite hrest
  rcases Number.write_parts layout hfinite with ⟨p, hvalid, _, htext, _⟩
  rcases Numeral.chars_cons hvalid with ⟨c, cs, hchars, hdigit, _⟩
  rw [Opens, htext]
  cases x.isNegative with
  | true => exact ⟨'-', p.chars, rfl, by decide, by decide, by decide⟩
  | false =>
      refine ⟨c, cs, hchars, ?_, Numeral.ne_of_isDigit hdigit rfl, Numeral.ne_of_isDigit hdigit rfl⟩
      have hspaces : forall m, m.isDigit = false -> decide (Glyph.char c = .char m) = false :=
        fun m hm => decide_eq_false fun heq =>
          Numeral.ne_of_isDigit hdigit hm (Glyph.char.inj heq)
      simp only [isSpace, hspaces ' ' rfl, hspaces '\t' rfl, hspaces '\r' rfl, hspaces '\n' rfl,
        Bool.or_false]

theorem run_scalar_bracket (rest : Text) : run scalar (.char '[' :: rest) = none := by
  rw [run_scalar, run_string_of_ne (by decide), run_word_of_ne (by decide)]
  rfl

theorem run_scalar_brace (rest : Text) : run scalar (.char '\x7b' :: rest) = none := by
  rw [run_scalar, run_string_of_ne (by decide), run_word_of_ne (by decide)]
  rfl

theorem reads_list
    {n : Nat} {ss : List String} {ds : List Data} (h : List.Forall₂ (Reads (value n)) ss ds) :
    Reads (value (n + 1)) ("[" ++ ",".intercalate ss ++ "]") (.list ds) where
  opens := by
    have hopens : Opens "[" := ⟨'[', [], rfl, by decide, by decide, by decide⟩
    exact (hopens.append _).append _
  reads rest _ := by
    have htext : Text.ofString ("[" ++ ",".intercalate ss ++ "]") ++ rest =
        .char '[' :: (Text.ofString (",".intercalate ss) ++ .char ']' :: rest) := by
      rw [Token.ofString_append, Token.ofString_append, List.append_assoc, List.append_assoc]
      rfl
    rw [htext, run_value_succ, skipSpace_of_not_isSpace rfl, run_scalar_bracket,
      run_enclosed_joined rfl (.inl rfl) h]
    rfl

theorem reads_map
    {n : Nat} {ss : List String} {es : List (String × Data)} (hascending : Ascending es)
    (h : List.Forall₂ (Reads (member (value n))) ss es) :
    Reads (value (n + 1)) ("\x7b" ++ ",".intercalate ss ++ "\x7d") (.map es) where
  opens := by
    have hopens : Opens "\x7b" := ⟨'\x7b', [], rfl, by decide, by decide, by decide⟩
    exact (hopens.append _).append _
  reads rest _ := by
    have htext : Text.ofString ("\x7b" ++ ",".intercalate ss ++ "\x7d") ++ rest =
        .char '\x7b' :: (Text.ofString (",".intercalate ss) ++ .char '\x7d' :: rest) := by
      rw [Token.ofString_append, Token.ofString_append, List.append_assoc, List.append_assoc]
      rfl
    have hbracket : run (enclosed '[' ']' (value n))
        (.char '\x7b' :: (Text.ofString (",".intercalate ss) ++ .char '\x7d' :: rest)) = none := by
      rw [run_enclosed, run_symbol_of_ne rfl (by decide)]
      rfl
    rw [htext, run_value_succ, skipSpace_of_not_isSpace rfl, run_scalar_brace, hbracket,
      run_enclosed_joined rfl (.inr rfl) h, Option.map_some, Data.ofEntries_of_ascending hascending]
    rfl

theorem reads_member
    {n : Nat} {key s : String} {d : Data} (h : Reads (value n) s d) :
    Reads (member (value n)) (writeString key ++ ":" ++ s) (key, d) where
  opens := ((opens_writeString key).append ":").append s
  reads rest hrest := by
    have htext : Text.ofString (writeString key ++ ":" ++ s) ++ rest =
        Text.ofString (writeString key) ++ .char ':' :: (Text.ofString s ++ rest) := by
      rw [Token.ofString_append, Token.ofString_append, List.append_assoc, List.append_assoc]
      rfl
    have hskip := (opens_writeString key).skipSpace (.char ':' :: (Text.ofString s ++ rest))
    rw [htext, run_member, run_spaced, hskip, run_string, Option.bind_some]
    dsimp only
    rw [run_symbol rfl, Option.bind_some]
    dsimp only
    rw [h.reads rest hrest]
    rfl

mutual

theorem reads_value :
    forall (n : Nat) (d : Data) (s : String), Readable n d -> write d = .ok s -> Reads (value n) s d
  | n, .null, s, _, h => by
      cases h
      exact reads_word n (w := ("null", .null)) (by simp [words])
  | n, .bool b, s, _, h => by
      cases h
      cases b with
      | true => exact reads_word n (w := ("true", .bool true)) (by simp [words])
      | false => exact reads_word n (w := ("false", .bool false)) (by simp [words])
  | n, .number x, s, _, h => by
      rw [write, writeNumber] at h
      split at h
      · rename_i hfinite
        cases h
        exact reads_number n hfinite
      · cases h
  | n, .string v, s, _, h => by
      cases h
      exact reads_string n v
  | n + 1, .list ds, s, hreadable, h => by
      rw [write] at h
      cases hitems : writeItems ds with
      | error u =>
          rw [hitems] at h
          cases h
      | ok ss =>
          rw [hitems] at h
          cases h
          exact reads_list (reads_items n ds ss hreadable hitems)
  | n + 1, .map es, s, hreadable, h => by
      rw [write] at h
      cases hentries : writeEntries es with
      | error u =>
          rw [hentries] at h
          cases h
      | ok ss =>
          rw [hentries] at h
          cases h
          exact reads_map hreadable.1 (reads_entries n es ss hreadable.2 hentries)

theorem reads_items :
    forall (n : Nat) (ds : List Data) (ss : List String), AllReadable n ds ->
      writeItems ds = .ok ss -> List.Forall₂ (Reads (value n)) ss ds
  | _, [], ss, _, h => by
      cases h
      exact .nil
  | n, d :: ds, ss, hreadable, h => by
      rw [writeItems] at h
      cases hfirst : write d with
      | error u =>
          rw [hfirst] at h
          cases h
      | ok s =>
          cases hrest : writeItems ds with
          | error u =>
              rw [hfirst, hrest] at h
              cases h
          | ok ss' =>
              rw [hfirst, hrest] at h
              cases h
              exact .cons (reads_value n d s hreadable.1 hfirst)
                (reads_items n ds ss' hreadable.2 hrest)

theorem reads_entries :
    forall (n : Nat) (es : List (String × Data)) (ss : List String), EntriesReadable n es ->
      writeEntries es = .ok ss -> List.Forall₂ (Reads (member (value n))) ss es
  | _, [], ss, _, h => by
      cases h
      exact .nil
  | n, (key, d) :: es, ss, hreadable, h => by
      rw [writeEntries] at h
      cases hfirst : write d with
      | error u =>
          rw [hfirst] at h
          cases h
      | ok s =>
          cases hrest : writeEntries es with
          | error u =>
              rw [hfirst, hrest] at h
              cases h
          | ok ss' =>
              rw [hfirst, hrest] at h
              cases h
              exact .cons (reads_member (reads_value n d s hreadable.1 hfirst))
                (reads_entries n es ss' hreadable.2 hrest)

end

theorem read_write
    {d : Data} {s : String} (hreadable : Readable maxDepth d) (h : write d = .ok s) :
    read (Text.ofString s) = some d := by
  have hrun := (reads_value maxDepth d s hreadable h).reads [] closed_nil
  rw [List.append_nil] at hrun
  unfold run at hrun
  rcases Option.map_eq_some_iff.mp hrun with ⟨p, hp, heq⟩
  rw [read, hp]
  exact congrArg some (Prod.mk.inj heq).1

end Json
end DefTable
