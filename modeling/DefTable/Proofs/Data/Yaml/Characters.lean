import DefTable.Data.Yaml.Source
import DefTable.Proofs.Data.Yaml.Written
import DefTable.Proofs.Text.Utf8

/-!
# The characters of written data

Whatever a text holds, what is written for it holds no character that would have to be escaped.  So
the characters of the writing are those that its bytes are decoded to.
-/

namespace DefTable
namespace Yaml

def Ordinary (cs : List Char) : Prop :=
  forall c, c ∈ cs -> isSpecial c = false

instance (cs : List Char) : Decidable (Ordinary cs) :=
  List.decidableBAll (fun c => isSpecial c = false) cs

/-!
## Texts
-/

theorem ordinary_append {cs ds : List Char} : Ordinary (cs ++ ds) <-> Ordinary cs ∧ Ordinary ds :=
  List.forall_mem_append

theorem ordinary_spaces (n : Nat) : Ordinary (List.replicate n ' ') := by
  intro c hc
  rw [List.eq_of_mem_replicate hc]
  rfl

theorem ordinary_withMargin
    (margin : Nat) {char : Char -> List Char} (atStart : Bool) {cs : List Char}
    (h : Ordinary cs) (hchar : forall c, c ∈ cs -> Ordinary (char c)) :
    Ordinary (Writer.withMargin margin char atStart cs) := by
  induction cs generalizing atStart with
  | nil => exact h
  | cons c cs ih =>
      rw [Ordinary, List.forall_mem_cons] at h
      rw [List.forall_mem_cons] at hchar
      rw [Writer.withMargin]
      split
      · exact List.forall_mem_cons.mpr ⟨h.1, ih true h.2 hchar.2⟩
      · refine ordinary_append.mpr ⟨ordinary_append.mpr ⟨?_, hchar.1⟩, ih false h.2 hchar.2⟩
        cases atStart with
        | true => exact ordinary_spaces margin
        | false =>
            intro d hd
            cases hd

theorem isSpecial_named {c e : Char} (h : Writer.named? c = some e) : isSpecial e = false := by
  unfold Writer.named? at h
  split at h <;> cases h <;> rfl

theorem isSpecial_upper : forall d, d < 16 -> isSpecial (Quoted.hexDigit d).toUpper = false := by
  decide

theorem ordinary_upperHex (width n : Nat) : Ordinary (Writer.upperHex width n) := by
  intro c hc
  rcases List.mem_map.mp hc with ⟨digit, hdigit, rfl⟩
  rcases Quoted.mem_hex hdigit with ⟨d, hd, rfl⟩
  exact isSpecial_upper d hd

theorem ordinary_escaped (c : Char) : Ordinary (Writer.escaped c) := by
  have hmarked : forall mark cs, isSpecial mark = false -> Ordinary cs ->
      Ordinary ('\\' :: mark :: cs) := fun mark cs hmark hcs =>
    List.forall_mem_cons.mpr ⟨rfl, List.forall_mem_cons.mpr ⟨hmark, hcs⟩⟩
  unfold Writer.escaped
  split
  · rename_i e hnamed
    exact hmarked e [] (isSpecial_named hnamed) nofun
  · split
    · exact hmarked 'x' _ rfl (ordinary_upperHex _ _)
    · split
      · exact hmarked 'u' _ rfl (ordinary_upperHex _ _)
      · exact hmarked 'U' _ rfl (ordinary_upperHex _ _)

theorem ordinary_doubleChar (c : Char) : Ordinary (Writer.doubleChar c) := by
  unfold Writer.doubleChar
  split
  · rename_i hplain
    simp only [Bool.and_eq_true] at hplain
    intro d hd
    rw [List.mem_singleton.mp hd, isSpecial, hplain.1.1.1]
    simp
  · exact ordinary_escaped c

theorem ordinary_double (cs : List Char) : Ordinary (Writer.double cs).toList := by
  have hchars : Ordinary (cs.flatMap (doubleCharOf cs)) := by
    intro d hd
    rcases List.mem_flatMap.mp hd with ⟨c, _, hc⟩
    unfold doubleCharOf at hc
    split at hc
    · exact ordinary_escaped c d hc
    · exact ordinary_doubleChar c d hc
  rw [Writer.double, String.toList_ofList]
  exact List.forall_mem_cons.mpr ⟨rfl, ordinary_append.mpr ⟨hchars, by decide⟩⟩

theorem ordinary_single (margin : Nat) {cs : List Char} (h : Ordinary cs) :
    Ordinary (Writer.single margin cs).toList := by
  have hchars : forall c, c ∈ cs -> Ordinary (if c = '\'' then ['\'', '\''] else [c]) := by
    intro c hc
    split
    · decide
    · exact List.forall_mem_singleton.mpr (h c hc)
  rw [Writer.single, String.toList_ofList]
  exact List.forall_mem_cons.mpr
    ⟨rfl, ordinary_append.mpr ⟨ordinary_withMargin margin false h hchars, by decide⟩⟩

theorem ordinary_literalHeader (cs : List Char) : Ordinary (Writer.literalHeader cs).toList := by
  have hpart : forall s, s ∈ ["", "|", "4", "-", "+"] -> Ordinary s.toList := by
    decide
  unfold Writer.literalHeader
  dsimp only
  rw [String.toList_append, String.toList_append]
  refine ordinary_append.mpr ⟨ordinary_append.mpr ⟨hpart _ (by decide), hpart _ ?_⟩, hpart _ ?_⟩
  · split <;> decide
  · split
    · decide
    · split
      · decide
      · split <;> decide

theorem ordinary_literal (margin : Nat) {cs : List Char} (h : Ordinary cs) :
    Ordinary (Writer.literal margin cs).toList := by
  have hlines : Ordinary (Writer.withMargin margin (fun c => [c]) true cs) :=
    ordinary_withMargin margin true h fun c hc => List.forall_mem_singleton.mpr (h c hc)
  rw [Writer.literal, String.toList_append, String.toList_append, String.toList_ofList]
  refine ordinary_append.mpr ⟨ordinary_append.mpr ⟨ordinary_literalHeader cs, ?_⟩, hlines⟩
  split <;> decide

theorem ordinary_text (margin : Nat) (s : String) : Ordinary (Writer.text margin s).toList := by
  unfold Writer.text
  rcases style_cases s with ⟨h, _, _, hsingle⟩ | ⟨h, hsingle, _⟩ | h | ⟨h, hliteral, _⟩ <;> rw [h]
  · exact not_isSpecial_of_allowsSingle hsingle
  · exact ordinary_single margin (not_isSpecial_of_allowsSingle hsingle)
  · exact ordinary_double s.toList
  · exact ordinary_literal margin (not_isSpecial_of_allowsLiteral hliteral)

/-!
## Data
-/

theorem ordinary_endLine {s : String} (h : Ordinary s.toList) :
    Ordinary (Writer.endLine s).toList := by
  unfold Writer.endLine
  split
  · exact h
  · rw [String.toList_append]
    exact ordinary_append.mpr ⟨h, by decide⟩

theorem ordinary_stack
    (indent : Nat) {ps : List String} (h : forall q, q ∈ ps -> Ordinary q.toList) :
    Ordinary (Writer.stack indent ps).toList := by
  induction ps with
  | nil => exact nofun
  | cons p ps ih =>
      rw [List.forall_mem_cons] at h
      cases ps with
      | nil =>
          rw [stack_singleton]
          exact ordinary_endLine h.1
      | cons q ps =>
          rw [stack_cons_cons, String.toList_append, String.toList_append, toList_spaces]
          exact ordinary_append.mpr
            ⟨ordinary_append.mpr ⟨ordinary_endLine h.1, ordinary_spaces indent⟩, ih h.2⟩

theorem ordinary_key (indent : Nat) (k : String) : Ordinary (Writer.key indent k).toList := by
  unfold Writer.key
  split
  · rw [String.toList_append]
    exact ordinary_append.mpr ⟨ordinary_text indent k, by decide⟩
  · have hline : Ordinary ("? " ++ Writer.text (Writer.deeper indent) k).toList := by
      rw [String.toList_append]
      exact ordinary_append.mpr ⟨by decide, ordinary_text _ k⟩
    rw [String.toList_append, String.toList_append, toList_spaces]
    exact ordinary_append.mpr
      ⟨ordinary_append.mpr ⟨ordinary_endLine hline, ordinary_spaces indent⟩, by decide⟩

theorem ordinary_separator (indent : Nat) (k : String) (d : Data) :
    Ordinary (Writer.separator indent k d).toList := by
  unfold Writer.separator
  split
  · decide
  · split
    · rw [String.toList_append, toList_spaces]
      exact ordinary_append.mpr ⟨by decide, ordinary_spaces _⟩
    · rw [toList_spaces]
      exact ordinary_spaces _

theorem ordinary_entryText
    {indent : Nat} {e : String × Data}
    (h : Ordinary (Writer.node (Writer.deeper indent) e.2).toList) :
    Ordinary (entryText indent e).toList := by
  rw [entryText, String.toList_append, String.toList_append]
  exact ordinary_append.mpr
    ⟨ordinary_append.mpr ⟨ordinary_key indent e.1, ordinary_separator indent e.1 e.2⟩, h⟩

theorem not_isSpecial_of_isNumeric {c : Char} (h : IsNumeric c) : isSpecial c = false := by
  rcases h with hdigit | hsign
  · have hrange : 48 ≤ c.toNat ∧ c.toNat ≤ 57 := by
      simpa [Char.isDigit, Char.le_def, UInt32.le_iff_toNat_le] using hdigit
    have hwritable : isWritable c = true := by
      simp [isWritable]
      omega
    simp [isSpecial, hwritable]
  · have hsigns : Ordinary ['.', 'e', '+', '-'] := by decide
    exact hsigns c hsign

theorem ordinary_number (x : Number) : Ordinary (Writer.layout.write x).toList := by
  cases hfinite : x.isFinite with
  | true =>
      rcases Number.write_parts Writer.layout hfinite with ⟨d, hvalid, _, htext, _⟩
      rw [htext]
      exact fun c hc => not_isSpecial_of_isNumeric (isNumeric_signed hvalid x.isNegative c hc)
  | false =>
      have hword : forall w, w ∈ [".nan", "-.inf", ".inf"] -> Ordinary w.toList := by
        decide
      exact hword _ (write_of_not_isFinite hfinite)

theorem ordinary_node
    {lines : Bool} {n : Nat} {d : Data} (h : Storable lines n d) (indent : Nat) :
    Ordinary (Writer.node indent d).toList := by
  induction h generalizing indent with
  | null =>
      rw [Writer.node]
      decide
  | bool b =>
      rw [Writer.node]
      cases b <;> decide
  | @number _ _ x _ =>
      rw [Writer.node]
      exact ordinary_number x
  | @string _ _ s _ =>
      rw [Writer.node]
      exact ordinary_text indent s
  | @list _ _ ds _ ih =>
      cases ds with
      | nil =>
          rw [Writer.node]
          decide
      | cons d ds =>
          rw [Writer.node, items_eq_map]
          refine ordinary_stack indent fun q hq => ?_
          rcases List.mem_map.mp hq with ⟨a, ha, rfl⟩
          rw [String.toList_append]
          exact ordinary_append.mpr ⟨by decide, ih a ha (indent + 2)⟩
  | @map _ _ es _ _ _ ih =>
      cases hes : es with
      | nil =>
          rw [Writer.node]
          decide
      | cons e rest =>
          rw [Writer.node, sortEntries_eq, ← hes]
          refine ordinary_stack indent fun q hq => ?_
          rcases List.mem_map.mp hq with ⟨a, ha, rfl⟩
          exact ordinary_entryText (ih a (mem_inKeyOrder.mp ha) _)

theorem ordinary_write {lines : Bool} {n : Nat} {d : Data} (h : Storable lines n d) :
    Ordinary (write d).toList :=
  ordinary_endLine (ordinary_node h 0)

/-!
## Bytes
-/

theorem readable_of_not_isSpecial {c : Char} (h : isSpecial c = false) :
    isReadable c = true ∧ c ≠ '\r' ∧ c ≠ byteOrderMark := by
  by_cases htab : c = '\t'
  · subst htab
    decide
  · have hwritable := isWritable_of_not_isSpecial h htab
    refine ⟨?_, ?_, ?_⟩
    · simp only [isWritable, isReadable, Bool.or_eq_true, Bool.and_eq_true,
        decide_eq_true_eq] at hwritable ⊢
      omega
    · rintro rfl
      cases hwritable
    · rintro rfl
      cases hwritable

theorem ofString_ne_stray (s : String) (b : UInt8) (t : Text) :
    Text.ofString s ≠ .stray b :: t := by
  unfold Text.ofString
  cases s.toList <;> exact nofun

theorem decoded?_bytes {s : String} (h : s.toList.head? ≠ some byteOrderMark) :
    decoded? (Text.bytes (Text.ofString s)) = some s.toList := by
  have hdecode := Text.decode_bytes_ofString s
  have hstring := Text.string?_bytes_ofString s
  generalize Text.bytes (Text.ofString s) = bytes at hdecode hstring ⊢
  unfold decoded?
  split
  · rename_i rest
    have hstray : Text.decode (0xFF :: 0xFE :: rest) =
        .stray 0xFF :: Text.decode (0xFE :: rest) := rfl
    exact absurd (hdecode.symm.trans hstray) (ofString_ne_stray s _ _)
  · rename_i rest
    have hstray : Text.decode (0xFE :: 0xFF :: rest) =
        .stray 0xFE :: Text.decode (0xFF :: rest) := rfl
    exact absurd (hdecode.symm.trans hstray) (ofString_ne_stray s _ _)
  · rename_i rest
    have hmark : Text.decode (0xEF :: 0xBB :: 0xBF :: rest) =
        .char byteOrderMark :: Text.decode rest := rfl
    have hhead := congrArg List.head? (hdecode.symm.trans hmark)
    rw [Text.ofString, List.head?_map] at hhead
    cases hs : s.toList.head? with
    | none =>
        rw [hs] at hhead
        cases hhead
    | some c =>
        rw [hs] at hhead h
        exact absurd (congrArg some (Glyph.char.inj (Option.some.inj hhead))) h
  · rw [hstring]
    rfl

theorem normalizeBreaks_eq {cs : List Char} (h : '\r' ∉ cs) : normalizeBreaks cs = cs := by
  induction cs with
  | nil => rfl
  | cons c cs ih =>
      rw [List.mem_cons, not_or] at h
      have hstep : normalizeBreaks (c :: cs) =
          (if c = '\r' then '\n' else c) :: normalizeBreaks cs := by
        rw [normalizeBreaks]
        rintro _ rfl
        exact absurd rfl h.1
      rw [hstep, if_neg (Ne.symm h.1), ih h.2]

theorem head_write {lines : Bool} {n : Nat} {d : Data} (h : Storable lines n d) :
    (write d).toList.head? ≠ some byteOrderMark := fun hhead =>
  (readable_of_not_isSpecial (ordinary_write h _ (List.mem_of_mem_head? hhead))).2.2 rfl

theorem characters?_write {lines : Bool} {n : Nat} {d : Data} (h : Storable lines n d) :
    characters? (Text.bytes (write d)) = some (write d).toList := by
  have hreadable : (write d).toList.all isReadable = true :=
    List.all_eq_true.mpr fun c hc => (readable_of_not_isSpecial (ordinary_write h c hc)).1
  have hreturn : '\r' ∉ (write d).toList :=
    fun hc => (readable_of_not_isSpecial (ordinary_write h _ hc)).2.1 rfl
  rw [characters?, decoded?_bytes (head_write h)]
  show (if (write d).toList.all isReadable then some (normalizeBreaks (write d).toList) else none) =
    _
  rw [hreadable, if_pos rfl, normalizeBreaks_eq hreturn]

end Yaml
end DefTable
