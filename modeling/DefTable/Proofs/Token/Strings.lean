import DefTable.Expr.Source
import DefTable.Proofs.Token.Shape

/-!
# String literals among tokens

A string literal is escaped when it is written, its closing quote is searched for when it is scanned,
and its value is read between the quotes.  The three agree on what a backslash does.  So what was
written is scanned to the string again, and no string that the scanner finds closed fails to be read.
-/

namespace DefTable
namespace Token

open Source (Style)

/-!
## Strings that are written
-/

theorem scan_printed
    (style : Style) (level : Nat) (onRight : Bool) (token : Token) {s : String}
    (hs : '\x00' ∉ s.toList) :
    exists t q, scan (Text.decode (Text.bytes (Text.ofString
        (Source.expr style level onRight (.string token s))))) = [t, endAt q] ∧
      t.kind = .string s := by
  have hwritten : Source.expr style level onRight (.string token s) = StringLiteral.write s := by
    rw [Source.expr]
  have hanything : Scans Separated (StringLiteral.write s) (One (.string s)) :=
    (scans_string hs).mono (fun _ _ => trivial) fun _ hts => hts
  rcases scan_ofString hanything with ⟨_, q, hscan, ⟨t, rfl, hkind⟩, _⟩
  rw [hwritten, Text.decode_bytes_ofString]
  exact ⟨t, q, hscan, hkind⟩

/-!
## Strings that are scanned
-/

theorem ne_string_fault
    {text : Text} {t : Token} (ht : t ∈ scan text) (e : StringLiteral.Error) :
    t.kind ≠ .illegal (.string e) := by
  rcases mem_scanFrom ht with ⟨q, rfl⟩ | ⟨_, g, rest, q, _, rfl⟩
  · exact Kind.noConfusion
  · have hshape := shape_extent g rest
    dsimp only
    generalize extent g rest = found at hshape ⊢
    cases hshape with
    | word => exact (plain_ofWord _).legal _
    | operator => exact (plain_operator _).legal _
    | mark hmark => exact (plain_mark hmark).legal _
    | _ => simp

theorem toChar_head_lexemeOf
    {beyond rest : Text} {g first : Glyph}
    (h : (lexemeOf beyond (extent g rest) g rest).head? = some first) :
    first.toChar = g.toChar := by
  rcases lexemeOf_cases beyond g rest with hlexeme | hstring | hstray
  · rw [hlexeme] at h
    exact congrArg Glyph.toChar (Option.some.inj h).symm
  · rw [hstring] at h
    exact congrArg Glyph.toChar (Option.some.inj h).symm
  · rw [hstray] at h
    have hshown : first = .char g.toChar := (Option.some.inj h).symm
    rw [hshown]
    rfl

theorem string_of_quote
    {text : Text} {t : Token} (ht : t ∈ scan text) (hquote : t.lexeme.head? = some (.char '"')) :
    (exists v, t.kind = .string v ∧ StringLiteral.read t.lexeme = .ok v) ∨
      t.kind = .illegal .unterminatedString := by
  rcases mem_scanFrom ht with ⟨q, rfl⟩ | ⟨_, g, rest, q, _, rfl⟩
  · cases hquote
  · have hg : g = .char '"' :=
      (Machine.toChar_eq_iff (by decide) g).mp (toChar_head_lexemeOf hquote).symm
    subst hg
    have hextent : extent (.char '"') rest = stringExtent rest := rfl
    rw [hextent]
    rcases stringExtent_cases rest with hopen | ⟨v, n, hstring, _, hread⟩
    · rw [hopen]
      exact .inr rfl
    · rw [hstring]
      exact .inl ⟨v, rfl, hread⟩

/-!
## The three together
-/

/-- A printed string is scanned to one string token with its value.  In any text, the reader of
strings accepts all that the scanner finds closed; so a token that starts with a quote is a string or
one that is never closed, and no token is a string that could not be read. -/
theorem strings_agree :
    (forall style level onRight token s, '\x00' ∉ s.toList ->
      exists t q, scan (Text.decode (Text.bytes (Text.ofString
          (Source.expr style level onRight (.string token s))))) = [t, endAt q] ∧
        t.kind = .string s) ∧
    (forall rest n, closingQuote? rest = some n ->
      exists v, StringLiteral.read (.char '"' :: rest.take n) = .ok v) ∧
    forall input t, t ∈ scan (Text.decode input) ->
      (t.lexeme.head? = some (.char '"') ->
        (exists v, t.kind = .string v ∧ StringLiteral.read t.lexeme = .ok v) ∨
          t.kind = .illegal .unterminatedString) ∧
      forall e, t.kind ≠ .illegal (.string e) :=
  ⟨fun style level onRight token _ => scan_printed style level onRight token,
    fun _ _ => read_closed,
    fun _ _ ht => ⟨string_of_quote ht, ne_string_fault ht⟩⟩

theorem strings_agree_escapes :
    let printed := Source.expr .minimal Source.topLevel false (.string .absent "\"\\\n")
    let stray : Text := [.char '"', .char '\\', .stray 0xFF, .char '"']
    (exists t q, scan (Text.decode (Text.bytes (Text.ofString printed))) = [t, endAt q] ∧
      t.kind = .string "\"\\\n") ∧
    (exists v, StringLiteral.read stray = .ok v) ∧
    exists t, t ∈ scan (Text.decode (Text.bytes stray)) ∧
      ((exists v, t.kind = .string v ∧ StringLiteral.read t.lexeme = .ok v) ∨
        t.kind = .illegal .unterminatedString) ∧
      forall e, t.kind ≠ .illegal (.string e) := by
  intro printed stray
  rcases strings_agree with ⟨hprinted, hclosed, hscanned⟩
  have hmem : ⟨.string "\uFFFD", stray, .start⟩ ∈ scan (Text.decode (Text.bytes stray)) := by
    decide +kernel
  rcases hscanned _ _ hmem with ⟨hquote, hfault⟩
  exact ⟨hprinted _ _ _ _ _ (by decide), hclosed stray.tail 3 (by decide), _, hmem, hquote rfl,
    hfault⟩

end Token
end DefTable
