import DefTable.Proofs.Machine.Declarations

/-!
# A fault stays in its piece

A broken declaration costs the parser one report and nothing else: it goes on behind the next
semicolon as if it started there.  So the report on a list of tokens is put together from what the
parser reports on each piece alone, and every piece has either one declaration or one fault.
-/

namespace DefTable
namespace Machine

open Parse (Fault Segment segments)
open Grammar (Unbroken pieceOutcomes)

/-!
## Reports
-/

abbrev Report := List Decl × List Fault

namespace Report

def empty : Report := ([], [])

def followedBy (r r' : Report) : Report :=
  (r.1 ++ r'.1, r.2 ++ r'.2)

def concat (rs : List Report) : Report :=
  rs.foldr followedBy empty

def IsDeclaration (r : Report) : Prop :=
  exists d, r = ([d], [])

def IsFault (r : Report) : Prop :=
  exists f, r = ([], [f])

def ofOutcomes (outcomes : List (Except Fault Decl)) : Report :=
  (Parse.decls outcomes, Parse.faults outcomes)

theorem ofOutcomes_cons (outcome : Except Fault Decl) (outcomes : List (Except Fault Decl)) :
    ofOutcomes (outcome :: outcomes) = (ofOutcomes [outcome]).followedBy (ofOutcomes outcomes) := by
  cases outcome with
  | error f => rfl
  | ok d => rfl

theorem ofOutcomes_single (outcome : Except Fault Decl) :
    (ofOutcomes [outcome]).IsDeclaration ∨ (ofOutcomes [outcome]).IsFault := by
  cases outcome with
  | error f => exact Or.inr ⟨f, rfl⟩
  | ok d => exact Or.inl ⟨d, rfl⟩

end Report

/-!
## What a piece yields
-/

def written (s : Segment) : List Token :=
  s.tokens ++ [s.stop]

/-- A piece with its semicolon yields what the parser reports on this piece alone, which is one
declaration or one fault.  What stands between the last semicolon and the end of the input yields a
fault, unless nothing stands there. -/
structure Yields (s : Segment) (r : Report) : Prop where
  unbroken : Unbroken s.tokens
  single : s.stop.kind = .semicolon -> r.IsDeclaration ∨ r.IsFault
  alone : s.stop.kind = .semicolon -> forall fin, fin.kind = .endOfInput ->
    parseProgram (written s ++ [fin]) = pure r
  unterminated : s.stop.kind ≠ .semicolon -> s.tokens ≠ [] -> r.IsFault
  nothing : s.stop.kind ≠ .semicolon -> s.tokens = [] -> r = .empty

section

variable {ts : List Token} {stop fin : Token}

theorem parseProgram_report
    {body : List Token} (hbody : forall t, t ∈ body -> t.kind ≠ .endOfInput)
    (hfin : fin.kind = .endOfInput) :
    parseProgram (body ++ [fin]) = pure (Report.ofOutcomes (pieceOutcomes fin body)) := by
  rw [parseProgram_eq hbody hfin, Grammar.outcomes_eq_pieceOutcomes hbody hfin]
  rfl

theorem parseProgram_piece
    (hts : Unbroken ts) (hinside : forall t, t ∈ ts -> t.kind ≠ .endOfInput)
    (hstop : stop.kind = .semicolon) (hfin : fin.kind = .endOfInput) :
    parseProgram (ts ++ [stop, fin]) =
      pure (Report.ofOutcomes [Segment.decl ⟨ts, stop⟩]) := by
  have hbody : forall t, t ∈ ts ++ [stop] -> t.kind ≠ .endOfInput := by
    intro t ht
    rcases List.mem_append.mp ht with ht | ht
    · exact hinside t ht
    · rw [List.mem_singleton.mp ht, hstop]
      exact Token.Kind.noConfusion
  have hnothing : pieceOutcomes fin [] = [] := by
    simp [pieceOutcomes, segments, Segment.isBlank, hfin]
  have hpiece : pieceOutcomes fin (ts ++ [stop]) = [Segment.decl ⟨ts, stop⟩] := by
    rw [Grammar.pieceOutcomes_of_stop fin hts hstop, hnothing]
  have hprogram := parseProgram_report hbody hfin
  rwa [hpiece, List.append_assoc] at hprogram

theorem yields_terminated
    (hts : Unbroken ts) (hinside : forall t, t ∈ ts -> t.kind ≠ .endOfInput)
    (hstop : stop.kind = .semicolon) :
    Yields ⟨ts, stop⟩ (Report.ofOutcomes [Segment.decl ⟨ts, stop⟩]) where
  unbroken := hts
  single _ := Report.ofOutcomes_single _
  alone _ fin hfin := by
    rw [written, List.append_assoc]
    exact parseProgram_piece hts hinside hstop hfin
  unterminated hother := absurd hstop hother
  nothing hother := absurd hstop hother

theorem yields_last (hts : Unbroken ts) (hfin : fin.kind = .endOfInput) :
    Yields ⟨ts, fin⟩ (Report.ofOutcomes (pieceOutcomes fin ts)) := by
  have hother : fin.kind ≠ .semicolon := by
    rw [hfin]
    exact Token.Kind.noConfusion
  have hpieces : pieceOutcomes fin ts =
      if ts = [] then [] else [Segment.decl ⟨ts, fin⟩] := by
    rw [pieceOutcomes, Grammar.segments_of_unbroken fin hts]
    by_cases hempty : ts = [] <;> simp [Segment.isBlank, hempty, hfin]
  constructor
  · exact hts
  · intro hstop
    exact absurd hstop hother
  · intro hstop
    exact absurd hstop hother
  · intro _ hsome
    rw [hpieces, if_neg hsome]
    cases hdecl : Segment.decl ⟨ts, fin⟩ with
    | error f => exact ⟨f, rfl⟩
    | ok d => exact absurd (Grammar.segment_decl_sound hdecl).2 hother
  · intro _ hempty
    rw [hpieces, if_pos hempty]
    rfl

theorem yields_pieces
    (hfin : fin.kind = .endOfInput) {body : List Token}
    (hbody : forall t, t ∈ body -> t.kind ≠ .endOfInput) :
    exists rs, List.Forall₂ Yields (segments fin body) rs ∧
      Report.ofOutcomes (pieceOutcomes fin body) = Report.concat rs ∧
      (segments fin body).flatMap written = body ++ [fin] := by
  induction body using Grammar.cut_induction with
  | last ts hts =>
      rw [Grammar.segments_of_unbroken fin hts]
      refine ⟨[Report.ofOutcomes (pieceOutcomes fin ts)], ?_, ?_, ?_⟩
      · exact .cons (yields_last hts hfin) .nil
      · simp [Report.concat, Report.followedBy, Report.empty]
      · simp [written]
  | cut ts stop rest hts hstop ih =>
      rw [List.forall_mem_append, List.forall_mem_cons] at hbody
      rcases ih hbody.2.2 with ⟨rs, hyields, hreport, hwritten⟩
      rw [Grammar.segments_of_stop fin hts hstop, Grammar.pieceOutcomes_of_stop fin hts hstop,
        Report.ofOutcomes_cons, hreport]
      refine ⟨Report.ofOutcomes [Segment.decl ⟨ts, stop⟩] :: rs, ?_, ?_, ?_⟩
      · exact .cons (yields_terminated hts hbody.1 hstop) hyields
      · rfl
      · rw [List.flatMap_cons, hwritten, written]
        simp

theorem parseProgram_split
    {rest : List Token} (hts : Unbroken ts) (hstop : stop.kind = .semicolon)
    (hbody : forall t, t ∈ ts ++ stop :: rest -> t.kind ≠ .endOfInput)
    (hfin : fin.kind = .endOfInput) {fin' : Token} (hfin' : fin'.kind = .endOfInput) :
    exists r r' : Report, parseProgram (ts ++ [stop, fin']) = pure r ∧
      parseProgram (rest ++ [fin]) = pure r' ∧
      parseProgram (ts ++ stop :: rest ++ [fin]) = pure (r.followedBy r') := by
  have hparts := hbody
  rw [List.forall_mem_append, List.forall_mem_cons] at hparts
  have hfirst := parseProgram_piece hts hparts.1 hstop hfin'
  have hrest := parseProgram_report hparts.2.2 hfin
  refine ⟨_, _, hfirst, hrest, ?_⟩
  rw [parseProgram_report hbody hfin, Grammar.pieceOutcomes_of_stop fin hts hstop,
    Report.ofOutcomes_cons]

end

/-!
## Recovery
-/

/-- The parser's report on tokens that only the last one ends is the reports on the pieces between
the semicolons, one after another; and what stands before a semicolon and what stands behind it are
reported on as if each stood alone. -/
theorem parseProgram_piecewise
    {body : List Token} {fin : Token} (hbody : forall t, t ∈ body -> t.kind ≠ .endOfInput)
    (hfin : fin.kind = .endOfInput) :
    (exists rs, List.Forall₂ Yields (segments fin body) rs ∧
      parseProgram (body ++ [fin]) = pure (Report.concat rs) ∧
      Report.ofOutcomes (Parse.outcomes (body ++ [fin])) = Report.concat rs) ∧
    (segments fin body).flatMap written = body ++ [fin] ∧
    forall a stop b, body = a ++ stop :: b -> Unbroken a -> stop.kind = .semicolon ->
      forall fin', fin'.kind = .endOfInput -> exists r r' : Report,
        parseProgram (a ++ [stop, fin']) = pure r ∧ parseProgram (b ++ [fin]) = pure r' ∧
          parseProgram (body ++ [fin]) = pure (r.followedBy r') := by
  rcases yields_pieces hfin hbody with ⟨rs, hyields, hreport, hwritten⟩
  refine ⟨⟨rs, hyields, ?_, ?_⟩, hwritten, ?_⟩
  · rw [parseProgram_report hbody hfin, hreport]
  · rw [Grammar.outcomes_eq_pieceOutcomes hbody hfin, hreport]
  · intro a stop b heq ha hstop fin' hfin'
    subst heq
    exact parseProgram_split ha hstop hbody hfin hfin'

theorem parseProgram_piecewise_mixed :
    let body := (Token.scan "x = ; y = 1; ; z").dropLast
    let fin := Token.endAt ⟨1, 17⟩
    (forall t, t ∈ body -> t.kind ≠ .endOfInput) ∧ fin.kind = .endOfInput ∧
      (segments fin body).length = 4 ∧
      exists rs, List.Forall₂ Yields (segments fin body) rs ∧
        parseProgram (body ++ [fin]) = pure (Report.concat rs) := by
  intro body fin
  have hbody : forall t, t ∈ body -> t.kind ≠ .endOfInput := by decide +kernel
  have hfin : fin.kind = .endOfInput := rfl
  have hlength : (segments fin body).length = 4 := by decide +kernel
  rcases parseProgram_piecewise hbody hfin with ⟨⟨rs, hyields, hprogram, _⟩, _⟩
  exact ⟨hbody, hfin, hlength, rs, hyields, hprogram⟩

end Machine
end DefTable
