import DefTable.Proofs.Machine.Parsing
import DefTable.Proofs.Token.Values

/-!
# The parser reads whole programs

A declaration takes the parser to the semicolon that ends it, or leaves it somewhere in its piece
with one fault more.  From there `synchronize` goes on to the end of the piece, so either way the
next declaration starts at the next piece, with fewer tokens left.
-/

namespace DefTable
namespace Machine

open Parse (Fault Reader)
open Token (Kind)
open Grammar (pieceOutcomes Unbroken)

section

variable {w : Piece} {d j : Nat} {fs : List Fault} {t : Token} {rest : List Token}

def Piece.stopIndex (w : Piece) : Nat :=
  w.before.length + w.inside.length

theorem Piece.Left.index (h : w.Left j rest) : j + rest.length = w.stopIndex := by
  rcases h with ⟨used, hinside, rfl⟩
  rw [Piece.stopIndex, hinside, List.length_append]
  omega

theorem Piece.left_start (w : Piece) : w.Left w.before.length w.inside :=
  ⟨[], rfl, rfl⟩

theorem Piece.left_stop (w : Piece) : w.Left w.stopIndex [] :=
  ⟨w.inside, (List.append_nil _).symm, rfl⟩

theorem state_stop_current (w : Piece) (d : Nat) (fs : List Fault) :
    (w.state w.stopIndex d fs).current = w.stop :=
  state_current w.left_stop

/-!
## Leaving a declaration
-/

theorem skipToStop_returns (h : w.Left j rest) :
    Returns skipToStop (w.state j d fs) () (w.state w.stopIndex d fs) := by
  induction rest generalizing j with
  | nil =>
      have hj : j = w.stopIndex := h.index
      subst hj
      rw [skipToStop]
      refine Returns.bind (.get _) (.neg ?_ (.pure _ _))
      rw [state_stop_current]
      rintro ⟨hsemicolon, hend⟩
      exact w.stops.elim hsemicolon hend
  | cons t rest ih =>
      have hcurrent : (w.state j d fs).current = t := state_current h
      rw [skipToStop]
      refine Returns.bind (.get _) (.pos ?_ ((shift_returns w j d fs).bind (ih h.tail)))
      rw [hcurrent]
      exact w.unbroken t h.mem

theorem synchronize_semicolon (hstop : w.stop.kind = .semicolon) (h : w.Left j rest) :
    Returns synchronize (w.state j d fs) () (w.state (w.stopIndex + 1) d fs) := by
  refine Returns.bind (skipToStop_returns h) (Returns.bind (.get _) (.pos ?_ ?_))
  · rw [state_stop_current]
    exact hstop
  · exact shift_returns w w.stopIndex d fs

theorem synchronize_end (hstop : w.stop.kind = .endOfInput) (h : w.Left j rest) :
    Returns synchronize (w.state j d fs) () (w.state w.stopIndex d fs) := by
  refine Returns.bind (skipToStop_returns h) (Returns.bind (.get _) (.neg ?_ (.pure _ _)))
  rw [state_stop_current, hstop]
  exact Kind.noConfusion

/-!
## One declaration
-/

/-- Having read a piece the parser is on its semicolon with the declaration, or still in the piece
with one fault more. -/
def Leaves (w : Piece) (fs : List Fault) : Except Fault Decl -> Prop
  | .ok d => w.stop.kind = .semicolon ∧
      Returns parseTerminated (w.state w.before.length 0 fs) (some d) (w.state w.stopIndex 0 fs)
  | .error f => exists k rest, w.Left k rest ∧
      Returns parseTerminated (w.state w.before.length 0 fs) none (w.state k 0 (fs ++ [f]))

theorem parseTerminated_leaves (w : Piece) (fs : List Fault) :
    Leaves w fs (Parse.Segment.decl ⟨w.inside, w.stop⟩) := by
  have hreads := parseExpression_reads w (Nat.zero_add Parse.maxDepth)
  have hdecl : Agrees w 0 fs .decl parseDecl w.before.length _ :=
    parseDecl_agrees hreads w.left_start
  unfold Parse.Segment.decl
  dsimp only
  generalize Parse.decl w.stop (Parse.expr w.stop Parse.maxDepth) w.inside = r at hdecl ⊢
  cases r with
  | error f =>
      rcases hdecl with ⟨k, rest, hleft, hdecl⟩
      exact ⟨k, rest, hleft, hdecl.bind (.pure _ _)⟩
  | ok p =>
      rcases p with ⟨d, left, hshorter⟩
      rcases hdecl with ⟨k, _, t, hleft, rfl, hdecl⟩
      have hnext : (w.state k 0 fs).next = Parse.next w.stop left := state_next hleft
      dsimp only [Reply.decl] at hleft hnext
      change Leaves w fs
        (if (left.isEmpty && decide (w.stop.kind = .semicolon)) = true then _ else _)
      by_cases hend : (left.isEmpty && decide (w.stop.kind = .semicolon)) = true
      · rw [if_pos hend]
        rw [Bool.and_eq_true, List.isEmpty_iff, decide_eq_true_eq] at hend
        rcases hend with ⟨rfl, hstop⟩
        have hk : k + 1 = w.stopIndex := hleft.index
        refine ⟨hstop, ?_⟩
        rw [← hk]
        exact hdecl.bind ((expectNext_found hnext hstop).bind (.pure _ _))
      · rw [if_neg hend]
        have hother : (Parse.next w.stop left).kind ≠ .semicolon := by
          cases left with
          | nil => simpa [Parse.next] using hend
          | cons u left => exact (w.unbroken u hleft.tail.mem).1
        exact ⟨k, _, hleft, hdecl.bind ((expectNext_missing hnext hother).bind (.pure _ _))⟩

/-!
## All declarations
-/

theorem parseDeclarations_semicolon
    (hstart : (w.state w.before.length 0 fs).current.kind ≠ .endOfInput)
    (hstop : w.stop.kind = .semicolon) {more : List (Except Fault Decl)} {decls : List Decl}
    (hmore : forall decls fs, exists j,
      Returns (parseDeclarations decls) (w.state (w.stopIndex + 1) 0 fs)
        (decls ++ Parse.decls more) (w.state j 0 (fs ++ Parse.faults more))) :
    exists j, Returns (parseDeclarations decls) (w.state w.before.length 0 fs)
      (decls ++ Parse.decls (Parse.Segment.decl ⟨w.inside, w.stop⟩ :: more))
      (w.state j 0 (fs ++ Parse.faults (Parse.Segment.decl ⟨w.inside, w.stop⟩ :: more))) := by
  have hleaves := parseTerminated_leaves w fs
  generalize Parse.Segment.decl ⟨w.inside, w.stop⟩ = outcome at hleaves ⊢
  cases outcome with
  | error f =>
      rcases hleaves with ⟨k, rest, hleft, hread⟩
      rcases hmore decls (fs ++ [f]) with ⟨j, hmore⟩
      have hfaults : fs ++ Parse.faults (.error f :: more) = (fs ++ [f]) ++ Parse.faults more := by
        rw [List.append_assoc]
        rfl
      refine ⟨j, ?_⟩
      rw [hfaults, parseDeclarations]
      refine Returns.bind (.get _) (.neg hstart (hread.bind ?_))
      exact (synchronize_semicolon hstop hleft).bind hmore
  | ok d =>
      rcases hmore (decls ++ [d]) fs with ⟨j, hmore⟩
      have hdecls : decls ++ Parse.decls (.ok d :: more) = (decls ++ [d]) ++ Parse.decls more := by
        rw [List.append_assoc]
        rfl
      refine ⟨j, ?_⟩
      rw [hdecls, parseDeclarations]
      refine Returns.bind (.get _) (.neg hstart (hleaves.2.bind ?_))
      exact (shift_returns w w.stopIndex 0 fs).bind hmore

theorem parseDeclarations_stop (hstop : w.stop.kind = .endOfInput) (decls : List Decl) :
    Returns (parseDeclarations decls) (w.state w.stopIndex 0 fs) decls
      (w.state w.stopIndex 0 fs) := by
  have hcurrent := state_stop_current w 0 fs
  rw [parseDeclarations]
  exact Returns.bind (.get _) (.pos (hcurrent ▸ hstop) (.pure _ _))

theorem parseDeclarations_last
    (hunbroken : Unbroken w.inside) (hstop : w.stop.kind = .endOfInput) (decls : List Decl) :
    Returns (parseDeclarations decls) (w.state w.before.length 0 fs)
      (decls ++ Parse.decls (pieceOutcomes w.stop w.inside))
      (w.state w.stopIndex 0 (fs ++ Parse.faults (pieceOutcomes w.stop w.inside))) := by
  have hstart : (w.state w.before.length 0 fs).current = Parse.next w.stop w.inside :=
    state_current w.left_start
  rw [pieceOutcomes, Grammar.segments_of_unbroken w.stop hunbroken]
  by_cases hempty : w.inside = []
  · have hblank : Parse.Segment.isBlank ⟨w.inside, w.stop⟩ = true := by
      simp [Parse.Segment.isBlank, hempty, hstop]
    have hindex : w.before.length = w.stopIndex := by
      rw [Piece.stopIndex, hempty]
      rfl
    rw [List.filter_cons_of_neg (by simp [hblank]), hindex]
    simpa [Parse.decls, Parse.faults] using parseDeclarations_stop hstop decls
  · have hblank : Parse.Segment.isBlank ⟨w.inside, w.stop⟩ = false := by
      simp [Parse.Segment.isBlank, hempty]
    have hnext : (Parse.next w.stop w.inside).kind ≠ .endOfInput := by
      cases hinside : w.inside with
      | nil => exact absurd hinside hempty
      | cons t rest => exact (w.unbroken t (hinside ▸ List.mem_cons_self)).2
    have hleaves := parseTerminated_leaves w fs
    rw [List.filter_cons_of_pos (by simp [hblank]), List.filter_nil, List.map_singleton]
    generalize Parse.Segment.decl ⟨w.inside, w.stop⟩ = outcome at hleaves ⊢
    cases outcome with
    | ok d =>
        have hsemicolon := hleaves.1
        rw [hstop] at hsemicolon
        cases hsemicolon
    | error f =>
        rcases hleaves with ⟨k, rest, hleft, hread⟩
        have hdecls : decls ++ Parse.decls [.error f] = decls := List.append_nil decls
        rw [hdecls, parseDeclarations]
        refine Returns.bind (.get _) (.neg (hstart ▸ hnext) (hread.bind ?_))
        exact (synchronize_end hstop hleft).bind (parseDeclarations_stop hstop decls)

end

theorem parseDeclarations_returns
    {fin : Token} (hfin : fin.kind = .endOfInput) (before : List Token) {body : List Token}
    (hbody : forall t, t ∈ body -> t.kind ≠ .endOfInput) (decls : List Decl) (fs : List Fault) :
    exists j, Returns (parseDeclarations decls)
      (.ofIndex (before ++ (body ++ [fin])) before.length 0 fs)
      (decls ++ Parse.decls (pieceOutcomes fin body))
      (.ofIndex (before ++ (body ++ [fin])) j 0 (fs ++ Parse.faults (pieceOutcomes fin body))) := by
  induction body using Grammar.cut_induction generalizing before decls fs with
  | last body hunbroken =>
      let w : Piece := ⟨before, body, fin, [], .inr hfin,
        fun t ht => ⟨hunbroken t ht, hbody t ht⟩⟩
      exact ⟨w.stopIndex, parseDeclarations_last (w := w) hunbroken hfin decls⟩
  | cut ts stop rest hts hstop ih =>
      rw [List.forall_mem_append, List.forall_mem_cons] at hbody
      let w : Piece := ⟨before, ts, stop, rest ++ [fin], .inl hstop,
        fun t ht => ⟨hts t ht, hbody.1 t ht⟩⟩
      have htokens : before ++ ((ts ++ stop :: rest) ++ [fin]) = w.tokens := by
        rw [Piece.tokens, List.append_assoc]
        rfl
      have hbehind : w.tokens = (before ++ ts ++ [stop]) ++ (rest ++ [fin]) := by
        simp [Piece.tokens, w]
      have hindex : (before ++ ts ++ [stop]).length = w.stopIndex + 1 := by
        rw [List.length_append, List.length_append]
        rfl
      rw [Grammar.pieceOutcomes_of_stop fin hts hstop, htokens]
      refine parseDeclarations_semicolon (w := w) ?_ hstop fun decls fs => ?_
      · have hstart : (w.state before.length 0 fs).current = Parse.next stop ts :=
          state_current w.left_start
        rw [hstart]
        cases ts with
        | nil => exact fun hend => by rw [Parse.next, List.headD_nil, hstop] at hend; cases hend
        | cons t ts => exact hbody.1 t List.mem_cons_self
      · have hmore := ih (before ++ ts ++ [stop]) hbody.2.2 decls fs
        rw [← hbehind, hindex] at hmore
        exact hmore

/-- The parser ends, without a crash, with the declarations and the faults of all pieces. -/
theorem parseProgram_eq
    {body : List Token} {fin : Token} (hbody : forall t, t ∈ body -> t.kind ≠ .endOfInput)
    (hfin : fin.kind = .endOfInput) :
    parseProgram (body ++ [fin]) = pure (Parse.decls (Parse.outcomes (body ++ [fin])),
      Parse.faults (Parse.outcomes (body ++ [fin]))) := by
  rcases parseDeclarations_returns hfin [] hbody [] [] with ⟨j, hreturns⟩
  have hrun : Returns (do shift; shift; parseDeclarations []) (.start (body ++ [fin])) _ _ :=
    Returns.bind (.modify _ _) (Returns.bind (.modify _ _) hreturns)
  rw [parseProgram, hrun, Grammar.outcomes_eq_pieceOutcomes hbody hfin]
  rfl

end Machine
end DefTable
