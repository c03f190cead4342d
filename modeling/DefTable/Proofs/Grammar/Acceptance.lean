import DefTable.Compile
import DefTable.Proofs.Expr.Chain
import DefTable.Proofs.Grammar.Complete

/-!
# The parser accepts exactly the grammar

Soundness and completeness of the readers are statements about single pieces.  Here they are put
together for whole lists of tokens: the pieces that the tokens are cut into are the declarations of
a derivation, because no semicolon stands inside of a declaration.
-/

namespace DefTable
namespace Grammar

/-!
## No semicolon inside of a declaration
-/

def Unbroken (ts : List Token) : Prop :=
  forall t, t ∈ ts -> t.kind ≠ .semicolon

theorem unbroken_nil : Unbroken [] :=
  fun _ ht => absurd ht List.not_mem_nil

theorem unbroken_cons {t : Token} {ts : List Token} :
    Unbroken (t :: ts) <-> t.kind ≠ .semicolon ∧ Unbroken ts :=
  List.forall_mem_cons

theorem unbroken_append {ts us : List Token} :
    Unbroken (ts ++ us) <-> Unbroken ts ∧ Unbroken us :=
  List.forall_mem_append

theorem ne_semicolon_of_kind
    {t : Token} {kind : Token.Kind} (h : t.kind = kind) (hkind : kind ≠ .semicolon) :
    t.kind ≠ .semicolon :=
  fun hsemicolon => hkind (h.symm.trans hsemicolon)

theorem names_unbroken {ts : List Token} {is : List Ident} (h : Names ts is) : Unbroken ts := by
  induction h with
  | nil => exact unbroken_nil
  | cons hdeclarable _ ih =>
      exact unbroken_cons.mpr ⟨ne_semicolon_of_kind hdeclarable.1 (by simp), ih⟩

section

variable {E : Reading} (hE : forall ts e, E ts e -> Unbroken ts)
include hE

theorem declares_unbroken {ts : List Token} {d : Decl} (h : Declares E ts d) : Unbroken ts := by
  cases h with
  | intro hname hparams heq hbody =>
      rw [unbroken_append, unbroken_cons, unbroken_cons]
      exact ⟨⟨ne_semicolon_of_kind hname.1 (by simp), names_unbroken hparams⟩,
        ne_semicolon_of_kind heq (by simp), hE _ _ hbody⟩

theorem elements_unbroken {ts : List Token} {es : List Expr} (h : Elements E ts es) :
    Unbroken ts := by
  induction h with
  | last he => exact hE _ _ he
  | cons he hcomma _ ih =>
      rw [unbroken_append, unbroken_cons]
      exact ⟨hE _ _ he, ne_semicolon_of_kind hcomma (by simp), ih⟩

omit hE in
theorem bracketed_unbroken
    {t close : Token} {ts : List Token} {open' close' : Token.Kind}
    (ht : t.kind = open') (hopen : open' ≠ .semicolon) (hts : Unbroken ts)
    (hclose : close.kind = close') (hclose' : close' ≠ .semicolon) :
    Unbroken (t :: ts ++ [close]) := by
  rw [unbroken_append, unbroken_cons, unbroken_cons]
  exact ⟨⟨ne_semicolon_of_kind ht hopen, hts⟩, ne_semicolon_of_kind hclose hclose', unbroken_nil⟩

theorem atom_unbroken {ts : List Token} {e : Expr} (h : Atom E ts e) : Unbroken ts := by
  have single : forall {t : Token} {kind : Token.Kind}, t.kind = kind -> kind ≠ .semicolon ->
      Unbroken [t] :=
    fun ht hkind => unbroken_cons.mpr ⟨ne_semicolon_of_kind ht hkind, unbroken_nil⟩
  cases h with
  | name hkind => exact single hkind (by simp)
  | number hkind => exact single hkind (by simp)
  | string hkind => exact single hkind (by simp)
  | true hkind => exact single hkind (by simp)
  | false hkind => exact single hkind (by simp)
  | null hkind => exact single hkind (by simp)
  | negative hsign _ hnumber _ =>
      exact unbroken_cons.mpr ⟨ne_semicolon_of_kind hsign (by simp), single hnumber (by simp)⟩
  | positive hsign _ hnumber _ =>
      exact unbroken_cons.mpr ⟨ne_semicolon_of_kind hsign (by simp), single hnumber (by simp)⟩
  | reference hopen hop hclose =>
      exact bracketed_unbroken hopen (by simp) (single hop (by simp)) hclose (by simp)
  | group hopen he hclose =>
      exact bracketed_unbroken hopen (by simp) (hE _ _ he) hclose (by simp)
  | emptyList hopen hclose =>
      exact bracketed_unbroken hopen (by simp) unbroken_nil hclose (by simp)
  | list hopen hes hclose =>
      exact bracketed_unbroken hopen (by simp) (elements_unbroken hE hes) hclose (by simp)

omit hE in
theorem joins_unbroken {js ts : List Token} {op : Operator} (h : Joins js op ts) : Unbroken js := by
  cases h with
  | operator hkind =>
      exact unbroken_cons.mpr ⟨ne_semicolon_of_kind hkind (by simp), unbroken_nil⟩
  | quotedName hkind =>
      exact unbroken_cons.mpr ⟨ne_semicolon_of_kind hkind (by simp), unbroken_nil⟩
  | sideBySide _ => exact unbroken_nil

theorem more_unbroken {ts : List Token} {more : List (Operator × Expr)} (h : More E ts more) :
    Unbroken ts := by
  induction h with
  | nil => exact unbroken_nil
  | atom hjoins hatom _ ih =>
      rw [unbroken_append, unbroken_append]
      exact ⟨⟨joins_unbroken hjoins, atom_unbroken hE hatom⟩, ih⟩
  | openForm hjoins _ he =>
      rw [unbroken_append]
      exact ⟨joins_unbroken hjoins, hE _ _ he⟩

theorem form_unbroken {ts : List Token} {e : Expr} (h : Form E ts e) : Unbroken ts := by
  cases h with
  | letIn ht hd hkey hbody =>
      rw [unbroken_append, unbroken_cons, unbroken_cons]
      exact ⟨⟨ne_semicolon_of_kind ht (by simp), declares_unbroken hE hd⟩,
        ne_semicolon_of_kind hkey (by simp), hE _ _ hbody⟩
  | cond ht htest hkey₁ hyes hkey₂ hno =>
      rw [unbroken_append, unbroken_append, unbroken_cons, unbroken_cons, unbroken_cons]
      exact ⟨⟨⟨ne_semicolon_of_kind ht (by simp), hE _ _ htest⟩,
        ne_semicolon_of_kind hkey₁ (by simp), hE _ _ hyes⟩,
        ne_semicolon_of_kind hkey₂ (by simp), hE _ _ hno⟩
  | lambda ht hparams _ harrow hbody =>
      rw [unbroken_append, unbroken_cons, unbroken_cons]
      exact ⟨⟨ne_semicolon_of_kind ht (by simp), names_unbroken hparams⟩,
        ne_semicolon_of_kind harrow (by simp), hE _ _ hbody⟩
  | chain hfirst hmore =>
      rw [unbroken_append]
      exact ⟨atom_unbroken hE hfirst, more_unbroken hE hmore⟩

end

theorem derives_unbroken {n : Nat} {ts : List Token} {e : Expr} (h : Derives n ts e) :
    Unbroken ts := by
  induction n generalizing ts e with
  | zero => exact h.elim
  | succ n ih => exact form_unbroken (fun ts e he => ih he) h

/-!
## Pieces
-/

theorem segments_of_unbroken {ts : List Token} (fin : Token) (h : Unbroken ts) :
    Parse.segments fin ts = [⟨ts, fin⟩] := by
  induction ts with
  | nil => rfl
  | cons t ts ih =>
      rw [unbroken_cons] at h
      rw [Parse.segments, if_neg h.1, ih h.2]

theorem segments_of_stop
    {ts : List Token} {stop : Token} (fin : Token) (h : Unbroken ts)
    (hstop : stop.kind = .semicolon) (rest : List Token) :
    Parse.segments fin (ts ++ stop :: rest) = ⟨ts, stop⟩ :: Parse.segments fin rest := by
  induction ts with
  | nil =>
      rw [List.nil_append, Parse.segments, if_pos hstop]
  | cons t ts ih =>
      rw [unbroken_cons] at h
      rw [List.cons_append, Parse.segments, if_neg h.1, ih h.2]

def pieceOutcomes (fin : Token) (body : List Token) : List (Except Parse.Fault Decl) :=
  ((Parse.segments fin body).filter fun s => !s.isBlank).map Parse.Segment.decl

theorem outcomes_eq_pieceOutcomes
    {body : List Token} {fin : Token} (hbody : forall t, t ∈ body -> t.kind ≠ .endOfInput)
    (hfin : fin.kind = .endOfInput) :
    Parse.outcomes (body ++ [fin]) = pieceOutcomes fin body := by
  have htake : (body ++ [fin]).takeWhile (fun t => t.kind ≠ .endOfInput) = body := by
    rw [List.takeWhile_append_of_pos fun t ht => decide_eq_true (hbody t ht),
      List.takeWhile_cons_of_neg (by simp [hfin]), List.append_nil]
  unfold Parse.outcomes Parse.pieces pieceOutcomes
  dsimp only
  rw [htake, List.drop_left]
  rfl

theorem pieceOutcomes_of_stop
    {ts : List Token} {stop : Token} (fin : Token) (h : Unbroken ts)
    (hstop : stop.kind = .semicolon) (rest : List Token) :
    pieceOutcomes fin (ts ++ stop :: rest) =
      Parse.Segment.decl ⟨ts, stop⟩ :: pieceOutcomes fin rest := by
  have hblank : Parse.Segment.isBlank ⟨ts, stop⟩ = false := by
    simp [Parse.Segment.isBlank, hstop]
  rw [pieceOutcomes, segments_of_stop fin h hstop, List.filter_cons_of_pos (by simp [hblank])]
  rfl

theorem unbroken_or_split (ts : List Token) :
    Unbroken ts ∨ exists before stop rest, ts = before ++ stop :: rest ∧ Unbroken before ∧
      stop.kind = .semicolon := by
  induction ts with
  | nil => exact Or.inl unbroken_nil
  | cons t ts ih =>
      by_cases ht : t.kind = .semicolon
      · exact Or.inr ⟨[], t, ts, rfl, unbroken_nil, ht⟩
      · rcases ih with hts | ⟨before, stop, rest, rfl, hbefore, hstop⟩
        · exact Or.inl (unbroken_cons.mpr ⟨ht, hts⟩)
        · exact Or.inr ⟨t :: before, stop, rest, rfl, unbroken_cons.mpr ⟨ht, hbefore⟩, hstop⟩

/-- Lists of tokens are built up from behind, one piece with its semicolon after another. -/
theorem cut_induction
    {motive : List Token -> Prop} (last : forall ts, Unbroken ts -> motive ts)
    (cut : forall ts stop rest, Unbroken ts -> stop.kind = .semicolon -> motive rest ->
      motive (ts ++ stop :: rest)) :
    forall body, motive body := by
  intro body
  induction hlength : body.length using Nat.strongRecOn generalizing body with
  | _ n ih =>
      rcases unbroken_or_split body with hbody | ⟨ts, stop, rest, rfl, hts, hstop⟩
      · exact last body hbody
      · have hless : rest.length < n := by
          rw [← hlength, List.length_append, List.length_cons]
          omega
        exact cut ts stop rest hts hstop (ih rest.length hless rest rfl)

theorem pieceOutcomes_of_declarations
    {fin : Token} (hfin : fin.kind = .endOfInput) {body : List Token} {ds : List Decl}
    (h : Declarations Parse.maxDepth body ds) : pieceOutcomes fin body = ds.map .ok := by
  induction h with
  | nil => simp [pieceOutcomes, Parse.segments, Parse.Segment.isBlank, hfin]
  | @cons ts d stop rest ds hd hstop _ ih =>
      have hunbroken := declares_unbroken (fun _ _ he => derives_unbroken he) hd
      rw [pieceOutcomes_of_stop fin hunbroken hstop, ih, List.map_cons,
        segment_decl_complete hd hstop]

theorem declarations_of_pieceOutcomes
    {fin : Token} (hfin : fin.kind = .endOfInput) {body : List Token} {ds : List Decl}
    (h : pieceOutcomes fin body = ds.map .ok) : Declarations Parse.maxDepth body ds := by
  induction body using cut_induction generalizing ds with
  | last body hbody =>
      rw [pieceOutcomes, segments_of_unbroken fin hbody] at h
      cases body with
      | nil =>
          have hblank : Parse.Segment.isBlank ⟨[], fin⟩ = true := by
            simp [Parse.Segment.isBlank, hfin]
          rw [List.filter_cons_of_neg (by simp [hblank])] at h
          rw [List.map_eq_nil_iff.mp h.symm]
          exact .nil
      | cons t rest =>
          have hblank : Parse.Segment.isBlank ⟨t :: rest, fin⟩ = false := rfl
          rw [List.filter_cons_of_pos (by simp [hblank]), List.filter_nil, List.map_cons] at h
          cases ds with
          | nil => cases h
          | cons d ds =>
              have hstop := (segment_decl_sound (List.cons.inj h).1).2
              rw [hfin] at hstop
              cases hstop
  | cut ts stop rest hts hstop ih =>
      rw [pieceOutcomes_of_stop fin hts hstop] at h
      cases ds with
      | nil => cases h
      | cons d ds =>
          rcases List.cons.inj h with ⟨hd, hrest⟩
          exact .cons (segment_decl_sound hd).1 hstop (ih hrest)

/-!
## The operands of a chain before their grouping
-/

/-- Operands joined from the left, before precedence is looked at. -/
def leftNested (first : Expr) (more : List (Operator × Expr)) : Expr :=
  more.foldl (fun e p => .binary e.token e p.1 p.2) first

theorem leftNested_chain
    (first : Expr) {more : List (Operator × Expr)}
    (hmore : forall p, p ∈ more -> p.2.chain = ⟨p.2, []⟩) :
    (leftNested first more).chain = ⟨first.chain.first, first.chain.rest ++ more⟩ := by
  induction more generalizing first with
  | nil => rw [List.append_nil]; rfl
  | cons p more ih =>
      rw [List.forall_mem_cons] at hmore
      show (leftNested (.binary first.token first p.1 p.2) more).chain = _
      rw [ih _ hmore.2, Expr.chain, hmore.1]
      simp [Chain.join]

/-- A single operand: no binary application, and nothing is missing. -/
def IsOperand (e : Expr) : Prop :=
  e.chain = ⟨e, []⟩ ∧ e.isHole = false

theorem atom_isOperand {E : Reading} {ts : List Token} {e : Expr} (h : Atom E ts e) :
    IsOperand e := by
  cases h <;> exact ⟨rfl, rfl⟩

theorem isOpenEnded_of_opens
    {n : Nat} {t : Token} {ts : List Token} {e : Expr} (ht : Opens t)
    (h : Derives n (t :: ts) e) : e.isOpenEnded = true := by
  cases n with
  | zero => exact h.elim
  | succ n =>
      generalize hts : t :: ts = tokens at h
      cases h with
      | letIn _ _ _ _ => rfl
      | cond _ _ _ _ _ _ => rfl
      | lambda _ _ _ _ _ => rfl
      | @chain us first rest more hfirst _ =>
          have hnot := atom_not_opens hfirst rest
          rw [← hts] at hnot
          exact absurd ((opensForm_iff t).mpr ht) (Bool.eq_false_iff.mp hnot)

theorem isOperand_of_isOpenEnded {e : Expr} (h : e.isOpenEnded = true) : IsOperand e := by
  cases e with
  | letIn t name params value body => exact ⟨rfl, rfl⟩
  | cond t test yes no => exact ⟨rfl, rfl⟩
  | lambda t params body => exact ⟨rfl, rfl⟩
  | _ => cases h

theorem more_isOperand
    {n : Nat} {ts : List Token} {more : List (Operator × Expr)} (h : More (Derives n) ts more) :
    forall p, p ∈ more -> IsOperand p.2 :=
  h.forall_operand (fun _ _ => atom_isOperand) fun _ _ _ hopens he =>
    isOperand_of_isOpenEnded (isOpenEnded_of_opens hopens he)

theorem regroup_leftNested
    {n : Nat} {ts rest : List Token} {first : Expr} {more : List (Operator × Expr)}
    (hfirst : Atom (Derives n) ts first) (hmore : More (Derives n) rest more) :
    (leftNested first more).regroup = .ok (Chain.resolve ⟨first, more⟩) := by
  have hoperand := atom_isOperand hfirst
  have hoperands := more_isOperand hmore
  have hchain : (leftNested first more).chain = ⟨first, more⟩ := by
    rw [leftNested_chain first fun p hp => (hoperands p hp).1, hoperand.1, List.nil_append]
  have hholes : (Chain.operands ⟨first, more⟩).any Expr.isHole = false := by
    rw [List.any_eq_false]
    intro e he
    rcases List.mem_cons.mp he with rfl | hlater
    · simp [hoperand.2]
    · rcases List.mem_map.mp hlater with ⟨p, hp, rfl⟩
      simp [(hoperands p hp).2]
  rw [Expr.regroup, hchain]
  dsimp only
  rw [hholes, Bool.and_false]
  rfl

/-!
## Whole lists of tokens
-/

theorem eq_map_ok_iff (outcomes : List (Except Parse.Fault Decl)) (ds : List Decl) :
    outcomes = ds.map .ok <-> Parse.faults outcomes = [] ∧ Parse.decls outcomes = ds := by
  induction outcomes generalizing ds with
  | nil => cases ds <;> simp [Parse.faults, Parse.decls]
  | cons outcome outcomes ih =>
      cases outcome with
      | error f =>
          constructor
          · intro h
            cases ds <;> cases h
          · rintro ⟨h, _⟩
            cases h
      | ok d =>
          cases ds with
          | nil => simp [Parse.decls, Except.toOption]
          | cons d' ds =>
              have hfaults : Parse.faults (.ok d :: outcomes) = Parse.faults outcomes := rfl
              have hdecls : Parse.decls (.ok d :: outcomes) = d :: Parse.decls outcomes := rfl
              rw [List.map_cons, List.cons.injEq, ih, hfaults, hdecls, List.cons.injEq,
                Except.ok.injEq]
              exact and_left_comm

theorem outcomes_eq_iff
    {body : List Token} {fin : Token} (hbody : forall t, t ∈ body -> t.kind ≠ .endOfInput)
    (hfin : fin.kind = .endOfInput) (ds : List Decl) :
    Parse.outcomes (body ++ [fin]) = ds.map .ok <-> Declarations Parse.maxDepth body ds := by
  rw [outcomes_eq_pieceOutcomes hbody hfin]
  exact ⟨declarations_of_pieceOutcomes hfin, pieceOutcomes_of_declarations hfin⟩

/-- Reading a list of tokens reports nothing exactly if the tokens before the end mark derive from
the grammar, and then the program has the declarations of the derivation.  The expression of every
chain in a derivation is what precedence makes of its operands joined from the left. -/
theorem parse_reports_nothing_iff
    {c : Compilation} {body : List Token} {fin : Token}
    (htokens : c.tokens = some (body ++ [fin]))
    (hbody : forall t, t ∈ body -> t.kind ≠ .endOfInput) (hfin : fin.kind = .endOfInput) :
    (c.parse.errors = c.errors <-> exists ds, Declarations Parse.maxDepth body ds) ∧
      (forall ds, Declarations Parse.maxDepth body ds ->
        c.parse.program = some ⟨c.path, ds⟩) ∧
      forall n ts rest first more, Atom (Derives n) ts first -> More (Derives n) rest more ->
        (leftNested first more).regroup = .ok (Chain.resolve ⟨first, more⟩) := by
  let outcomes := Parse.outcomes (body ++ [fin])
  have hparse : c.parse = { c with program := some ⟨c.path, Parse.decls outcomes⟩ }.report
      ((Parse.faults outcomes).map Parse.Fault.diagnostic) := by
    rw [Compilation.parse, htokens]
  have herrors : c.parse.errors = c.errors <-> Parse.faults outcomes = [] := by
    rw [hparse, Compilation.report, List.append_right_eq_self, List.map_eq_nil_iff,
      List.map_eq_nil_iff]
  refine ⟨?_, ?_, fun n ts rest first more => regroup_leftNested⟩
  · rw [herrors]
    constructor
    · intro hfaults
      exact ⟨_, (outcomes_eq_iff hbody hfin _).mp ((eq_map_ok_iff _ _).mpr ⟨hfaults, rfl⟩)⟩
    · rintro ⟨ds, hds⟩
      exact ((eq_map_ok_iff _ _).mp ((outcomes_eq_iff hbody hfin ds).mpr hds)).1
  · intro ds hds
    have hdecls := ((eq_map_ok_iff _ _).mp ((outcomes_eq_iff hbody hfin ds).mpr hds)).2
    rw [hparse, hdecls]
    rfl

theorem parse_reports_nothing_iff_signs :
    exists ds, Declarations Parse.maxDepth (Token.scan "x = f -1 * -2;").dropLast ds := by
  let c := { Compilation.start "" [] [] with tokens := some (Token.scan "x = f -1 * -2;") }
  have htokens : c.tokens =
      some ((Token.scan "x = f -1 * -2;").dropLast ++ [Token.endAt ⟨1, 15⟩]) := by
    decide +kernel
  exact (parse_reports_nothing_iff htokens (by decide +kernel) rfl).1.mp (by decide +kernel)

end Grammar
end DefTable
