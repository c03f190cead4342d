import DefTable.Proofs.Grammar.Acceptance
import DefTable.Proofs.Machine.Parser

/-!
# Agreement of the parser with a reader

A declaration is read from a piece of the tokens, up to the semicolon or the end mark that stops it.
While the parser is at work its current token lies in the piece or is the one that stops it, so the
parser sees what a reader of the piece sees.  Where the reader succeeds the parser gives back the
same value, which is never missing; where the reader fails the parser reports the same fault, gives
back nothing and has not left the piece.
-/

namespace DefTable
namespace Machine

open Parse (Fault Reader)
open Token (Kind)

def Parser.ofIndex (tokens : List Token) (j depth : Nat) (faults : List Fault) : Parser :=
  ⟨tokens, j + 2, tokenAt tokens j, tokenAt tokens (j + 1), depth, faults⟩

/-- A stretch of tokens without a semicolon or an end mark, in front of one. -/
structure Piece where
  before : List Token
  inside : List Token
  stop : Token
  after : List Token
  stops : stop.kind = .semicolon ∨ stop.kind = .endOfInput
  unbroken : forall t, t ∈ inside -> t.kind ≠ .semicolon ∧ t.kind ≠ .endOfInput

namespace Piece

variable (w : Piece)

def tokens : List Token :=
  w.before ++ (w.inside ++ w.stop :: w.after)

def state (j depth : Nat) (faults : List Fault) : Parser :=
  .ofIndex w.tokens j depth faults

/-- From index `j` on, `rest` is left of the piece. -/
def Left (j : Nat) (rest : List Token) : Prop :=
  exists used, w.inside = used ++ rest ∧ j = w.before.length + used.length

end Piece

section

variable {w : Piece} {j d : Nat} {fs : List Fault} {t u : Token} {rest : List Token}

theorem Piece.Left.tail (h : w.Left j (t :: rest)) : w.Left (j + 1) rest := by
  rcases h with ⟨used, hinside, hj⟩
  refine ⟨used ++ [t], ?_, ?_⟩
  · rw [hinside, List.append_assoc]
    rfl
  · rw [hj, List.length_append]
    rfl

theorem tokenAt_left (h : w.Left j rest) : tokenAt w.tokens j = Parse.next w.stop rest := by
  rcases h with ⟨used, hinside, rfl⟩
  rw [tokenAt, Piece.tokens, hinside, ← List.length_append, ← List.append_assoc,
    ← List.append_assoc,
    List.append_assoc (w.before ++ used), List.getElem?_append_right (Nat.le_refl _), Nat.sub_self]
  cases rest with
  | nil => rfl
  | cons t rest => rfl

theorem Piece.Left.mem (h : w.Left j (t :: rest)) : t ∈ w.inside := by
  rcases h with ⟨used, hinside, _⟩
  rw [hinside]
  exact List.mem_append_right used List.mem_cons_self

theorem state_current (h : w.Left j rest) : (w.state j d fs).current = Parse.next w.stop rest :=
  tokenAt_left h

theorem state_next (h : w.Left j (t :: rest)) : (w.state j d fs).next = Parse.next w.stop rest :=
  tokenAt_left h.tail

theorem shift_returns (w : Piece) (j d : Nat) (fs : List Fault) :
    Returns shift (w.state j d fs) () (w.state (j + 1) d fs) :=
  .modify _ _

theorem report_returns (w : Piece) (j d : Nat) (fs : List Fault) (f : Fault) :
    Returns (report f) (w.state j d fs) () (w.state j d (fs ++ [f])) :=
  .modify _ _

end

/-!
## Agreement with a reader
-/

/-- How a parser gives back what a reader finds: what the reader leaves, how its result looks, and
what stands for the lack of a result. -/
structure Reply (ρ β : Type) where
  rest : ρ -> List Token
  Gives : ρ -> β -> Prop
  absent : β

namespace Reply

def expr {ts : List Token} : Reply (Parsed Expr ts) Expr :=
  ⟨Parsed.rest, fun p e => e = p.value ∧ e.isHole = false, .hole⟩

def decl {ts : List Token} : Reply (Parsed Decl ts) (Option Decl) :=
  ⟨Parsed.rest, fun p d => d = some p.value, none⟩

def token {ts : List Token} : Reply (Parsed Token ts) Bool :=
  ⟨Parsed.rest, fun _ b => b = true, false⟩

def binding (rest : List Token) : Reply Ident (Option Ident) :=
  ⟨fun _ => rest, fun i o => o = some i, none⟩

def params {ts : List Token} (before : List Ident) :
    Reply (List Ident × { rest : List Token // rest.length ≤ ts.length }) (Option (List Ident)) :=
  ⟨fun p => p.2.1, fun p is => is = some (before ++ p.1), none⟩

end Reply

/-- Started at index `j` the parser ends, without a crash, with what the reader says: on the last
token of what was read, or with a report and still in the piece. -/
def Agrees {ρ β : Type} (w : Piece) (d : Nat) (fs : List Fault) (R : Reply ρ β) (m : Parsing β)
    (j : Nat) (r : Except Fault ρ) : Prop :=
  match r with
  | .ok p => exists k b t, w.Left k (t :: R.rest p) ∧ R.Gives p b ∧
      Returns m (w.state j d fs) b (w.state k d fs)
  | .error f => exists k rest, w.Left k rest ∧
      Returns m (w.state j d fs) R.absent (w.state k d (fs ++ [f]))

section

variable {ρ ρ' β β' : Type} {w : Piece} {d : Nat} {fs : List Fault} {R : Reply ρ β}
variable {S : Reply ρ' β'} {m m' : Parsing β} {j : Nat} {r : Except Fault ρ}

theorem Agrees.failed
    {f : β -> Parsing β'} {fault : Fault} (hm : Agrees w d fs R m j (.error fault))
    (habsent : f R.absent = pure S.absent) : Agrees w d fs S (m >>= f) j (.error fault) := by
  rcases hm with ⟨i, rest, hleft, hm⟩
  refine ⟨i, rest, hleft, hm.bind ?_⟩
  rw [habsent]
  exact .pure _ _

theorem Agrees.bind
    {f : β -> Parsing β'} {k : ρ -> Except Fault ρ'} (hm : Agrees w d fs R m j r)
    (habsent : f R.absent = pure S.absent)
    (hok : forall p b i t, r = .ok p -> R.Gives p b -> w.Left i (t :: R.rest p) ->
      Agrees w d fs S (f b) i (k p)) :
    Agrees w d fs S (m >>= f) j (r >>= k) := by
  cases r with
  | error f' => exact hm.failed habsent
  | ok p =>
      rcases hm with ⟨i, b, t, hleft, hgives, hm⟩
      have hrest := hok p b i t rfl hgives hleft
      change Agrees w d fs S (m >>= f) j (k p)
      cases hk : k p with
      | error f' =>
          rw [hk] at hrest
          rcases hrest with ⟨i', rest, hleft', hrest⟩
          exact ⟨i', rest, hleft', hm.bind hrest⟩
      | ok p' =>
          rw [hk] at hrest
          rcases hrest with ⟨i', b', t', hleft', hgives', hrest⟩
          exact ⟨i', b', t', hleft', hgives', hm.bind hrest⟩

theorem Agrees.after
    {α : Type} {i : Nat} {a : α} {m : Parsing α} {f : α -> Parsing β}
    (hm : Returns m (w.state j d fs) a (w.state i d fs)) (hf : Agrees w d fs R (f a) i r) :
    Agrees w d fs R (m >>= f) j r := by
  cases r with
  | error f' =>
      rcases hf with ⟨k, rest, hleft, hf⟩
      exact ⟨k, rest, hleft, hm.bind hf⟩
  | ok p =>
      rcases hf with ⟨k, b, t, hleft, hgives, hf⟩
      exact ⟨k, b, t, hleft, hgives, hm.bind hf⟩

theorem Agrees.pos {c : Prop} [Decidable c] (hc : c) (hm : Agrees w d fs R m j r) :
    Agrees w d fs R (if c then m else m') j r := by
  rwa [if_pos hc]

theorem Agrees.neg {c : Prop} [Decidable c] (hc : ¬ c) (hm : Agrees w d fs R m j r) :
    Agrees w d fs R (if c then m' else m) j r := by
  rwa [if_neg hc]

theorem Agrees.ite
    {r' : Except Fault ρ} {c : Prop} [Decidable c] (hpos : c -> Agrees w d fs R m j r)
    (hneg : ¬ c -> Agrees w d fs R m' j r') :
    Agrees w d fs R (if c then m else m') j (if c then r else r') := by
  by_cases hc : c
  · rw [if_pos hc, if_pos hc]
    exact hpos hc
  · rw [if_neg hc, if_neg hc]
    exact hneg hc

theorem Agrees.map
    {S : Reply ρ' β} (hm : Agrees w d fs R m j r) (g : ρ -> ρ')
    (hrest : forall p, S.rest (g p) = R.rest p)
    (hgives : forall p b, R.Gives p b -> S.Gives (g p) b) (habsent : R.absent = S.absent) :
    Agrees w d fs S m j (r >>= fun p => pure (g p)) := by
  cases r with
  | error f =>
      rcases hm with ⟨k, rest, hleft, hm⟩
      exact ⟨k, rest, hleft, habsent ▸ hm⟩
  | ok p =>
      rcases hm with ⟨k, b, t, hleft, hb, hm⟩
      exact ⟨k, b, t, hrest p ▸ hleft, hgives p b hb, hm⟩

theorem Agrees.done
    {p : ρ} {b : β} {t : Token} (hleft : w.Left j (t :: R.rest p)) (hgives : R.Gives p b) :
    Agrees w d fs R (pure b) j (.ok p) :=
  ⟨j, b, t, hleft, hgives, .pure _ _⟩

theorem Agrees.fault {f : Fault} {rest : List Token} (hleft : w.Left j rest) :
    Agrees w d fs R (do report f; return R.absent) j (.error f) :=
  ⟨j, rest, hleft, (report_returns w j d fs f).bind (.pure _ _)⟩

end

/-!
## Single tokens and names
-/

section

variable {w : Piece} {d : Nat} {fs : List Fault} {j : Nat} {t : Token} {rest : List Token}

theorem stop_kind_ne {kind : Kind} (hkind : kind ≠ .semicolon ∧ kind ≠ .endOfInput) :
    w.stop.kind ≠ kind := by
  rcases w.stops with hstop | hstop
  · exact fun heq => hkind.1 (heq.symm.trans hstop)
  · exact fun heq => hkind.2 (heq.symm.trans hstop)

theorem expectNext_found
    {kind : Kind} (hnext : (w.state j d fs).next = t) (ht : t.kind = kind) :
    Returns (expectNext kind) (w.state j d fs) true (w.state (j + 1) d fs) :=
  Returns.bind (.get _) (.pos (hnext ▸ ht) ((shift_returns w j d fs).bind (.pure _ _)))

theorem expectNext_missing
    {kind : Kind} (hnext : (w.state j d fs).next = t) (ht : t.kind ≠ kind) :
    Returns (expectNext kind) (w.state j d fs) false
      (w.state j d (fs ++ [.expected (.token kind) t])) := by
  subst hnext
  exact Returns.bind (.get _) (.neg ht ((report_returns w j d fs _).bind (.pure _ _)))

theorem expectNext_agrees
    (h : w.Left j (t :: rest)) {kind : Kind} (hkind : kind ≠ .semicolon ∧ kind ≠ .endOfInput) :
    Agrees w d fs .token (expectNext kind) j (Parse.expect w.stop kind rest) := by
  cases rest with
  | nil => exact ⟨j, _, h, expectNext_missing (state_next h) (stop_kind_ne hkind)⟩
  | cons u rest =>
      rw [Parse.expect]
      by_cases hu : u.kind = kind
      · rw [if_pos hu]
        exact ⟨j + 1, true, u, h.tail, rfl, expectNext_found (state_next h) hu⟩
      · rw [if_neg hu]
        exact ⟨j, _, h, expectNext_missing (state_next h) hu⟩

theorem closeWith_agrees
    (h : w.Left j (t :: rest)) {kind : Kind} (hkind : kind ≠ .semicolon ∧ kind ≠ .endOfInput)
    (bracket : Token) :
    Agrees w d fs .token (closeWith kind bracket) j (Parse.close w.stop kind bracket rest) := by
  have hnext : (w.state j d fs).next = Parse.next w.stop rest := state_next h
  unfold closeWith
  refine Agrees.after (.get _) ?_
  rw [hnext]
  cases rest with
  | nil =>
      exact .neg (stop_kind_ne hkind) (.ite (fun _ => .fault h) (fun _ => .fault h))
  | cons u rest =>
      refine .ite (fun _ => ?_) (fun _ => .neg (w.unbroken u h.tail.mem).2 (.fault h))
      exact .after (shift_returns w j d fs) (.done h.tail rfl)

theorem parseBinding_agrees (h : w.Left j (t :: rest)) :
    Agrees w d fs (.binding rest) parseBinding j (Parse.binding t) := by
  have hcurrent : (w.state j d fs).current = t := state_current h
  unfold parseBinding Parse.binding
  refine Agrees.after (.get _) ?_
  rw [hcurrent]
  refine .ite (fun _ => .fault h) (fun _ => ?_)
  exact .ite (fun _ => .fault h) (fun _ => Agrees.done (R := .binding rest) h rfl)

theorem parseBinding_stop (h : w.Left j []) :
    Agrees w d fs (.binding []) parseBinding j (.error (.expected .name w.stop)) := by
  have hcurrent : (w.state j d fs).current = w.stop := state_current h
  have hname : w.stop.kind ≠ .name := stop_kind_ne ⟨Kind.noConfusion, Kind.noConfusion⟩
  unfold parseBinding
  refine Agrees.after (.get _) ?_
  rw [hcurrent]
  exact .pos hname (.fault h)

theorem parseParams_agrees (h : w.Left j (t :: rest)) (before : List Ident) :
    Agrees w d fs (.params before) (parseParams before) j (Parse.params rest) := by
  induction rest generalizing j t before with
  | nil =>
      have hnext : (w.state j d fs).next = w.stop := state_next h
      have hname : w.stop.kind ≠ .name := stop_kind_ne ⟨Kind.noConfusion, Kind.noConfusion⟩
      rw [parseParams]
      refine Agrees.after (.get _) ?_
      rw [hnext]
      refine .neg hname (Agrees.done (R := .params before) h ?_)
      exact congrArg some (List.append_nil before).symm
  | cons u rest ih =>
      have hnext : (w.state j d fs).next = u := state_next h
      rw [parseParams, Parse.params]
      refine Agrees.after (.get _) ?_
      rw [hnext]
      refine .ite (fun hname => .after (shift_returns w j d fs) ?_) (fun hname => ?_)
      · refine Agrees.bind (parseBinding_agrees h.tail) rfl ?_
        rintro i _ k v hi rfl hleft
        refine Agrees.map (ih hleft (before ++ [i])) _ (fun _ => rfl) ?_ rfl
        rintro ⟨ps, more⟩ _ rfl
        exact congrArg some (List.append_assoc before [i] ps)
      · refine Agrees.done (R := .params before) h ?_
        exact congrArg some (List.append_nil before).symm

end

end Machine
end DefTable
