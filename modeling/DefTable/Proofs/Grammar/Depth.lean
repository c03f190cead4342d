import DefTable.Proofs.Expr.Reprinted
import DefTable.Proofs.Grammar.Formatted
import DefTable.Proofs.Grammar.RoundTrip

/-!
# How deep a text may nest

The budget of the parser bounds how deep forms nest in a text.  A larger budget reads the same texts
and more, and always in the same way.  So the nesting of what is written is exactly the budget that
its text needs, and the text of a declaration is read without a fault if and only if its expression
nests less deep than the parser allows.
-/

namespace DefTable

/-!
## Larger budgets
-/

namespace Grammar

section

variable {E F : Reading} (hEF : forall ts e, E ts e -> F ts e)
include hEF

theorem declares_mono {ts : List Token} {d : Decl} (h : Declares E ts d) : Declares F ts d := by
  cases h with
  | intro hname hparams heq hbody => exact .intro hname hparams heq (hEF _ _ hbody)

theorem elements_mono {ts : List Token} {es : List Expr} (h : Elements E ts es) :
    Elements F ts es := by
  induction h with
  | last he => exact .last (hEF _ _ he)
  | cons he hcomma _ ih => exact .cons (hEF _ _ he) hcomma ih

theorem atom_mono {ts : List Token} {e : Expr} (h : Atom E ts e) : Atom F ts e := by
  cases h with
  | name hkind => exact .name hkind
  | number hkind => exact .number hkind
  | string hkind => exact .string hkind
  | true hkind => exact .true hkind
  | false hkind => exact .false hkind
  | null hkind => exact .null hkind
  | negative hsign hlexeme hkind htouches => exact .negative hsign hlexeme hkind htouches
  | positive hsign hlexeme hkind htouches => exact .positive hsign hlexeme hkind htouches
  | reference hopen hop hclose => exact .reference hopen hop hclose
  | group hopen he hclose => exact .group hopen (hEF _ _ he) hclose
  | emptyList hopen hclose => exact .emptyList hopen hclose
  | list hopen hes hclose => exact .list hopen (elements_mono hEF hes) hclose

theorem more_mono {ts : List Token} {more : List (Operator × Expr)} (h : More E ts more) :
    More F ts more := by
  induction h with
  | nil => exact .nil
  | atom hjoins hatom _ ih => exact .atom hjoins (atom_mono hEF hatom) ih
  | openForm hjoins hopens he => exact .openForm hjoins hopens (hEF _ _ he)

theorem form_mono {ts : List Token} {e : Expr} (h : Form E ts e) : Form F ts e := by
  cases h with
  | letIn ht hdeclares hkey hbody =>
      exact .letIn ht (declares_mono hEF hdeclares) hkey (hEF _ _ hbody)
  | cond ht htest hkey₁ hyes hkey₂ hno =>
      exact .cond ht (hEF _ _ htest) hkey₁ (hEF _ _ hyes) hkey₂ (hEF _ _ hno)
  | lambda ht hparams hne harrow hbody => exact .lambda ht hparams hne harrow (hEF _ _ hbody)
  | chain hatom hmore => exact .chain (atom_mono hEF hatom) (more_mono hEF hmore)

end

theorem derives_mono {n m : Nat} (hle : n ≤ m) {ts : List Token} {e : Expr} (h : Derives n ts e) :
    Derives m ts e := by
  induction n generalizing m ts e with
  | zero => exact h.elim
  | succ n ih =>
      cases m with
      | zero => exact absurd hle (Nat.not_succ_le_zero n)
      | succ m => exact form_mono (fun ts e he => ih (Nat.le_of_succ_le_succ hle) he) h

theorem declarations_mono
    {n m : Nat} (hle : n ≤ m) {ts : List Token} {ds : List Decl} (h : Declarations n ts ds) :
    Declarations m ts ds := by
  induction h with
  | nil => exact .nil
  | cons hd hstop _ ih => exact .cons (declares_mono (fun _ _ => derives_mono hle) hd) hstop ih

/-!
## One reading
-/

theorem derives_unique
    {n m : Nat} {ts : List Token} {e e' : Expr} (h : Derives n ts e) (h' : Derives m ts e') :
    e = e' := by
  have hread := fun {e} (h : Derives (max n m) ts e) =>
    (expr_complete .absent (max n m) ts e [] h ends_nil).2
  have hfirst := hread (derives_mono (Nat.le_max_left n m) h)
  rw [hread (derives_mono (Nat.le_max_right n m) h')] at hfirst
  cases hfirst
  rfl

theorem declares_unique
    {n m : Nat} {ts : List Token} {d d' : Decl} (h : Declares (Derives n) ts d)
    (h' : Declares (Derives m) ts d') : d = d' := by
  have hread := fun {d} (h : Declares (Derives (max n m)) ts d) =>
    (decl_complete .absent (expr_complete .absent (max n m)) h ends_nil).2
  have hfirst := hread (declares_mono (fun _ _ => derives_mono (Nat.le_max_left n m)) h)
  rw [hread (declares_mono (fun _ _ => derives_mono (Nat.le_max_right n m)) h')] at hfirst
  cases hfirst
  rfl

theorem cut_unique
    {ts ts' rest rest' : List Token} {stop stop' : Token}
    (h : ts ++ stop :: rest = ts' ++ stop' :: rest') (hts : Unbroken ts) (hts' : Unbroken ts')
    (hstop : stop.kind = .semicolon) (hstop' : stop'.kind = .semicolon) :
    ts = ts' ∧ rest = rest' := by
  have hsegments := congrArg (Parse.segments .absent) h
  rw [segments_of_stop _ hts hstop, segments_of_stop _ hts' hstop'] at hsegments
  have hfirst := congrArg Parse.Segment.tokens (List.cons.inj hsegments).1
  subst hfirst
  exact ⟨rfl, (List.cons.inj (List.append_cancel_left h)).2⟩

theorem not_blank (ts rest : List Token) (stop : Token) : ts ++ stop :: rest ≠ [] :=
  List.append_ne_nil_of_right_ne_nil ts (List.cons_ne_nil stop rest)

theorem declarations_unique
    {n m : Nat} {ts : List Token} {ds ds' : List Decl} (h : Declarations n ts ds)
    (h' : Declarations m ts ds') : ds = ds' := by
  induction h generalizing ds' with
  | nil =>
      generalize hts : ([] : List Token) = ts at h'
      cases h' with
      | nil => rfl
      | cons _ _ _ => exact absurd hts.symm (not_blank _ _ _)
  | @cons ts d stop rest ds hd hstop _ ih =>
      generalize hall : ts ++ stop :: rest = all at h'
      cases h' with
      | nil => exact absurd hall (not_blank _ _ _)
      | cons hd' hstop' hrest' =>
          rcases cut_unique hall (declares_unbroken (fun _ _ => derives_unbroken) hd)
            (declares_unbroken (fun _ _ => derives_unbroken) hd') hstop hstop' with ⟨rfl, rfl⟩
          rw [declares_unique hd hd', ih hrest']

end Grammar

/-!
## The nesting of what is written
-/

namespace Source

open Grammar

theorem nesting_enclosed
    {needed : Bool} {level : Nat} {onRight : Bool} {e : Expr} {k : Nat}
    (hwhole : nesting .minimal topLevel false e = k)
    (hbare : needed = false -> nesting .minimal level onRight e = k) :
    nesting .minimal level onRight (enclosed needed e) = deeper needed k := by
  cases needed with
  | true => exact congrArg (· + 1) hwhole
  | false => exact hbare rfl

theorem nesting_enclosed_open
    {e : Expr} (hopen : e.isOpenEnded = true) {k : Nat}
    (hwhole : nesting .minimal topLevel false e = k) (level : Nat) (onRight : Bool) :
    nesting .minimal level onRight (enclosed (level ≤ Operator.maxLevel) e) =
      deeper (level ≤ Operator.maxLevel) k := by
  refine nesting_enclosed hwhole fun hbare => ?_
  rw [(written_of_isOpenEnded hopen _ _ _).1, hbare, hwhole]
  rfl

theorem nesting_bare
    {level : Nat} {onRight : Bool} {op : Operator}
    (hbare : isEnclosed .minimal level onRight op = false) (left right : Expr) :
    nesting .minimal level onRight (.binary .absent left op.erased right) =
      max (nesting .minimal op.level false left) (nesting .minimal op.level true right) := by
  rw [nesting, isEnclosed, op.erased_level]
  change deeper (isEnclosed .minimal level onRight op) _ = _
  rw [hbare]
  rfl

theorem isEnclosed_minimal
    {style : Style} {level : Nat} {onRight : Bool} {op : Operator}
    (h : isEnclosed style level onRight op = false) :
    isEnclosed .minimal level onRight op = false := by
  cases style with
  | minimal => exact h
  | explicit => cases h

mutual

theorem nesting_erased (style : Style) (level : Nat) (onRight : Bool) :
    (e : Expr) -> nesting style level onRight e.erased = nesting style level onRight e
  | .hole => rfl
  | .ident _ => rfl
  | .number _ _ => rfl
  | .string _ _ => rfl
  | .bool _ _ => rfl
  | .null _ => rfl
  | .group _ e => by rw [Expr.erased, nesting, nesting, nesting_erased style topLevel false e]
  | .list _ es => by rw [Expr.erased, nesting, nesting, nestingOfAll_erased style es]
  | .letIn _ _ _ value body => by
      rw [Expr.erased, nesting, nesting, nesting_erased style topLevel false value,
        nesting_erased style topLevel false body]
  | .cond _ test yes no => by
      rw [Expr.erased, nesting, nesting, nesting_erased style topLevel false test,
        nesting_erased style topLevel false yes, nesting_erased style topLevel false no]
  | .lambda _ _ body => by
      rw [Expr.erased, nesting, nesting, nesting_erased style topLevel false body]
  | .binary _ left op right => by
      rw [Expr.erased, nesting, nesting, op.erased_level, nesting_erased style op.level false left,
        nesting_erased style op.level true right, isEnclosed, isEnclosed, op.erased_level]

theorem nestingOfAll_erased (style : Style) :
    (es : List Expr) -> nestingOfAll style (Expr.allErased es) = nestingOfAll style es
  | [] => rfl
  | e :: es => by
      rw [Expr.allErased, nestingOfAll, nestingOfAll, nesting_erased style topLevel false e,
        nestingOfAll_erased style es]

end

mutual

theorem nesting_written (style : Style) (level : Nat) (onRight : Bool) :
    (e : Expr) -> nesting .minimal level onRight (written style level onRight e) =
      nesting style level onRight e
  | .hole => rfl
  | .ident _ => rfl
  | .number _ _ => rfl
  | .string _ _ => rfl
  | .bool _ _ => rfl
  | .null _ => rfl
  | .group _ e => by rw [written, nesting, nesting, nesting_written style topLevel false e]
  | .list _ es => by rw [written, nesting, nesting, nestingOfAll_written style es]
  | .letIn _ name params value body => by
      rw [written, nesting]
      refine nesting_enclosed_open rfl ?_ level onRight
      rw [nesting, nesting_written style topLevel false value,
        nesting_written style topLevel false body]
      rfl
  | .cond _ test yes no => by
      rw [written, nesting]
      refine nesting_enclosed_open rfl ?_ level onRight
      rw [nesting, nesting_written style topLevel false test,
        nesting_written style topLevel false yes, nesting_written style topLevel false no]
      rfl
  | .lambda _ params body => by
      rw [written, nesting]
      refine nesting_enclosed_open rfl ?_ level onRight
      rw [nesting, nesting_written style topLevel false body]
      rfl
  | .binary _ left op right => by
      have hjoined : forall level' onRight', isEnclosed .minimal level' onRight' op = false ->
          nesting .minimal level' onRight' (.binary .absent (written style op.level false left)
            op.erased (written style op.level true right)) =
          max (nesting style op.level false left) (nesting style op.level true right) := by
        intro level' onRight' hbare
        rw [nesting_bare hbare, nesting_written style op.level false left,
          nesting_written style op.level true right]
      rw [written, nesting]
      exact nesting_enclosed (hjoined _ _ (not_isEnclosed_top op))
        fun hbare => hjoined _ _ (isEnclosed_minimal hbare)

theorem nestingOfAll_written (style : Style) :
    (es : List Expr) -> nestingOfAll .minimal (allWritten style es) = nestingOfAll style es
  | [] => rfl
  | e :: es => by
      rw [allWritten, nestingOfAll, nestingOfAll, nesting_written style topLevel false e,
        nestingOfAll_written style es]

end

theorem nesting_lt_of_gives
    {style : Style} {e : Expr} {n : Nat} {ts : List Token}
    (h : Gives n (written style topLevel false e) ts) : nesting style topLevel false e < n := by
  rcases h with ⟨e', he', hwritten⟩
  have hdepth := (derives_kept he').depth
  rwa [← nesting_erased, hwritten, nesting_written] at hdepth

/-- The text of a declaration is read without a fault exactly if its expression nests less deep than
the parser allows. -/
theorem parse_print_faultless_iff
    (style : Style) {e : Expr} (hnames : e.Named writableNames) (hwritable : Writable e)
    (path : String) :
    (parseSource path (Text.ofString ("x = " ++ print style e ++ ";"))).errors = [] <->
      nesting style topLevel false e < Parse.maxDepth := by
  let d : Decl := ⟨⟨.absent, "x"⟩, [], e⟩
  have hname : IsDeclarableName "x" := ⟨⟨'x', [], rfl, rfl, rfl⟩, by decide⟩
  have hnamed : d.Named writableNames := ⟨hname, fun q hq => absurd hq List.not_mem_nil, hnames⟩
  have hscans : Token.Scans Token.Anything (decl style d ++ ";")
      (GivesDeclarations (nesting style topLevel false e + 1) [writtenDecl style d]) :=
    scans_decl hnamed hwritable (Nat.lt_succ_self _)
  rcases Token.scan_ofString (hscans.mono (fun _ _ => trivial) fun _ h => h) with
    ⟨ts, q, hscan, ⟨ds, hds, hwritten⟩, hkinds⟩
  rcases List.map_eq_singleton_iff.mp hwritten with ⟨d', rfl, hd'⟩
  have htext : "x = " ++ print style e ++ ";" = decl style d ++ ";" := rfl
  rw [htext]
  constructor
  · intro herrors
    have houtcomes := outcomes_of_parseSource herrors rfl
    rw [hscan, outcomes_eq_iff hkinds rfl] at houtcomes
    have hsame := declarations_unique hds houtcomes
    rw [← hsame] at houtcomes
    cases houtcomes with
    | cons hdeclares _ _ =>
        cases hdeclares with
        | intro _ _ _ hbody => exact nesting_lt_of_gives ⟨_, hbody, congrArg Decl.body hd'⟩
  · intro hdepth
    have houtcomes : Parse.outcomes (ts ++ [Token.endAt q]) = [d'].map .ok :=
      (outcomes_eq_iff hkinds rfl [d']).mpr (declarations_mono hdepth hds)
    rw [← hscan] at houtcomes
    exact (parseSource_of_outcomes path houtcomes).1

end Source
end DefTable
