import DefTable.Proofs.Formatting
import DefTable.Proofs.Lowering.Legible
import DefTable.Proofs.Number.Text
import DefTable.Proofs.Text.Quoted

/-!
# Listings are faithful

A listing is made for people, but nothing is lost in it.  Every definition starts with a keyword of
its own, identifiers and numbers are words, strings are quoted, and the body of a function ends at
the brace on the margin of its entry.  So a compiled table can be told from its listing.
-/

namespace DefTable
namespace Listing

open Lowering (legibleRules)

/-!
## Words with separators
-/

section

variable {α : Type} {p : α -> Prop} {word : α -> String} {sep : String} {mark close : Char}

theorem toList_intercalate_cons (sep : String) (word : α -> String) (a : α) (as : List α) :
    (sep.intercalate ((a :: as).map word)).toList =
      (word a).toList ++ as.flatMap fun b => sep.toList ++ (word b).toList := by
  rw [List.map_cons, Source.intercalate_cons, String.toList_append, String.toList_join,
    List.flatMap_map, List.flatMap_map]
  simp only [String.toList_append]

theorem allTold_behind
    (hword : AllTold p Delimited fun a => (word a).toList) (hsep : Starts mark sep.toList)
    (hmark : mark ∈ delimiters) (hclose : close ∈ delimiters) (hne : mark ≠ close) :
    AllTold (fun as : List α => forall a, a ∈ as -> p a) (Starts close) fun as =>
      as.flatMap fun b => sep.toList ++ (word b).toList := by
  have hmarked : forall a rest, Starts mark (sep.toList ++ (word a).toList ++ rest) :=
    fun a rest => (hsep.append _).append rest
  apply AllTold.flatMap fun a => (hword a).afterward sep.toList
  · exact fun rest hrest => ⟨close, hclose, hrest⟩
  · exact fun a rest _ => ⟨mark, hmark, hmarked a rest⟩
  · intro a rest _ hstarts
    exact hne (Option.some.inj ((hmarked a rest).symm.trans hstarts))

theorem allTold_separated
    (hlegible : forall a, p a -> IsLegible (word a))
    (hinjective : forall a a', p a -> p a' -> word a = word a' -> a = a')
    (hsep : Starts mark sep.toList) (hmark : mark ∈ delimiters) (hclose : close ∈ delimiters)
    (hne : mark ≠ close) :
    AllTold (fun as : List α => forall a, a ∈ as -> p a) (Starts close) fun as =>
      (sep.intercalate (as.map word)).toList := by
  have hword := allTold_word hlegible hinjective
  have hbehind := allTold_behind hword hsep hmark hclose hne
  have hafter : forall (as : List α) rest, Starts close rest ->
      Delimited ((as.flatMap fun b => sep.toList ++ (word b).toList) ++ rest) := by
    intro as rest hrest
    cases as with
    | nil => exact ⟨close, hclose, hrest⟩
    | cons b bs => exact ⟨mark, hmark, ((hsep.append _).append _).append rest⟩
  have hopen : forall a (as : List α) rest, p a ->
      ¬ Starts close ((sep.intercalate ((a :: as).map word)).toList ++ rest) := by
    intro a as rest ha
    rw [toList_intercalate_cons, List.append_assoc]
    exact (hlegible a ha).not_starts hclose _
  intro as as' rest rest' has has' hrest hrest' heq
  dsimp only at heq
  cases as with
  | nil =>
      cases as' with
      | nil => exact ⟨rfl, List.append_cancel_left heq⟩
      | cons a' as' =>
          have hrest : Starts close ([] ++ rest) := hrest
          rw [show [] ++ rest = _ from heq] at hrest
          exact absurd hrest (hopen a' as' rest' (has' a' List.mem_cons_self))
  | cons a as =>
      cases as' with
      | nil =>
          have hrest' : Starts close ([] ++ rest') := hrest'
          rw [show [] ++ rest' = _ from heq.symm] at hrest'
          exact absurd hrest' (hopen a as rest (has a List.mem_cons_self))
      | cons a' as' =>
          rw [List.forall_mem_cons] at has has'
          rw [toList_intercalate_cons, toList_intercalate_cons, List.append_assoc,
            List.append_assoc] at heq
          rcases hword a a' _ _ has.1 has'.1 (hafter as rest hrest) (hafter as' rest' hrest') heq
            with ⟨rfl, hlater⟩
          rcases hbehind as as' rest rest' has.2 has'.2 hrest hrest' hlater with ⟨rfl, hend⟩
          exact ⟨rfl, hend⟩

end

theorem allTold_identifiers
    {sep : String} {mark close : Char} (hsep : Starts mark sep.toList) (hmark : mark ∈ delimiters)
    (hclose : close ∈ delimiters) (hne : mark ≠ close) :
    AllTold (fun ids : List String => forall i, i ∈ ids -> IsLegible i) (Starts close) fun ids =>
      (sep.intercalate ids).toList := by
  have hwords := allTold_separated (fun (i : String) (hi : IsLegible i) => hi)
    (fun _ _ _ _ heq => heq) hsep hmark hclose hne
  simp only [List.map_id'] at hwords
  exact hwords

/-!
## Cells and cases
-/

def IsDefined (c : Cell) : Prop :=
  forall x, x ∈ c.numbers -> x.isUndefined = false

theorem isDefined_number {v : Number} : IsDefined (.number v) <-> v.isUndefined = false :=
  List.forall_mem_singleton

theorem isLegible_bool (b : Bool) : IsLegible (toString b) := by
  cases b <;> decide

theorem isLegible_cell (c : Cell) (h : IsDefined c) : IsLegible (cell c) := by
  cases c with
  | number v => exact Number.isLegible_text (isDefined_number.mp h)
  | bool b => exact isLegible_bool b

theorem bool_injective {b b' : Bool} (h : toString b = toString b') : b = b' := by
  cases b <;> cases b' <;> first | rfl | exact absurd h (by decide)

theorem text_ne_bool {v : Number} (hv : v.isUndefined = false) (b : Bool) :
    v.text ≠ toString b := by
  intro heq
  rcases Number.text_cons hv with ⟨c, cs, htext, hc⟩
  rw [heq] at htext
  cases b
  · cases htext
    exact absurd hc (by decide)
  · cases htext
    exact absurd hc (by decide)

theorem cell_injective
    (c c' : Cell) (h : IsDefined c) (h' : IsDefined c') (heq : cell c = cell c') : c = c' := by
  cases c with
  | number v =>
      have hv := isDefined_number.mp h
      cases c' with
      | number v' => rw [Number.text_injective hv (isDefined_number.mp h') heq]
      | bool b' => exact absurd heq (text_ne_bool hv b')
  | bool b =>
      cases c' with
      | number v' => exact absurd heq.symm (text_ne_bool (isDefined_number.mp h') b)
      | bool b' => rw [bool_injective heq]

structure IsLegibleCase (c : Case) : Prop where
  guard : forall g, c.guard = some g -> IsLegible g ∧ g ≠ "_"
  value : IsLegible c.value

theorem IsLegibleCase.shown {c : Case} (h : IsLegibleCase c) : IsLegible (c.guard.getD "_") := by
  cases hguard : c.guard with
  | none => exact (by decide : IsLegible "_")
  | some g => exact (h.guard g hguard).1

theorem IsLegibleCase.guard_eq
    {c c' : Case} (h : IsLegibleCase c) (h' : IsLegibleCase c')
    (heq : c.guard.getD "_" = c'.guard.getD "_") : c.guard = c'.guard := by
  cases hguard : c.guard with
  | none =>
      cases hguard' : c'.guard with
      | none => rfl
      | some g' =>
          rw [hguard, hguard'] at heq
          exact absurd heq.symm (h'.guard g' hguard').2
  | some g =>
      cases hguard' : c'.guard with
      | none =>
          rw [hguard, hguard'] at heq
          exact absurd heq (h.guard g hguard).2
      | some g' =>
          rw [hguard, hguard'] at heq
          exact congrArg some heq

theorem toList_case (c : Case) (rest : List Char) :
    (case c).toList ++ rest =
      " | ".toList ++
        ((c.guard.getD "_").toList ++ (" -> ".toList ++ (c.value.toList ++ rest))) := by
  unfold case
  simp only [String.toList_append, List.append_assoc]

theorem allTold_case : AllTold IsLegibleCase Delimited fun c => (case c).toList := by
  intro c c' rest rest' h h' hrest hrest' heq
  have harrow : forall rest, Delimited (" -> ".toList ++ rest) :=
    fun rest => ⟨' ', by decide, (starts_cons ' ' _).append rest⟩
  dsimp only at heq
  rw [toList_case, toList_case] at heq
  rcases allTold_legible _ _ _ _ h.shown h'.shown (harrow _) (harrow _)
    (List.append_cancel_left heq) with ⟨hguard, hlater⟩
  rcases allTold_legible _ _ _ _ h.value h'.value hrest hrest' (List.append_cancel_left hlater)
    with ⟨hvalue, hbehind⟩
  refine ⟨?_, hbehind⟩
  cases c
  cases c'
  exact congr (congrArg Case.mk (h.guard_eq h' hguard)) hvalue

/-!
## Definitions
-/

/-- What a definition says first. -/
inductive Kind where
  | number
  | string
  | matrix
  | bool
  | null
  | list
  | call
  | func
  | switch

def Kind.keyword : Kind -> String
  | number => "num"
  | string => "str"
  | matrix => "matrix"
  | bool => "bool"
  | null => "null"
  | list => "list"
  | call => "call"
  | func => "fn"
  | switch => "switch"

def kind : Def -> Kind
  | .number _ => .number
  | .string _ => .string
  | .matrix _ => .matrix
  | .bool _ => .bool
  | .null => .null
  | .list _ => .list
  | .call _ _ => .call
  | .func _ _ => .func
  | .switch _ => .switch

theorem isLegible_keyword (k : Kind) : IsLegible k.keyword := by
  cases k <;> decide

theorem keyword_injective {k k' : Kind} (h : k.keyword = k'.keyword) : k = k' := by
  cases k <;> cases k' <;> first | rfl | exact absurd h (by decide)

def payload (depth : Nat) : Def -> String
  | .number v => " " ++ v.text
  | .string v => " " ++ Quoted.string v
  | .matrix vs => " [" ++ (", ".intercalate (vs.map cell) ++ "]")
  | .bool v => " " ++ toString v
  | .null => ""
  | .list items => " [" ++ (", ".intercalate items ++ "]")
  | .call target args => " " ++ " ".intercalate (target :: args)
  | .func params body =>
      "(" ++ (" ".intercalate params ++ (") \x7b\n" ++ (entries (depth + 1) body ++
        (margin depth ++ "\x7d"))))
  | .switch cases => String.join (cases.map case)

theorem definition_eq (depth : Nat) (d : Def) :
    definition depth d = (kind d).keyword ++ payload depth d := by
  cases d with
  | number v =>
      show "num" ++ " " ++ v.text = "num" ++ (" " ++ v.text)
      rw [String.append_assoc]
  | string v =>
      show "str" ++ " " ++ Quoted.string v = "str" ++ (" " ++ Quoted.string v)
      rw [String.append_assoc]
  | matrix vs =>
      show "matrix" ++ " [" ++ ", ".intercalate (vs.map cell) ++ "]" =
        "matrix" ++ (" [" ++ (", ".intercalate (vs.map cell) ++ "]"))
      simp only [String.append_assoc]
  | bool v =>
      show "bool" ++ " " ++ toString v = "bool" ++ (" " ++ toString v)
      rw [String.append_assoc]
  | null => rfl
  | list items =>
      show "list" ++ " [" ++ ", ".intercalate items ++ "]" =
        "list" ++ (" [" ++ (", ".intercalate items ++ "]"))
      simp only [String.append_assoc]
  | call target args =>
      show "call" ++ " " ++ " ".intercalate (target :: args) =
        "call" ++ (" " ++ " ".intercalate (target :: args))
      rw [String.append_assoc]
  | func params body =>
      show "fn" ++ "(" ++ " ".intercalate params ++ ") \x7b\n" ++ entries (depth + 1) body ++
          margin depth ++ "\x7d" =
        "fn" ++ ("(" ++ (" ".intercalate params ++ (") \x7b\n" ++ (entries (depth + 1) body ++
          (margin depth ++ "\x7d")))))
      simp only [String.append_assoc]
  | switch cases => rfl

theorem starts_case (c : Case) (rest : List Char) : Starts ' ' ((case c).toList ++ rest) := by
  rw [toList_case]
  exact (show Starts ' ' " | ".toList from rfl).append _

theorem delimited_of_break {rest : List Char} (h : Starts '\n' rest) : Delimited rest :=
  ⟨'\n', by decide, h⟩

theorem toList_cases (cases : List Case) :
    (String.join (cases.map case)).toList = cases.flatMap fun c => (case c).toList := by
  rw [String.toList_join, List.flatMap_map]

theorem delimited_payload
    (depth : Nat) (d : Def) {rest : List Char} (hrest : Starts '\n' rest) :
    Delimited ((payload depth d).toList ++ rest) := by
  have hafter : forall {mark : Char} {lit s : String}, mark ∈ delimiters ->
      Starts mark lit.toList -> Delimited ((lit ++ s).toList ++ rest) := by
    intro mark lit s hmark hlit
    rw [String.toList_append]
    exact ⟨mark, hmark, (hlit.append _).append rest⟩
  have hblank : ' ' ∈ delimiters := by decide
  cases d with
  | number v => exact hafter hblank rfl
  | string v => exact hafter hblank rfl
  | matrix vs => exact hafter hblank rfl
  | bool v => exact hafter hblank rfl
  | null => exact delimited_of_break hrest
  | list items => exact hafter hblank rfl
  | call target args => exact hafter hblank rfl
  | func params body => exact hafter (by decide : '(' ∈ delimiters) rfl
  | switch cases =>
      rw [payload, toList_cases]
      cases cases with
      | nil => exact delimited_of_break hrest
      | cons c cases =>
          rw [List.flatMap_cons, List.append_assoc]
          exact ⟨' ', hblank, starts_case c _⟩

/-- The identifiers of the definition are words, and its numbers are defined. -/
structure IsLegibleDef (d : Def) : Prop where
  obeys : d.Obeys legibleRules
  defined : forall x, x ∈ d.numbers -> x.isUndefined = false

structure AreLegible (t : Table) : Prop where
  obey : Def.AllObey legibleRules t
  defined : forall x, x ∈ t.numbers -> x.isUndefined = false

/-- The definition can be told from its text, which ends with the line. -/
def ToldDef (depth : Nat) (d : Def) : Prop :=
  Told IsLegibleDef (Starts '\n') (fun d => (definition depth d).toList) d

theorem told_of_payload
    {depth : Nat} {d : Def}
    (h : forall d' rest rest', kind d = kind d' -> IsLegibleDef d -> IsLegibleDef d' ->
      Starts '\n' rest -> Starts '\n' rest' ->
      (payload depth d).toList ++ rest = (payload depth d').toList ++ rest' ->
      d = d' ∧ rest = rest') :
    ToldDef depth d := by
  intro d' rest rest' hd hd' hrest hrest' heq
  dsimp only at heq
  rw [definition_eq, definition_eq, String.toList_append, String.toList_append, List.append_assoc,
    List.append_assoc] at heq
  rcases allTold_legible _ _ _ _ (isLegible_keyword _) (isLegible_keyword _)
    (delimited_payload depth d hrest) (delimited_payload depth d' hrest') heq with
    ⟨hkeyword, hpayload⟩
  exact h d' rest rest' (keyword_injective hkeyword) hd hd' hrest hrest' hpayload

section

variable {α : Type} {p : α -> Prop} {after : List Char -> Prop} {write : α -> String} {a : α}

theorem told_behind
    (h : Told p after (fun a => (write a).toList) a) (s : String) :
    Told p after (fun a => (s ++ write a).toList) a := by
  simp only [String.toList_append]
  exact h.afterward s.toList

theorem told_before
    {mark : Char} (h : Told p (Starts mark) (fun a => (write a).toList) a) (s : String)
    (hs : Starts mark s.toList) : Told p after (fun a => (write a ++ s).toList) a := by
  simp only [String.toList_append]
  exact h.before hs

end

section

variable (depth : Nat)

theorem told_number (v : Number) : ToldDef depth (.number v) := by
  apply told_of_payload
  intro d' rest rest' hkind h h' hrest hrest' heq
  cases d' with
  | number v' =>
      have hwords := allTold_word (fun _ hv => Number.isLegible_text hv)
        (fun _ _ hv hv' => Number.text_injective hv hv')
      rcases told_behind (hwords v) " " v' rest rest' (h.defined v List.mem_cons_self)
        (h'.defined v' List.mem_cons_self) (delimited_of_break hrest) (delimited_of_break hrest')
        heq with ⟨rfl, hbehind⟩
      exact ⟨rfl, hbehind⟩
  | _ => cases hkind

theorem told_string (v : String) : ToldDef depth (.string v) := by
  apply told_of_payload
  intro d' rest rest' hkind _ _ _ _ heq
  cases d' with
  | string v' =>
      rcases told_behind (Quoted.allTold_string v) " " v' rest rest' trivial trivial trivial trivial
        heq with ⟨rfl, hbehind⟩
      exact ⟨rfl, hbehind⟩
  | _ => cases hkind

theorem told_matrix (vs : List Cell) : ToldDef depth (.matrix vs) := by
  apply told_of_payload
  intro d' rest rest' hkind h h' hrest hrest' heq
  cases d' with
  | matrix vs' =>
      have hdefined : forall {cells : List Cell}, IsLegibleDef (.matrix cells) ->
          forall c, c ∈ cells -> IsDefined c :=
        fun hcells c hc x hx => hcells.defined x (List.mem_flatMap.mpr ⟨c, hc, hx⟩)
      have hcells := allTold_separated isLegible_cell cell_injective
        (show Starts ',' ", ".toList from rfl) (by decide) (by decide : ']' ∈ delimiters)
        (by decide)
      rcases told_behind (told_before (hcells vs) "]" rfl) " [" vs' rest rest' (hdefined h)
        (hdefined h') hrest hrest' heq with ⟨rfl, hbehind⟩
      exact ⟨rfl, hbehind⟩
  | _ => cases hkind

theorem told_bool (v : Bool) : ToldDef depth (.bool v) := by
  apply told_of_payload
  intro d' rest rest' hkind _ _ hrest hrest' heq
  cases d' with
  | bool v' =>
      have hwords := allTold_word (fun v (_ : True) => isLegible_bool v)
        (fun _ _ _ _ => bool_injective)
      rcases told_behind (hwords v) " " v' rest rest' trivial trivial (delimited_of_break hrest)
        (delimited_of_break hrest') heq with ⟨rfl, hbehind⟩
      exact ⟨rfl, hbehind⟩
  | _ => cases hkind

theorem told_null : ToldDef depth .null := by
  apply told_of_payload
  intro d' rest rest' hkind _ _ _ _ heq
  cases d' with
  | null => exact ⟨rfl, heq⟩
  | _ => cases hkind

theorem told_list (items : List String) : ToldDef depth (.list items) := by
  apply told_of_payload
  intro d' rest rest' hkind h h' hrest hrest' heq
  cases d' with
  | list items' =>
      have hitems := allTold_identifiers (show Starts ',' ", ".toList from rfl) (by decide)
        (by decide : ']' ∈ delimiters) (by decide)
      rcases told_behind (told_before (hitems items) "]" rfl) " [" items' rest rest' h.obeys
        h'.obeys hrest hrest' heq with ⟨rfl, hbehind⟩
      exact ⟨rfl, hbehind⟩
  | _ => cases hkind

theorem told_call (target : String) (args : List String) : ToldDef depth (.call target args) := by
  apply told_of_payload
  intro d' rest rest' hkind h h' hrest hrest' heq
  cases d' with
  | call target' args' =>
      have hwords := allTold_identifiers (show Starts ' ' " ".toList from rfl) (by decide)
        (by decide : '\n' ∈ delimiters) (by decide)
      rcases told_behind (hwords (target :: args)) " " (target' :: args') rest rest'
        (List.forall_mem_cons.mpr h.obeys) (List.forall_mem_cons.mpr h'.obeys) hrest hrest' heq
        with ⟨hcall, hbehind⟩
      cases hcall
      exact ⟨rfl, hbehind⟩
  | _ => cases hkind

theorem told_switch (cases : List Case) : ToldDef depth (.switch cases) := by
  apply told_of_payload
  intro d' rest rest' hkind h h' hrest hrest' heq
  cases d' with
  | switch cases' =>
      have hlegible : forall {cs : List Case}, IsLegibleDef (.switch cs) ->
          forall c, c ∈ cs -> IsLegibleCase c :=
        fun hcs c hc => ⟨(hcs.obeys c hc).1, (hcs.obeys c hc).2⟩
      have hcases := allTold_case.flatMap (fun _ => delimited_of_break)
        (fun c rest _ => ⟨' ', by decide, starts_case c rest⟩)
        fun c rest _ hstarts => absurd ((starts_case c rest).symm.trans hstarts) (by decide)
      rw [payload, payload, toList_cases, toList_cases] at heq
      rcases hcases cases cases' rest rest' (hlegible h) (hlegible h') hrest hrest' heq with
        ⟨rfl, hbehind⟩
      exact ⟨rfl, hbehind⟩
  | _ => cases hkind

end

/-!
## Entries
-/

theorem toList_margin (depth : Nat) : (margin depth).toList = List.replicate (4 * depth) ' ' := by
  induction depth with
  | zero => rfl
  | succ depth ih =>
      rw [margin, List.replicate_succ, String.join_cons, String.toList_append]
      change "    ".toList ++ (margin depth).toList = _
      rw [ih, Nat.mul_succ, Nat.add_comm, List.replicate_add]
      rfl

def Ends (depth : Nat) (rest : List Char) : Prop :=
  forall c cs, rest = (margin depth).toList ++ c :: cs -> c ∈ delimiters

theorem ends_nil (depth : Nat) : Ends depth [] := by
  intro c cs heq
  exact absurd heq.symm (List.append_ne_nil_of_right_ne_nil _ (List.cons_ne_nil c cs))

theorem ends_brace (depth : Nat) (rest : List Char) :
    Ends (depth + 1) ((margin depth).toList ++ ("\x7d".toList ++ rest)) := by
  intro c cs heq
  rw [toList_margin, toList_margin, Nat.mul_succ, List.replicate_add, List.append_assoc] at heq
  cases List.append_cancel_left heq

def ToldEntries (depth : Nat) (t : Table) : Prop :=
  Told AreLegible (Ends depth) (fun t => (entries depth t).toList) t

theorem toList_entry (depth : Nat) (id : String) (d : Def) (t : Table) (rest : List Char) :
    (entries depth ((id, d) :: t)).toList ++ rest =
      (margin depth).toList ++ (id.toList ++ (" = ".toList ++ ((definition depth d).toList ++
        ("\n".toList ++ ((entries depth t).toList ++ rest))))) := by
  rw [entries]
  simp only [String.toList_append, List.append_assoc]

theorem not_ends {id : String} (hid : IsLegible id) (depth : Nat) (rest : List Char) :
    ¬ Ends depth ((margin depth).toList ++ (id.toList ++ rest)) := by
  intro hends
  have hwhole := hid.whole
  cases hs : id.toList with
  | nil => exact hid.ne_nil hs
  | cons c cs =>
      rw [hs] at hends hwhole
      exact hwhole c List.mem_cons_self (hends c (cs ++ rest) rfl)

section

variable {depth : Nat} {id : String} {d : Def} {t : Table}

theorem AreLegible.key (h : AreLegible ((id, d) :: t)) : IsLegible id :=
  h.obey.1

theorem AreLegible.head (h : AreLegible ((id, d) :: t)) : IsLegibleDef d where
  obeys := h.obey.2.1
  defined x hx := h.defined x (List.mem_append_left _ hx)

theorem AreLegible.tail (h : AreLegible ((id, d) :: t)) : AreLegible t where
  obey := h.obey.2.2
  defined x hx := h.defined x (List.mem_append_right _ hx)

theorem told_nil (depth : Nat) : ToldEntries depth [] := by
  intro t' rest rest' _ h' hrest _ heq
  cases t' with
  | nil => exact ⟨rfl, heq⟩
  | cons entry t' =>
      have heq : rest = (entries depth (entry :: t')).toList ++ rest' := heq
      rw [toList_entry] at heq
      rw [heq] at hrest
      exact absurd hrest (not_ends h'.key depth _)

theorem told_cons (hd : ToldDef depth d) (ht : ToldEntries depth t) :
    ToldEntries depth ((id, d) :: t) := by
  intro t' rest rest' h h' hrest hrest' heq
  have hequals : forall later, Delimited (" = ".toList ++ later) :=
    fun later => ⟨' ', by decide, (show Starts ' ' " = ".toList from rfl).append later⟩
  have hbreak : forall later, Starts '\n' ("\n".toList ++ later) :=
    fun later => (show Starts '\n' "\n".toList from rfl).append later
  dsimp only at heq
  rw [toList_entry] at heq
  cases t' with
  | nil =>
      have heq : _ = rest' := heq
      rw [← heq] at hrest'
      exact absurd hrest' (not_ends h.key depth _)
  | cons entry' t' =>
      rw [toList_entry] at heq
      rcases allTold_legible _ _ _ _ h.key h'.key (hequals _) (hequals _)
        (List.append_cancel_left heq) with ⟨hid, hdefinition⟩
      rcases hd entry'.2 _ _ h.head h'.head (hbreak _) (hbreak _)
        (List.append_cancel_left hdefinition) with ⟨hsame, hlines⟩
      rcases ht t' rest rest' h.tail h'.tail hrest hrest' (List.append_cancel_left hlines) with
        ⟨rfl, hbehind⟩
      rw [hid, hsame]
      exact ⟨rfl, hbehind⟩

theorem told_func
    {params : List String} {body : Table} (hbody : ToldEntries (depth + 1) body) :
    ToldDef depth (.func params body) := by
  apply told_of_payload
  intro d' rest rest' hkind h h' _ _ heq
  cases d' with
  | func params' body' =>
      have htext : forall (ps : List String) (b : Table) (later : List Char),
          (payload depth (.func ps b)).toList ++ later =
            "(".toList ++ ((" ".intercalate ps).toList ++ (") \x7b\n".toList ++
              ((entries (depth + 1) b).toList ++ ((margin depth).toList ++
                ("\x7d".toList ++ later))))) := by
        intro ps b later
        rw [payload]
        simp only [String.toList_append, List.append_assoc]
      have hclose : forall later, Starts ')' (") \x7b\n".toList ++ later) :=
        fun later => (show Starts ')' ") \x7b\n".toList from rfl).append later
      have hlegible : forall {ps : List String} {b : Table}, IsLegibleDef (.func ps b) ->
          AreLegible b :=
        fun hfunc => ⟨hfunc.obeys.2, hfunc.defined⟩
      have hparams := allTold_identifiers (show Starts ' ' " ".toList from rfl) (by decide)
        (by decide : ')' ∈ delimiters) (by decide)
      rw [htext, htext] at heq
      rcases hparams params params' _ _ h.obeys.1 h'.obeys.1 (hclose _) (hclose _)
        (List.append_cancel_left heq) with ⟨rfl, hopened⟩
      rcases hbody body' _ _ (hlegible h) (hlegible h') (ends_brace depth rest)
        (ends_brace depth rest') (List.append_cancel_left hopened) with ⟨rfl, hbrace⟩
      exact ⟨rfl, List.append_cancel_left (List.append_cancel_left hbrace)⟩
  | _ => cases hkind

end

mutual

theorem told_definition : (d : Def) -> forall depth, ToldDef depth d
  | .number v, depth => told_number depth v
  | .string v, depth => told_string depth v
  | .matrix vs, depth => told_matrix depth vs
  | .bool v, depth => told_bool depth v
  | .null, depth => told_null depth
  | .list items, depth => told_list depth items
  | .call target args, depth => told_call depth target args
  | .func _ body, depth => told_func (told_entries body (depth + 1))
  | .switch cases, depth => told_switch depth cases

theorem told_entries : (t : List (String × Def)) -> forall depth, ToldEntries depth t
  | [], depth => told_nil depth
  | (_, d) :: rest, depth => told_cons (told_definition d depth) (told_entries rest depth)

end

theorem eq_of_listing
    {t t' : Table} (h : AreLegible t) (h' : AreLegible t') (heq : t.listing = t'.listing) :
    t = t' := by
  have htexts : (entries 0 t).toList ++ [] = (entries 0 t').toList ++ [] :=
    congrArg (fun s => s.toList ++ []) heq
  exact (told_entries t 0 t' [] [] h h' (ends_nil 0) (ends_nil 0) htexts).1

/-!
## Compiled tables
-/

theorem areLegible_of_compile
    {path : String} {source : Text} {extra : List String} {t : Table}
    (h : (compile none path source extra).table = some t) : AreLegible t := by
  rcases Compilation.outcomes_of_compile h with ⟨ds, houtcomes, hlower⟩
  have hparse := (Source.parseSource_of_outcomes path houtcomes).2
  exact ⟨Lowering.legible_of_lower hparse hlower, Lowering.isUndefined_of_lower hparse hlower⟩

end Listing

/-- **Listings are faithful.**  Two compiled tables with the same listing are equal, whatever their
sources and whatever names are known besides the builtins. -/
theorem table_eq_of_listing_eq
    {path path' : String} {source source' : Text} {extra extra' : List String} {t t' : Table}
    (h : (compile none path source extra).table = some t)
    (h' : (compile none path' source' extra').table = some t')
    (hlisting : t.listing = t'.listing) : t = t' :=
  Listing.eq_of_listing (Listing.areLegible_of_compile h) (Listing.areLegible_of_compile h')
    hlisting

theorem table_eq_of_listing_eq_layouts :
    (compile none "a" "f x = if x == @n then [1, 2] else [x, \"=\"];" []).table =
      (compile none "b" "f x=if x==@n then[1,2.0]else[x,\"=\"] ; # two" ["g"]).table := by
  have hlistings :
      (compile none "a" "f x = if x == @n then [1, 2] else [x, \"=\"];" []).table.map
          Table.listing =
        (compile none "b" "f x=if x==@n then[1,2.0]else[x,\"=\"] ; # two" ["g"]).table.map
          Table.listing := by
    decide +kernel
  cases htable : (compile none "a" "f x = if x == @n then [1, 2] else [x, \"=\"];" []).table with
  | none => exact absurd htable (by decide +kernel)
  | some t =>
      cases htable' :
          (compile none "b" "f x=if x==@n then[1,2.0]else[x,\"=\"] ; # two" ["g"]).table with
      | none => exact absurd htable' (by decide +kernel)
      | some t' =>
          rw [htable, htable'] at hlistings
          have hlisting : t.listing = t'.listing := Option.some.inj hlistings
          rw [table_eq_of_listing_eq htable htable' hlisting]

end DefTable
