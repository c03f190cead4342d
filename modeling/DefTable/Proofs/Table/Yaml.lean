import DefTable.Proofs.Data.Yaml.Refused
import DefTable.Proofs.Lowering.Identifiers
import DefTable.Proofs.Lowering.Numbers
import DefTable.Proofs.Outcome

/-!
# Tables come back from YAML, apart from zeros and line breaks

A table that is written as YAML is read back entry by entry.  Two things are lost on the way:
negative zero is spelled like an integer, which has no sign at zero, and a text that starts with a
line break and is written as a literal block comes back without that break.  Everything else is the
same, bit for bit and character for character.  A table with a literal block that starts with a tab
is written, too, but its text is refused.
-/

namespace DefTable

open Yaml (IsKey)

/-!
## What comes back
-/

namespace Cell

def reread : Cell -> Cell
  | .number v => .number v.unsignZero
  | .bool b => .bool b

end Cell

namespace Def

mutual

def texts : Def -> List String
  | .string s => [s]
  | .func _ body => textsOfAll body
  | _ => []

def textsOfAll : List (String × Def) -> List String
  | [] => []
  | (_, d) :: rest => texts d ++ textsOfAll rest

end

mutual

/-- A definition as it comes back from YAML. -/
def reread : Def -> Def
  | .number v => .number v.unsignZero
  | .string s => .string (Yaml.keptText s)
  | .matrix cells => .matrix (cells.map Cell.reread)
  | .func params body => .func params (rereadAll body)
  | d => d

def rereadAll : List (String × Def) -> List (String × Def)
  | [] => []
  | (id, d) :: rest => (id, reread d) :: rereadAll rest

end

theorem rereadAll_eq_map (t : Table) : rereadAll t = t.map fun e => (e.1, e.2.reread) := by
  induction t with
  | nil => rfl
  | cons entry rest ih => rw [rereadAll, ih, List.map_cons]

end Def

namespace Table

def texts (t : Table) : List String :=
  Def.textsOfAll t

/-- A table as it comes back from YAML. -/
def reread (t : Table) : Table :=
  Def.rereadAll t

end Table

/-!
## Tables that come back unchanged
-/

theorem Number.unsignZero_eq_iff (x : Number) : x.unsignZero = x <-> x ≠ -zero := by
  by_cases hzero : x.magnitude = 0
  · have hx := Number.ofMagnitude_magnitude x
    rw [hzero] at hx
    rw [unsignZero, if_pos hzero, ← hx]
    cases x.isNegative <;> decide +kernel
  · rw [unsignZero, if_neg hzero]
    refine iff_of_true rfl ?_
    rintro rfl
    exact hzero (by decide +kernel)

/-- A text that loses the line break it starts with. -/
def Yaml.LosesBreak (s : String) : Prop :=
  style s = .literal ∧ s.toList.head?.any isBreak = true

theorem Yaml.keptText_eq_iff (s : String) : keptText s = s <-> ¬ LosesBreak s := by
  by_cases hstyle : style s = .literal
  · have hkept : keptText s = s <-> kept s.toList = s.toList := by
      rw [keptText, if_pos hstyle, ← String.toList_inj, String.toList_ofList]
    rw [hkept, LosesBreak, kept]
    cases hbreak : s.toList.head?.any isBreak with
    | false => simp
    | true =>
        rw [if_pos rfl]
        refine iff_of_false (fun htail => ?_) fun hkeeps => hkeeps ⟨hstyle, rfl⟩
        cases hs : s.toList with
        | nil =>
            rw [hs] at hbreak
            cases hbreak
        | cons c cs =>
            rw [hs] at htail
            exact List.cons_ne_self c cs htail.symm
  · exact iff_of_true (keptText_of_not_literal hstyle) fun hloses => hstyle hloses.1

theorem Cell.reread_eq_iff (c : Cell) : c.reread = c <-> forall x, x ∈ c.numbers -> x ≠ -.zero := by
  cases c with
  | number v =>
      rw [reread, numbers, List.forall_mem_singleton, Cell.number.injEq, Number.unsignZero_eq_iff]
  | bool b => exact iff_of_true rfl fun _ hx => absurd hx List.not_mem_nil

theorem Cell.map_reread_eq_iff (cells : List Cell) :
    cells.map reread = cells <-> forall x, x ∈ cells.flatMap numbers -> x ≠ -.zero := by
  induction cells with
  | nil => simp
  | cons c cells ih =>
      rw [List.map_cons, List.cons.injEq, ih, reread_eq_iff, List.flatMap_cons,
        List.forall_mem_append]

namespace Def

mutual

theorem reread_eq_iff : forall d : Def,
    d.reread = d <->
      (forall x, x ∈ d.numbers -> x ≠ -.zero) ∧ forall s, s ∈ d.texts -> ¬ Yaml.LosesBreak s
  | .number v => by simp [reread, numbers, texts, Number.unsignZero_eq_iff]
  | .string s => by simp [reread, numbers, texts, Yaml.keptText_eq_iff]
  | .matrix cells => by
      rw [reread, Def.matrix.injEq, Cell.map_reread_eq_iff, numbers]
      simp [texts]
  | .func params body => by
      rw [reread, Def.func.injEq, rereadAll_eq_iff body, numbers, texts]
      exact and_iff_right rfl
  | .bool _ => by simp [reread, numbers, texts]
  | .null => by simp [reread, numbers, texts]
  | .list _ => by simp [reread, numbers, texts]
  | .call _ _ => by simp [reread, numbers, texts]
  | .switch _ => by simp [reread, numbers, texts]

theorem rereadAll_eq_iff : forall t : Table,
    rereadAll t = t <->
      (forall x, x ∈ numbersOfAll t -> x ≠ -.zero) ∧
        forall s, s ∈ textsOfAll t -> ¬ Yaml.LosesBreak s
  | [] => by simp [rereadAll, numbersOfAll, textsOfAll]
  | (id, d) :: rest => by
      rw [rereadAll, List.cons.injEq, Prod.mk.injEq, and_iff_right rfl, reread_eq_iff d,
        rereadAll_eq_iff rest, numbersOfAll, textsOfAll, List.forall_mem_append,
        List.forall_mem_append, and_and_and_comm]

end

end Def

/-- Only negative zeros and line breaks at the start of literal blocks are lost. -/
theorem Table.reread_eq_self_iff (t : Table) :
    t.reread = t <->
      (forall x, x ∈ t.numbers -> x ≠ -.zero) ∧ forall s, s ∈ t.texts -> ¬ Yaml.LosesBreak s :=
  Def.rereadAll_eq_iff t

/-!
## Tables that can be written
-/

namespace Def

/-- A definition whose numbers are defined and whose identifiers stand on one line. -/
structure Recoverable (n : Nat) (d : Def) : Prop where
  regular : d.Regular n
  oneLine : d.OneLine
  numbers : forall x, x ∈ d.numbers -> x.isUndefined = false

end Def

structure Table.Recoverable (n : Nat) (t : Table) : Prop where
  ascending : Ascending t
  entries : forall entry, entry ∈ t -> IsKey entry.1 ∧ entry.2.Recoverable n

theorem Def.Recoverable.body
    {n : Nat} {params : List String} {body : Table}
    (h : (Def.func params body).Recoverable (n + 1)) : Table.Recoverable n body where
  ascending := h.regular.1
  entries := by
    intro entry hentry
    have hnames := Def.areOneLine_iff.mp h.oneLine.2 entry hentry
    exact ⟨hnames.1, Def.areRegular_iff.mp h.regular.2 entry hentry, hnames.2,
      Def.forall_mem_numbersOfAll.mp h.numbers entry hentry⟩

namespace Wire

open Yaml (Storable)

section

variable {lines : Bool} {n : Nat}

theorem storable_oneLine {s : String} (h : Yaml.OneLine s) : Storable lines n (.string s) :=
  .string fun _ => h

theorem storable_strings {ss : List String} (h : forall s, s ∈ ss -> Yaml.OneLine s) :
    Storable lines (n + 1) (strings ss) := by
  refine .list fun d hd => ?_
  rcases List.mem_map.mp hd with ⟨s, hs, rfl⟩
  exact storable_oneLine (h s hs)

theorem storable_single {a : String} {x : Data} (ha : IsKey a) (hx : Storable lines n x) :
    Storable lines (n + 1) (.map [(a, x)]) :=
  .map (ascending_single _) (List.forall_mem_singleton.mpr ha) (List.forall_mem_singleton.mpr hx)

theorem storable_pair {a b : String} {x y : Data} (hab : a < b) (ha : IsKey a) (hb : IsKey b)
    (hx : Storable lines n x) (hy : Storable lines n y) :
    Storable lines (n + 1) (.map [(a, x), (b, y)]) :=
  .map (ascending_pair hab) (List.forall_mem_cons.mpr ⟨ha, List.forall_mem_singleton.mpr hb⟩)
    (List.forall_mem_cons.mpr ⟨hx, List.forall_mem_singleton.mpr hy⟩)

theorem storable_triple
    {a b c : String} {x y z : Data} (hab : a < b) (hbc : b < c) (ha : IsKey a) (hb : IsKey b)
    (hc : IsKey c) (hx : Storable lines n x) (hy : Storable lines n y) (hz : Storable lines n z) :
    Storable lines (n + 1) (.map [(a, x), (b, y), (c, z)]) :=
  .map (ascending_triple hab hbc)
    (List.forall_mem_cons.mpr
      ⟨ha, List.forall_mem_cons.mpr ⟨hb, List.forall_mem_singleton.mpr hc⟩⟩)
    (List.forall_mem_cons.mpr
      ⟨hx, List.forall_mem_cons.mpr ⟨hy, List.forall_mem_singleton.mpr hz⟩⟩)

theorem storable_cells
    {cells : List Cell} (h : forall x, x ∈ cells.flatMap Cell.numbers -> x.isUndefined = false) :
    Storable lines (n + 1) (.list (cells.map cell)) := by
  refine .list fun d hd => ?_
  rcases List.mem_map.mp hd with ⟨c, hc, rfl⟩
  cases c with
  | number v => exact .number (h v (List.mem_flatMap.mpr ⟨_, hc, List.mem_singleton_self v⟩))
  | bool b => exact .bool b

theorem storable_cases
    {cases : List Case} (h : (Def.switch cases).OneLine) :
    Storable lines (n + 2) (.list (cases.map case)) := by
  refine .list fun d hd => ?_
  rcases List.mem_map.mp hd with ⟨c, hc, rfl⟩
  rcases h c hc with ⟨hguard, hvalue⟩
  refine storable_pair (by decide) (by decide) (by decide) ?_ (storable_oneLine hvalue)
  cases hg : c.guard with
  | none => exact .null
  | some g => exact storable_oneLine (hguard g hg)

end

theorem storable_ofEntries_of
    {n : Nat} {t : Table} (hascending : Ascending t) (hkeys : forall e, e ∈ t -> IsKey e.1)
    (h : forall e, e ∈ t -> Storable true n (ofDef e.2)) :
    Storable true (n + 1) (.map (ofEntries t)) := by
  rw [ofEntries_eq_map]
  refine .map (List.pairwise_map.mpr hascending) ?_ ?_
  all_goals
    intro e he
    rcases List.mem_map.mp he with ⟨a, ha, rfl⟩
  · exact hkeys a ha
  · exact h a ha

theorem storable_ofDef :
    forall {n : Nat} {d : Def}, d.Recoverable n -> Storable true (2 * n + 3) (ofDef d)
  | _, .number v, h =>
      storable_pair (by decide) (by decide) (by decide) (storable_oneLine (by decide))
        (.number (h.numbers v (List.mem_singleton_self v)))
  | _, .string s, _ =>
      storable_pair (by decide) (by decide) (by decide) (storable_oneLine (by decide))
        (.string nofun)
  | _, .matrix cells, h =>
      storable_pair (by decide) (by decide) (by decide) (storable_oneLine (by decide))
        (storable_cells h.numbers)
  | _, .bool b, _ =>
      storable_pair (by decide) (by decide) (by decide) (storable_oneLine (by decide)) (.bool b)
  | _, .null, _ => storable_single (by decide) (storable_oneLine (by decide))
  | _, .list items, h =>
      storable_pair (by decide) (by decide) (by decide) (storable_oneLine (by decide))
        (storable_strings h.oneLine)
  | _, .call target args, h =>
      storable_triple (by decide) (by decide) (by decide) (by decide) (by decide)
        (storable_strings h.oneLine.2) (storable_oneLine h.oneLine.1) (storable_oneLine (by decide))
  | _, .switch cases, h =>
      storable_pair (by decide) (by decide) (by decide) (storable_cases h.oneLine)
        (storable_oneLine (by decide))
  | n + 1, .func params body, h =>
      storable_triple (by decide) (by decide) (by decide) (by decide) (by decide)
        (storable_ofEntries_of h.body.ascending (fun e he => (h.body.entries e he).1)
          fun e he => storable_ofDef (h.body.entries e he).2)
        (storable_strings h.oneLine.1) (storable_oneLine (by decide))
  | 0, .func params body, h => h.regular.elim
termination_by n => n
decreasing_by omega

theorem storable_ofEntries {n : Nat} {t : Table} (h : t.Recoverable n) :
    Storable true (2 * n + 4) (.map (ofEntries t)) :=
  storable_ofEntries_of h.ascending (fun e he => (h.entries e he).1)
    fun e he => storable_ofDef (h.entries e he).2

/-!
## Texts that start with a tab
-/

theorem oneLine_tag :
    forall tag, tag ∈ ["n", "s", "m", "b", "u", "l", "c", "f", "w"] -> Yaml.OneLine tag := by
  decide

theorem not_tabbed_tag {tag : String} (h : tag ∈ ["n", "s", "m", "b", "u", "l", "c", "f", "w"]) :
    ¬ Yaml.Tabbed (.string tag) :=
  Yaml.not_tabbed_of_oneLine (oneLine_tag tag h)

theorem not_tabbed_strings {ss : List String} (h : forall s, s ∈ ss -> Yaml.OneLine s) :
    ¬ Yaml.Tabbed (strings ss) :=
  Yaml.not_tabbed_of_lines (n := 1) (storable_strings h)

theorem not_tabbed_cells (cells : List Cell) : ¬ Yaml.Tabbed (.list (cells.map cell)) := by
  rw [Yaml.tabbed_list_iff]
  rintro ⟨d, hd, htab⟩
  rcases List.mem_map.mp hd with ⟨c, _, rfl⟩
  cases c <;> cases htab

theorem not_tabbed_cases {cases : List Case} (h : (Def.switch cases).OneLine) :
    ¬ Yaml.Tabbed (.list (cases.map case)) :=
  Yaml.not_tabbed_of_lines (n := 2) (storable_cases h)

mutual

theorem tabbed_ofDef_iff : forall {d : Def}, d.OneLine ->
    (Yaml.Tabbed (ofDef d) <-> exists s, s ∈ d.texts ∧ Yaml.TabLed s)
  | .number v, _ => by
      have hvalue : ¬ Yaml.Tabbed (.number v) := nofun
      simp [ofDef, Def.texts, Yaml.tabbed_map_iff, not_tabbed_tag, hvalue]
  | .string s, _ => by
      simp [ofDef, Def.texts, Yaml.tabbed_map_iff, not_tabbed_tag, Yaml.tabbed_string_iff]
  | .matrix cells, _ => by
      simp [ofDef, Def.texts, Yaml.tabbed_map_iff, not_tabbed_tag, not_tabbed_cells]
  | .bool b, _ => by
      have hvalue : ¬ Yaml.Tabbed (.bool b) := nofun
      simp [ofDef, Def.texts, Yaml.tabbed_map_iff, not_tabbed_tag, hvalue]
  | .null, _ => by
      simp [ofDef, Def.texts, Yaml.tabbed_map_iff, not_tabbed_tag]
  | .list items, h => by
      simp [ofDef, Def.texts, Yaml.tabbed_map_iff, not_tabbed_tag, not_tabbed_strings h]
  | .call target args, h => by
      simp [ofDef, Def.texts, Yaml.tabbed_map_iff, not_tabbed_tag, not_tabbed_strings h.2,
        Yaml.not_tabbed_of_oneLine h.1]
  | .switch cases, h => by
      simp [ofDef, Def.texts, Yaml.tabbed_map_iff, not_tabbed_tag, not_tabbed_cases h]
  | .func params body, h => by
      have hbody := tabbed_ofEntries_iff h.2
      simp [ofDef, Def.texts, Yaml.tabbed_map_iff, not_tabbed_tag, not_tabbed_strings h.1, hbody]

theorem tabbed_ofEntries_iff : forall {t : Table}, Def.AreOneLine t ->
    (Yaml.Tabbed (.map (ofEntries t)) <-> exists s, s ∈ Def.textsOfAll t ∧ Yaml.TabLed s)
  | [], _ => by simp [ofEntries, Def.textsOfAll, Yaml.tabbed_map_iff]
  | (id, d) :: rest, h => by
      have hfirst := tabbed_ofDef_iff h.2.1
      have hrest := tabbed_ofEntries_iff h.2.2
      rw [Yaml.tabbed_map_iff] at hrest ⊢
      simp only [ofEntries, Def.textsOfAll, List.mem_cons, List.mem_append, or_and_right, exists_or,
        exists_eq_left, hfirst, hrest]

end

/-!
## Reading
-/

theorem reread_oneLine {s : String} (h : Yaml.OneLine s) : Yaml.reread (.string s) = .string s := by
  rw [Yaml.reread, Yaml.keptText_of_oneLine h]

theorem reread_strings {ss : List String} (h : forall s, s ∈ ss -> Yaml.OneLine s) :
    Yaml.reread (strings ss) = strings ss := by
  rw [strings, Yaml.reread, Yaml.rereadItems_eq_map, List.map_map]
  exact congrArg Data.list (List.map_congr_left fun s hs => reread_oneLine (h s hs))

theorem reread_map (es : List (String × Data)) :
    Yaml.reread (.map es) = .map (Yaml.rereadEntries es) := by
  rw [Yaml.reread]

theorem reread_case
    {c : Case} (hguard : forall g, c.guard = some g -> Yaml.OneLine g)
    (hvalue : Yaml.OneLine c.value) :
    Yaml.reread (case c) = case c := by
  rcases c with ⟨guard, value⟩
  have hguarded : Yaml.reread ((guard.map Data.string).getD .null) =
      (guard.map Data.string).getD .null := by
    cases guard with
    | none => simp [Yaml.reread]
    | some g => exact reread_oneLine (hguard g rfl)
  rw [case, reread_map, Yaml.rereadEntries, Yaml.rereadEntries, Yaml.rereadEntries, hguarded,
    reread_oneLine hvalue]

theorem reread_cases {cases : List Case} (h : (Def.switch cases).OneLine) :
    Yaml.rereadItems (cases.map case) = cases.map case := by
  rw [Yaml.rereadItems_eq_map, List.map_map]
  exact List.map_congr_left fun c hc => reread_case (h c hc).1 (h c hc).2

theorem cellsFrom_of_number?
    (index : Nat) {d : Data} {x : Number} (h : d.number? = some x) (rest : List Data) :
    cellsFrom index (d :: rest) = (cellsFrom (index + 1) rest).map (.number x :: ·) := by
  cases d <;> cases h <;> rfl

theorem cellsFrom_reread
    (index : Nat) {cells : List Cell}
    (h : forall x, x ∈ cells.flatMap Cell.numbers -> x.isUndefined = false) :
    cellsFrom index (Yaml.rereadItems (cells.map cell)) = .ok (cells.map Cell.reread) := by
  induction cells generalizing index with
  | nil => rfl
  | cons c cells ih =>
      rw [List.flatMap_cons, List.forall_mem_append] at h
      rw [List.map_cons, Yaml.rereadItems]
      cases c with
      | number v =>
          have hread := Yaml.number?_resolve_write (h.1 v (List.mem_singleton_self v))
          rw [cell, Yaml.reread, cellsFrom_of_number? index hread, ih (index + 1) h.2]
          rfl
      | bool b =>
          show (cellsFrom (index + 1) (Yaml.rereadItems (cells.map cell))).map (.bool b :: ·) = _
          rw [ih (index + 1) h.2]
          rfl

theorem flatDef_number
    {es : List (String × Data)} {x : Number} (h : (field es "v").number? = some x) :
    flatDef "n" es = .ok (.number x) := by
  unfold flatDef
  simp only [h]

theorem reread_tag :
    forall tag, tag ∈ ["n", "s", "m", "b", "u", "l", "c", "f", "w"] ->
      Yaml.reread (.string tag) = .string tag :=
  fun tag htag => reread_oneLine (oneLine_tag tag htag)

theorem toTable_reread_of
    {t : Table} (hascending : Ascending t)
    (h : forall e, e ∈ t -> toDef (Yaml.reread (ofDef e.2)) = .ok e.2.reread) :
    toTable (Yaml.rereadEntries (ofEntries t)) = .ok t.reread := by
  induction t with
  | nil => rw [ofEntries, Yaml.rereadEntries, toTable, Table.reread, Def.rereadAll]
  | cons e t ih =>
      rw [List.forall_mem_cons] at h
      rcases List.pairwise_cons.mp hascending with ⟨hfirst, hrest⟩
      have hbefore : forall entry, entry ∈ Table.reread t -> e.1 < entry.1 := by
        intro entry hentry
        rw [Table.reread, Def.rereadAll_eq_map] at hentry
        rcases List.mem_map.mp hentry with ⟨a, ha, rfl⟩
        exact hfirst a ha
      rw [ofEntries, Yaml.rereadEntries, toTable, h.1, ih hrest h.2]
      show Except.ok (Table.insert e.1 e.2.reread (Table.reread t)) = _
      rw [Table.insert_eq_place, place_front hbefore]
      rfl

theorem toDef_reread :
    forall {n : Nat} {d : Def}, d.Recoverable n -> toDef (Yaml.reread (ofDef d)) = .ok d.reread
  | _, .number v, h => by
      have hread := Yaml.number?_resolve_write (h.numbers v (List.mem_singleton_self v))
      simp only [ofDef, reread_map, Yaml.rereadEntries, reread_tag "n" (by decide)]
      rw [toDef_flat rfl (by decide), Yaml.reread]
      exact flatDef_number hread
  | _, .string s, _ => by
      simp only [ofDef, reread_map, Yaml.rereadEntries, reread_tag "s" (by decide)]
      rw [toDef_flat rfl (by decide), Yaml.reread, Def.reread]
      rfl
  | _, .matrix cells, h => by
      simp only [ofDef, reread_map, Yaml.rereadEntries, reread_tag "m" (by decide)]
      rw [toDef_flat rfl (by decide), Yaml.reread, Def.reread]
      show (cellsFrom 0 (Yaml.rereadItems (cells.map cell))).map Def.matrix = _
      rw [cellsFrom_reread 0 h.numbers]
      rfl
  | _, .bool b, _ => by
      simp only [ofDef, reread_map, Yaml.rereadEntries, reread_tag "b" (by decide)]
      rw [toDef_flat rfl (by decide)]
      rfl
  | _, .null, _ => by
      simp only [ofDef, reread_map, Yaml.rereadEntries, reread_tag "u" (by decide)]
      rw [toDef_flat rfl (by decide)]
      rfl
  | _, .list items, h => by
      simp only [ofDef, reread_map, Yaml.rereadEntries, reread_tag "l" (by decide),
        reread_strings h.oneLine]
      rw [toDef_flat rfl (by decide)]
      show (identifiers "list" (strings items)).map Def.list = _
      rw [identifiers_strings]
      rfl
  | _, .call target args, h => by
      simp only [ofDef, reread_map, Yaml.rereadEntries, reread_tag "c" (by decide),
        reread_strings h.oneLine.2, reread_oneLine h.oneLine.1]
      rw [toDef_flat rfl (by decide)]
      show (identifiers "call" (strings args)).map (Def.call target) = _
      rw [identifiers_strings]
      rfl
  | _, .switch cases, h => by
      have hguards : forall c, c ∈ cases -> c.guard ≠ some "" := by
        have hregular := h.regular
        rwa [Def.Regular] at hregular
      simp only [ofDef, reread_map, Yaml.rereadEntries, reread_tag "w" (by decide)]
      rw [toDef_flat rfl (by decide), Yaml.reread, reread_cases h.oneLine]
      show (casesFrom 0 (cases.map case)).map Def.switch = _
      rw [casesFrom_cases 0 hguards]
      rfl
  | n + 1, .func params body, h => by
      have hbody : toTable (Yaml.rereadEntries (ofEntries body)) = .ok (Table.reread body) :=
        toTable_reread_of h.body.ascending fun e he => toDef_reread (h.body.entries e he).2
      simp only [ofDef, reread_map, Yaml.rereadEntries, reread_tag "f" (by decide),
        reread_strings h.oneLine.1]
      rw [toDef_func _ rfl, hbody]
      rfl
  | 0, .func params body, h => h.regular.elim
termination_by n => n
decreasing_by omega

theorem toTable_reread {n : Nat} {t : Table} (h : t.Recoverable n) :
    toTable (Yaml.rereadEntries (ofEntries t)) = .ok t.reread :=
  toTable_reread_of h.ascending fun e he => toDef_reread (h.entries e he).2

end Wire

namespace Table

theorem Recoverable.tabbed_iff {n : Nat} {t : Table} (h : t.Recoverable n) :
    Yaml.Tabbed (.map (Wire.ofEntries t)) <-> exists s, s ∈ t.texts ∧ Yaml.TabLed s :=
  Wire.tabbed_ofEntries_iff (Def.areOneLine_iff.mpr fun entry hentry =>
    ⟨(h.entries entry hentry).1, (h.entries entry hentry).2.oneLine⟩)

theorem Recoverable.not_tabbed
    {n : Nat} {t : Table} (h : t.Recoverable n) (htabs : forall s, s ∈ t.texts -> ¬ Yaml.TabLed s) :
    ¬ Yaml.Tabbed (.map (Wire.ofEntries t)) := by
  rw [h.tabbed_iff]
  rintro ⟨s, hs, hled⟩
  exact htabs s hs hled

theorem decode_yaml (bytes : List UInt8) :
    Format.decode Format.yaml.name bytes =
      ((Yaml.read bytes).mapError Format.DecodeError.ofYaml).bind fun es =>
        (Table.ofEntries es).mapError .table := by
  rw [Format.decode, show Format.ofName Format.yaml.name = .ok .yaml from rfl]
  dsimp only [Format.entries]
  cases (Yaml.read bytes).mapError Format.DecodeError.ofYaml <;> rfl

theorem decode_emit_yaml_of_recoverable
    {n : Nat} {t : Table} (h : t.Recoverable n) (htabs : forall s, s ∈ t.texts -> ¬ Yaml.TabLed s)
    (hn : 2 * n + 4 ≤ Yaml.Scanner.maxNesting) :
    exists out, Format.yaml.emit t = .ok out ∧
      Format.decode Format.yaml.name out = .ok t.reread := by
  refine ⟨Text.bytes (Yaml.write t.toData), rfl, ?_⟩
  have hread : Yaml.read (Text.bytes (Yaml.write t.toData)) =
      .ok (Yaml.rereadEntries (Wire.ofEntries t)) :=
    Yaml.read_write (Wire.storable_ofEntries h) (h.not_tabbed htabs) hn
  rw [decode_yaml, hread]
  show (Table.ofEntries (Yaml.rereadEntries (Wire.ofEntries t))).mapError _ = _
  rw [Table.ofEntries, Wire.toTable_reread h]
  rfl

theorem decode_emit_yaml_of_tabLed
    {n : Nat} {t : Table} (h : t.Recoverable n) {s : String} (hs : s ∈ t.texts)
    (hled : Yaml.TabLed s) (hn : 2 * n + 4 ≤ Yaml.Scanner.maxNesting) :
    exists out, Format.yaml.emit t = .ok out ∧
      Format.decode Format.yaml.name out = .error .unreadable := by
  refine ⟨Text.bytes (Yaml.write t.toData), rfl, ?_⟩
  have hread : Yaml.read (Text.bytes (Yaml.write t.toData)) = .error .unreadable :=
    Yaml.read_write_of_tabbed (Wire.storable_ofEntries h) (h.tabbed_iff.mpr ⟨s, hs, hled⟩) hn
  rw [decode_yaml, hread]
  rfl

end Table

/-!
## Compiled tables
-/

theorem Compiles.recoverable
    {source : List UInt8} {names : List String} {t : Table} (h : Compiles source names t) :
    t.Recoverable Wire.nestingLimit where
  ascending := h.regular.ascending
  entries := by
    intro entry hentry
    have hnames := Def.areOneLine_iff.mp
      (@Lowering.oneLine_of_lower "" (Text.decode source) names _ t rfl h.lowered) entry hentry
    have hnumbers : forall x, x ∈ t.numbers -> x.isUndefined = false :=
      @Lowering.isUndefined_of_lower "" (Text.decode source) names _ t rfl h.lowered
    exact ⟨hnames.1, Def.areRegular_iff.mp h.regular.entries entry hentry, hnames.2,
      Def.forall_mem_numbersOfAll.mp hnumbers entry hentry⟩

/-- Literal blocks that start with a tab are all that keeps a compiled table from being decoded. -/
theorem Compiles.exists_decode_yaml_iff
    {source : List UInt8} {names : List String} {t : Table} (h : Compiles source names t) :
    exists out, Format.yaml.emit t = .ok out ∧
      ((exists t', Format.decode Format.yaml.name out = .ok t') <->
        forall s, s ∈ t.texts -> Yaml.style s = .literal -> s.toList.head? ≠ some '\t') := by
  by_cases htabs : forall s, s ∈ t.texts -> ¬ Yaml.TabLed s
  · rcases t.decode_emit_yaml_of_recoverable h.recoverable htabs (by decide) with
      ⟨out, hemit, hdecode⟩
    refine ⟨out, hemit, fun _ s hs hstyle hhead => htabs s hs ⟨hstyle, hhead⟩, fun _ => ?_⟩
    exact ⟨t.reread, hdecode⟩
  · push Not at htabs
    rcases htabs with ⟨s, hs, hled⟩
    rcases t.decode_emit_yaml_of_tabLed h.recoverable hs hled (by decide) with
      ⟨out, hemit, hdecode⟩
    refine ⟨out, hemit, ?_, fun hnone => absurd hled.2 (hnone s hs hled.1)⟩
    rintro ⟨t', ht'⟩
    cases hdecode.symm.trans ht'

example :
    (Format.decode Format.yaml.name (Text.bytes (Text.ofString
      "s:\n    t: s\n    v: |-\n        \ta\n        b\n"))).toOption.isNone = true := by
  decide +kernel

/-- The table of a source, whatever names are known besides the builtins, is written as YAML and
decoded again, if no literal block in it starts with a tab.  It is the same table, bit for bit and
character for character, exactly if no number in it is negative zero and no literal block starts
with a line break. -/
theorem Compiles.decode_emit_yaml
    {source : List UInt8} {names : List String} {t : Table} (h : Compiles source names t)
    (htabs : forall s, s ∈ t.texts -> Yaml.style s = .literal -> s.toList.head? ≠ some '\t') :
    exists out, Format.yaml.emit t = .ok out ∧
      Format.decode Format.yaml.name out = .ok t.reread ∧
      (t.reread = t <->
        (forall x, x ∈ t.numbers -> x ≠ -.zero) ∧
          forall s, s ∈ t.texts -> Yaml.style s = .literal ->
            s.toList.head?.any Yaml.isBreak = false) := by
  have hunled : forall s, s ∈ t.texts -> ¬ Yaml.TabLed s :=
    fun s hs hled => htabs s hs hled.1 hled.2
  rcases t.decode_emit_yaml_of_recoverable h.recoverable hunled (by decide) with
    ⟨out, hemit, hdecode⟩
  refine ⟨out, hemit, hdecode, t.reread_eq_self_iff.trans (and_congr_right fun _ => ?_)⟩
  simp only [Yaml.LosesBreak, not_and, Bool.not_eq_true]

def blockSource : List UInt8 :=
  Text.bytes (Text.ofString
    "s = \"a\\n b\"; n = [-1, 1e999]; f x = if x then k x else s;")

def blockTable : Table :=
  [("f", .func ["x"] [
      ("=", .switch [⟨some "_0", "_1"⟩, ⟨none, "_2"⟩]),
      ("_0", .call "x" []),
      ("_1", .call "k" ["x"]),
      ("_2", .call "s" [])]),
    ("n", .matrix [.number (-.ofInt 1), .number (.infinity false)]),
    ("s", .string "a\n b")]

theorem Compiles.decode_emit_yaml_block :
    Compiles blockSource ["k"] blockTable ∧
      (forall s, s ∈ blockTable.texts -> Yaml.style s = .literal -> s.toList.head? ≠ some '\t') ∧
      exists out, Format.yaml.emit blockTable = .ok out ∧
        Format.decode Format.yaml.name out = .ok blockTable := by
  have hcompiles : Compiles blockSource ["k"] blockTable := ⟨by decide +kernel, by decide +kernel⟩
  have htabs : forall s, s ∈ blockTable.texts -> Yaml.style s = .literal ->
      s.toList.head? ≠ some '\t' := by
    decide +kernel
  rcases hcompiles.decode_emit_yaml htabs with ⟨out, hemit, hdecode, hsame⟩
  have hreread : blockTable.reread = blockTable :=
    hsame.mpr ⟨by decide +kernel, by decide +kernel⟩
  rw [hreread] at hdecode
  exact ⟨hcompiles, htabs, out, hemit, hdecode⟩

/-!
## What is lost
-/

def negativeZeroSource : List UInt8 :=
  Text.bytes (Text.ofString "x = -0;")

/-- The sign of a negative zero does not come back. -/
theorem Compiles.decode_emit_yaml_negativeZero :
    Compiles negativeZeroSource [] [("x", .number (-.zero))] ∧
      exists out, Format.yaml.emit [("x", .number (-.zero))] = .ok out ∧
        Format.decode Format.yaml.name out = .ok [("x", .number .zero)] ∧
        [("x", Def.number .zero)] ≠ [("x", Def.number (-.zero))] := by
  have hcompiles : Compiles negativeZeroSource [] [("x", .number (-.zero))] :=
    ⟨by decide +kernel, by decide +kernel⟩
  rcases Table.decode_emit_yaml_of_recoverable hcompiles.recoverable nofun (by decide) with
    ⟨out, hemit, hdecode⟩
  have hreread : Table.reread [("x", .number (-.zero))] = [("x", .number .zero)] := by
    decide +kernel
  rw [hreread] at hdecode
  exact ⟨hcompiles, out, hemit, hdecode, by decide +kernel⟩

end DefTable
