import DefTable.Format
import DefTable.Proofs.Data.Faithful

/-!
# Tables as messages and back

A table whose numbers are finite is the same after it was written as plain data, spelled out, and
read again.  A table with any other number is refused on reading, because that number comes back as
a text.
-/

namespace DefTable

/-!
## Tables that can be read back
-/

namespace Cell

def isFinite : Cell -> Bool
  | .number v => v.isFinite
  | .bool _ => true

end Cell

namespace Def

mutual

/-- All numbers in a definition, also inside functions, are finite. -/
def isFinite : Def -> Bool
  | .number v => v.isFinite
  | .matrix cells => cells.all Cell.isFinite
  | .func _ body => areFinite body
  | _ => true

def areFinite : List (String × Def) -> Bool
  | [] => true
  | (_, d) :: rest => isFinite d && areFinite rest

end

mutual

/-- Functions nest at most as deep as the number says, their tables are in order, and no case is
guarded by an empty identifier, which would make it the default. -/
def Regular : Nat -> Def -> Prop
  | 0, .func _ _ => False
  | n + 1, .func _ body => Ascending body ∧ AreRegular n body
  | _, .switch cases => forall c, c ∈ cases -> c.guard ≠ some ""
  | _, .number _ => True
  | _, .string _ => True
  | _, .matrix _ => True
  | _, .bool _ => True
  | _, .null => True
  | _, .list _ => True
  | _, .call _ _ => True

def AreRegular : Nat -> List (String × Def) -> Prop
  | _, [] => True
  | n, (_, d) :: rest => Regular n d ∧ AreRegular n rest

end

theorem areRegular_iff {n : Nat} {t : Table} :
    AreRegular n t <-> forall entry, entry ∈ t -> Regular n entry.2 := by
  induction t with
  | nil => simp [AreRegular]
  | cons entry rest ih =>
      rcases entry with ⟨id, d⟩
      simp only [AreRegular, ih, List.forall_mem_cons]

end Def

namespace Table

def isFinite (t : Table) : Bool :=
  Def.areFinite t

structure Regular (n : Nat) (t : Table) : Prop where
  ascending : Ascending t
  entries : Def.AreRegular n t

end Table

namespace Wire

open Struct (spelled spelledItems spelledEntries)

/-!
## Parts of a definition
-/

theorem spelled_string (s : String) : spelled (.string s) = .string s := rfl

theorem spelled_bool (b : Bool) : spelled (.bool b) = .bool b := rfl

theorem spelled_list (ds : List Data) : spelled (.list ds) = .list (spelledItems ds) := rfl

theorem spelled_map (es : List (String × Data)) :
    spelled (.map es) = .map (spelledEntries es) := rfl

theorem spelledItems_cons (d : Data) (ds : List Data) :
    spelledItems (d :: ds) = spelled d :: spelledItems ds := rfl

theorem spelledItems_strings (ss : List String) :
    spelledItems (ss.map Data.string) = ss.map Data.string := by
  induction ss with
  | nil => rfl
  | cons s ss ih => rw [List.map_cons, spelledItems_cons, ih, spelled_string]

theorem identifiersFrom_strings (kind : String) (index : Nat) (ss : List String) :
    identifiersFrom kind index (ss.map Data.string) = .ok ss := by
  induction ss generalizing index with
  | nil => rfl
  | cons s ss ih =>
      rw [List.map_cons, identifiersFrom, ih]
      rfl

theorem identifiers_strings (kind : String) (ss : List String) :
    identifiers kind (strings ss) = .ok ss :=
  identifiersFrom_strings kind 0 ss

theorem spelled_strings (ss : List String) : spelled (strings ss) = strings ss := by
  rw [strings, spelled_list, spelledItems_strings]

theorem spelled_number {x : Number} (h : x.isFinite = true) :
    spelled (.number x) = .number x :=
  if_pos h

theorem spelled_number_of_not_finite {x : Number} (h : x.isFinite = false) :
    exists s, spelled (.number x) = .string s := by
  rw [spelled, h, if_neg Bool.false_ne_true]
  split
  · exact ⟨_, rfl⟩
  · split
    · exact ⟨_, rfl⟩
    · exact ⟨_, rfl⟩

theorem cellsFrom_number (index : Nat) (v : Number) (rest : List Data) :
    cellsFrom index (.number v :: rest) = (cellsFrom (index + 1) rest).map (.number v :: ·) := rfl

theorem cellsFrom_spelled
    (index : Nat) {cells : List Cell} (h : cells.all Cell.isFinite = true) :
    cellsFrom index (spelledItems (cells.map cell)) = .ok cells := by
  induction cells generalizing index with
  | nil => rfl
  | cons c cells ih =>
      rw [List.all_cons, Bool.and_eq_true] at h
      rw [List.map_cons, spelledItems_cons]
      cases c with
      | number v =>
          rw [cell, spelled_number h.1, cellsFrom_number, ih (index + 1) h.2]
          rfl
      | bool b =>
          rw [cell, spelled_bool, cellsFrom, ih (index + 1) h.2]
          rfl

theorem cellsFrom_spelled_of_not_finite
    (index : Nat) {cells : List Cell} (h : cells.all Cell.isFinite = false) :
    exists fault, cellsFrom index (spelledItems (cells.map cell)) = .error fault := by
  induction cells generalizing index with
  | nil => cases h
  | cons c cells ih =>
      rw [List.map_cons, spelledItems_cons]
      rw [List.all_cons, Bool.and_eq_false_iff] at h
      cases c with
      | number v =>
          cases hv : v.isFinite with
          | false =>
              rcases spelled_number_of_not_finite hv with ⟨s, hs⟩
              exact ⟨.badElement index (.string s), by rw [cell, hs]; rfl⟩
          | true =>
              rcases ih (index + 1) (h.resolve_left (by simp [Cell.isFinite, hv])) with
                ⟨fault, hfault⟩
              exact ⟨fault, by rw [cell, spelled_number hv, cellsFrom_number, hfault]; rfl⟩
      | bool b =>
          rcases ih (index + 1) (h.resolve_left (by simp [Cell.isFinite])) with ⟨fault, hfault⟩
          exact ⟨fault, by rw [cell, spelled_bool, cellsFrom, hfault]; rfl⟩

theorem spelledItems_cases (cases : List Case) :
    spelledItems (cases.map case) = cases.map case := by
  induction cases with
  | nil => rfl
  | cons c cases ih =>
      have hcase : spelled (case c) = case c := by
        rcases c with ⟨guard, value⟩
        cases guard <;> rfl
      rw [List.map_cons, spelledItems_cons, hcase, ih]

theorem casesFrom_cases
    (index : Nat) {cases : List Case} (h : forall c, c ∈ cases -> c.guard ≠ some "") :
    casesFrom index (cases.map case) = .ok cases := by
  induction cases generalizing index with
  | nil => rfl
  | cons c cases ih =>
      rw [List.forall_mem_cons] at h
      rcases c with ⟨guard, value⟩
      have hguard : guard? ((guard.map Data.string).getD .null) = guard := by
        cases guard with
        | none => rfl
        | some id =>
            have hid : id ≠ "" := fun heq => h.1 (congrArg some heq)
            simp [guard?, Data.string?, hid]
      rw [List.map_cons, casesFrom, case, Data.entries?]
      dsimp only
      have hvalue : field [("c", (guard.map Data.string).getD .null), ("v", .string value)] "v" =
          .string value := rfl
      have hfield : field [("c", (guard.map Data.string).getD .null), ("v", .string value)] "c" =
          (guard.map Data.string).getD .null := rfl
      rw [hvalue, hfield, hguard, ih (index + 1) h.2]
      rfl

/-!
## Definitions and tables
-/

theorem toDef_flat
    {es : List (String × Data)} {tag : String}
    (htag : field es "t" = .string tag) (hflat : tag ≠ "f") :
    toDef (.map es) = flatDef tag es := by
  have hname : (field es "t").string?.getD "" = tag := by rw [htag]; rfl
  rw [toDef, ofFields, hname]
  exact if_neg hflat

theorem toDef_func
    {es : List (String × Data)} {params : List String} (body : List (String × Data))
    (hes : es = [("b", .map body), ("p", strings params), ("t", .string "f")]) :
    toDef (.map es) =
      ((toTable body).mapError .inBody).map fun table => .func params table := by
  subst hes
  rw [toDef, ofFields]
  have htag : (field [("b", Data.map body), ("p", strings params), ("t", .string "f")]
      "t").string?.getD "" = "f" := rfl
  have hfield : field [("b", Data.map body), ("p", strings params), ("t", .string "f")] "p" =
      strings params := rfl
  rw [htag, if_pos rfl, hfield, identifiers_strings, bodyOf, if_pos rfl, bodyTable]
  cases toTable body <;> rfl

theorem spelled_func (params : List String) (body : Table) :
    spelled (ofDef (.func params body)) =
      .map [("b", .map (spelledEntries (ofEntries body))), ("p", strings params),
        ("t", .string "f")] := by
  simp only [ofDef, spelled, spelledEntries, strings, spelledItems_strings]

mutual

theorem toDef_spelled {n : Nat} :
    forall {d : Def}, d.Regular n -> d.isFinite = true -> toDef (spelled (ofDef d)) = .ok d
  | .number v, _, hfinite => by
      simp only [ofDef, spelled_map, spelledEntries, spelled_string, spelled_number hfinite]
      rw [toDef_flat rfl (by decide)]
      rfl
  | .string v, _, _ => by
      simp only [ofDef, spelled_map, spelledEntries, spelled_string]
      rw [toDef_flat rfl (by decide)]
      rfl
  | .matrix cells, _, hfinite => by
      simp only [ofDef, spelled_map, spelledEntries, spelled_string, spelled_list]
      rw [toDef_flat rfl (by decide)]
      show (cellsFrom 0 (spelledItems (cells.map cell))).map Def.matrix = _
      rw [cellsFrom_spelled 0 hfinite]
      rfl
  | .bool v, _, _ => by
      simp only [ofDef, spelled_map, spelledEntries, spelled_string, spelled_bool]
      rw [toDef_flat rfl (by decide)]
      rfl
  | .null, _, _ => by
      simp only [ofDef, spelled_map, spelledEntries, spelled_string]
      rw [toDef_flat rfl (by decide)]
      rfl
  | .list items, _, _ => by
      simp only [ofDef, spelled_map, spelledEntries, spelled_string]
      rw [toDef_flat rfl (by decide)]
      show (identifiers "list" (spelled (strings items))).map Def.list = _
      rw [spelled_strings, identifiers_strings]
      rfl
  | .call target args, _, _ => by
      simp only [ofDef, spelled_map, spelledEntries, spelled_string]
      rw [toDef_flat rfl (by decide)]
      show (identifiers "call" (spelled (strings args))).map (Def.call target) = _
      rw [spelled_strings, identifiers_strings]
      rfl
  | .switch cases, hregular, _ => by
      simp only [ofDef, spelled_map, spelledEntries, spelled_string, spelled_list]
      rw [toDef_flat rfl (by decide)]
      show (casesFrom 0 (spelledItems (cases.map case))).map Def.switch = _
      have hguards : forall c, c ∈ cases -> c.guard ≠ some "" := by
        rwa [Def.Regular] at hregular
      rw [spelledItems_cases, casesFrom_cases 0 hguards]
      rfl
  | .func params body, hregular, hfinite => by
      cases n with
      | zero => exact hregular.elim
      | succ n =>
          rw [spelled_func, toDef_func _ rfl, toTable_spelled hregular.2 hregular.1 hfinite]
          rfl

theorem toTable_spelled {n : Nat} :
    forall {t : Table}, Def.AreRegular n t -> Ascending t -> t.isFinite = true ->
      toTable (spelledEntries (ofEntries t)) = .ok t
  | [], _, _, _ => by
      rw [ofEntries, spelledEntries, toTable]
  | (id, d) :: rest, hregular, hascending, hfinite => by
      rcases List.pairwise_cons.mp hascending with ⟨hfirst, hrest⟩
      have hparts : d.isFinite = true ∧ Def.areFinite rest = true := by
        rwa [Table.isFinite, Def.areFinite, Bool.and_eq_true] at hfinite
      have hdef : toDef (spelled (ofDef d)) = .ok d := toDef_spelled hregular.1 hparts.1
      have htable := toTable_spelled hregular.2 hrest hparts.2
      rw [ofEntries, spelledEntries, toTable, hdef, htable]
      show Except.ok (Table.insert id d rest) = _
      rw [Table.insert_eq_place, place_front hfirst]

end

mutual

theorem toDef_spelled_of_not_finite :
    forall {d : Def}, d.isFinite = false -> exists fault, toDef (spelled (ofDef d)) = .error fault
  | .number v, h => by
      rcases spelled_number_of_not_finite h with ⟨s, hs⟩
      refine ⟨.badValue "number" (.string s), ?_⟩
      simp only [ofDef, spelled_map, spelledEntries, spelled_string, hs]
      rw [toDef_flat rfl (by decide)]
      rfl
  | .matrix cells, h => by
      rcases cellsFrom_spelled_of_not_finite 0 h with ⟨fault, hfault⟩
      refine ⟨fault, ?_⟩
      simp only [ofDef, spelled_map, spelledEntries, spelled_string, spelled_list]
      rw [toDef_flat rfl (by decide)]
      show (cellsFrom 0 (spelledItems (cells.map cell))).map Def.matrix = _
      rw [hfault]
      rfl
  | .func params body, h => by
      rcases toTable_spelled_of_not_finite (t := body) h with ⟨fault, hfault⟩
      refine ⟨.inBody fault, ?_⟩
      rw [spelled_func, toDef_func _ rfl, hfault]
      rfl

theorem toTable_spelled_of_not_finite :
    forall {t : Table}, t.isFinite = false ->
      exists fault, toTable (spelledEntries (ofEntries t)) = .error fault
  | (id, d) :: rest, h => by
      rw [ofEntries, spelledEntries, toTable]
      cases hdef : toDef (spelled (ofDef d)) with
      | error fault => exact ⟨.inEntry id fault, rfl⟩
      | ok d' =>
          have hd : d.isFinite = true := by
            cases hd : d.isFinite with
            | true => rfl
            | false =>
                rcases toDef_spelled_of_not_finite hd with ⟨fault, hfault⟩
                rw [hdef] at hfault
                cases hfault
          have hrest : Table.isFinite rest = false := by
            rwa [Table.isFinite, Def.areFinite, hd, Bool.true_and] at h
          rcases toTable_spelled_of_not_finite hrest with ⟨fault, hfault⟩
          exact ⟨fault, by rw [hfault]; rfl⟩

end

/-!
## Messages

A function takes two levels of nesting, its own map and that of its table, and a switch takes three.
-/

open Struct (Readable AllReadable EntriesReadable)

theorem allReadable_strings (n : Nat) (ss : List String) :
    AllReadable n (ss.map Data.string) := by
  induction ss with
  | nil => trivial
  | cons s ss ih => exact ⟨by cases n <;> trivial, ih⟩

theorem allReadable_cells (n : Nat) (cells : List Cell) : AllReadable n (cells.map cell) := by
  induction cells with
  | nil => trivial
  | cons c cells ih => exact ⟨by cases c <;> cases n <;> trivial, ih⟩

theorem allReadable_cases (n : Nat) (cases : List Case) :
    AllReadable (n + 1) (cases.map case) := by
  induction cases with
  | nil => trivial
  | cons c cases ih =>
      refine ⟨⟨?_, ?_⟩, ih⟩
      · exact ascending_pair (by decide)
      · rcases c with ⟨guard, value⟩
        cases guard <;> cases n <;> exact ⟨trivial, trivial, trivial⟩

theorem ofEntries_eq_map (t : Table) : ofEntries t = t.map fun e => (e.1, ofDef e.2) := by
  induction t with
  | nil => rfl
  | cons entry rest ih => rw [ofEntries, ih, List.map_cons]

theorem ascending_ofEntries {t : Table} (h : Ascending t) : Ascending (ofEntries t) := by
  rw [ofEntries_eq_map]
  exact List.pairwise_map.mpr h

mutual

theorem readable_ofDef : forall {n : Nat} {d : Def}, d.Regular n -> Readable (2 * n + 3) (ofDef d)
  | _, .number _, _ => ⟨ascending_pair (by decide), trivial, trivial, trivial⟩
  | _, .string _, _ => ⟨ascending_pair (by decide), trivial, trivial, trivial⟩
  | _, .matrix cells, _ =>
      ⟨ascending_pair (by decide), trivial, allReadable_cells _ cells, trivial⟩
  | _, .bool _, _ => ⟨ascending_pair (by decide), trivial, trivial, trivial⟩
  | _, .null, _ => ⟨ascending_single _, trivial, trivial⟩
  | _, .list items, _ =>
      ⟨ascending_pair (by decide), trivial, allReadable_strings _ items, trivial⟩
  | _, .call _ args, _ =>
      ⟨ascending_triple (by decide) (by decide), allReadable_strings _ args, trivial, trivial, trivial⟩
  | _, .switch cases, _ =>
      ⟨ascending_pair (by decide), allReadable_cases _ cases, trivial, trivial⟩
  | n + 1, .func params body, h =>
      ⟨ascending_triple (by decide) (by decide),
        ⟨ascending_ofEntries h.1, entriesReadable_ofEntries h.2⟩,
        allReadable_strings _ params, trivial, trivial⟩

theorem entriesReadable_ofEntries :
    forall {n : Nat} {t : Table}, Def.AreRegular n t -> EntriesReadable (2 * n + 3) (ofEntries t)
  | _, [], _ => trivial
  | _, (_, _) :: _, h => ⟨readable_ofDef h.1, entriesReadable_ofEntries h.2⟩

end

def nestingLimit : Nat := Struct.maxDepth / 4 - 2

end Wire

namespace Table

def message (t : Table) : List UInt8 :=
  Struct.write (Wire.ofEntries t)

theorem read_message
    {t : Table} (h : t.Regular Wire.nestingLimit) (hlength : t.message.length < Struct.lengthLimit) :
    Struct.read t.message = some (Struct.spelledEntries (Wire.ofEntries t)) :=
  Struct.read_write (Wire.ascending_ofEntries h.ascending)
    (Wire.entriesReadable_ofEntries h.entries) hlength

theorem decode_message_eq (t : Table) :
    Format.decode Format.proto.name t.message =
      match Struct.read t.message with
      | none => .error .unreadable
      | some es => (Wire.toTable es).mapError .table := by
  rw [Format.decode, show Format.ofName Format.proto.name = .ok .proto from rfl]
  dsimp only
  rw [Format.entries]
  cases Struct.read t.message with
  | none => rfl
  | some es => rfl

theorem decode_message
    {t : Table} (h : t.Regular Wire.nestingLimit) (hlength : t.message.length < Struct.lengthLimit) :
    Format.decode Format.proto.name t.message =
      (Wire.toTable (Struct.spelledEntries (Wire.ofEntries t))).mapError .table := by
  rw [decode_message_eq, read_message h hlength]

theorem decode_message_of_finite
    {t : Table} (h : t.Regular Wire.nestingLimit) (hlength : t.message.length < Struct.lengthLimit)
    (hfinite : t.isFinite = true) :
    Format.decode Format.proto.name t.message = .ok t := by
  rw [decode_message h hlength, Wire.toTable_spelled h.entries h.ascending hfinite]
  rfl

theorem decode_message_of_not_finite
    {t : Table} (h : t.Regular Wire.nestingLimit) (hlength : t.message.length < Struct.lengthLimit)
    (hfinite : t.isFinite = false) :
    exists fault, Format.decode Format.proto.name t.message = .error fault := by
  rcases Wire.toTable_spelled_of_not_finite hfinite with ⟨fault, hfault⟩
  exact ⟨.table fault, by rw [decode_message h hlength, hfault]; rfl⟩

theorem eq_of_decode_message
    {t t' : Table} (h : t.Regular Wire.nestingLimit)
    (hdecode : Format.decode Format.proto.name t.message = .ok t') : t' = t := by
  have honly : Struct.Only (Struct.read t.message) (Struct.spelledEntries (Wire.ofEntries t)) :=
    Struct.only_read_write (Wire.ascending_ofEntries h.ascending)
      (Wire.entriesReadable_ofEntries h.entries)
  rw [decode_message_eq] at hdecode
  cases hread : Struct.read t.message with
  | none =>
      rw [hread] at hdecode
      cases hdecode
  | some es =>
      rw [hread, honly es hread] at hdecode
      dsimp only at hdecode
      cases hfinite : t.isFinite with
      | true =>
          rw [Wire.toTable_spelled h.entries h.ascending hfinite] at hdecode
          exact (Except.ok.inj hdecode).symm
      | false =>
          rcases Wire.toTable_spelled_of_not_finite hfinite with ⟨fault, hfault⟩
          rw [hfault] at hdecode
          cases hdecode

end Table
end DefTable
