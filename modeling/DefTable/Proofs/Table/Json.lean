import DefTable.Format
import DefTable.Proofs.Table.Wire

/-!
# Tables in JSON

JSON has no form for numbers that are not finite, and it has one for everything else in a table.
-/

namespace DefTable

/-!
## Results that are there
-/

section

variable {ε α β γ : Type}

theorem isOk_map (x : Except ε α) (f : α -> β) : (do return f (← x)).isOk = x.isOk := by
  cases x <;> rfl

theorem isOk_map₂ (x : Except ε α) (y : Except ε β) (f : α -> β -> γ) :
    (do return f (← x) (← y)).isOk = (x.isOk && y.isOk) := by
  cases x <;> cases y <;> rfl

end

namespace Json

theorem isOk_writeNumber (x : Number) : (writeNumber x).isOk = x.isFinite := by
  unfold writeNumber
  cases x.isFinite <;> rfl

theorem isOk_writeString (s : String) : (write (.string s)).isOk = true := by
  rw [write]
  rfl

theorem isOk_writeBool (b : Bool) : (write (.bool b)).isOk = true := by
  rw [write]
  rfl

theorem isOk_writeItems (ds : List Data) :
    (writeItems ds).isOk = ds.all fun d => (write d).isOk := by
  induction ds with
  | nil => rw [writeItems]; rfl
  | cons d ds ih => rw [writeItems, isOk_map₂, ih, List.all_cons]

theorem isOk_writeEntries (es : List (String × Data)) :
    (writeEntries es).isOk = es.all fun e => (write e.2).isOk := by
  induction es with
  | nil => rw [writeEntries]; rfl
  | cons e es ih =>
      rcases e with ⟨k, d⟩
      rw [writeEntries, isOk_map₂, ih, List.all_cons]

theorem isOk_writeList (ds : List Data) :
    (write (.list ds)).isOk = ds.all fun d => (write d).isOk := by
  rw [write, isOk_map, isOk_writeItems]

theorem isOk_writeMap (es : List (String × Data)) :
    (write (.map es)).isOk = es.all fun e => (write e.2).isOk := by
  rw [write, isOk_map, isOk_writeEntries]

theorem isOk_writeStrings (ss : List String) : (write (Wire.strings ss)).isOk = true := by
  rw [Wire.strings, isOk_writeList, List.all_map, List.all_eq_true]
  intro s _
  exact isOk_writeString s

theorem isOk_writeCells (cells : List Cell) :
    (write (.list (cells.map Wire.cell))).isOk = cells.all Cell.isFinite := by
  rw [isOk_writeList, List.all_map]
  congr 1
  funext c
  cases c with
  | number v => exact isOk_writeNumber v
  | bool v => rfl

theorem isOk_writeCases (cases : List Case) :
    (write (.list (cases.map Wire.case))).isOk = true := by
  rw [isOk_writeList, List.all_map, List.all_eq_true]
  rintro ⟨guard, value⟩ _
  simp only [Function.comp_apply, Wire.case, isOk_writeMap, List.all_cons, List.all_nil,
    isOk_writeString, Bool.and_true]
  cases guard with
  | none => rfl
  | some id => exact isOk_writeString id

mutual

theorem isOk_write_ofDef : forall d : Def, (write (Wire.ofDef d)).isOk = d.isFinite
  | .number v => by
      simp only [Wire.ofDef, isOk_writeMap, List.all_cons, List.all_nil, isOk_writeString,
        Bool.true_and, Bool.and_true]
      exact isOk_writeNumber v
  | .string v => by
      simp only [Wire.ofDef, isOk_writeMap, List.all_cons, List.all_nil, isOk_writeString]
      rfl
  | .matrix cells => by
      simp only [Wire.ofDef, isOk_writeMap, List.all_cons, List.all_nil, isOk_writeString,
        isOk_writeCells, Bool.true_and, Bool.and_true]
      rfl
  | .bool v => by
      simp only [Wire.ofDef, isOk_writeMap, List.all_cons, List.all_nil, isOk_writeString,
        isOk_writeBool]
      rfl
  | .null => by
      simp only [Wire.ofDef, isOk_writeMap, List.all_cons, List.all_nil, isOk_writeString]
      rfl
  | .list items => by
      simp only [Wire.ofDef, isOk_writeMap, List.all_cons, List.all_nil, isOk_writeString,
        isOk_writeStrings]
      rfl
  | .call target args => by
      simp only [Wire.ofDef, isOk_writeMap, List.all_cons, List.all_nil, isOk_writeString,
        isOk_writeStrings]
      rfl
  | .switch cases => by
      simp only [Wire.ofDef, isOk_writeMap, List.all_cons, List.all_nil, isOk_writeString,
        isOk_writeCases]
      rfl
  | .func params body => by
      simp only [Wire.ofDef, isOk_writeMap, List.all_cons, List.all_nil, isOk_writeString,
        isOk_writeStrings, all_isOk_write_ofEntries body, Bool.and_true]
      rfl

theorem all_isOk_write_ofEntries :
    forall t : Table, ((Wire.ofEntries t).all fun e => (write e.2).isOk) = t.isFinite
  | [] => rfl
  | (id, d) :: rest => by
      rw [Wire.ofEntries, List.all_cons, isOk_write_ofDef d, all_isOk_write_ofEntries rest]
      rfl

end

end Json

theorem Format.emit_isOk_of_finite
    (f : Format) {t : Table} (h : t.isFinite = true) : (f.emit t).isOk = true := by
  cases f with
  | json =>
      have hwrite : (Json.write t.toData).isOk = true := by
        rw [Table.toData, Json.isOk_writeMap, Json.all_isOk_write_ofEntries, h]
      rw [emit]
      cases hresult : Json.write t.toData with
      | error u =>
          rw [hresult] at hwrite
          cases hwrite
      | ok s => rfl
  | yaml => rfl
  | proto => rfl
  | text => rfl

end DefTable
