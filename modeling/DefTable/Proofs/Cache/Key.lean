import DefTable.Cache.Basic
import DefTable.Proofs.Text.Hex
import DefTable.Proofs.Text.Utf8
import Mathlib.Data.List.Sort

/-!
# Keys of compilations

The bytes that identify a compilation can be taken apart again: a name ends at its zero byte, and
where a name would have to be empty the source begins.  So two compilations have the same bytes
exactly if their sources are equal and their lists hold the same names.
-/

namespace DefTable
namespace Cache

/-!
## Sets of names
-/

theorem mem_insertName {name x : String} {names : List String} :
    x ∈ insertName name names <-> x = name ∨ x ∈ names := by
  induction names with
  | nil => simp [insertName]
  | cons other rest ih =>
      rw [insertName]
      split
      · exact List.mem_cons
      · split
        · rename_i heq
          simp [heq]
        · rw [List.mem_cons, ih, List.mem_cons]
          constructor
          · rintro (hother | hname | hrest)
            · exact Or.inr (Or.inl hother)
            · exact Or.inl hname
            · exact Or.inr (Or.inr hrest)
          · rintro (hname | hother | hrest)
            · exact Or.inr (Or.inl hname)
            · exact Or.inl hother
            · exact Or.inr (Or.inr hrest)

theorem mem_nameSet {x : String} {names : List String} : x ∈ nameSet names <-> x ∈ names := by
  unfold nameSet
  induction names with
  | nil => exact Iff.rfl
  | cons name names ih => rw [List.foldr_cons, mem_insertName, ih, List.mem_cons]

theorem pairwise_insertName
    (name : String) {names : List String} (h : names.Pairwise (· < ·)) :
    (insertName name names).Pairwise (· < ·) := by
  induction names with
  | nil => exact List.pairwise_singleton _ _
  | cons other rest ih =>
      rcases List.pairwise_cons.mp h with ⟨hother, hrest⟩
      rw [insertName]
      split
      · rename_i hlt
        refine List.pairwise_cons.mpr ⟨?_, h⟩
        intro x hx
        rcases List.mem_cons.mp hx with rfl | hlater
        · exact hlt
        · exact String.lt_trans hlt (hother x hlater)
      · split
        · exact h
        · rename_i hnotlt hne
          refine List.pairwise_cons.mpr ⟨?_, ih hrest⟩
          intro x hx
          rcases mem_insertName.mp hx with rfl | hlater
          · rcases Std.lt_trichotomy x other with hlt | heq | hgt
            · exact absurd hlt hnotlt
            · exact absurd heq hne
            · exact hgt
          · exact hother x hlater

theorem pairwise_nameSet (names : List String) : (nameSet names).Pairwise (· < ·) := by
  unfold nameSet
  induction names with
  | nil => exact List.Pairwise.nil
  | cons name names ih => exact pairwise_insertName name ih

theorem nameSet_eq_iff {names names' : List String} :
    nameSet names = nameSet names' <-> forall name, name ∈ names <-> name ∈ names' := by
  constructor
  · intro heq name
    rw [← mem_nameSet, heq, mem_nameSet]
  · intro h
    apply List.Pairwise.eq_of_mem_iff (pairwise_nameSet names) (pairwise_nameSet names')
    intro name
    rw [mem_nameSet, mem_nameSet, h]

/-!
## Bytes of a key
-/

def IsDelimited (name : String) : Prop :=
  name ≠ "" ∧ '\x00' ∉ name.toList

theorem zero_not_mem_encode {c : Char} (h : c ≠ '\x00') : 0 ∉ String.utf8EncodeChar c := by
  have hval : c.val.toNat ≠ 0 := by
    intro heq
    apply h
    apply Char.ext
    exact UInt32.toNat_inj.mp heq
  unfold String.utf8EncodeChar
  have hvalid : c.val.toNat < 0x110000 := by
    rcases c.valid with hlow | hhigh
    · exact Nat.lt_trans hlow (by decide)
    · exact hhigh.2
  generalize c.val.toNat = v at hval hvalid
  have hbyte : forall n, 0 < n -> n < 256 -> 0 ≠ UInt8.ofNat n := by
    intro n hpos hlt heq
    have hnat := congrArg UInt8.toNat heq
    rw [Text.toNat_byte hlt] at hnat
    exact absurd hnat (Nat.ne_of_lt hpos)
  dsimp only
  split
  · simp only [List.mem_singleton]
    exact hbyte _ (by omega) (by omega)
  · split
    · simp only [List.mem_cons, List.not_mem_nil, or_false, not_or]
      exact ⟨hbyte _ (by omega) (by omega), hbyte _ (by omega) (by omega)⟩
    · split
      · simp only [List.mem_cons, List.not_mem_nil, or_false, not_or]
        exact ⟨hbyte _ (by omega) (by omega), hbyte _ (by omega) (by omega),
          hbyte _ (by omega) (by omega)⟩
      · simp only [List.mem_cons, List.not_mem_nil, or_false, not_or]
        exact ⟨hbyte _ (by omega) (by omega), hbyte _ (by omega) (by omega),
          hbyte _ (by omega) (by omega), hbyte _ (by omega) (by omega)⟩

theorem zero_not_mem_bytes {name : String} (h : IsDelimited name) :
    0 ∉ Text.bytes (Text.ofString name) := by
  intro hzero
  rcases List.mem_flatMap.mp hzero with ⟨g, hg, hbyte⟩
  rcases List.mem_map.mp hg with ⟨c, hc, rfl⟩
  apply zero_not_mem_encode _ hbyte
  intro heq
  exact h.2 (heq ▸ hc)

theorem bytes_injective {name name' : String}
    (h : Text.bytes (Text.ofString name) = Text.bytes (Text.ofString name')) : name = name' := by
  have hread := congrArg Text.string? h
  rw [Text.string?_bytes_ofString, Text.string?_bytes_ofString] at hread
  exact Option.some.inj hread

theorem bytes_ne_nil {name : String} (h : IsDelimited name) :
    Text.bytes (Text.ofString name) ≠ [] := by
  intro hnil
  apply h.1
  apply bytes_injective
  exact hnil

theorem split_at_zero
    {front front' back back' : List UInt8} (hfront : 0 ∉ front) (hfront' : 0 ∉ front')
    (h : front ++ 0 :: back = front' ++ 0 :: back') : front = front' ∧ back = back' := by
  induction front generalizing front' with
  | nil =>
      cases front' with
      | nil => exact ⟨rfl, (List.cons.inj h).2⟩
      | cons b front' =>
          exact absurd (List.mem_cons.mpr (.inl (List.cons.inj h).1)) hfront'
  | cons a front ih =>
      cases front' with
      | nil => exact absurd (List.mem_cons.mpr (.inl (List.cons.inj h).1.symm)) hfront
      | cons b front' =>
          rw [List.mem_cons, not_or] at hfront hfront'
          rcases List.cons.inj h with ⟨hhead, htail⟩
          rcases ih hfront.2 hfront'.2 htail with ⟨hrest, hback⟩
          exact ⟨by rw [hhead, hrest], hback⟩

def nameBytes (names : List String) : List UInt8 :=
  names.flatMap fun (n : String) => Text.bytes n ++ [0]

theorem nameBytes_cons (name : String) (names : List String) (rest : List UInt8) :
    nameBytes (name :: names) ++ rest =
      Text.bytes (Text.ofString name) ++ 0 :: (nameBytes names ++ rest) := by
  simp [nameBytes]

theorem nameBytes_ne_nil
    {name : String} {names : List String} {source source' : List UInt8} (h : IsDelimited name) :
    nameBytes [] ++ 0 :: source ≠ nameBytes (name :: names) ++ source' := by
  intro heq
  rw [nameBytes_cons] at heq
  cases hbytes : Text.bytes (Text.ofString name) with
  | nil => exact bytes_ne_nil h hbytes
  | cons b rest =>
      rw [hbytes] at heq
      apply zero_not_mem_bytes h
      rw [hbytes]
      exact List.mem_cons.mpr (.inl (List.cons.inj heq).1)

theorem nameBytes_inj
    {names names' : List String} {source source' : List UInt8}
    (hnames : forall n, n ∈ names -> IsDelimited n)
    (hnames' : forall n, n ∈ names' -> IsDelimited n)
    (h : nameBytes names ++ 0 :: source = nameBytes names' ++ 0 :: source') :
    names = names' ∧ source = source' := by
  induction names generalizing names' with
  | nil =>
      cases names' with
      | nil => exact ⟨rfl, (List.cons.inj h).2⟩
      | cons n' names' => exact absurd h (nameBytes_ne_nil (hnames' n' List.mem_cons_self))
  | cons n names ih =>
      cases names' with
      | nil => exact absurd h.symm (nameBytes_ne_nil (hnames n List.mem_cons_self))
      | cons n' names' =>
          rw [List.forall_mem_cons] at hnames hnames'
          rw [nameBytes_cons, nameBytes_cons] at h
          rcases split_at_zero (zero_not_mem_bytes hnames.1) (zero_not_mem_bytes hnames'.1) h with
            ⟨hfirst, hrest⟩
          rcases ih hnames.2 hnames'.2 hrest with ⟨hnames, hsource⟩
          exact ⟨by rw [bytes_injective hfirst, hnames], hsource⟩

theorem keyBytes_eq_iff
    {source source' : List UInt8} {names names' : List String}
    (hnames : forall n, n ∈ names -> IsDelimited n)
    (hnames' : forall n, n ∈ names' -> IsDelimited n) :
    keyBytes source names = keyBytes source' names' <->
      source = source' ∧ forall name, name ∈ names <-> name ∈ names' := by
  constructor
  · intro h
    rcases nameBytes_inj (fun n hn => hnames n (mem_nameSet.mp hn))
      (fun n hn => hnames' n (mem_nameSet.mp hn)) h with ⟨hsets, hsources⟩
    exact ⟨hsources, nameSet_eq_iff.mp hsets⟩
  · rintro ⟨rfl, hsame⟩
    rw [keyBytes, keyBytes, nameSet_eq_iff.mpr hsame]

/-!
## Keys
-/

theorem key_eq_iff_digest
    {source source' : List UInt8} {names names' : List String} :
    key source names = key source' names' <->
      Sha256.digest (keyBytes source names) = Sha256.digest (keyBytes source' names') := by
  constructor
  · intro h
    exact Quoted.flatMap_hex_injective (String.ofList_injective h)
  · intro h
    rw [key, key, h]

end Cache
end DefTable
