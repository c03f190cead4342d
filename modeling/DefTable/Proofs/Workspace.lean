import DefTable.Workspace
import Mathlib.Data.List.Infix

/-!
# Writing into a workspace

A file is written where its directory exists.  So writing it makes no new directory, every other
file stays as it is, and every path that led to a place still leads there.
-/

namespace DefTable
namespace Workspace

/-!
## Directories
-/

theorem isDirectory_iff (w : Workspace) (p : List String) :
    w.isDirectory p = true <-> p = [] ∨ (exists d, d ∈ w.directories ∧ p <+: d) ∨
      exists f, f ∈ w.files ∧ p <+: f.1 ∧ p ≠ f.1 := by
  unfold isDirectory
  simp only [Bool.or_eq_true, List.isEmpty_iff, List.any_eq_true, List.isPrefixOf_iff_prefix,
    Bool.and_eq_true, decide_eq_true_eq, or_assoc]

theorem isDirectory_of_prefix
    {w : Workspace} {p q : List String} (hbegins : q <+: p) (h : w.isDirectory p = true) :
    w.isDirectory q = true := by
  rw [isDirectory_iff] at h ⊢
  rcases h with rfl | ⟨d, hd, hp⟩ | ⟨f, hf, hp, hne⟩
  · exact Or.inl (List.prefix_nil.mp hbegins)
  · exact Or.inr (Or.inl ⟨d, hd, hbegins.trans hp⟩)
  · refine Or.inr (Or.inr ⟨f, hf, hbegins.trans hp, ?_⟩)
    rintro rfl
    exact hne (hp.eq_of_length (Nat.le_antisymm hp.length_le hbegins.length_le))

theorem isDirectory_of_follow
    {w : Workspace} {parts : List String} {at_ : Place} {p : List String}
    (hstart : forall steps, at_ = .inside steps -> w.isDirectory steps = true)
    (h : w.follow at_ parts = .ok (.inside p)) : w.isDirectory p.dropLast = true := by
  induction parts generalizing at_ with
  | nil =>
      rw [follow] at h
      exact isDirectory_of_prefix (List.dropLast_prefix p) (hstart p (Except.ok.inj h))
  | cons part rest ih =>
      cases at_ with
      | around =>
          rw [follow] at h
          split at h
          · exact ih (by rintro _ ⟨⟩) h
          · cases h
      | inside steps =>
          have hsteps := hstart steps rfl
          rw [follow] at h
          split at h
          · exact ih hstart h
          · split at h
            · refine ih ?_ h
              intro steps' heq
              split at heq
              · cases heq
              · cases heq
                exact isDirectory_of_prefix (List.dropLast_prefix steps) hsteps
            · split at h
              · cases h
              · dsimp only at h
                split at h
                · rename_i hnext
                  rw [Bool.or_eq_true] at hnext
                  rcases hnext with hlast | hnext
                  · rw [List.isEmpty_iff] at hlast
                    rw [hlast, follow] at h
                    cases h
                    rwa [List.dropLast_concat]
                  · refine ih ?_ h
                    intro steps' heq
                    cases heq
                    exact hnext
                · split at h
                  · cases h
                  · cases h

theorem isDirectory_of_locate
    {w : Workspace} {path : String} {p : List String} (h : w.locate path = .ok (.inside p)) :
    w.isDirectory p.dropLast = true := by
  have hroot : forall steps, Place.inside [] = .inside steps -> w.isDirectory steps = true := by
    rintro steps ⟨⟩
    rfl
  unfold locate at h
  split at h
  · cases h
  · split at h
    · cases h
    · split at h
      · dsimp only at h
        split at h
        · exact isDirectory_of_follow hroot h
        · split at h
          · cases h
          · cases h
      · exact isDirectory_of_follow hroot h

/-!
## Workspaces with the same directories
-/

/-- The same directories exist, so the same paths lead somewhere. -/
structure SameShape (w w' : Workspace) : Prop where
  root : w'.root = w.root
  directories : forall p, w'.isDirectory p = w.isDirectory p

theorem SameShape.refl (w : Workspace) : SameShape w w :=
  ⟨rfl, fun _ => rfl⟩

theorem SameShape.trans
    {w w' w'' : Workspace} (h : SameShape w w') (h' : SameShape w' w'') : SameShape w w'' :=
  ⟨h'.root.trans h.root, fun p => (h'.directories p).trans (h.directories p)⟩

theorem SameShape.follow
    {w w' : Workspace} (hshape : SameShape w w') {parts : List String} {at_ place : Place}
    (h : w.follow at_ parts = .ok place) : w'.follow at_ parts = .ok place := by
  induction parts generalizing at_ with
  | nil => exact h
  | cons part rest ih =>
      cases at_ with
      | around =>
          rw [Workspace.follow] at h ⊢
          split at h
          · rename_i hpart
            rw [if_pos hpart]
            exact ih h
          · cases h
      | inside steps =>
          rw [Workspace.follow] at h ⊢
          dsimp only at h ⊢
          rw [hshape.directories]
          split at h
          · rename_i hpart
            rw [if_pos hpart]
            exact ih h
          · rename_i hpart
            rw [if_neg hpart]
            split at h
            · rename_i hup
              rw [if_pos hup]
              exact ih h
            · rename_i hup
              rw [if_neg hup]
              split at h
              · cases h
              · rename_i hlong
                rw [if_neg hlong]
                split at h
                · rename_i hnext
                  rw [if_pos hnext]
                  exact ih h
                · split at h
                  · cases h
                  · cases h

theorem SameShape.locate
    {w w' : Workspace} (hshape : SameShape w w') {path : String} {place : Place}
    (h : w.locate path = .ok place) : w'.locate path = .ok place := by
  unfold Workspace.locate at h ⊢
  dsimp only at h ⊢
  rw [hshape.root]
  split at h
  · cases h
  · rename_i hempty
    rw [if_neg hempty]
    split at h
    · cases h
    · rename_i hzero
      rw [if_neg hzero]
      split at h
      · rename_i habsolute
        rw [if_pos habsolute]
        split at h
        · rename_i hinside
          rw [if_pos hinside]
          exact hshape.follow h
        · rename_i hinside
          rw [if_neg hinside]
          exact h
      · rename_i habsolute
        rw [if_neg habsolute]
        exact hshape.follow h

/-!
## Putting a file
-/

theorem lookup_map_replace
    (files : List (List String × List UInt8)) (p q : List String) (bytes : List UInt8) :
    (files.map fun f => if f.1 = p then (p, bytes) else f).lookup q =
      if q = p then (files.lookup p).map fun _ => bytes else files.lookup q := by
  induction files with
  | nil => simp
  | cons f rest ih =>
      rw [List.map_cons, List.lookup_cons, ih, List.lookup_cons, List.lookup_cons]
      by_cases hf : f.1 = p
      · by_cases hq : q = p
        · simp [hf, hq]
        · simp [hf, hq, beq_false_of_ne hq]
      · by_cases hq : q = p
        · subst hq
          simp [hf, beq_false_of_ne (Ne.symm hf)]
        · simp [hf, hq]

theorem file?_putFile (w : Workspace) (p q : List String) (bytes : List UInt8) :
    (w.putFile p bytes).file? q = if q = p then some bytes else w.file? q := by
  unfold putFile
  split
  · rename_i hold
    unfold file? at hold ⊢
    dsimp only
    rw [lookup_map_replace]
    rcases Option.isSome_iff_exists.mp hold with ⟨before, hbefore⟩
    rw [hbefore]
    rfl
  · rename_i hnew
    unfold file? at hnew ⊢
    dsimp only
    rw [List.lookup_append, List.lookup_cons]
    rw [Option.not_isSome_iff_eq_none] at hnew
    by_cases hq : q = p
    · simp [hq, hnew]
    · simp [hq, beq_false_of_ne hq]

theorem prefix_dropLast
    {p q : List String} (hbegins : q <+: p) (hne : q ≠ p) : q <+: p.dropLast := by
  rcases p.eq_nil_or_concat with rfl | ⟨front, last, rfl⟩
  · exact absurd (List.prefix_nil.mp hbegins) hne
  · rw [List.concat_eq_append] at hbegins hne ⊢
    rw [List.dropLast_concat]
    exact (List.prefix_concat_iff.mp hbegins).resolve_left hne

theorem sameShape_putFile
    {w : Workspace} {p : List String} (hparent : w.isDirectory p.dropLast = true)
    (bytes : List UInt8) : SameShape w (w.putFile p bytes) := by
  unfold putFile
  split
  · refine ⟨rfl, fun q => ?_⟩
    rw [Bool.eq_iff_iff, isDirectory_iff, isDirectory_iff]
    have hname : forall f : List String × List UInt8,
        (if f.1 = p then (p, bytes) else f).1 = f.1 := by
      intro f
      split
      · rename_i heq
        exact heq.symm
      · rfl
    simp only [List.mem_map, exists_exists_and_eq_and, hname]
  · refine ⟨rfl, fun q => ?_⟩
    rw [Bool.eq_iff_iff]
    constructor
    · intro h
      rw [isDirectory_iff] at h
      dsimp only at h
      rcases h with hroot | hempty | ⟨f, hf, hbegins, hne⟩
      · exact (isDirectory_iff w q).mpr (Or.inl hroot)
      · exact (isDirectory_iff w q).mpr (Or.inr (Or.inl hempty))
      · rcases List.mem_append.mp hf with hold | hnew
        · exact (isDirectory_iff w q).mpr (Or.inr (Or.inr ⟨f, hold, hbegins, hne⟩))
        · rw [List.mem_singleton.mp hnew] at hbegins hne
          exact isDirectory_of_prefix (prefix_dropLast hbegins hne) hparent
    · intro h
      rw [isDirectory_iff] at h ⊢
      exact h.imp_right (Or.imp_right fun ⟨f, hf, hrest⟩ => ⟨f, List.mem_append_left _ hf, hrest⟩)

/-!
## Reading and writing
-/

theorem read_eq_ok_iff {w : Workspace} {path : String} {bytes : List UInt8} :
    w.read path = .ok bytes <->
      exists p, w.locate path = .ok (.inside p) ∧ w.file? p = some bytes := by
  unfold read
  cases hlocate : w.locate path with
  | error e => simp
  | ok place =>
      cases place with
      | around => simp
      | inside p =>
          dsimp only
          cases hfile : w.file? p with
          | some found => simp [hfile]
          | none =>
              dsimp only
              split <;> simp [hfile]

theorem write_eq_ok_iff {w w' : Workspace} {path : String} {bytes : List UInt8} :
    w.write path bytes = .ok w' <-> exists p, w.locate path = .ok (.inside p) ∧
      w.isDirectory p = false ∧ w' = w.putFile p bytes := by
  unfold write
  cases hlocate : w.locate path with
  | error e => simp
  | ok place =>
      cases place with
      | around => simp
      | inside p =>
          dsimp only
          cases hdirectory : w.isDirectory p with
          | true => simp [hdirectory]
          | false =>
              constructor
              · intro h
                exact ⟨p, rfl, hdirectory, (Except.ok.inj h).symm⟩
              · rintro ⟨_, ⟨⟩, _, rfl⟩
                rfl

end Workspace
end DefTable
