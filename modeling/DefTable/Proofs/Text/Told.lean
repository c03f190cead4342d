import DefTable.Text.Basic

/-!
# Values that can be told from their texts

A value is written in front of some other text.  If the value and that text can be told from the
whole, then so can values that are written one after another.  Words are told by the delimiter that
comes after them, and lists by a mark that starts no element.
-/

namespace DefTable

variable {α : Type}

/-!
## Values and what follows them
-/

/-- Among the values with `p` and the texts with `after`, the value and the text behind it are told
from what they make up. -/
def Told (p : α -> Prop) (after : List Char -> Prop) (write : α -> List Char) (a : α) : Prop :=
  forall a' rest rest', p a -> p a' -> after rest -> after rest' ->
    write a ++ rest = write a' ++ rest' -> a = a' ∧ rest = rest'

def AllTold (p : α -> Prop) (after : List Char -> Prop) (write : α -> List Char) : Prop :=
  forall a, Told p after write a

def Starts (mark : Char) (rest : List Char) : Prop :=
  rest.head? = some mark

theorem starts_cons (mark : Char) (rest : List Char) : Starts mark (mark :: rest) :=
  rfl

theorem Starts.append {mark : Char} {cs : List Char} (h : Starts mark cs) (rest : List Char) :
    Starts mark (cs ++ rest) := by
  cases cs with
  | nil => cases h
  | cons c cs => exact h

section

variable {p : α -> Prop} {after : List Char -> Prop} {write : α -> List Char} {a : α}

theorem Told.afterward (h : Told p after write a) (cs : List Char) :
    Told p after (fun a => cs ++ write a) a := by
  intro a' rest rest' ha ha' hrest hrest' heq
  rw [List.append_assoc, List.append_assoc] at heq
  exact h a' rest rest' ha ha' hrest hrest' (List.append_cancel_left heq)

theorem Told.before
    {mark : Char} {cs : List Char} (h : Told p (Starts mark) write a) (hcs : Starts mark cs) :
    Told p after (fun a => write a ++ cs) a := by
  intro a' rest rest' ha ha' _ _ heq
  rw [List.append_assoc, List.append_assoc] at heq
  rcases h a' _ _ ha ha' (hcs.append rest) (hcs.append rest') heq with ⟨rfl, hbehind⟩
  exact ⟨rfl, List.append_cancel_left hbehind⟩

theorem AllTold.flatMap
    (h : AllTold p after write) {close : Char} (hclose : forall rest, Starts close rest -> after rest)
    (hnext : forall a rest, p a -> after (write a ++ rest))
    (hopen : forall a rest, p a -> ¬ Starts close (write a ++ rest)) :
    AllTold (fun as : List α => forall a, a ∈ as -> p a) (Starts close) fun as =>
      as.flatMap write := by
  have hafter : forall (as : List α) rest, (forall a, a ∈ as -> p a) -> Starts close rest ->
      after (as.flatMap write ++ rest) := by
    intro as rest has hrest
    cases as with
    | nil => exact hclose rest hrest
    | cons a as =>
        rw [List.flatMap_cons, List.append_assoc]
        exact hnext a _ (has a List.mem_cons_self)
  intro as
  induction as with
  | nil =>
      intro as' rest rest' _ has' hrest hrest' heq
      dsimp only at heq
      cases as' with
      | nil => exact ⟨rfl, heq⟩
      | cons a' as' =>
          rw [List.flatMap_nil, List.nil_append, List.flatMap_cons, List.append_assoc] at heq
          rw [heq] at hrest
          exact absurd hrest (hopen a' _ (has' a' List.mem_cons_self))
  | cons a as ih =>
      intro as' rest rest' has has' hrest hrest' heq
      rw [List.forall_mem_cons] at has
      dsimp only at heq
      rw [List.flatMap_cons, List.append_assoc] at heq
      cases as' with
      | nil =>
          rw [List.flatMap_nil, List.nil_append] at heq
          rw [← heq] at hrest'
          exact absurd hrest' (hopen a _ has.1)
      | cons a' as' =>
          rw [List.forall_mem_cons] at has'
          rw [List.flatMap_cons, List.append_assoc] at heq
          rcases h a a' _ _ has.1 has'.1 (hafter as rest has.2 hrest)
            (hafter as' rest' has'.2 hrest') heq with ⟨rfl, hlater⟩
          rcases ih as' rest rest' has.2 has'.2 hrest hrest' hlater with ⟨rfl, hbehind⟩
          exact ⟨rfl, hbehind⟩

end

/-!
## Words
-/

def delimiters : List Char :=
  [' ', ',', '(', ']', ')', '\n']

def Delimited (rest : List Char) : Prop :=
  exists c, c ∈ delimiters ∧ Starts c rest

theorem undelimited_iff {cs : List Char} :
    cs.all (!delimiters.contains ·) = true <-> forall c, c ∈ cs -> c ∉ delimiters := by
  rw [List.all_eq_true]
  simp only [Bool.not_eq_true', List.contains_eq_mem, decide_eq_false_iff_not]

/-- There is something, and no delimiter in it. -/
structure IsLegible (s : String) : Prop where
  ne_nil : s.toList ≠ []
  whole : forall c, c ∈ s.toList -> c ∉ delimiters

theorem isLegible_iff {s : String} :
    IsLegible s <-> (!s.toList.isEmpty && s.toList.all (!delimiters.contains ·)) = true := by
  rw [Bool.and_eq_true, Bool.not_eq_true', List.isEmpty_eq_false_iff, undelimited_iff]
  exact ⟨fun h => ⟨h.ne_nil, h.whole⟩, fun h => ⟨h.1, h.2⟩⟩

instance (s : String) : Decidable (IsLegible s) :=
  decidable_of_iff' _ isLegible_iff

theorem IsLegible.not_starts {s : String} (h : IsLegible s) {c : Char} (hc : c ∈ delimiters)
    (rest : List Char) : ¬ Starts c (s.toList ++ rest) := by
  intro hstarts
  have hwhole := h.whole
  cases hs : s.toList with
  | nil => exact h.ne_nil hs
  | cons d ds =>
      rw [hs] at hwhole hstarts
      cases hstarts
      exact hwhole c List.mem_cons_self hc

theorem eq_of_delimited
    {cs cs' rest rest' : List Char} (hcs : forall c, c ∈ cs -> c ∉ delimiters)
    (hcs' : forall c, c ∈ cs' -> c ∉ delimiters) (hrest : Delimited rest)
    (hrest' : Delimited rest') (h : cs ++ rest = cs' ++ rest') : cs = cs' ∧ rest = rest' := by
  have hends : forall {c : Char} {ds later : List Char}, c ∉ delimiters ->
      ¬ Delimited (c :: ds ++ later) := by
    rintro c ds later hc ⟨d, hd, hstarts⟩
    cases hstarts
    exact hc hd
  induction cs generalizing cs' with
  | nil =>
      cases cs' with
      | nil => exact ⟨rfl, h⟩
      | cons c' cs' =>
          rw [List.nil_append] at h
          rw [h] at hrest
          exact absurd hrest (hends (hcs' c' List.mem_cons_self))
  | cons c cs ih =>
      cases cs' with
      | nil =>
          rw [List.nil_append] at h
          rw [← h] at hrest'
          exact absurd hrest' (hends (hcs c List.mem_cons_self))
      | cons c' cs' =>
          rcases List.cons.inj h with ⟨rfl, htail⟩
          rw [List.forall_mem_cons] at hcs hcs'
          rcases ih hcs.2 hcs'.2 htail with ⟨rfl, hbehind⟩
          exact ⟨rfl, hbehind⟩

theorem allTold_legible : AllTold IsLegible Delimited String.toList := by
  intro s s' rest rest' hs hs' hrest hrest' heq
  rcases eq_of_delimited hs.whole hs'.whole hrest hrest' heq with ⟨hword, hbehind⟩
  exact ⟨String.toList_injective hword, hbehind⟩

section

variable {p : α -> Prop} {word : α -> String} (hlegible : forall a, p a -> IsLegible (word a))
  (hinjective : forall a a', p a -> p a' -> word a = word a' -> a = a')
include hlegible hinjective

theorem allTold_word : AllTold p Delimited fun a => (word a).toList := by
  intro a a' rest rest' ha ha' hrest hrest' heq
  rcases allTold_legible _ _ rest rest' (hlegible a ha) (hlegible a' ha') hrest hrest' heq with
    ⟨hword, hbehind⟩
  exact ⟨hinjective a a' ha ha' hword, hbehind⟩

end

end DefTable
