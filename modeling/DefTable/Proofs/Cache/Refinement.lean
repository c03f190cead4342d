import DefTable.Proofs.Cache.Key
import DefTable.Proofs.Cache.Store
import DefTable.Proofs.Table.Depth
import Mathlib.Data.Finmap

/-!
# A cache is a map

Along every run of steps a cache answers as a map from sources and sets of names to builds and
tables does: what was put last is found, what was never put is missed, and closing only stops the
answers.  A table is kept as a message, so one that nests deeper than messages are read is counted
like any other and cannot be given back.
-/

namespace DefTable
namespace Cache

/-!
## Steps and answers
-/

/-- One use of a cache.  A put comes with the build number that it is given. -/
inductive Step where
  | put (build : Build) (source : List UInt8) (names : List String) (t : Table)
  | get (source : List UInt8) (names : List String)
  | size
  | close
  | reopen

inductive Answer where
  | failed (fault : Fault)
  | missed
  | found (found : Found)
  | counted (n : Nat)
  | done

namespace Answer

def ofAttempt {α : Type} (answer : α -> Answer) : Except Fault α -> Answer
  | .error fault => failed fault
  | .ok a => answer a

def ofFound : Option Found -> Answer
  | none => missed
  | some f => found f

end Answer

def Step.onCache (s : Step) (c : Cache) : Answer × Cache :=
  match s with
  | put build source names t =>
      match c.put build source names t with
      | .error fault => (.failed fault, c)
      | .ok (f, c') => (.found f, c')
  | get source names => (.ofAttempt .ofFound (c.get source names), c)
  | size => (.ofAttempt .counted c.size, c)
  | close => (.done, c.close)
  | reopen => (.done, c.reopen)

def answers {σ : Type} (act : Step -> σ -> Answer × σ) : List Step -> σ -> List Answer
  | [], _ => []
  | s :: rest, x => (act s x).1 :: answers act rest (act s x).2

theorem onCache_of_failed
    {s : Step} {c : Cache} {fault : Fault} (h : (s.onCache c).1 = .failed fault) :
    (s.onCache c).2 = c := by
  cases s with
  | put build source names t =>
      rw [Step.onCache] at h ⊢
      cases hput : c.put build source names t with
      | error e => rfl
      | ok made =>
          rw [hput] at h
          cases h
  | get source names => rfl
  | size => rfl
  | close => cases h
  | reopen => cases h

/-!
## The map
-/

abbrev Subject := List UInt8 × Finset String

/-- A map that can be closed. -/
structure Reference where
  contents : Finmap fun _ : Subject => Build × Table
  isOpen : Bool

namespace Reference

def empty : Reference := ⟨∅, true⟩

/-- The build and the table that were put last, unless the table nests deeper than messages are
read. -/
def find (m : Reference) (source : List UInt8) (names : List String) : Answer :=
  match m.contents.lookup (source, names.toFinset) with
  | none => .missed
  | some (build, t) =>
      if t.levels ≤ Struct.maxDepth / 2 then .found ⟨key source names, build, t⟩
      else .failed (.unreadable (key source names) .unreadable)

end Reference

def Step.onReference (s : Step) (m : Reference) : Answer × Reference :=
  match s with
  | put build source names t =>
      if m.isOpen then
        (.found ⟨key source names, build, t⟩,
          { m with contents := m.contents.insert (source, names.toFinset) (build, t) })
      else (.failed .closed, m)
  | get source names => (if m.isOpen then m.find source names else .failed .closed, m)
  | size => (if m.isOpen then .counted m.contents.keys.card else .failed .closed, m)
  | close => (.done, { m with isOpen := false })
  | reopen => (.done, { m with isOpen := true })

theorem keys_insert (contents : Finmap fun _ : Subject => Build × Table) (subject : Subject)
    (entry : Build × Table) :
    (contents.insert subject entry).keys = insert subject contents.keys := by
  ext other
  rw [Finmap.mem_keys, Finmap.mem_insert, Finset.mem_insert, Finmap.mem_keys]

/-!
## Runs
-/

def Step.subject? : Step -> Option (List UInt8 × List String)
  | put _ source names _ => some (source, names)
  | get source names => some (source, names)
  | _ => none

def Uses (steps : List Step) (source : List UInt8) (names : List String) : Prop :=
  exists s, s ∈ steps ∧ s.subject? = some (source, names)

/-- What is assumed of a run of steps: names can be told apart in a key, the digests of different
keys differ, and every table that is put can be kept. -/
structure Admissible (steps : List Step) : Prop where
  delimited : forall source names, Uses steps source names ->
    forall name, name ∈ names -> IsDelimited name
  collisionFree : forall source names source' names', Uses steps source names ->
    Uses steps source' names' ->
    Sha256.digest (keyBytes source names) = Sha256.digest (keyBytes source' names') ->
    keyBytes source names = keyBytes source' names'
  storable : forall build source names t, .put build source names t ∈ steps -> t.Storable

section

variable {steps : List Step} {source source' : List UInt8} {names names' : List String}

theorem Admissible.key_eq_iff
    (h : Admissible steps) (huses : Uses steps source names) (huses' : Uses steps source' names') :
    key source names = key source' names' <->
      (source, names.toFinset) = (source', names'.toFinset) := by
  have hsame : names.toFinset = names'.toFinset <-> forall name, name ∈ names <-> name ∈ names' := by
    rw [Finset.ext_iff]
    simp only [List.mem_toFinset]
  rw [key_eq_iff_digest, Prod.mk.injEq, hsame,
    ← keyBytes_eq_iff (h.delimited _ _ huses) (h.delimited _ _ huses')]
  constructor
  · exact h.collisionFree _ _ _ _ huses huses'
  · exact congrArg Sha256.digest

end

def stored (key : String) (entry : Build × Table) : Stored :=
  ⟨key, entry.1, entry.2.message⟩

/-- The cache and the map are both open or both closed, they hold equally many compilations, and
for everything that the run is about the cache holds what the map holds. -/
structure Refines (steps : List Step) (c : Cache) (m : Reference) : Prop where
  isOpen : c.isOpen = m.isOpen
  nodup : c.store.keys.Nodup
  length : c.store.length = m.contents.keys.card
  found : forall source names, Uses steps source names ->
    c.store.find? (key source names) =
      (m.contents.lookup (source, names.toFinset)).map (stored (key source names))
  storable : forall subject entry, m.contents.lookup subject = some entry -> entry.2.Storable

theorem refines_empty (steps : List Step) : Refines steps Cache.empty Reference.empty where
  isOpen := rfl
  nodup := List.nodup_nil
  length := rfl
  found source names _ := by
    rw [Reference.empty, Finmap.lookup_empty]
    rfl
  storable subject entry h := by
    rw [Reference.empty, Finmap.lookup_empty] at h
    cases h

theorem Refines.withOpen
    {steps : List Step} {c : Cache} {m : Reference} (h : Refines steps c m) (isOpen : Bool) :
    Refines steps { c with isOpen := isOpen } { m with isOpen := isOpen } where
  isOpen := rfl
  nodup := h.nodup
  length := h.length
  found := h.found
  storable := h.storable

section

variable {steps : List Step} {c : Cache} {m : Reference} {source : List UInt8}
  {names : List String}

theorem Refines.mem_keys_iff (h : Refines steps c m) (huses : Uses steps source names) :
    key source names ∈ c.store.keys <-> (source, names.toFinset) ∈ m.contents.keys := by
  rw [← Store.find?_isSome_iff, h.found _ _ huses, Option.isSome_map, Finmap.lookup_isSome,
    Finmap.mem_keys]

theorem Refines.put
    (h : Refines steps c m) (hadmissible : Admissible steps) (huses : Uses steps source names)
    (entry : Build × Table) (hentry : entry.2.Storable) :
    Refines steps { c with store := c.store.put (stored (key source names) entry) }
      { m with contents := m.contents.insert (source, names.toFinset) entry } where
  isOpen := h.isOpen
  nodup := Store.nodup_keys_put h.nodup _
  length := by
    dsimp only
    rw [Store.length_put h.nodup, keys_insert, h.length]
    split
    · rename_i hmem
      rw [Finset.insert_eq_of_mem ((h.mem_keys_iff huses).mp hmem)]
    · rename_i hmem
      rw [Finset.card_insert_of_notMem fun hm => hmem ((h.mem_keys_iff huses).mpr hm)]
  found source' names' huses' := by
    dsimp only
    by_cases hkey : key source names = key source' names'
    · rw [← (hadmissible.key_eq_iff huses huses').mp hkey, Finmap.lookup_insert, ← hkey]
      exact Store.find?_put_self c.store (stored (key source names) entry)
    · have hsubject := fun heq => hkey ((hadmissible.key_eq_iff huses huses').mpr heq)
      rw [Finmap.lookup_insert_of_ne _ (Ne.symm hsubject), ← h.found _ _ huses']
      exact Store.find?_put_of_ne c.store hkey
  storable subject entry' hlookup := by
    dsimp only at hlookup
    by_cases hsubject : subject = (source, names.toFinset)
    · rw [hsubject, Finmap.lookup_insert] at hlookup
      exact Option.some.inj hlookup ▸ hentry
    · rw [Finmap.lookup_insert_of_ne _ hsubject] at hlookup
      exact h.storable _ _ hlookup

theorem table_stored
    {key : String} {entry : Build × Table} (h : entry.2.Storable) :
    (stored key entry).table =
      if entry.2.levels ≤ Struct.maxDepth / 2 then .ok entry.2
      else .error (.unreadable key .unreadable) := by
  unfold Stored.table stored
  dsimp only
  rw [Table.decode_message_of_storable h]
  split
  · rfl
  · rfl

/-!
## One step
-/

theorem Refines.onPut
    (h : Refines steps c m) (hadmissible : Admissible steps) {build : Build} {t : Table}
    (hmem : .put build source names t ∈ steps) :
    ((Step.put build source names t).onCache c).1 =
        ((Step.put build source names t).onReference m).1 ∧
      Refines steps ((Step.put build source names t).onCache c).2
        ((Step.put build source names t).onReference m).2 := by
  rw [Step.onCache, Step.onReference]
  by_cases hopen : c.isOpen = true
  · rw [put_of_open hopen, if_pos (h.isOpen ▸ hopen)]
    have hput := h.put hadmissible ⟨_, hmem, rfl⟩ (build, t) (hadmissible.storable _ _ _ _ hmem)
    exact ⟨rfl, hput⟩
  · rw [put_of_closed (Bool.eq_false_of_not_eq_true hopen), if_neg (h.isOpen ▸ hopen)]
    exact ⟨rfl, h⟩

theorem Refines.onGet
    (h : Refines steps c m) (huses : Uses steps source names) :
    Answer.ofAttempt .ofFound (c.get source names) =
      if m.isOpen then m.find source names else .failed .closed := by
  have hfound := h.found _ _ huses
  rw [← h.isOpen]
  cases hopen : c.isOpen with
  | false =>
      rw [get_of_closed hopen]
      rfl
  | true =>
      rw [if_pos rfl, Reference.find]
      cases hlookup : m.contents.lookup (source, names.toFinset) with
      | none =>
          rw [hlookup] at hfound
          rw [get_of_find_none hopen hfound]
          rfl
      | some entry =>
          rw [hlookup] at hfound
          rw [get_of_find_some hopen hfound, table_stored (h.storable _ _ hlookup)]
          dsimp only
          by_cases hlevels : entry.2.levels ≤ Struct.maxDepth / 2
          · rw [if_pos hlevels, if_pos hlevels]
            rfl
          · rw [if_neg hlevels, if_neg hlevels]
            rfl

theorem Refines.onSize (h : Refines steps c m) :
    Answer.ofAttempt .counted c.size =
      if m.isOpen then .counted m.contents.keys.card else .failed .closed := by
  rw [← h.isOpen]
  cases hopen : c.isOpen with
  | false =>
      rw [size_of_closed hopen]
      rfl
  | true =>
      rw [size_of_open hopen, h.length]
      rfl

theorem Refines.step
    (h : Refines steps c m) (hadmissible : Admissible steps) {s : Step} (hs : s ∈ steps) :
    (s.onCache c).1 = (s.onReference m).1 ∧ Refines steps (s.onCache c).2 (s.onReference m).2 := by
  cases s with
  | put build source names t => exact h.onPut hadmissible hs
  | get source names => exact ⟨h.onGet ⟨_, hs, rfl⟩, h⟩
  | size => exact ⟨h.onSize, h⟩
  | close => exact ⟨rfl, h.withOpen false⟩
  | reopen => exact ⟨rfl, h.withOpen true⟩

end

/-!
## All steps
-/

theorem Refines.answers
    {steps : List Step} (hadmissible : Admissible steps) {rest : List Step}
    (hrest : forall s, s ∈ rest -> s ∈ steps) {c : Cache} {m : Reference} (h : Refines steps c m) :
    answers Step.onCache rest c = answers Step.onReference rest m := by
  induction rest generalizing c m with
  | nil => rfl
  | cons s rest ih =>
      rw [List.forall_mem_cons] at hrest
      rcases h.step hadmissible hrest.1 with ⟨hanswer, hnext⟩
      rw [Cache.answers, Cache.answers, hanswer, ih hrest.2 hnext]

/-- A cache that was empty at the start answers as the map does, and a step that fails changes
nothing. -/
theorem answers_eq_reference
    {steps : List Step} (h : Admissible steps) :
    answers Step.onCache steps Cache.empty = answers Step.onReference steps Reference.empty ∧
      forall (s : Step) (c : Cache) (fault : Fault),
        (s.onCache c).1 = .failed fault -> (s.onCache c).2 = c :=
  ⟨(refines_empty steps).answers h fun _ hs => hs, fun _ _ _ hfailed => onCache_of_failed hfailed⟩

def replacingSteps : List Step :=
  [.put 1 [] ["b", "a"] (.nested 0), .get [] ["a", "b", "a"], .put 2 [] ["a", "b"] (.nested 1),
    .close, .get [] ["b", "a"], .size, .reopen, .get [] ["b", "a"], .size]

theorem uses_replacingSteps
    {source : List UInt8} {names : List String} (h : Uses replacingSteps source names) :
    source = [] ∧ forall name, name ∈ names <-> name ∈ ["a", "b"] := by
  rcases h with ⟨s, hs, hsubject⟩
  simp only [replacingSteps, List.mem_cons, List.not_mem_nil, or_false] at hs
  rcases hs with rfl | rfl | rfl | rfl | rfl | rfl | rfl | rfl | rfl <;> cases hsubject
  all_goals exact ⟨rfl, fun name => by simp [or_comm]⟩

theorem admissible_replacingSteps : Admissible replacingSteps where
  delimited source names huses name hname := by
    rw [(uses_replacingSteps huses).2] at hname
    rcases List.mem_cons.mp hname with rfl | hb
    · exact ⟨by decide, by decide⟩
    · rcases List.mem_singleton.mp hb with rfl
      exact ⟨by decide, by decide⟩
  collisionFree source names source' names' huses huses' _ := by
    rcases uses_replacingSteps huses with ⟨rfl, hnames⟩
    rcases uses_replacingSteps huses' with ⟨rfl, hnames'⟩
    rw [keyBytes, keyBytes, nameSet_eq_iff.mpr fun name => (hnames name).trans (hnames' name).symm]
  storable build source names t hmem := by
    simp only [replacingSteps, List.mem_cons, List.not_mem_nil, or_false, reduceCtorEq,
      false_or, Step.put.injEq] at hmem
    rcases hmem with ⟨_, _, _, rfl⟩ | ⟨_, _, _, rfl⟩
    · exact Table.storable_nested (by decide)
    · exact Table.storable_nested (by decide)

theorem answers_eq_reference_replacing :
    Admissible replacingSteps ∧
      answers Step.onCache replacingSteps Cache.empty =
        answers Step.onReference replacingSteps Reference.empty :=
  ⟨admissible_replacingSteps, (answers_eq_reference admissible_replacingSteps).1⟩

/-!
## A put and a get
-/

theorem get_of_put
    {c c' : Cache} {build : Build} {source : List UInt8} {names : List String} {t : Table}
    {found : Found} (h : c.put build source names t = .ok (found, c')) (ht : t.Storable) :
    c'.get source names =
      if t.levels ≤ Struct.maxDepth / 2 then .ok (some ⟨key source names, build, t⟩)
      else .error (.unreadable (key source names) .unreadable) := by
  cases hopen : c.isOpen with
  | false =>
      rw [put_of_closed hopen] at h
      cases h
  | true =>
      rw [put_of_open hopen] at h
      cases h
      have hfind := Store.find?_put_self c.store (stored (key source names) (build, t))
      have hget := @get_of_find_some { c with store := c.store.put _ } source names _ hopen hfind
      rw [table_stored ht] at hget
      refine hget.trans ?_
      split
      · rfl
      · rfl

theorem get_of_put_compiled
    {c c' : Cache} {build : Build} {source : List UInt8} {names : List String} {t : Table}
    {found : Found} (h : c.put build source names t = .ok (found, c'))
    (hcompiles : Compiles source names t) (hfinite : t.isFinite = true)
    (hshort : t.message.length < Struct.lengthLimit) :
    c'.get source names = .ok (some ⟨key source names, build, t⟩) := by
  have ht : t.Storable := ⟨⟨_, hcompiles.regular⟩, hfinite, hshort⟩
  rw [get_of_put h ht, if_pos hcompiles.levels_le]

/-- A table with functions that nest two thousand five hundred deep is put, and then it cannot be
read. -/
theorem get_of_put_nested :
    (Table.nested 2500).Storable ∧
      exists c, Cache.empty.put 1 [] [] (Table.nested 2500) =
          .ok (⟨key [] [], 1, Table.nested 2500⟩, c) ∧
        c.get [] [] = .error (.unreadable (key [] []) .unreadable) := by
  have hstorable : (Table.nested 2500).Storable := Table.storable_nested (by decide)
  have hput := @put_of_open Cache.empty [] [] rfl 1 (Table.nested 2500)
  refine ⟨hstorable, _, hput, ?_⟩
  rw [get_of_put hput hstorable, Table.levels_nested, if_neg (by decide)]

end Cache
end DefTable
