import DefTable.Proofs.Cache.Key
import DefTable.Proofs.Compilation
import DefTable.Service
import Mathlib.Data.List.Induction

/-!
# Requests that share a cache

Any number of services, each with names of its own, answer requests on one cache that is empty at
the start and can be closed and reopened at any time.  The steps of the requests come in any order.
Whatever is found in the cache was put there for the same source and the same names, so every answer
holds the table that a local compilation gives.
-/

namespace DefTable
namespace Service

/-!
## Runs
-/

/-- A request to a service with some names of its own. -/
structure Client where
  builtins : List String
  request : Request

/-- What happens next: a request takes its next step, or the cache is closed or reopened. -/
inductive Event where
  | advance (client : Nat)
  | close
  | reopen
deriving DecidableEq, Repr

/-- What all requests share, and how far each of them has come. -/
structure State where
  world : World
  phases : List Phase

namespace State

def start (clients : List Client) : State :=
  ⟨World.start (some Cache.empty), clients.map fun _ => .received⟩

def withCache (s : State) (f : Cache -> Cache) : State :=
  { s with world := { s.world with cache := s.world.cache.map f } }

def advance (s : State) (i : Nat) (c : Client) (phase : Phase) : State :=
  let made := step c.builtins c.request phase s.world
  ⟨made.2, s.phases.set i made.1⟩

def next (clients : List Client) (s : State) : Event -> State
  | .advance i =>
    match clients[i]?, s.phases[i]? with
    | some c, some phase => s.advance i c phase
    | _, _ => s
  | .close => s.withCache Cache.close
  | .reopen => s.withCache Cache.reopen

def after (clients : List Client) (events : List Event) : State :=
  events.foldl (next clients) (start clients)

theorem after_append (clients : List Client) (events : List Event) (e : Event) :
    after clients (events ++ [e]) = (after clients events).next clients e := by
  unfold after
  rw [List.foldl_append]
  rfl

end State

namespace Client

def source (c : Client) : List UInt8 :=
  Text.bytes c.request.source

def key (c : Client) : String :=
  Cache.key c.source c.builtins

def compilation (c : Client) : Compilation :=
  compile none c.request.path c.request.source c.builtins

structure Gives (c : Client) (t : Table) : Prop where
  errors : c.compilation.errors = []
  table : c.compilation.table = some t

def Same (c c' : Client) : Prop :=
  c.source = c'.source ∧ forall name, name ∈ c.builtins <-> name ∈ c'.builtins

/-- In the state the next step of the request is to put its table under the build, which the cache
does not refuse. -/
def Puts (c : Client) (i : Nat) (s : State) (build : Cache.Build) : Prop :=
  exists t cache found cache', s.phases[i]? = some (.compiled t) ∧ s.world.cache = some cache ∧
    cache.put s.world.nextBuild c.source c.builtins t = .ok (found, cache') ∧ found.build = build

end Client

/-- At one of the events a request for the same source and the same names has put its table under
the build. -/
def HasPut (clients : List Client) (events : List Event) (c : Client) (build : Cache.Build) :
    Prop :=
  exists before i later other, events = before ++ .advance i :: later ∧
    clients[i]? = some other ∧ other.Same c ∧ other.Puts i (State.after clients before) build

/-- What is assumed of the clients: names can be told apart in a key, and the digests of different
keys differ. -/
structure Admissible (clients : List Client) : Prop where
  delimited : forall c, c ∈ clients -> forall name, name ∈ c.builtins -> Cache.IsDelimited name
  collisionFree : forall c, c ∈ clients -> forall c', c' ∈ clients ->
    Sha256.digest (Cache.keyBytes c.source c.builtins) =
      Sha256.digest (Cache.keyBytes c'.source c'.builtins) ->
    Cache.keyBytes c.source c.builtins = Cache.keyBytes c'.source c'.builtins

theorem Admissible.same_of_key
    {clients : List Client} (h : Admissible clients) {c c' : Client} (hc : c ∈ clients)
    (hc' : c' ∈ clients) (hkey : c.key = c'.key) : c.Same c' := by
  have hbytes := h.collisionFree c hc c' hc' (Cache.key_eq_iff_digest.mp hkey)
  exact (Cache.keyBytes_eq_iff (h.delimited c hc) (h.delimited c' hc')).mp hbytes

theorem Client.Same.trans {a b c : Client} (h : a.Same b) (h' : b.Same c) : a.Same c :=
  ⟨h.1.trans h'.1, fun name => (h.2 name).trans (h'.2 name)⟩

theorem HasPut.append
    {clients : List Client} {events : List Event} {c : Client} {build : Cache.Build}
    (h : HasPut clients events c build) (e : Event) : HasPut clients (events ++ [e]) c build := by
  rcases h with ⟨before, i, later, other, rfl, hrest⟩
  refine ⟨before, i, later ++ [e], other, ?_, hrest⟩
  rw [List.append_assoc, List.cons_append]

theorem HasPut.of_same
    {clients : List Client} {events : List Event} {c c' : Client} {build : Cache.Build}
    (h : HasPut clients events c build) (hsame : c.Same c') :
    HasPut clients events c' build := by
  rcases h with ⟨before, i, later, other, hevents, hother, hsame', hputs⟩
  exact ⟨before, i, later, other, hevents, hother, hsame'.trans hsame, hputs⟩

/-!
## Local compilations
-/

namespace Client

theorem compilation_eq (c : Client) :
    c.compilation = (Compilation.read c.request.path c.source c.builtins).lower := by
  unfold compilation source Compilation.read
  rw [Text.decode_bytes_ofString]
  rfl

theorem gives_iff {c : Client} {t : Table} : c.Gives t <-> Compiles c.source c.builtins t := by
  rw [← Compilation.lower_read_gives_iff, ← compilation_eq]
  exact ⟨fun h => ⟨h.errors, h.table⟩, fun h => ⟨h.1, h.2⟩⟩

theorem Gives.congr {c c' : Client} {t : Table} (h : c.Gives t) (hsame : c.Same c') :
    c'.Gives t := by
  rw [gives_iff] at h ⊢
  rw [← hsame.1]
  exact h.congr hsame.2

end Client

/-!
## What the steps keep
-/

/-- What is stored is the message of the table that some request compiles to, and was put there
under the build it has. -/
def StoreSound (clients : List Client) (events : List Event) (store : Cache.Store) : Prop :=
  forall u, u ∈ store -> exists c, c ∈ clients ∧ u.key = c.key ∧
    HasPut clients events c u.build ∧ exists t, c.Gives t ∧ u.blob = t.message

/-- What a request carries is the table it compiles to, and what it has from the cache was put. -/
def PhaseSound (clients : List Client) (events : List Event) (c : Client) : Phase -> Prop
  | .received => True
  | .found entry => c.Gives entry.table ∧ HasPut clients events c entry.build
  | .missed => True
  | .compiled t => c.Gives t
  | .faulty _ => True
  | .stored _ t => c.Gives t
  | .answered (.ok r) => c.Gives r.table ∧ (r.cached = true -> HasPut clients events c r.build)
  | .answered (.error _) => True

structure Sound (clients : List Client) (events : List Event) (s : State) : Prop where
  store : forall cache, s.world.cache = some cache -> StoreSound clients events cache.store
  phases : forall (i : Nat) c phase, clients[i]? = some c -> s.phases[i]? = some phase ->
    PhaseSound clients events c phase

theorem PhaseSound.append
    {clients : List Client} {events : List Event} {c : Client} {phase : Phase}
    (h : PhaseSound clients events c phase) (e : Event) :
    PhaseSound clients (events ++ [e]) c phase := by
  cases phase with
  | received => exact h
  | found entry => exact ⟨h.1, h.2.append e⟩
  | missed => exact h
  | compiled t => exact h
  | faulty texts => exact h
  | stored build t => exact h
  | answered answer =>
      cases answer with
      | error refusal => exact h
      | ok r => exact ⟨h.1, fun hcached => (h.2 hcached).append e⟩

theorem StoreSound.append
    {clients : List Client} {events : List Event} {store : Cache.Store}
    (h : StoreSound clients events store) (e : Event) :
    StoreSound clients (events ++ [e]) store := by
  intro u hu
  rcases h u hu with ⟨c, hc, hkey, hput, hrest⟩
  exact ⟨c, hc, hkey, hput.append e, hrest⟩

theorem Client.phaseSound_compiled
    {clients : List Client} {events : List Event} (c : Client) :
    PhaseSound clients events c (compiled c.builtins c.request) := by
  unfold compiled
  dsimp only
  split
  · rename_i herrors htable
    exact ⟨herrors, htable⟩
  · trivial

theorem stored_of_get
    {cache : Cache} {source : List UInt8} {names : List String} {entry : Cache.Found}
    (h : cache.get source names = .ok (some entry)) :
    exists u, u ∈ cache.store ∧ u.key = Cache.key source names ∧ u.build = entry.build ∧
      Format.decode Format.proto.name u.blob = .ok entry.table := by
  unfold Cache.get at h
  split at h
  · cases h
  · cases hfind : cache.store.find? (Cache.key source names) with
    | none =>
        rw [hfind] at h
        cases h
    | some u =>
        rw [hfind] at h
        unfold Cache.Stored.table at h
        dsimp only at h
        cases hdecode : Format.decode Format.proto.name u.blob with
        | error why =>
            rw [hdecode] at h
            cases h
        | ok t =>
            rw [hdecode] at h
            cases h
            refine ⟨u, List.mem_of_find?_eq_some hfind, ?_, rfl, hdecode⟩
            simpa using List.find?_some hfind

theorem phaseSound_lookUp
    {clients : List Client} {events : List Event} {c : Client} {w : World}
    (hadmissible : Admissible clients) (hc : c ∈ clients)
    (hstore : forall cache, w.cache = some cache -> StoreSound clients events cache.store) :
    PhaseSound clients events c (lookUp c.builtins c.request w).1 := by
  unfold lookUp
  cases hcache : w.cache with
  | none => trivial
  | some cache =>
      dsimp only
      cases hget : cache.get (Text.bytes c.request.source) c.builtins with
      | error fault => trivial
      | ok found =>
          cases found with
          | none => trivial
          | some entry =>
              rcases stored_of_get hget with ⟨u, hu, hkey, hbuild, hdecode⟩
              rcases hstore cache hcache u hu with ⟨other, hother, hkey', hput, t, ht, hblob⟩
              have hsame := hadmissible.same_of_key hother hc (hkey'.symm.trans hkey)
              have hregular := (Client.gives_iff.mp ht).regular
              rw [hblob] at hdecode
              have htable : entry.table = t := Table.eq_of_decode_message hregular hdecode
              change c.Gives entry.table ∧ HasPut clients events c entry.build
              rw [htable, ← hbuild]
              exact ⟨ht.congr hsame, hput.of_same hsame⟩

theorem lookUp_cache (builtins : List String) (r : Request) (w : World) :
    (lookUp builtins r w).2.cache = w.cache := by
  unfold lookUp
  split
  · rfl
  · split
    · rfl
    · rfl
    · rfl

theorem keep_cache (builtins : List String) (r : Request) (t : Table) (w : World) :
    (keep builtins r t w).2.cache = w.cache ∨ exists cache found cache', w.cache = some cache ∧
      cache.put w.nextBuild (Text.bytes r.source) builtins t = .ok (found, cache') ∧
      (keep builtins r t w).2.cache = some cache' := by
  unfold keep
  cases hcache : w.cache with
  | none => exact Or.inl rfl
  | some cache =>
      dsimp only
      cases hput : cache.put w.nextBuild (Text.bytes r.source) builtins t with
      | error fault => exact Or.inl rfl
      | ok made => exact Or.inr ⟨cache, made.1, made.2, rfl, hput, rfl⟩

theorem put_eq_ok
    {cache cache' : Cache} {build : Cache.Build} {source : List UInt8} {names : List String}
    {t : Table} {found : Cache.Found} (h : cache.put build source names t = .ok (found, cache')) :
    found.build = build ∧
      cache'.store = cache.store.put ⟨Cache.key source names, build, t.message⟩ := by
  unfold Cache.put at h
  split at h
  · cases h
  · cases h
    exact ⟨rfl, rfl⟩

theorem storeSound_keep
    {clients : List Client} {events : List Event} {i : Nat} {c : Client} {t : Table}
    (hclient : clients[i]? = some c)
    (hphase : (State.after clients events).phases[i]? = some (.compiled t)) (ht : c.Gives t)
    (hstore : forall cache, (State.after clients events).world.cache = some cache ->
      StoreSound clients events cache.store) :
    forall cache, (keep c.builtins c.request t (State.after clients events).world).2.cache =
      some cache -> StoreSound clients (events ++ [.advance i]) cache.store := by
  intro cache hcache
  rcases keep_cache c.builtins c.request t (State.after clients events).world with
    hsame | ⟨before, found, cache', hbefore, hput, hafter⟩
  · rw [hsame] at hcache
    exact (hstore cache hcache).append _
  · rw [hafter] at hcache
    cases hcache
    rcases put_eq_ok hput with ⟨hbuild, hentries⟩
    intro u hu
    rw [hentries, Cache.Store.put] at hu
    rcases List.mem_append.mp hu with hold | hnew
    · exact (hstore before hbefore).append _ u (List.mem_of_mem_filter hold)
    · rcases List.mem_singleton.mp hnew with rfl
      have hputs : c.Puts i (State.after clients events)
          (State.after clients events).world.nextBuild :=
        ⟨t, before, found, cache, hphase, hbefore, hput, hbuild⟩
      refine ⟨c, List.mem_of_getElem? hclient, rfl, ?_, t, ht, rfl⟩
      exact ⟨events, i, [], c, rfl, hclient, ⟨rfl, fun _ => Iff.rfl⟩, hputs⟩

theorem keep_phase (builtins : List String) (r : Request) (t : Table) (w : World) :
    (keep builtins r t w).1 = .stored w.nextBuild t := by
  unfold keep
  dsimp only
  split
  · rfl
  · split
    · rfl
    · rfl

theorem phaseSound_step
    {clients : List Client} {events : List Event} {c : Client} {phase : Phase} {w : World}
    (hadmissible : Admissible clients) (hc : c ∈ clients)
    (hstore : forall cache, w.cache = some cache -> StoreSound clients events cache.store)
    (hphase : PhaseSound clients events c phase) :
    PhaseSound clients events c (step c.builtins c.request phase w).1 := by
  cases phase with
  | received => exact phaseSound_lookUp hadmissible hc hstore
  | found entry => exact ⟨hphase.1, fun _ => hphase.2⟩
  | missed => exact c.phaseSound_compiled
  | compiled t =>
      rw [step, keep_phase]
      exact hphase
  | faulty texts => trivial
  | stored build t => exact ⟨hphase, fun h => nomatch h⟩
  | answered answer => exact hphase

theorem storeSound_step
    {clients : List Client} {events : List Event} {i : Nat} {c : Client} {phase : Phase}
    (hclient : clients[i]? = some c)
    (hphase : (State.after clients events).phases[i]? = some phase)
    (hsound : Sound clients events (State.after clients events)) :
    forall cache, (step c.builtins c.request phase (State.after clients events).world).2.cache =
      some cache -> StoreSound clients (events ++ [.advance i]) cache.store := by
  have hstore := hsound.store
  cases phase with
  | compiled t => exact storeSound_keep hclient hphase (hsound.phases i c _ hclient hphase) hstore
  | received =>
      intro cache hcache
      rw [step, lookUp_cache] at hcache
      exact (hstore cache hcache).append _
  | found entry => exact fun cache hcache => (hstore cache hcache).append _
  | missed => exact fun cache hcache => (hstore cache hcache).append _
  | faulty texts => exact fun cache hcache => (hstore cache hcache).append _
  | stored build t => exact fun cache hcache => (hstore cache hcache).append _
  | answered answer => exact fun cache hcache => (hstore cache hcache).append _

/-!
## What a run keeps
-/

theorem sound_start (clients : List Client) : Sound clients [] (State.start clients) where
  store cache hcache u hu := by
    cases hcache
    exact absurd hu List.not_mem_nil
  phases i c phase _ hphase := by
    have hmem := List.mem_of_getElem? hphase
    rcases List.mem_map.mp hmem with ⟨_, _, rfl⟩
    trivial

theorem Sound.withCache
    {clients : List Client} {events : List Event} {s : State} {f : Cache -> Cache}
    (h : Sound clients events s) (hf : forall cache, (f cache).store = cache.store) (e : Event) :
    Sound clients (events ++ [e]) (s.withCache f) where
  store cache hcache := by
    rcases Option.map_eq_some_iff.mp hcache with ⟨before, hbefore, rfl⟩
    rw [hf]
    exact (h.store before hbefore).append e
  phases i c phase hc hphase := (h.phases i c phase hc hphase).append e

theorem Sound.append
    {clients : List Client} {events : List Event} {s : State} (h : Sound clients events s)
    (e : Event) : Sound clients (events ++ [e]) s where
  store cache hcache := (h.store cache hcache).append e
  phases i c phase hc hphase := (h.phases i c phase hc hphase).append e

theorem sound_advance
    {clients : List Client} {events : List Event} {i : Nat} {c : Client} {phase : Phase}
    (hadmissible : Admissible clients) (h : Sound clients events (State.after clients events))
    (hclient : clients[i]? = some c)
    (hphase : (State.after clients events).phases[i]? = some phase) :
    Sound clients (events ++ [.advance i]) ((State.after clients events).advance i c phase) where
  store := storeSound_step hclient hphase h
  phases j other made hother hmade := by
    unfold State.advance at hmade
    dsimp only at hmade
    by_cases hij : i = j
    · subst hij
      rw [List.getElem?_set_self (List.getElem?_eq_some_iff.mp hphase).1] at hmade
      rw [hclient] at hother
      cases hother
      cases hmade
      have hc := List.mem_of_getElem? hclient
      have hbefore := h.phases i c phase hclient hphase
      exact (phaseSound_step hadmissible hc h.store hbefore).append _
    · rw [List.getElem?_set_ne hij] at hmade
      exact (h.phases j other made hother hmade).append _

theorem sound_next
    {clients : List Client} {events : List Event} (hadmissible : Admissible clients)
    (h : Sound clients events (State.after clients events)) (e : Event) :
    Sound clients (events ++ [e]) ((State.after clients events).next clients e) := by
  cases e with
  | close => exact h.withCache (f := Cache.close) (fun _ => rfl) .close
  | reopen => exact h.withCache (f := Cache.reopen) (fun _ => rfl) .reopen
  | advance i =>
      rw [State.next]
      cases hclient : clients[i]? with
      | none => exact h.append (.advance i)
      | some c =>
          cases hphase : (State.after clients events).phases[i]? with
          | none => exact h.append (.advance i)
          | some phase => exact sound_advance hadmissible h hclient hphase

theorem sound_after
    {clients : List Client} (hadmissible : Admissible clients) (events : List Event) :
    Sound clients events (State.after clients events) := by
  induction events using List.reverseRecOn with
  | nil => exact sound_start clients
  | append_singleton events e ih =>
      rw [State.after_append]
      exact sound_next hadmissible ih e

/-- In every run each answer with a table holds the one that a local compilation gives, and the
build of an answer from the cache is that of an earlier put for the same source and names. -/
theorem answered_of_after
    {clients : List Client} {events : List Event} {i : Nat} {c : Client} {r : Response}
    (hadmissible : Admissible clients) (hclient : clients[i]? = some c)
    (hanswer : (State.after clients events).phases[i]? = some (.answered (.ok r))) :
    (exists t, c.Gives t ∧ r.message.lookup "ir" = some t.toData) ∧
      (r.cached = true -> HasPut clients events c r.build) := by
  have hphase := (sound_after hadmissible events).phases i c _ hclient hanswer
  exact ⟨⟨r.table, hphase.1, rfl⟩, hphase.2⟩

/-!
## Two services with the same names
-/

def sharer : Client :=
  ⟨["lookup", "shout"], ⟨"x = shout 1;", ""⟩⟩

def sharers : List Client :=
  [⟨["shout", "lookup"], ⟨"x = shout 1;", "a.asc"⟩⟩, sharer]

def sharing : List Event :=
  [.advance 0, .advance 0, .advance 0, .close, .reopen]

def sharedTable : Table :=
  [("_0", .number ⟨0x3FF0000000000000⟩), ("x", .call "shout" ["_0"])]

def sharedCache : Cache :=
  ⟨[⟨sharer.key, 1, sharedTable.message⟩], true⟩

theorem admissible_sharers : Admissible sharers where
  delimited c hc name hname := by
    have hnames : forall c, c ∈ sharers -> forall name, name ∈ c.builtins ->
        name = "shout" ∨ name = "lookup" := by
      decide
    rcases hnames c hc name hname with rfl | rfl
    · exact ⟨by decide, by decide⟩
    · exact ⟨by decide, by decide⟩
  collisionFree := by
    have hbytes : forall c, c ∈ sharers ->
        Cache.keyBytes c.source c.builtins = Cache.keyBytes sharer.source sharer.builtins := by
      decide +kernel
    intro c hc c' hc' _
    rw [hbytes c hc, hbytes c' hc']

theorem cache_sharing : (State.after sharers sharing).world.cache = some sharedCache := by
  decide +kernel

theorem compiles_sharer : Compiles sharer.source sharer.builtins sharedTable where
  faultless := List.isEmpty_iff.mp (by decide +kernel)
  lowered := by decide +kernel

theorem get_sharedCache :
    sharedCache.get sharer.source sharer.builtins = .ok (some ⟨sharer.key, 1, sharedTable⟩) := by
  have hfind : sharedCache.store.find? (Cache.key sharer.source sharer.builtins) =
      some ⟨sharer.key, 1, sharedTable.message⟩ :=
    List.find?_cons_of_pos (decide_eq_true rfl)
  have hdecode := Table.decode_message_of_finite compiles_sharer.regular
    (by decide +kernel) (by decide +kernel)
  unfold Cache.get
  rw [hfind]
  unfold Cache.Stored.table
  dsimp only
  rw [hdecode]
  rfl

theorem phase_next
    {clients : List Client} {s : State} {i : Nat} {c : Client} {phase : Phase}
    (hclient : clients[i]? = some c) (hphase : s.phases[i]? = some phase) :
    (s.next clients (.advance i)).phases[i]? =
      some (step c.builtins c.request phase s.world).1 := by
  rw [State.next, hclient, hphase]
  exact List.getElem?_set_self (List.getElem?_eq_some_iff.mp hphase).1

theorem phase_sharing :
    (State.after sharers (sharing ++ [.advance 1] ++ [.advance 1])).phases[1]? =
      some (.answered (.ok ⟨1, true, sharedTable⟩)) := by
  have hlookUp : (lookUp sharer.builtins sharer.request (State.after sharers sharing).world).1 =
      .found ⟨sharer.key, 1, sharedTable⟩ := by
    unfold lookUp
    rw [cache_sharing]
    dsimp only
    rw [show sharedCache.get (Text.bytes sharer.request.source) sharer.builtins = _ from
      get_sharedCache]
  have hfound : (State.after sharers (sharing ++ [.advance 1])).phases[1]? =
      some (.found ⟨sharer.key, 1, sharedTable⟩) := by
    have hreceived : (State.after sharers sharing).phases[1]? = some .received := rfl
    rw [State.after_append, phase_next (c := sharer) rfl hreceived, step, hlookUp]
  rw [State.after_append, phase_next (c := sharer) rfl hfound, step]

theorem answered_of_after_sharing :
    (exists t, sharer.Gives t ∧
      (⟨1, true, sharedTable⟩ : Response).message.lookup "ir" = some t.toData) ∧
      HasPut sharers (sharing ++ [.advance 1] ++ [.advance 1]) sharer 1 := by
  have hanswered := answered_of_after admissible_sharers (i := 1) rfl phase_sharing
  exact ⟨hanswered.1, hanswered.2 rfl⟩

end Service
end DefTable
