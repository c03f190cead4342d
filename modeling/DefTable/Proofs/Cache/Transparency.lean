import DefTable.Proofs.Cache.Key
import DefTable.Proofs.Cache.Store
import DefTable.Proofs.Compilation
import DefTable.Proofs.Table.Json
import Mathlib.Data.List.Induction

/-!
# Compiling with a cache and without

A run of compilations shares one cache, which is empty at the start.  Whatever is found in it was
put there by an earlier call for the same source and the same names, and it is the message of the
table that the source stands for.  If the numbers of the table are finite, the message gives the
table back, and the output is the same as without a cache.  Otherwise the message cannot be read,
and every later call for the same source and names fails.
-/

namespace DefTable
namespace Cli

/-!
## Calls
-/

/-- One compilation on the command line. -/
structure Call where
  setting : Setting
  path : String
  source : List UInt8

namespace Call

def run (call : Call) (cache : Option Cache) :
    Except (List Report) (List UInt8) × Option Cache :=
  call.setting.compileUnit cache call.path call.source

def bytes (call : Call) : List UInt8 :=
  Cache.keyBytes call.source call.setting.builtins

def key (call : Call) : String :=
  Cache.key call.source call.setting.builtins

def Gives (call : Call) (t : Table) : Prop :=
  exists out, call.setting.compile call.path call.source = .ok (t, out)

def Same (call call' : Call) : Prop :=
  call.source = call'.source ∧
    forall name, name ∈ call.setting.builtins <-> name ∈ call'.setting.builtins

/-- An earlier call for the same source and names has left a table with a number that is not
finite. -/
def Spoils (earlier call : Call) : Prop :=
  earlier.Same call ∧ exists t, earlier.Gives t ∧ t.isFinite = false

theorem Gives.compiles
    {call : Call} {t : Table} (h : call.Gives t) :
    Compiles call.source call.setting.builtins t := by
  rcases h with ⟨out, hout⟩
  exact (Setting.compiles_of_compile hout).1

theorem Same.compiles
    {call call' : Call} {t : Table} (h : call.Same call')
    (ht : Compiles call.source call.setting.builtins t) :
    Compiles call'.source call'.setting.builtins t := by
  rcases h with ⟨hsource, hnames⟩
  rw [← hsource]
  exact ht.congr hnames

end Call

def cacheAfter (calls : List Call) : Option Cache :=
  calls.foldl (fun cache call => (call.run cache).2) (some Cache.empty)

/-- What is assumed of a run of calls: names can be told apart in a key, the digests of different
keys differ, and the messages of tables are not longer than a length can say. -/
structure Admissible (calls : List Call) : Prop where
  delimited : forall call, call ∈ calls ->
    forall name, name ∈ call.setting.builtins -> Cache.IsDelimited name
  collisionFree : forall call, call ∈ calls -> forall call', call' ∈ calls ->
    Sha256.digest call.bytes = Sha256.digest call'.bytes -> call.bytes = call'.bytes
  short : forall call, call ∈ calls -> forall t, call.Gives t ->
    t.message.length < Struct.lengthLimit

theorem Admissible.same_of_key
    {calls : List Call} (h : Admissible calls) {call call' : Call} (hcall : call ∈ calls)
    (hcall' : call' ∈ calls) (hkey : call.key = call'.key) : call.Same call' := by
  have hdigest := Cache.key_eq_iff_digest.mp hkey
  have hbytes := h.collisionFree call hcall call' hcall' hdigest
  exact (Cache.keyBytes_eq_iff (h.delimited call hcall) (h.delimited call' hcall')).mp hbytes

theorem Call.Same.key
    {call call' : Call} (h : call.Same call') : call.key = call'.key := by
  rcases h with ⟨hsource, hnames⟩
  unfold Call.key Cache.key Cache.keyBytes
  rw [hsource, Cache.nameSet_eq_iff.mpr hnames]

/-!
## What the cache holds
-/

/-- Everything in the cache was put there by one of the calls, and every call that gave a table
finds something. -/
structure Tracks (calls : List Call) (cache : Cache) : Prop where
  isOpen : cache.isOpen = true
  stored : forall u, u ∈ cache.store -> exists call, call ∈ calls ∧
    exists t, call.Gives t ∧ u.key = call.key ∧ u.blob = t.message
  found : forall call, call ∈ calls -> forall t, call.Gives t ->
    (cache.store.find? call.key).isSome = true

theorem tracks_empty : Tracks [] Cache.empty where
  isOpen := rfl
  stored _ hu := absurd hu List.not_mem_nil
  found _ hcall := absurd hcall List.not_mem_nil

theorem Tracks.unchanged
    {calls : List Call} {cache : Cache} (h : Tracks calls cache) {call : Call}
    (hcall : forall t, call.Gives t -> (cache.store.find? call.key).isSome = true) :
    Tracks (calls ++ [call]) cache where
  isOpen := h.isOpen
  stored u hu := by
    rcases h.stored u hu with ⟨earlier, hearlier, hrest⟩
    exact ⟨earlier, List.mem_append_left _ hearlier, hrest⟩
  found other hother t ht := by
    rcases List.mem_append.mp hother with hold | hnew
    · exact h.found other hold t ht
    · rcases List.mem_singleton.mp hnew with rfl
      exact hcall t ht

theorem Tracks.put
    {calls : List Call} {cache : Cache} (h : Tracks calls cache) {call : Call} {t : Table}
    (ht : call.Gives t) (build : Cache.Build) :
    Tracks (calls ++ [call])
      { cache with store := cache.store.put ⟨call.key, build, t.message⟩ } where
  isOpen := h.isOpen
  stored u hu := by
    rcases List.mem_append.mp hu with hold | hnew
    · rcases h.stored u (List.mem_of_mem_filter hold) with ⟨earlier, hearlier, hrest⟩
      exact ⟨earlier, List.mem_append_left _ hearlier, hrest⟩
    · rcases List.mem_singleton.mp hnew with rfl
      exact ⟨call, List.mem_append_right _ List.mem_cons_self, t, ht, rfl, rfl⟩
  found other hother t' ht' := by
    rw [Cache.Store.find?_put_isSome]
    rcases List.mem_append.mp hother with hold | hnew
    · exact Or.inr (h.found other hold t' ht')
    · rcases List.mem_singleton.mp hnew with rfl
      exact Or.inl rfl

theorem tracks_step
    {calls : List Call} {cache : Cache} (h : Tracks calls cache) (call : Call) :
    Tracks (calls ++ [call]) (call.setting.compileCached cache call.path call.source).2 := by
  unfold Setting.compileCached
  cases hfind : cache.store.find? call.key with
  | some u =>
      have hunchanged : Tracks (calls ++ [call]) cache :=
        h.unchanged fun _ _ => by rw [hfind]; rfl
      rw [Cache.get_of_find_some h.isOpen hfind]
      cases u.table with
      | error fault => exact hunchanged
      | ok t => exact hunchanged
  | none =>
      rw [Cache.get_of_find_none h.isOpen hfind]
      dsimp only
      cases hcompile : call.setting.compile call.path call.source with
      | error reports =>
          refine h.unchanged ?_
          rintro t ⟨out, hout⟩
          rw [hcompile] at hout
          cases hout
      | ok made =>
          rcases made with ⟨t, out⟩
          dsimp only
          rw [Cache.put_of_open h.isOpen]
          exact h.put ⟨out, hcompile⟩ _

theorem tracks_cacheAfter (calls : List Call) :
    exists cache, cacheAfter calls = some cache ∧ Tracks calls cache := by
  induction calls using List.reverseRecOn with
  | nil => exact ⟨Cache.empty, rfl, tracks_empty⟩
  | append_singleton calls call ih =>
      rcases ih with ⟨cache, hcache, htracks⟩
      refine ⟨_, ?_, tracks_step htracks call⟩
      unfold cacheAfter at hcache ⊢
      rw [List.foldl_append, hcache]
      rfl

/-!
## Answers from the cache
-/

theorem run_none (call : Call) :
    (call.run none).1 = (call.setting.compile call.path call.source).map Prod.snd :=
  rfl

theorem run_some (call : Call) (cache : Cache) :
    (call.run (some cache)).1 = (call.setting.compileCached cache call.path call.source).1 :=
  rfl

theorem run_of_find_none
    {call : Call} {cache : Cache} (hopen : cache.isOpen = true)
    (hfind : cache.store.find? call.key = none) :
    (call.run (some cache)).1 = (call.run none).1 := by
  rw [run_some, run_none, Setting.compileCached, Cache.get_of_find_none hopen hfind]
  dsimp only
  cases call.setting.compile call.path call.source with
  | error reports => rfl
  | ok made =>
      dsimp only
      rw [Cache.put_of_open hopen]
      rfl

theorem found_of_tracks
    {before : List Call} {call : Call} {cache : Cache} {u : Cache.Stored}
    (hadmissible : Admissible (before ++ [call])) (htracks : Tracks before cache)
    (hfind : cache.store.find? call.key = some u) :
    exists earlier, earlier ∈ before ∧ earlier.Same call ∧
      exists t, earlier.Gives t ∧ u.blob = t.message := by
  have hkey : u.key = call.key := Cache.Store.key_of_find? hfind
  rcases htracks.stored u (List.mem_of_find?_eq_some hfind) with
    ⟨earlier, hearlier, t, ht, hstored, hblob⟩
  refine ⟨earlier, hearlier, ?_, t, ht, hblob⟩
  apply hadmissible.same_of_key (List.mem_append_left _ hearlier)
    (List.mem_append_right _ List.mem_cons_self)
  rw [← hstored, hkey]

theorem run_of_finite
    {call : Call} {cache : Cache} {u : Cache.Stored} {t : Table}
    (hopen : cache.isOpen = true) (hfind : cache.store.find? call.key = some u)
    (hcompiles : Compiles call.source call.setting.builtins t) (hblob : u.blob = t.message)
    (hlength : t.message.length < Struct.lengthLimit) (hfinite : t.isFinite = true) :
    (call.run (some cache)).1 = (call.run none).1 := by
  have htable : u.table = .ok t := by
    unfold Cache.Stored.table
    rw [hblob, Table.decode_message_of_finite hcompiles.regular hlength hfinite]
    rfl
  have hwritten := Format.emit_isOk_of_finite call.setting.format hfinite
  rw [run_some, run_none, Setting.compileCached, Cache.get_of_find_some hopen hfind, htable]
  cases hemit : call.setting.format.emit t with
  | error fault =>
      rw [hemit] at hwritten
      cases hwritten
  | ok out =>
      rw [Setting.compile_of_compiles hcompiles hemit]
      change (call.setting.format.emit t).mapError _ = _
      rw [hemit]
      rfl

theorem run_of_not_finite
    {call : Call} {cache : Cache} {u : Cache.Stored} {t : Table}
    (hopen : cache.isOpen = true) (hfind : cache.store.find? call.key = some u)
    (hcompiles : Compiles call.source call.setting.builtins t) (hblob : u.blob = t.message)
    (hlength : t.message.length < Struct.lengthLimit) (hfinite : t.isFinite = false) :
    exists message, (call.run (some cache)).1 = .error [.plain message] := by
  rcases Table.decode_message_of_not_finite hcompiles.regular hlength hfinite with ⟨fault, hfault⟩
  have htable : u.table = .error (.unreadable u.key fault) := by
    unfold Cache.Stored.table
    rw [hblob, hfault]
    rfl
  rw [run_some, Setting.compileCached, Cache.get_of_find_some hopen hfind, htable]
  exact ⟨_, rfl⟩

theorem run_none_ne_plain (call : Call) (message : Text) :
    (call.run none).1 ≠ .error [.plain message] := by
  intro h
  rw [run_none] at h
  cases hcompile : call.setting.compile call.path call.source with
  | ok made =>
      rw [hcompile] at h
      cases h
  | error reports =>
      rw [hcompile] at h
      have hreports : reports = [.plain message] := Except.error.inj h
      have hdiagnostic := Setting.diagnostics_of_compile hcompile (.plain message)
        (hreports ▸ List.mem_cons_self)
      cases hdiagnostic

/-!
## Transparency
-/

theorem run_of_not_spoiled
    {before : List Call} {call : Call} (hadmissible : Admissible (before ++ [call]))
    (hspoiled : ¬ exists earlier, earlier ∈ before ∧ earlier.Spoils call) :
    (call.run (cacheAfter before)).1 = (call.run none).1 := by
  rcases tracks_cacheAfter before with ⟨cache, hcache, htracks⟩
  rw [hcache]
  cases hfind : cache.store.find? call.key with
  | none => exact run_of_find_none htracks.isOpen hfind
  | some u =>
      rcases found_of_tracks hadmissible htracks hfind with
        ⟨earlier, hearlier, hsame, t, ht, hblob⟩
      have hlength := hadmissible.short earlier (List.mem_append_left _ hearlier) t ht
      cases hfinite : t.isFinite with
      | true =>
          exact run_of_finite htracks.isOpen hfind (hsame.compiles ht.compiles) hblob hlength
            hfinite
      | false => exact absurd ⟨earlier, hearlier, hsame, t, ht, hfinite⟩ hspoiled

theorem run_of_spoiled
    {before : List Call} {call earlier : Call} (hadmissible : Admissible (before ++ [call]))
    (hearlier : earlier ∈ before) (hspoils : earlier.Spoils call) :
    (call.run (cacheAfter before)).1 ≠ (call.run none).1 := by
  rcases tracks_cacheAfter before with ⟨cache, hcache, htracks⟩
  rcases hspoils with ⟨hsame, t, ht, hfinite⟩
  rw [hcache]
  have hsome := htracks.found earlier hearlier t ht
  rw [hsame.key] at hsome
  cases hfind : cache.store.find? call.key with
  | none =>
      rw [hfind] at hsome
      cases hsome
  | some u =>
      -- What is found may come from another call, but its table is the same.
      rcases found_of_tracks hadmissible htracks hfind with
        ⟨other, hother, hsame', t', ht', hblob⟩
      have hcompiles := hsame.compiles ht.compiles
      have heq : t = t' := hcompiles.unique (hsame'.compiles ht'.compiles) fun _ => Iff.rfl
      subst heq
      have hlength := hadmissible.short other (List.mem_append_left _ hother) t ht'
      rcases run_of_not_finite htracks.isOpen hfind hcompiles hblob hlength hfinite with
        ⟨message, hmessage⟩
      rw [hmessage]
      exact (run_none_ne_plain call message).symm

/-- In every run of calls, each answers as without a cache exactly if no earlier call for the same
source and names has left a table with a number that is not finite. -/
theorem cached_eq_plain_iff
    {before : List Call} {call : Call} (hadmissible : Admissible (before ++ [call])) :
    (call.run (cacheAfter before)).1 = (call.run none).1 <->
      ¬ exists earlier, earlier ∈ before ∧ earlier.Spoils call := by
  constructor
  · rintro heq ⟨earlier, hearlier, hspoils⟩
    exact run_of_spoiled hadmissible hearlier hspoils heq
  · exact run_of_not_spoiled hadmissible

/-!
## One source, compiled twice
-/

theorem admissible_of_compiles
    {calls : List Call} {source : List UInt8} {t : Table}
    (hcalls : forall call, call ∈ calls -> call.source = source ∧ call.setting.builtins = [])
    (hcompiles : Compiles source [] t) (hlength : t.message.length < Struct.lengthLimit) :
    Admissible calls where
  delimited call hcall name hname := by
    rw [(hcalls call hcall).2] at hname
    exact absurd hname List.not_mem_nil
  collisionFree call hcall call' hcall' _ := by
    unfold Call.bytes
    rw [(hcalls call hcall).1, (hcalls call hcall).2, (hcalls call' hcall').1,
      (hcalls call' hcall').2]
  short call hcall t' ht' := by
    have hcompiles' := ht'.compiles
    rw [(hcalls call hcall).1, (hcalls call hcall).2] at hcompiles'
    rw [hcompiles'.unique hcompiles fun _ => Iff.rfl]
    exact hlength

def oneSource : List UInt8 :=
  Text.bytes "x = 1;"

def oneTable : Table :=
  [("x", .number ⟨0x3FF0000000000000⟩)]

theorem compiles_one : Compiles oneSource [] oneTable where
  faultless := List.isEmpty_iff.mp (by decide +kernel)
  lowered := by decide +kernel

theorem cached_eq_plain_iff_one :
    let yaml : Call := ⟨⟨.yaml, []⟩, "", oneSource⟩
    let json : Call := ⟨⟨.json, []⟩, "", oneSource⟩
    yaml.Gives oneTable ∧ (json.run (cacheAfter [yaml])).1 = (json.run none).1 := by
  intro yaml json
  have hadmissible : Admissible ([yaml] ++ [json]) := by
    refine admissible_of_compiles ?_ compiles_one (by decide +kernel)
    intro call hcall
    rcases List.mem_cons.mp hcall with rfl | hjson
    · exact ⟨rfl, rfl⟩
    · rcases List.mem_singleton.mp hjson with rfl
      exact ⟨rfl, rfl⟩
  refine ⟨⟨_, Setting.compile_of_compiles compiles_one rfl⟩, ?_⟩
  refine (cached_eq_plain_iff hadmissible).mpr ?_
  rintro ⟨earlier, hearlier, _, t, ht, hfinite⟩
  rcases List.mem_singleton.mp hearlier with rfl
  rw [ht.compiles.unique compiles_one fun _ => Iff.rfl] at hfinite
  exact absurd hfinite (by decide +kernel)

def infiniteSource : List UInt8 :=
  Text.bytes "x = 1e999;"

def infiniteTable : Table :=
  [("x", .number ⟨0x7FF0000000000000⟩)]

theorem compiles_infinite : Compiles infiniteSource [] infiniteTable where
  faultless := List.isEmpty_iff.mp (by decide +kernel)
  lowered := by decide +kernel

/-- Compiled to YAML a second time, this program fails. -/
theorem cached_ne_plain_infinite :
    let yaml : Call := ⟨⟨.yaml, []⟩, "", infiniteSource⟩
    (exists out, (yaml.run none).1 = .ok out) ∧
      (yaml.run (cacheAfter [yaml])).1 ≠ (yaml.run none).1 := by
  intro yaml
  have hadmissible : Admissible ([yaml] ++ [yaml]) := by
    refine admissible_of_compiles ?_ compiles_infinite (by decide +kernel)
    intro call hcall
    rcases List.mem_cons.mp hcall with rfl | hlast
    · exact ⟨rfl, rfl⟩
    · rcases List.mem_singleton.mp hlast with rfl
      exact ⟨rfl, rfl⟩
  have hcompile := @Setting.compile_of_compiles yaml.setting "" _ _ _ compiles_infinite rfl
  constructor
  · exact ⟨_, congrArg (Except.map Prod.snd) hcompile⟩
  · refine run_of_spoiled hadmissible List.mem_cons_self ⟨⟨rfl, fun _ => Iff.rfl⟩, ?_⟩
    exact ⟨infiniteTable, ⟨_, hcompile⟩, by decide +kernel⟩

end Cli
end DefTable
