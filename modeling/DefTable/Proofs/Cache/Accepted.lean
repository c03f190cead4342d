import DefTable.Compile
import DefTable.Config
import DefTable.Proofs.Cache.Key
import DefTable.Proofs.Grammar.Sound
import DefTable.Proofs.Lowering.NameSets

/-!
# Keys under a configuration

A configuration accepts every list of names that are neither empty nor global nor standard builtins
and do not repeat.  Among names without a zero byte the bytes of a key tell apart everything that a
compilation depends on: equal bytes mean the same source and the same set of names, and then every
program is lowered alike.  A configuration also accepts a name with a zero byte in it, which ends
like two names do.
-/

namespace DefTable
namespace Config

/-- A name that can be in a list of builtins, whatever else is there. -/
structure Admits (name : String) : Prop where
  nonempty : name ≠ ""
  notGlobal : isGlobal name = false
  notStandard : Builtin.contains name = false

theorem nameFault?_eq_none_iff {before : List String} {name : String} :
    nameFault? before name = none <-> Admits name ∧ name ∉ before := by
  unfold nameFault?
  split
  · rename_i hempty
    exact iff_of_false nofun fun h => h.1.nonempty hempty
  · rename_i hnonempty
    split
    · rename_i hglobal
      refine iff_of_false nofun fun h => ?_
      rw [h.1.notGlobal] at hglobal
      cases hglobal
    · rename_i hglobal
      split
      · rename_i first hfirst
        have hmem : name ∈ before := by
          rcases List.findIdx?_eq_some_iff_getElem.mp hfirst with ⟨hlt, heq, _⟩
          exact of_decide_eq_true heq ▸ List.getElem_mem hlt
        exact iff_of_false nofun fun h => h.2 hmem
      · rename_i hnone
        have hfresh : name ∉ before := by
          intro hmem
          exact Bool.false_ne_true
            ((List.findIdx?_eq_none_iff.mp hnone name hmem).symm.trans (decide_eq_true rfl))
        split
        · rename_i hstandard
          refine iff_of_false nofun fun h => ?_
          rw [h.1.notStandard] at hstandard
          cases hstandard
        · rename_i hstandard
          exact iff_of_true rfl ⟨⟨hnonempty, Bool.eq_false_of_not_eq_true hglobal,
            Bool.eq_false_of_not_eq_true hstandard⟩, hfresh⟩

theorem checkNames_eq_ok_iff {before names : List String} :
    checkNames before names = .ok () <->
      (forall name, name ∈ names -> Admits name ∧ name ∉ before) ∧ names.Nodup := by
  induction names generalizing before with
  | nil => simp [checkNames]
  | cons name names ih =>
      rw [checkNames, List.forall_mem_cons, List.nodup_cons, ← nameFault?_eq_none_iff]
      cases hfault : nameFault? before name with
      | some fault => exact iff_of_false nofun fun h => nomatch h.1.1
      | none =>
          dsimp only
          rw [ih]
          constructor
          · rintro ⟨hlater, hnodup⟩
            refine ⟨⟨rfl, fun n hn => ?_⟩, fun hmem => ?_, hnodup⟩
            · exact ⟨(hlater n hn).1, fun h => (hlater n hn).2 (List.mem_append_left _ h)⟩
            · exact (hlater name hmem).2 (List.mem_append_right _ List.mem_cons_self)
          · rintro ⟨⟨_, hlater⟩, hfresh, hnodup⟩
            refine ⟨fun n hn => ⟨(hlater n hn).1, fun h => ?_⟩, hnodup⟩
            rcases List.mem_append.mp h with hbefore | hself
            · exact (hlater n hn).2 hbefore
            · exact hfresh (List.mem_singleton.mp hself ▸ hn)

/-- The list passes the checks of a configuration. -/
def Accepts (names : List String) : Prop :=
  checkNames [] names = .ok ()

instance (names : List String) : Decidable (Accepts names) :=
  inferInstanceAs (Decidable (checkNames [] names = .ok ()))

theorem Accepts.admits {names : List String} (h : Accepts names) :
    forall name, name ∈ names -> Admits name :=
  fun name hname => ((checkNames_eq_ok_iff.mp h).1 name hname).1

theorem accepts_of_read {t : Text} {c : Config} (h : Config.read t = .ok c) :
    Accepts c.builtins := by
  rcases Grammar.bind_ok h with ⟨w, _, hwritten⟩
  rcases Grammar.bind_ok hwritten with ⟨requires, _, hrequires⟩
  rcases Grammar.bind_ok hrequires with ⟨format, _, hformat⟩
  rcases Grammar.bind_ok hformat with ⟨_, hnames, hconfig⟩
  cases hconfig
  exact hnames

end Config

namespace Cache

open Config (Accepts)

/-- The bytes of a key are equal exactly for one source and one set of names, and then the names make
no difference to any program. -/
theorem keyBytes_eq_iff_of_accepts
    {source source' : List UInt8} {names names' : List String}
    (h : Accepts names) (h' : Accepts names')
    (hzero : forall name, name ∈ names -> '\x00' ∉ name.toList)
    (hzero' : forall name, name ∈ names' -> '\x00' ∉ name.toList) :
    (keyBytes source names = keyBytes source' names' <->
        source = source' ∧ forall name, name ∈ names <-> name ∈ names') ∧
      (keyBytes source names = keyBytes source' names' ->
        forall p : Program, p.lower names = p.lower names') := by
  have hiff : keyBytes source names = keyBytes source' names' <->
      source = source' ∧ forall name, name ∈ names <-> name ∈ names' :=
    keyBytes_eq_iff (fun name hname => ⟨(h.admits name hname).nonempty, hzero name hname⟩)
      (fun name hname => ⟨(h'.admits name hname).nonempty, hzero' name hname⟩)
  exact ⟨hiff, fun hbytes p => p.lower_congr (hiff.mp hbytes).2⟩

theorem keyBytes_eq_iff_of_accepts_exchanged :
    Accepts ["b", "a"] ∧ Accepts ["a", "b"] ∧
      keyBytes [0x78] ["b", "a"] = keyBytes [0x78] ["a", "b"] ∧
      forall p : Program, p.lower ["b", "a"] = p.lower ["a", "b"] := by
  have hba : Accepts ["b", "a"] := by decide +kernel
  have hab : Accepts ["a", "b"] := by decide +kernel
  rcases @keyBytes_eq_iff_of_accepts [0x78] [0x78] _ _ hba hab (by decide) (by decide) with
    ⟨hiff, hlower⟩
  have hbytes := hiff.mpr ⟨rfl, fun name => by simp [or_comm]⟩
  exact ⟨hba, hab, hbytes, hlower hbytes⟩

def applied : List UInt8 :=
  Text.bytes (Text.ofString "x = a b;")

/-- The name `a`, a zero byte and `b` is accepted and ends like the names `a` and `b`, although a
program that compiles under the two names does not compile under the one. -/
theorem keyBytes_zero_in_name :
    Accepts ["a\x00b"] ∧ Accepts ["a", "b"] ∧
      keyBytes applied ["a\x00b"] = keyBytes applied ["a", "b"] ∧
      ¬ (forall name, name ∈ ["a\x00b"] <-> name ∈ ["a", "b"]) ∧
      (compile none "" (Text.decode applied) ["a", "b"]).errors = [] ∧
      (compile none "" (Text.decode applied) ["a\x00b"]).errors ≠ [] := by
  refine ⟨by decide +kernel, by decide +kernel, by decide +kernel, fun hsame => ?_,
    by decide +kernel, by decide +kernel⟩
  exact absurd ((hsame "a").mpr (by decide)) (by decide)

end Cache
end DefTable
