import DefTable.Cli.Batch
import DefTable.Proofs.Workspace

/-!
# Batches in any order

The jobs of a batch share the files, and each takes its steps in its own time.  As long as no output
goes where another output or an input is, the order does not matter: the files and the exit code at
the end are those of one job after another.
-/

namespace DefTable
namespace Cli

/-!
## Steps of the jobs
-/

/-- One step of a job, on the desk and in the workspace that all jobs share. -/
def jobStepIn (s : Setting) (file : String) (phase : Phase) (d : Desk) (w : Workspace) :
    ((Phase × Option String) × Desk) × Workspace :=
  ((jobStep (m := StateM Workspace) s file phase).run d).run w

/-- A batch between two steps: how far each job has come, and the first failure to write. -/
structure Batch where
  desk : Desk
  workspace : Workspace
  phases : List Phase
  failure : Option String

namespace Batch

def start (files : List String) (d : Desk) (w : Workspace) : Batch :=
  ⟨d, w, files.map fun _ => .waiting, none⟩

def advance (s : Setting) (b : Batch) (i : Nat) (file : String) (phase : Phase) : Batch :=
  let made := jobStepIn s file phase b.desk b.workspace
  ⟨made.1.2, made.2, b.phases.set i made.1.1.1, b.failure <|> made.1.1.2⟩

def next (s : Setting) (files : List String) (b : Batch) (i : Nat) : Batch :=
  match files[i]?, b.phases[i]? with
  | some file, some phase => b.advance s i file phase
  | _, _ => b

/-- The batch after the jobs have taken steps in the order of the schedule. -/
def after (s : Setting) (files : List String) (b : Batch) (schedule : List Nat) : Batch :=
  schedule.foldl (next s files) b

def IsFinished (b : Batch) : Prop :=
  forall phase, phase ∈ b.phases -> phase = .finished

def code (b : Batch) : Nat :=
  match b.failure with
  | none => b.desk.outcome.code
  | some _ => 1

end Batch

section

variable {s : Setting} {file : String} {d : Desk} {w w' : Workspace}

theorem jobStepIn_waiting
    {source : List UInt8} (h : w.read file = .ok source) :
    jobStepIn s file .waiting d w = (((.loaded source, none), d), w) := by
  have hread : ((readHost (m := StateM Workspace) file).run d).run w = ((.ok source, d), w) := by
    rw [← h]
    rfl
  simp [jobStepIn, jobStep, hread]
  rfl

theorem jobStepIn_loaded_ok
    {source out : List UInt8} {t : Table} (hcache : d.cache = none)
    (h : s.compile file source = .ok (t, out)) :
    jobStepIn s file (.loaded source) d w = (((.compiled out, none), d), w) := by
  have hunit : (compileUnit (m := StateM Workspace) s file source).run d = pure (.ok out, d) := by
    simp [compileUnit, hcache, h, Setting.compileUnit, Except.map]
  simp [jobStepIn, jobStep, hunit]
  rfl

theorem jobStepIn_loaded_error
    {source : List UInt8} {reports : List Report} (hcache : d.cache = none)
    (h : s.compile file source = .error reports) :
    exists d', jobStepIn s file (.loaded source) d w = (((.finished, none), d'), w) ∧
      d'.cache = none ∧ d'.outcome.code = 1 := by
  have hunit : (compileUnit (m := StateM Workspace) s file source).run d =
      pure (.error reports, d) := by
    simp [compileUnit, hcache, h, Setting.compileUnit, Except.map]
  refine ⟨(((reportAll (m := StateM Workspace) reports).run d).run w).1.2, ?_, hcache, rfl⟩
  simp [jobStepIn, jobStep, hunit]
  rfl

theorem jobStepIn_compiled
    {out : List UInt8} (h : w.write (outputPath file s.format) out = .ok w') :
    jobStepIn s file (.compiled out) d w = (((.finished, none), d), w') := by
  have hwrite : ((writeHost (m := StateM Workspace) (outputPath file s.format) out).run d).run w =
      ((.ok (), d), w') := by
    change (Prod.map (fun r => (r, d)) id) ((writeFile (outputPath file s.format) out).run w) = _
    simp [writeFile, h]
    rfl
  simp [jobStepIn, jobStep, hwrite]
  rfl

theorem jobStepIn_finished : jobStepIn s file .finished d w = (((.finished, none), d), w) :=
  rfl

end

/-!
## What the jobs come to
-/

def Gives (s : Setting) (w : Workspace) (file : String) (out : List UInt8) : Prop :=
  exists source t, w.read file = .ok source ∧ s.compile file source = .ok (t, out)

def OutputAt (s : Setting) (w : Workspace) (file : String) (p : List String) : Prop :=
  w.locate (outputPath file s.format) = .ok (.inside p)

theorem Gives.unique
    {s : Setting} {w : Workspace} {file : String} {out out' : List UInt8}
    (h : Gives s w file out) (h' : Gives s w file out') : out = out' := by
  rcases h with ⟨source, t, hread, hcompile⟩
  rcases h' with ⟨source', t', hread', hcompile'⟩
  rw [hread] at hread'
  cases hread'
  rw [hcompile] at hcompile'
  cases hcompile'
  rfl

theorem OutputAt.unique
    {s : Setting} {w : Workspace} {file : String} {p p' : List String}
    (h : OutputAt s w file p) (h' : OutputAt s w file p') : p = p' := by
  unfold OutputAt at h h'
  rw [h] at h'
  cases h'
  rfl

/-- Every file can be read, and the output of every file that compiles can be written. -/
structure Ready (s : Setting) (w : Workspace) (files : List String) : Prop where
  readable : forall file, file ∈ files -> exists source, w.read file = .ok source
  writable : forall file, file ∈ files -> forall out, Gives s w file out ->
    exists w', w.write (outputPath file s.format) out = .ok w'

/-- No output goes where another output or one of the files is. -/
structure Apart (s : Setting) (w : Workspace) (files : List String) : Prop where
  outputs : forall file, file ∈ files -> forall other, other ∈ files -> file ≠ other ->
    forall out out' p p', Gives s w file out -> Gives s w other out' ->
      OutputAt s w file p -> OutputAt s w other p' -> p ≠ p'
  inputs : forall file, file ∈ files -> forall other, other ∈ files ->
    forall out p, Gives s w file out -> OutputAt s w file p -> w.locate other ≠ .ok (.inside p)

/-- The desk and the workspace after the jobs of some files are done and no other has written. -/
structure Done (s : Setting) (w₀ : Workspace) (d₀ : Desk) (done : String -> Prop) (d : Desk)
    (w : Workspace) : Prop where
  shape : w₀.SameShape w
  written : forall file, done file -> forall out p, Gives s w₀ file out ->
    OutputAt s w₀ file p -> w.file? p = some out
  kept : forall p, (forall file, done file -> forall out, Gives s w₀ file out ->
    ¬ OutputAt s w₀ file p) -> w.file? p = w₀.file? p
  cache : d.cache = none
  failed : (exists file, done file ∧ forall out, ¬ Gives s w₀ file out) -> d.outcome.code = 1
  passed : (forall file, done file -> exists out, Gives s w₀ file out) ->
    d.outcome.code = d₀.outcome.code

section

variable {s : Setting} {w₀ w : Workspace} {d₀ d : Desk} {done done' : String -> Prop}
  {files : List String} {file : String}

theorem done_start (hcache : d₀.cache = none) : Done s w₀ d₀ (fun _ => False) d₀ w₀ where
  shape := .refl w₀
  written _ h := h.elim
  kept _ _ := rfl
  cache := hcache
  failed := fun ⟨_, h, _⟩ => h.elim
  passed _ := rfl

theorem Done.congr
    (h : Done s w₀ d₀ done d w) (hsame : forall file, done file <-> done' file) :
    Done s w₀ d₀ done' d w := by
  have heq : done = done' := funext fun file => propext (hsame file)
  exact heq ▸ h

theorem Done.read
    (h : Done s w₀ d₀ done d w) (hready : Ready s w₀ files) (hapart : Apart s w₀ files)
    (hdone : forall file, done file -> file ∈ files) (hfile : file ∈ files) :
    w.read file = w₀.read file := by
  rcases hready.readable file hfile with ⟨source, hsource⟩
  rcases Workspace.read_eq_ok_iff.mp hsource with ⟨p, hp, hbytes⟩
  rw [hsource, Workspace.read_eq_ok_iff]
  refine ⟨p, h.shape.locate hp, ?_⟩
  rw [h.kept p, hbytes]
  intro other hother out hout hat
  exact hapart.inputs other (hdone other hother) file hfile out p hout hat hp

theorem Done.fail
    {d' : Desk} (h : Done s w₀ d₀ done d w) (hcache : d'.cache = none)
    (hcode : d'.outcome.code = 1) (hfile : forall out, ¬ Gives s w₀ file out) :
    Done s w₀ d₀ (fun f => f = file ∨ done f) d' w where
  shape := h.shape
  written other hother out p hout hat := by
    rcases hother with rfl | hother
    · exact absurd hout (hfile out)
    · exact h.written other hother out p hout hat
  kept p hp := h.kept p fun other hother => hp other (Or.inr hother)
  cache := hcache
  failed _ := hcode
  passed hall := by
    rcases hall file (Or.inl rfl) with ⟨out, hout⟩
    exact absurd hout (hfile out)

theorem Done.write
    {out : List UInt8} (h : Done s w₀ d₀ done d w) (hready : Ready s w₀ files)
    (hapart : Apart s w₀ files) (hdone : forall file, done file -> file ∈ files)
    (hfile : file ∈ files) (hout : Gives s w₀ file out) :
    exists w', w.write (outputPath file s.format) out = .ok w' ∧
      Done s w₀ d₀ (fun f => f = file ∨ done f) d w' := by
  rcases hready.writable file hfile out hout with ⟨w₁, hw₁⟩
  rcases Workspace.write_eq_ok_iff.mp hw₁ with ⟨p, hp, hfree, _⟩
  have hlocate := h.shape.locate hp
  have hplace : w.isDirectory p = false := (h.shape.directories p).trans hfree
  refine ⟨w.putFile p out, Workspace.write_eq_ok_iff.mpr ⟨p, hlocate, hplace, rfl⟩, ?_⟩
  have hparent := Workspace.isDirectory_of_locate hlocate
  refine ⟨h.shape.trans (Workspace.sameShape_putFile hparent out), ?_, ?_, h.cache, ?_, ?_⟩
  · intro other hother out' p' hout' hat
    rw [Workspace.file?_putFile]
    by_cases hsame : other = file
    · subst hsame
      rw [if_pos (hat.unique hp), hout.unique hout']
    · have hother := hother.resolve_left hsame
      have hne := hapart.outputs other (hdone other hother) file hfile hsame out' out p' p
        hout' hout hat hp
      rw [if_neg hne]
      exact h.written other hother out' p' hout' hat
  · intro p' hp'
    rw [Workspace.file?_putFile, if_neg ?_]
    · exact h.kept p' fun other hother => hp' other (Or.inr hother)
    · rintro rfl
      exact hp' file (Or.inl rfl) out hout hp
  · rintro ⟨other, rfl | hother, hnone⟩
    · exact absurd hout (hnone out)
    · exact h.failed ⟨other, hother, hnone⟩
  · exact fun hall => h.passed fun other hother => hall other (Or.inr hother)

/-- The same files done, in whatever order, give the same files and the same exit code. -/
theorem Done.agree
    {d' : Desk} {w' : Workspace} (h : Done s w₀ d₀ done d w) (h' : Done s w₀ d₀ done d' w') :
    d.outcome.code = d'.outcome.code ∧ forall p, w.file? p = w'.file? p := by
  constructor
  · by_cases hfailed : exists file, done file ∧ forall out, ¬ Gives s w₀ file out
    · rw [h.failed hfailed, h'.failed hfailed]
    · have hpassed : forall file, done file -> exists out, Gives s w₀ file out := by
        intro file hfile
        by_contra hnone
        exact hfailed ⟨file, hfile, not_exists.mp hnone⟩
      rw [h.passed hpassed, h'.passed hpassed]
  · intro p
    by_cases hwritten : exists file, done file ∧ exists out, Gives s w₀ file out ∧
        OutputAt s w₀ file p
    · rcases hwritten with ⟨file, hfile, out, hout, hat⟩
      rw [h.written file hfile out p hout hat, h'.written file hfile out p hout hat]
    · have hkept : forall file, done file -> forall out, Gives s w₀ file out ->
          ¬ OutputAt s w₀ file p :=
        fun file hfile out hout hat => hwritten ⟨file, hfile, out, hout, hat⟩
      rw [h.kept p hkept, h'.kept p hkept]

/-!
## One step
-/

def Reached (s : Setting) (w₀ : Workspace) (file : String) : Phase -> Prop
  | .waiting => True
  | .loaded source => w₀.read file = .ok source
  | .compiled out => Gives s w₀ file out
  | .finished => True

def Phase.remaining : Phase -> Nat
  | .waiting => 3
  | .loaded _ => 2
  | .compiled _ => 1
  | .finished => 0

def With (done : String -> Prop) (file : String) (phase : Phase) : String -> Prop :=
  fun f => f = file ∧ phase = .finished ∨ done f

theorem Done.with_unfinished
    {phase : Phase} (hphase : phase ≠ .finished) :
    Done s w₀ d₀ (With done file phase) d w <-> Done s w₀ d₀ done d w := by
  have hsame : forall f, With done file phase f <-> done f := fun f =>
    or_iff_right fun h => hphase h.2
  exact ⟨fun h => h.congr hsame, fun h => h.congr fun f => (hsame f).symm⟩

theorem Done.with_finished :
    Done s w₀ d₀ (With done file .finished) d w <->
      Done s w₀ d₀ (fun f => f = file ∨ done f) d w := by
  have hsame : forall f, With done file .finished f <-> f = file ∨ done f := fun f =>
    or_congr_left (and_iff_left rfl)
  exact ⟨fun h => h.congr hsame, fun h => h.congr fun f => (hsame f).symm⟩

theorem Done.step
    {phase : Phase} (h : Done s w₀ d₀ (With done file phase) d w) (hready : Ready s w₀ files)
    (hapart : Apart s w₀ files) (hdone : forall f, done f -> f ∈ files) (hfile : file ∈ files)
    (hreached : Reached s w₀ file phase) :
    exists phase' d' w', jobStepIn s file phase d w = (((phase', none), d'), w') ∧
      phase'.remaining ≤ phase.remaining - 1 ∧ Reached s w₀ file phase' ∧
      Done s w₀ d₀ (With done file phase') d' w' := by
  cases phase with
  | waiting =>
      rw [Done.with_unfinished (by simp)] at h
      rcases hready.readable file hfile with ⟨source, hsource⟩
      have hread := (h.read hready hapart hdone hfile).trans hsource
      refine ⟨.loaded source, d, w, jobStepIn_waiting hread, Nat.le_refl _, hsource, ?_⟩
      exact (Done.with_unfinished (by simp)).mpr h
  | loaded source =>
      rw [Done.with_unfinished (by simp)] at h
      cases hcompile : s.compile file source with
      | ok made =>
          rcases made with ⟨t, out⟩
          refine ⟨.compiled out, d, w, jobStepIn_loaded_ok h.cache hcompile, Nat.le_refl _,
            ⟨source, t, hreached, hcompile⟩, ?_⟩
          exact (Done.with_unfinished (by simp)).mpr h
      | error reports =>
          have hnone : forall out, ¬ Gives s w₀ file out := by
            rintro out ⟨source', t, hsource', hcompile'⟩
            rw [show w₀.read file = .ok source from hreached] at hsource'
            cases hsource'
            rw [hcompile] at hcompile'
            cases hcompile'
          rcases jobStepIn_loaded_error (w := w) h.cache hcompile with ⟨d', hstep, hcache, hcode⟩
          refine ⟨.finished, d', w, hstep, Nat.zero_le _, trivial, ?_⟩
          exact Done.with_finished.mpr (h.fail hcache hcode hnone)
  | compiled out =>
      rw [Done.with_unfinished (by simp)] at h
      rcases h.write hready hapart hdone hfile hreached with ⟨w', hwrite, hafter⟩
      refine ⟨.finished, d, w', jobStepIn_compiled hwrite, Nat.zero_le _, trivial, ?_⟩
      exact Done.with_finished.mpr hafter
  | finished => exact ⟨.finished, d, w, jobStepIn_finished, Nat.zero_le _, trivial, h⟩

/-!
## One job after another
-/

theorem jobSteps_succ
    {n : Nat} {phase phase' : Phase} {d' : Desk} {w' : Workspace}
    (h : jobStepIn s file phase d w = (((phase', none), d'), w')) :
    ((jobSteps (m := StateM Workspace) s file (n + 1) phase).run d).run w =
      ((jobSteps (m := StateM Workspace) s file n phase').run d').run w' := by
  unfold jobStepIn at h
  simp [jobSteps, h]
  rfl

theorem Done.jobSteps
    {n : Nat} {phase : Phase} (hn : phase.remaining ≤ n)
    (h : Done s w₀ d₀ (With done file phase) d w) (hready : Ready s w₀ files)
    (hapart : Apart s w₀ files) (hdone : forall f, done f -> f ∈ files) (hfile : file ∈ files)
    (hreached : Reached s w₀ file phase) :
    exists d' w', ((jobSteps (m := StateM Workspace) s file n phase).run d).run w =
        ((none, d'), w') ∧ Done s w₀ d₀ (fun f => f = file ∨ done f) d' w' := by
  induction n generalizing phase d w with
  | zero =>
      have hfinished : phase = .finished := by
        cases phase with
        | finished => rfl
        | _ => exact absurd hn (by simp [Phase.remaining])
      rw [hfinished] at h
      exact ⟨d, w, rfl, Done.with_finished.mp h⟩
  | succ n ih =>
      rcases h.step hready hapart hdone hfile hreached with
        ⟨phase', d', w', hstep, hless, hreached', hdone'⟩
      rw [jobSteps_succ hstep]
      exact ih (by omega) hdone' hreached'

theorem runJobs_cons
    {rest : List String} {d' : Desk} {w' : Workspace}
    (h : ((jobSteps (m := StateM Workspace) s file jobLength .waiting).run d).run w =
      ((none, d'), w')) :
    ((runJobs (m := StateM Workspace) s (file :: rest)).run d).run w =
      ((runJobs (m := StateM Workspace) s rest).run d').run w' := by
  simp [runJobs, h]
  rfl

theorem Done.runJobs
    {rest : List String} (h : Done s w₀ d₀ done d w) (hready : Ready s w₀ files)
    (hapart : Apart s w₀ files) (hdone : forall f, done f -> f ∈ files)
    (hrest : forall f, f ∈ rest -> f ∈ files) :
    exists d' w', ((runJobs (m := StateM Workspace) s rest).run d).run w = ((none, d'), w') ∧
      Done s w₀ d₀ (fun f => f ∈ rest ∨ done f) d' w' := by
  induction rest generalizing done d w with
  | nil => exact ⟨d, w, rfl, h.congr fun f => by simp⟩
  | cons file rest ih =>
      rw [List.forall_mem_cons] at hrest
      have hwaiting : Done s w₀ d₀ (With done file .waiting) d w :=
        (Done.with_unfinished (by simp)).mpr h
      rcases Done.jobSteps (n := jobLength) (Nat.le_refl _) hwaiting hready hapart hdone hrest.1
        trivial with ⟨d', w', hjob, hafter⟩
      have hdone' : forall f, f = file ∨ done f -> f ∈ files := by
        rintro f (rfl | hf)
        · exact hrest.1
        · exact hdone f hf
      rcases ih hafter hdone' hrest.2 with ⟨d'', w'', hjobs, hall⟩
      refine ⟨d'', w'', (runJobs_cons hjob).trans hjobs, hall.congr fun f => ?_⟩
      rw [List.mem_cons, or_left_comm, or_assoc]

theorem done_compileBatch
    (hcache : d₀.cache = none) (hready : Ready s w₀ files) (hapart : Apart s w₀ files) :
    exists d w, ((compileBatch (m := StateM Workspace) s files).run d₀).run w₀ = (((), d), w) ∧
      Done s w₀ d₀ (· ∈ files) d w := by
  rcases Done.runJobs (done_start hcache) hready hapart (fun _ h => h.elim) fun _ h => h with
    ⟨d, w, hjobs, hdone⟩
  refine ⟨d, w, ?_, hdone.congr fun f => or_iff_left not_false⟩
  simp [compileBatch, hjobs]
  rfl

/-!
## Jobs side by side
-/

def Batch.Finished (b : Batch) (files : List String) (f : String) : Prop :=
  exists i : Nat, files[i]? = some f ∧ b.phases[i]? = some .finished

/-- Between two steps of a batch the finished files are done, and no other file is. -/
structure Batch.Sound (s : Setting) (w₀ : Workspace) (d₀ : Desk) (files : List String)
    (b : Batch) : Prop where
  length_eq : b.phases.length = files.length
  reached : forall (i : Nat) f phase, files[i]? = some f -> b.phases[i]? = some phase ->
    Reached s w₀ f phase
  done : Done s w₀ d₀ (b.Finished files) b.desk b.workspace
  failure : b.failure = none

theorem Batch.Finished.mem {b : Batch} {f : String} (h : b.Finished files f) : f ∈ files := by
  rcases h with ⟨i, hi, _⟩
  exact List.mem_of_getElem? hi

theorem Batch.sound_start (hcache : d₀.cache = none) :
    (Batch.start files d₀ w₀).Sound s w₀ d₀ files where
  length_eq := List.length_map _
  reached i f phase _ hphase := by
    rcases List.mem_map.mp (List.mem_of_getElem? hphase) with ⟨_, _, rfl⟩
    trivial
  done := (done_start hcache).congr fun f => by
    refine iff_of_false not_false ?_
    rintro ⟨i, _, hphase⟩
    rcases List.mem_map.mp (List.mem_of_getElem? hphase) with ⟨_, _, hwaiting⟩
    cases hwaiting
  failure := rfl

theorem finished_set
    {phases : List Phase} {i : Nat} {phase : Phase} (hfile : files[i]? = some file)
    (hlength : i < phases.length) (f : String) :
    With (fun f => exists j : Nat, j ≠ i ∧ files[j]? = some f ∧ phases[j]? = some .finished) file phase f
      <-> exists j : Nat, files[j]? = some f ∧ (phases.set i phase)[j]? = some .finished := by
  constructor
  · rintro (⟨rfl, rfl⟩ | ⟨j, hj, hf, hphase⟩)
    · exact ⟨i, hfile, List.getElem?_set_self hlength⟩
    · exact ⟨j, hf, (List.getElem?_set_ne (Ne.symm hj)).trans hphase⟩
  · rintro ⟨j, hf, hphase⟩
    by_cases hj : j = i
    · subst hj
      rw [List.getElem?_set_self hlength] at hphase
      rw [hfile] at hf
      exact Or.inl ⟨(Option.some.inj hf).symm, Option.some.inj hphase⟩
    · rw [List.getElem?_set_ne (Ne.symm hj)] at hphase
      exact Or.inr ⟨j, hj, hf, hphase⟩

theorem Batch.sound_advance
    {b : Batch} {i : Nat} {phase : Phase} (hready : Ready s w₀ files) (hapart : Apart s w₀ files)
    (h : b.Sound s w₀ d₀ files) (hfile : files[i]? = some file)
    (hphase : b.phases[i]? = some phase) : (b.advance s i file phase).Sound s w₀ d₀ files := by
  have hlength : i < b.phases.length := (List.getElem?_eq_some_iff.mp hphase).1
  have hmem := List.mem_of_getElem? hfile
  have hsame : b.phases.set i phase = b.phases := by
    rw [← (List.getElem?_eq_some_iff.mp hphase).2]
    exact List.set_getElem_self hlength
  have hbefore : Done s w₀ d₀ (With (fun f => exists j : Nat, j ≠ i ∧ files[j]? = some f ∧
      b.phases[j]? = some .finished) file phase) b.desk b.workspace := by
    refine h.done.congr fun f => ?_
    rw [finished_set hfile hlength, hsame]
    rfl
  have hothers : forall f, (exists j : Nat, j ≠ i ∧ files[j]? = some f ∧
      b.phases[j]? = some .finished) -> f ∈ files :=
    fun f ⟨j, _, hj, _⟩ => List.mem_of_getElem? hj
  rcases hbefore.step hready hapart hothers hmem (h.reached i file phase hfile hphase) with
    ⟨phase', d', w', hstep, _, hreached, hdone⟩
  unfold Batch.advance
  rw [hstep]
  refine ⟨?_, ?_, ?_, ?_⟩
  · rw [List.length_set]
    exact h.length_eq
  · intro j f made hf hmade
    by_cases hj : i = j
    · subst hj
      rw [List.getElem?_set_self hlength] at hmade
      rw [hfile] at hf
      cases hf
      cases hmade
      exact hreached
    · rw [List.getElem?_set_ne hj] at hmade
      exact h.reached j f made hf hmade
  · exact hdone.congr fun f => finished_set hfile hlength f
  · rw [h.failure]
    rfl

theorem Batch.sound_after
    {b : Batch} (hready : Ready s w₀ files) (hapart : Apart s w₀ files)
    (h : b.Sound s w₀ d₀ files) (schedule : List Nat) :
    (b.after s files schedule).Sound s w₀ d₀ files := by
  induction schedule generalizing b with
  | nil => exact h
  | cons i schedule ih =>
      refine ih ?_
      unfold Batch.next
      cases hfile : files[i]? with
      | none => exact h
      | some file =>
          cases hphase : b.phases[i]? with
          | none => exact h
          | some phase => exact Batch.sound_advance hready hapart h hfile hphase

theorem Batch.Sound.done_of_isFinished
    {b : Batch} (h : b.Sound s w₀ d₀ files) (hfinished : b.IsFinished) :
    Done s w₀ d₀ (· ∈ files) b.desk b.workspace := by
  refine h.done.congr fun f => ⟨Batch.Finished.mem, fun hf => ?_⟩
  rcases List.mem_iff_getElem?.mp hf with ⟨i, hi⟩
  have hlength : i < b.phases.length := by
    rw [h.length_eq]
    exact (List.getElem?_eq_some_iff.mp hi).1
  refine ⟨i, hi, ?_⟩
  rw [List.getElem?_eq_getElem hlength, hfinished _ (List.getElem_mem hlength)]

/-- If no output goes where another output or an input is, then in whatever order the jobs take
their steps, the files and the exit code at the end are those of one job after another, every source
that compiles has its output, and every source is as it was. -/
theorem after_eq_compileBatch
    {schedule : List Nat} (hcache : d₀.cache = none) (hready : Ready s w₀ files)
    (hapart : Apart s w₀ files)
    (hfinished : ((Batch.start files d₀ w₀).after s files schedule).IsFinished) :
    let b := (Batch.start files d₀ w₀).after s files schedule
    let ordered := ((compileBatch (m := StateM Workspace) s files).run d₀).run w₀
    (b.code = ordered.1.2.outcome.code ∧ forall p, b.workspace.file? p = ordered.2.file? p) ∧
      (forall file, file ∈ files -> forall out, Gives s w₀ file out ->
        b.workspace.read (outputPath file s.format) = .ok out) ∧
      forall file, file ∈ files -> b.workspace.read file = w₀.read file := by
  intro b ordered
  have hsound := Batch.sound_after hready hapart (Batch.sound_start (s := s) hcache) schedule
  have hdone := hsound.done_of_isFinished hfinished
  rcases done_compileBatch hcache hready hapart with ⟨d, w, hordered, hdone'⟩
  have hcode : b.code = b.desk.outcome.code := by
    unfold Batch.code
    rw [show b.failure = none from hsound.failure]
  refine ⟨?_, ?_, ?_⟩
  · rw [hcode, show ordered = (((), d), w) from hordered]
    exact hdone.agree hdone'
  · intro file hfile out hout
    rcases hready.writable file hfile out hout with ⟨w₁, hw₁⟩
    rcases Workspace.write_eq_ok_iff.mp hw₁ with ⟨p, hp, _, _⟩
    rw [Workspace.read_eq_ok_iff]
    exact ⟨p, hdone.shape.locate hp, hdone.written file hfile out p hout hp⟩
  · exact fun file hfile => hdone.read hready hapart (fun _ h => h) hfile

/-!
## Batches that are told by their paths
-/

/-- The outputs of all files, whether they compile or not, go to places where no directory is. -/
structure Placed (s : Setting) (w : Workspace) (files : List String)
    (place : String -> List String) : Prop where
  at_place : forall file, file ∈ files -> OutputAt s w file (place file)
  free : forall file, file ∈ files -> w.isDirectory (place file) = false

theorem Placed.ready
    {place : String -> List String} (h : Placed s w files place)
    (hread : forall file, file ∈ files -> (w.read file).isOk = true) : Ready s w files where
  readable file hfile := by
    have hok := hread file hfile
    cases hsource : w.read file with
    | ok source => exact ⟨source, rfl⟩
    | error failure =>
        rw [hsource] at hok
        cases hok
  writable file hfile out _ :=
    ⟨_, Workspace.write_eq_ok_iff.mpr ⟨place file, h.at_place file hfile, h.free file hfile, rfl⟩⟩

theorem Placed.apart
    {place : String -> List String} (h : Placed s w files place)
    (houtputs : forall file, file ∈ files -> forall other, other ∈ files -> file ≠ other ->
      place file ≠ place other)
    (hinputs : forall file, file ∈ files -> forall other, other ∈ files ->
      w.locate other ≠ .ok (.inside (place file))) : Apart s w files where
  outputs file hfile other hother hne _ _ p p' _ _ hp hp' := by
    rw [hp.unique (h.at_place file hfile), hp'.unique (h.at_place other hother)]
    exact houtputs file hfile other hother hne
  inputs file hfile other hother _ p _ hp := by
    rw [hp.unique (h.at_place file hfile)]
    exact hinputs file hfile other hother

end

/-!
## Two sources, of which one does not compile
-/

def plainSetting : Setting := ⟨.json, []⟩

def freshDesk : Desk := ⟨⟨0, [], []⟩, none⟩

def twoSources : Workspace :=
  .ofFiles "/work" [("a.asc", Text.bytes "x = 1;"), ("b.asc", Text.bytes "y = z;")]

def twoFiles : List String := ["a.asc", "b.asc"]

def twoSteps : List Nat := [1, 0, 0, 1, 0]

def besides (file : String) : List String :=
  [outputPath file .json]

theorem placed_two : Placed plainSetting twoSources twoFiles besides where
  at_place := by
    unfold OutputAt
    decide +kernel
  free := by decide +kernel

theorem gives_two : exists out, Gives plainSetting twoSources "a.asc" out := by
  have hok : (plainSetting.compile "a.asc" (Text.bytes "x = 1;")).isOk = true := by
    decide +kernel
  cases hcompile : plainSetting.compile "a.asc" (Text.bytes "x = 1;") with
  | error reports =>
      rw [hcompile] at hok
      cases hok
  | ok made => exact ⟨made.2, Text.bytes "x = 1;", made.1, by decide +kernel, hcompile⟩

theorem after_eq_compileBatch_two :
    let b := (Batch.start twoFiles freshDesk twoSources).after plainSetting twoFiles twoSteps
    let ordered := ((compileBatch (m := StateM Workspace) plainSetting twoFiles).run freshDesk).run
      twoSources
    (b.code = ordered.1.2.outcome.code ∧ forall p, b.workspace.file? p = ordered.2.file? p) ∧
      (exists out, b.workspace.read (outputPath "a.asc" .json) = .ok out) ∧
      b.workspace.read "b.asc" = twoSources.read "b.asc" := by
  intro b ordered
  have hready := placed_two.ready (by decide +kernel)
  have hapart := placed_two.apart (by decide +kernel) (by decide +kernel)
  have hfinished : b.IsFinished := by
    unfold Batch.IsFinished
    decide +kernel
  have hcache : freshDesk.cache = none := rfl
  have hall := after_eq_compileBatch hcache hready hapart hfinished
  rcases gives_two with ⟨out, hout⟩
  refine ⟨hall.1, ⟨out, ?_⟩, ?_⟩
  · exact hall.2.1 "a.asc" (by decide) out hout
  · exact hall.2.2 "b.asc" (by decide)

/-!
## A source where its own output goes
-/

def coveredSources : Workspace :=
  .ofFiles "/work" [("a.json", Text.bytes "x = 1;"), ("b.asc", Text.bytes "y = 2;")]

def coveredFiles : List String := ["a.json", "b.asc"]

theorem placed_covered : Placed plainSetting coveredSources coveredFiles besides where
  at_place := by
    unfold OutputAt
    decide +kernel
  free := by decide +kernel

/-- Nothing fails, but the first source is replaced by its own output. -/
theorem compileBatch_replaces_source :
    coveredFiles.Nodup ∧ Ready plainSetting coveredSources coveredFiles ∧
      let ordered := ((compileBatch (m := StateM Workspace) plainSetting coveredFiles).run
        freshDesk).run coveredSources
      ordered.1.2.outcome.code = 0 ∧ ordered.2.file? ["a.json"] ≠ coveredSources.file? ["a.json"] := by
  refine ⟨by decide, placed_covered.ready (by decide +kernel), ?_, ?_⟩
  · decide +kernel
  · decide +kernel

end Cli
end DefTable
