import Pgokf.Web.Serial

/-! # Uploads below the editor role add documents and replace none

An upload looks at its paths before it takes the lock. -/

namespace Pgokf.Web

open Pgokf.Lib Pgokf.Documents

section Owed

variable {τ : Type}

/-- The paths a guarded upload has found free and has yet to write. -/
def Phase.owes : Phase τ → List Text
  | .pending job free _ => if job.guarded then free else []
  | .holding job => job.toCheck
  | .loaded job _ => job.toCheck
  | .writing job left => if job.guarded then left.puts.map Prod.fst else []
  | _ => []

def Phase.job : Phase τ → Option (Job τ)
  | .loaded job _ => some job
  | .writing job _ => some job
  | _ => none

def Label.writer : Label τ → Option Nat
  | .write i => some i
  | _ => none

namespace World

def written (w : World τ) : Label τ → List Text
  | .write i =>
    match w.phase i with
    | .loaded job _ => job.change.puts.map Prod.fst
    | .writing _ ⟨p :: _, _⟩ => [p.1]
    | _ => []
  | _ => []

/-- What a guarded upload into a directory still owes after the step that writes one of its files. -/
def ownRest (w : World τ) : Label τ → List Text
  | .write i =>
    match w.phase i with
    | .writing job ⟨_ :: puts, _⟩ => if job.guarded then puts.map Prod.fst else []
    | _ => []
  | _ => []

/-- No document is put at a path that a guarded upload has found free and has yet to write. -/
def Quiet (w : World τ) (l : Label τ) : Prop :=
  ∀ path ∈ w.written l,
    path ∉ w.ownRest l ∧ ∀ j, l.writer ≠ some j → path ∉ (w.phase j).owes

end World

/-- What holds of a guarded upload under way in a store with these files. -/
def Phase.GuardOk (files : Files τ) (p : Phase τ) : Prop :=
  (∀ path ∈ p.owes, OrderedMap.get files path = none) ∧
    match p with
    | .pending job free left => job.guarded = true → job.toCheck = free ++ left
    | .writing job left => job.guarded = true → left.removals = []
    | _ => True

variable {files : Files τ}

theorem Phase.GuardOk.of_files {files' : Files τ} {p : Phase τ} (h : p.GuardOk files)
    (hfiles : ∀ path ∈ p.owes, OrderedMap.get files path = none → OrderedMap.get files' path = none) :
    p.GuardOk files' :=
  ⟨fun path hpath => hfiles path hpath (h.1 path hpath), h.2⟩

namespace Phase.GuardOk

variable {files : Files τ} {job : Job τ}

variable {free : List Text}

theorem found {left : List Text} {path : Text}
    (h : (Phase.pending job free (path :: left)).GuardOk files)
    (hfree : OrderedMap.get files path = none) :
    (Phase.pending job (free ++ [path]) left).GuardOk files := by
  refine ⟨?_, fun hguarded => by simpa using h.2 hguarded⟩
  intro path' hpath
  by_cases hguarded : job.guarded = true
  · simp only [owes, hguarded, if_true, List.mem_append, List.mem_singleton] at hpath
    rcases hpath with hpath | rfl
    · exact h.1 path' (by simpa [owes, hguarded] using hpath)
    · exact hfree
  · simp [owes, hguarded] at hpath

theorem hold (h : (Phase.pending job free []).GuardOk files) :
    (Phase.holding job).GuardOk files := by
  refine ⟨?_, trivial⟩
  intro path hpath
  by_cases hguarded : job.guarded = true
  · rw [owes, h.2 hguarded, List.append_nil] at hpath
    exact h.1 path (by simpa [owes, hguarded] using hpath)
  · simp [owes, Job.toCheck, hguarded] at hpath

theorem load (h : (Phase.holding job).GuardOk files) {change : Change τ}
    (hchange : job.guarded = true → change = job.change) (snapshot : Files τ) :
    (Phase.loaded { job with change } snapshot).GuardOk files := by
  refine ⟨?_, trivial⟩
  intro path hpath
  by_cases hguarded : job.guarded = true
  · obtain rfl := hchange hguarded
    exact h.1 path hpath
  · have hnot : ({ job with change } : Job τ).guarded ≠ true := hguarded
    simp [owes, Job.toCheck, hnot] at hpath

theorem writeNext {p : Text × τ} {puts : List (Text × τ)} {removals : List Text}
    (h : (Phase.writing job ⟨p :: puts, removals⟩).GuardOk files)
    (hp : job.guarded = true → p.1 ∉ puts.map Prod.fst) :
    (Phase.writing job ⟨puts, removals⟩).GuardOk (OrderedMap.insert files p.1 p.2) := by
  refine ⟨?_, h.2⟩
  intro path hpath
  by_cases hguarded : job.guarded = true
  · simp only [owes, hguarded, if_true] at hpath
    rw [OrderedMap.get_insert_of_ne]
    · exact h.1 path (by simp [owes, hguarded, hpath])
    · rintro rfl
      exact hp hguarded hpath
  · simp [owes, hguarded] at hpath

end Phase.GuardOk

variable {change : Change τ} {path : Text}

theorem get_apply_eq_none (h : OrderedMap.get files path = none)
    (hpath : path ∉ change.puts.map Prod.fst) :
    OrderedMap.get (files.apply change) path = none :=
  OrderedMap.get_foldl_remove_eq_none (by rw [OrderedMap.get_foldl_insert files hpath, h]) _

theorem get_apply_of_held (hremovals : change.removals = [])
    (hfree : ∀ p ∈ change.puts.map Prod.fst, OrderedMap.get files p = none) {text : τ}
    (hheld : OrderedMap.get files path = some text) :
    OrderedMap.get (files.apply change) path = some text := by
  have hpath : path ∉ change.puts.map Prod.fst := by
    intro hmem
    rw [hfree path hmem] at hheld
    cases hheld
  rw [Files.apply, hremovals, List.foldl_nil, OrderedMap.get_foldl_insert files hpath, hheld]

variable {w : World τ}

theorem World.quiet_of_reader {l : Label τ} (h : l.writer = none) : w.Quiet l := by
  cases l with
  | write i => cases h
  | _ => simp [World.Quiet, World.written]

theorem guardOk_write {i : Nat} (hquiet : w.Quiet (.write i)) (h : ∀ j, (w.phase j).GuardOk w.files)
    (p : Phase τ) (hp : p.GuardOk files)
    (hfiles : ∀ path, path ∉ w.written (.write i) → OrderedMap.get w.files path = none →
      OrderedMap.get files path = none) : ∀ j, ((w.setPhase i p).phase j).GuardOk files := by
  refine (Function.forall_update_iff w.phase fun _ (q : Phase τ) => q.GuardOk files).mpr ⟨hp, ?_⟩
  intro j hj
  refine (h j).of_files fun path howed hnone => hfiles path (fun hpath => ?_) hnone
  exact (hquiet path hpath).2 j (by simpa [Label.writer] using hj.symm) howed

end Owed

variable {F τ : Type} [DecidableEq τ] (site : Site F τ)

namespace Site

theorem removals_of_guarded {job : Job τ} (h : site.Wanted job) (hguarded : job.guarded = true) :
    job.change.removals = [] := by
  obtain ⟨-, hprepare⟩ := h
  obtain ⟨request, role, process, read, change⟩ := job
  cases request with
  | upload documents actor time =>
    obtain ⟨puts, -, h⟩ := bind_eq_ok.mp hprepare
    obtain rfl := Option.some.inj (pure_eq_ok.mp h)
    rfl
  | _ => cases hguarded

def QuietStep (w : World τ) (l : Label τ) (w' : World τ) : Prop := w.Quiet l ∧ site.Step w l w'

variable {w w' : World τ}

theorem guardOk_step {l : Label τ} (hok : ∀ i, site.PhaseOk (w.phase i))
    (hlocked : site.kind = .content → Locked w)
    (h : ∀ i, (w.phase i).GuardOk w.files) (hstep : site.QuietStep w l w') : ∀ i,
      (w'.phase i).GuardOk w'.files := by
  obtain ⟨hquiet, hstep⟩ := hstep
  have hset (w : World τ) (h : ∀ i, (w.phase i).GuardOk w.files) (i : Nat) {p : Phase τ}
      (hp : p.GuardOk w.files) : ∀ j, ((w.setPhase i p).phase j).GuardOk w.files :=
    (Function.forall_update_iff w.phase fun _ (q : Phase τ) => q.GuardOk w.files).mpr
      ⟨hp, fun j _ => h j⟩
  have hat {i : Nat} {p : Phase τ} (hphase : w.phase i = p) : p.GuardOk w.files := hphase ▸ h i
  have hclosed (why : Option Text) : (Phase.closed why : Phase τ).GuardOk w.files :=
    ⟨by simp [Phase.owes], trivial⟩
  cases site.step_does hstep with
  | turnedAway | nothingToDo => exact hset w h _ (hclosed _)
  | asked => exact hset w h _ ⟨by simp [Phase.owes], by simp⟩
  | foundFree _ hphase hfree => exact hset w h _ ((hat hphase).found hfree)
  | acquired _ hphase => exact hset (w.setHolder _ _) h _ (hat hphase).hold
  | loaded _ hkind hphase hsettled =>
    exact hset w h _ ((hat hphase).load (fun hguarded =>
      site.settled_of_not_tool (Request.isTool_of_guarded hguarded) hsettled) _)
  | opened _ hkind hphase =>
    have hwanted : site.Wanted _ := (show site.PhaseOk (.holding _) from hphase ▸ hok _)
    exact hset w h _ ⟨(hat hphase).1, site.removals_of_guarded hwanted⟩
  | @registered i job snapshot hphase =>
    have hkind := (show site.PhaseOk (.loaded job snapshot) from hphase ▸ hok i).1
    obtain rfl := (hlocked hkind).snapshot i job snapshot hphase
    refine guardOk_write hquiet h (.wrote job) ⟨by simp [Phase.owes], trivial⟩
      fun path hpath hnone => get_apply_eq_none hnone ?_
    simpa [World.written, hphase] using hpath
  | @wroteNext i job left hphase =>
    rw [writeNext.eq_def]
    split
    next p puts removals =>
      have hp := (hquiet p.1 (by simp [World.written, hphase])).1
      refine guardOk_write hquiet h _ ((hat hphase).writeNext fun hguarded => ?_)
        fun path hpath hnone => ?_
      · simpa [World.ownRest, hphase, hguarded] using hp
      · rw [OrderedMap.get_insert_of_ne _ _ (by simpa [World.written, hphase] using hpath), hnone]
    next path removals =>
      refine guardOk_write hquiet h (.writing job ⟨[], removals⟩)
        ⟨by simp [Phase.owes], fun hguarded => ?_⟩ fun path' _ hnone =>
          OrderedMap.get_remove_eq_none hnone _
      cases (hat hphase).2 hguarded
    next => exact hset w h _ ⟨by simp [Phase.owes], trivial⟩
  | released => exact hset (w.setHolder _ _) h _ (hclosed _)

variable {ls : List (Label τ)}

theorem run_of_quiet (h : Run site.QuietStep w ls w') :
    Run site.Step w ls w' :=
  h.mono fun _ _ _ hstep => hstep.2

theorem guardOk_run {files : Files τ} (h : Run site.QuietStep (World.start files) ls w) :
    ∀ i, (w.phase i).GuardOk w.files := by
  induction h with
  | start => exact fun _ => ⟨by simp [World.start, Phase.owes], trivial⟩
  | snoc h hstep ih =>
    have hrun := site.run_of_quiet h
    exact site.guardOk_step (site.phaseOk_run hrun) (fun hkind => site.locked_run hkind hrun) ih hstep

/-- As long as no document is put where an upload below the editor role has found a path free, it
leaves every document as it is. -/
theorem uploads_only_add {files : Files τ} {w w' : World τ} {ls : List (Label τ)} {i : Nat}
    {job : Job τ} (h : Run site.QuietStep (World.start files) ls w)
    (hjob : (w.phase i).job = some job) (hguarded : job.guarded = true)
    (hstep : site.Step w (.write i) w') {path : Text} {text : τ}
    (hheld : OrderedMap.get w.files path = some text) :
    OrderedMap.get w'.files path = some text := by
  have hrun := site.run_of_quiet h
  have hok := site.phaseOk_run hrun i
  have hguard := site.guardOk_run h i
  simp only [Step, next] at hstep
  split at hstep
  next job' snapshot hphase =>
    rw [hphase] at hjob hok hguard
    obtain rfl := Option.some.inj hjob
    obtain rfl := Option.some.inj hstep
    obtain ⟨hkind, change, hwanted, hsettled⟩ := hok
    obtain rfl := (site.locked_run hkind hrun).snapshot i _ snapshot hphase
    obtain rfl := site.settled_of_not_tool (Request.isTool_of_guarded hguarded) hsettled
    refine get_apply_of_held (site.removals_of_guarded hwanted hguarded) ?_ hheld
    simpa [Phase.owes, Job.toCheck, hguarded] using hguard.1
  next job' left hphase =>
    rw [hphase] at hjob hok hguard
    obtain rfl := Option.some.inj hjob
    obtain rfl := Option.some.inj hstep
    rw [writeNext.eq_def]
    split
    next p puts removals =>
      have hp : OrderedMap.get w.files p.1 = none :=
        hguard.1 p.1 (by simp [Phase.owes, hguarded])
      have hne : path ≠ p.1 := by
        rintro rfl
        rw [hp] at hheld
        cases hheld
      exact (OrderedMap.get_insert_of_ne _ _ hne).trans hheld
    next => cases hguard.2 hguarded
    next => exact hheld
  next => cases hstep

end Site

def sampleUpload (body : String) : Role × Request (Document Unit) :=
  (.uploader, .upload [⟨"b.md", "b.md", versionWith body⟩] "human:carol"
    "t3")

def storedUpload (body : String) : Document Unit :=
  (((versionWith body).stampOrigin "human:carol" "t3").quarantineVerifications
    "human:carol" "t3" "uploaded").1

theorem uploads_only_add_beside_edit :
    ∃ w w', Run sampleSite.QuietStep (World.start sampleFiles)
        (readBy 0 (sampleUpload "mine") :: .check 0 :: readBy 1 sampleEdit :: writtenBy 1 ++
          [.acquire 0, .load 0]) w ∧
      sampleSite.Step w (.write 0) w' ∧
      ∀ text, OrderedMap.get w.files samplePath = some text →
        OrderedMap.get w'.files samplePath = some text := by
  have hrun : ∃ w w', Run sampleSite.QuietStep (World.start sampleFiles)
      (readBy 0 (sampleUpload "mine") :: .check 0 :: readBy 1 sampleEdit :: writtenBy 1 ++
        [.acquire 0, .load 0]) w ∧
      (∃ job, (w.phase 0).job = some job ∧ job.guarded = true) ∧ sampleSite.Step w (.write 0) w' := by
    refine ⟨_, _, Run.cons_iff.mpr ⟨_, ⟨World.quiet_of_reader rfl, rfl⟩, Run.cons_iff.mpr ⟨_,
      ⟨World.quiet_of_reader rfl, rfl⟩, Run.cons_iff.mpr ⟨_, ⟨World.quiet_of_reader rfl, rfl⟩,
      Run.cons_iff.mpr ⟨_, ⟨World.quiet_of_reader rfl, rfl⟩, Run.cons_iff.mpr ⟨_,
      ⟨World.quiet_of_reader rfl, rfl⟩, Run.cons_iff.mpr ⟨_, ⟨?_, rfl⟩, Run.cons_iff.mpr ⟨_,
      ⟨World.quiet_of_reader rfl, rfl⟩, Run.cons_iff.mpr ⟨_, ⟨World.quiet_of_reader rfl, rfl⟩,
      Run.cons_iff.mpr ⟨_, ⟨World.quiet_of_reader rfl, rfl⟩, .start _⟩⟩⟩⟩⟩⟩⟩⟩⟩, ⟨_, rfl, rfl⟩, rfl⟩
    -- The edit writes beside the path the upload has found free.
    intro path hpath
    obtain rfl : path = samplePath := List.mem_singleton.mp hpath
    refine ⟨by decide +kernel, ?_⟩
    intro j hj
    match j with
    | 0 => decide +kernel
    | 1 => exact absurd rfl hj
    | n + 2 => exact List.not_mem_nil
  obtain ⟨w, w', hrun, ⟨job, hjob, hguarded⟩, hstep⟩ := hrun
  exact ⟨w, w', hrun, hstep, fun _ => sampleSite.uploads_only_add hrun hjob hguarded hstep⟩

/-- Two uploaders may find the same path free; the later write then replaces what the other stored. -/
theorem upload_replaces_upload :
    ∃ w w', Run sampleSite.Step (World.start sampleFiles)
        (readBy 0 (sampleUpload "mine") :: .check 0 :: readBy 1 (sampleUpload "theirs") ::
          .check 1 :: writtenBy 1 ++ [.acquire 0, .load 0]) w ∧
      (w.phase 0).job.map Job.guarded = some true ∧ sampleSite.Step w (.write 0) w' ∧
      OrderedMap.get w.files "b.md" = some (storedUpload "theirs") ∧
      OrderedMap.get w'.files "b.md" = some (storedUpload "mine") ∧
      storedUpload "mine" ≠ storedUpload "theirs" := by
  refine ⟨_, _, Run.of_foldlM rfl, rfl, rfl, rfl, rfl, ?_⟩
  decide +kernel

end Pgokf.Web
