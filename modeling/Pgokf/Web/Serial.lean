import Pgokf.Documents.Trail
import Pgokf.Web.Workflow

/-! # Requests on a content bundle, one after the other

A page's handler decides on what it read before it took the lock. Where the store still holds that,
the requests that succeed could have run alone, in the order of their writes. -/

namespace Pgokf.Web

open Pgokf.Lib Pgokf.Documents

section Lock

variable {τ : Type}

def Phase.critical : Phase τ → Bool
  | .holding _ => true
  | .loaded _ _ => true
  | .writing _ _ => true
  | .wrote _ => true
  | _ => false

/-- Who is past the lock holds it, and what was read under it is what is there. -/
structure Locked (w : World τ) : Prop where
  holder : ∀ i, (w.phase i).critical = true → w.holder 0 = some i
  snapshot : ∀ i job snapshot, w.phase i = .loaded job snapshot → snapshot = w.files

namespace Locked

variable {w : World τ} {i : Nat}

theorem unique (h : Locked w) {j : Nat} (hi : (w.phase i).critical = true)
    (hj : (w.phase j).critical = true) : i = j :=
  Option.some.inj ((h.holder i hi).symm.trans (h.holder j hj))

theorem serve (h : Locked w) (job : Job τ) : Locked (w.serve job) := ⟨h.holder, h.snapshot⟩

variable {p : Phase τ}

theorem setPhase (h : Locked w) (hp : p.critical = true → (w.phase i).critical = true)
    (hloaded : ∀ job snapshot, p = .loaded job snapshot → snapshot = w.files) :
    Locked (w.setPhase i p) where
  holder := (Function.forall_update_iff w.phase fun j q => q.critical = true → w.holder 0 = some j).mpr
    ⟨fun hcritical => h.holder i (hp hcritical), fun j _ => h.holder j⟩
  snapshot := (Function.forall_update_iff w.phase fun _ q => ∀ job snapshot,
    q = .loaded job snapshot → snapshot = w.files).mpr ⟨hloaded, fun j _ => h.snapshot j⟩

/-- Who holds the lock may change the store: nobody else has read it. -/
theorem rewrite (h : Locked w) (hi : (w.phase i).critical = true)
    (hp : ∀ job snapshot, p ≠ .loaded job snapshot) (files : Files τ) :
    Locked { w.setPhase i p with files } where
  holder := (Function.forall_update_iff w.phase fun j q => q.critical = true → w.holder 0 = some j).mpr
    ⟨fun _ => h.holder i hi, fun j _ => h.holder j⟩
  snapshot := by
    refine (Function.forall_update_iff w.phase fun _ q => ∀ job snapshot,
      q = .loaded job snapshot → snapshot = files).mpr ⟨?_, ?_⟩
    · intro job snapshot hloaded
      exact absurd hloaded (hp job snapshot)
    · intro j hj job snapshot hloaded
      exact absurd (h.unique (by rw [hloaded]; rfl) hi) hj

theorem release (h : Locked w) (hi : (w.phase i).critical = true) (why : Option Text) :
    Locked ((w.setHolder 0 none).setPhase i (.closed why)) where
  holder := by
    refine (Function.forall_update_iff w.phase fun j q => q.critical = true →
      Function.update w.holder 0 none 0 = some j).mpr ⟨by simp [Phase.critical], ?_⟩
    intro j hj hcritical
    exact absurd (h.unique hcritical hi) hj
  snapshot := (Function.forall_update_iff w.phase fun _ q => ∀ job snapshot,
    q = .loaded job snapshot → snapshot = w.files).mpr ⟨by simp, fun j _ => h.snapshot j⟩

theorem acquire (h : Locked w) (hfree : w.holder 0 = none) (job : Job τ) :
    Locked ((w.setHolder 0 (some i)).setPhase i (.holding job)) where
  holder := by
    refine (Function.forall_update_iff w.phase fun j q => q.critical = true →
      Function.update w.holder 0 (some i) 0 = some j).mpr ⟨by simp, ?_⟩
    intro j _ hcritical
    have hheld := h.holder j hcritical
    rw [hfree] at hheld
    cases hheld
  snapshot := (Function.forall_update_iff w.phase fun _ q => ∀ job snapshot,
    q = .loaded job snapshot → snapshot = w.files).mpr ⟨by simp, fun j _ => h.snapshot j⟩

end Locked

end Lock

variable {F τ : Type} [DecidableEq τ] (site : Site F τ)

namespace Site

variable {w w' : World τ} {l : Label τ}

theorem locked_step (hkind : site.kind = .content) (h : Locked w) (hstep : site.Step w l w') :
    Locked w' := by
  have hlock (job : Job τ) : lockOf site.kind job = 0 := by rw [hkind]; rfl
  cases site.step_does hstep with
  | turnedAway => exact h.setPhase (by simp [Phase.critical]) (by simp)
  | nothingToDo => exact (h.setPhase (by simp [Phase.critical]) (by simp)).serve _
  | asked | foundFree => exact h.setPhase (by simp [Phase.critical]) (by simp)
  | acquired _ _ hholder =>
    rw [hlock] at hholder ⊢
    exact h.acquire hholder _
  | loaded _ _ hphase =>
    refine h.setPhase (fun _ => by rw [hphase]; rfl) ?_
    rintro _ _ ⟨⟩
    rfl
  | opened _ hdirectory =>
    rw [hkind] at hdirectory
    cases hdirectory
  | registered hphase => exact (h.rewrite (by rw [hphase]; rfl) (by simp) _).serve _
  | wroteNext hphase =>
    rw [writeNext.eq_def]
    split
    · exact h.rewrite (by rw [hphase]; rfl) (by simp) _
    · exact h.rewrite (by rw [hphase]; rfl) (by simp) _
    · exact (h.setPhase (fun _ => by rw [hphase]; rfl) (by simp)).serve _
  | released _ hphase =>
    rw [hlock]
    refine h.release ?_ _
    rcases hphase with hphase | ⟨_, hphase⟩ | ⟨_, hphase⟩ | hphase <;> rw [hphase] <;> rfl

def Wanted (job : Job τ) : Prop :=
  job.role.allows job.request.requiredRole = true ∧
    site.prepare job.read job.request = .ok (some job.change)

def PhaseOk : Phase τ → Prop
  | .pending job _ _ => site.Wanted job
  | .holding job => site.Wanted job
  | .loaded job snapshot => site.kind = .content ∧ ∃ change, site.Wanted { job with change } ∧
      site.settled snapshot change job.request = .ok job.change
  | .writing job _ => site.Wanted job ∧ site.kind = .directory
  | _ => True

theorem phaseOk_step (h : ∀ i, site.PhaseOk (w.phase i)) (hstep : site.Step w l w') :
    ∀ i, site.PhaseOk (w'.phase i) := by
  have hset (w : World τ) (h : ∀ i, site.PhaseOk (w.phase i)) (i : Nat) {p : Phase τ}
      (hp : site.PhaseOk p) : ∀ j, site.PhaseOk ((w.setPhase i p).phase j) :=
    (Function.forall_update_iff w.phase fun _ => site.PhaseOk).mpr ⟨hp, fun j _ => h j⟩
  have hat {i : Nat} {p : Phase τ} (hphase : w.phase i = p) : site.PhaseOk p := hphase ▸ h i
  cases site.step_does hstep with
  | turnedAway | nothingToDo => exact hset w h _ trivial
  | asked _ hrole hprepare => exact hset w h _ ⟨hrole, hprepare⟩
  | foundFree _ hphase => exact hset w h _ (show site.Wanted _ from hat hphase)
  | acquired _ hphase => exact hset (w.setHolder _ _) h _ (show site.Wanted _ from hat hphase)
  | loaded _ hkind hphase hsettled => exact hset w h _ ⟨hkind, _, hat hphase, hsettled⟩
  | opened _ hkind hphase => exact hset w h _ ⟨hat hphase, hkind⟩
  | registered => exact hset w h _ trivial
  | wroteNext hphase =>
    rw [writeNext.eq_def]
    split
    · exact hset w h _ (show _ ∧ _ from hat hphase)
    · exact hset w h _ (show _ ∧ _ from hat hphase)
    · exact hset w h _ trivial
  | released => exact hset (w.setHolder _ _) h _ trivial

variable {files : Files τ} {ls : List (Label τ)}

theorem phaseOk_run (h : Run site.Step (World.start files) ls w) : ∀ i, site.PhaseOk (w.phase i) := by
  refine h.invariant (P := fun w => ∀ i, site.PhaseOk (w.phase i)) ?_ ?_
  · intro i
    trivial
  · intro _ _ _ hw hstep
    exact site.phaseOk_step hw hstep

theorem locked_run (hkind : site.kind = .content) (h : Run site.Step (World.start files) ls w) :
    Locked w := by
  refine h.invariant ⟨?_, ?_⟩ ?_
  · simp [World.start, Phase.critical]
  · simp [World.start]
  · intro _ _ _ hw hstep
    exact site.locked_step hkind hw hstep

/-! ### What a request does when nothing else runs -/

def alone (files : Files τ) (r : Role × Request τ) : Except Text (Files τ) :=
  if r.1.allows r.2.requiredRole then
    match site.prepare (r.2.read files) r.2 with
    | .error why => .error why
    | .ok none => .ok files
    | .ok (some change) =>
      match ((if r.2.guarded r.1 then change.puts.map Prod.fst else []).find? fun path =>
          (OrderedMap.get files path).isSome) with
      | some path => .error (alreadyExists path)
      | none => (site.settled files change r.2).map files.apply
  else .error (forbidden r.2.requiredRole)

end Site

def Job.current (job : Job τ) (files : Files τ) : Bool :=
  decide (job.request.read files = job.read) &&
    job.toCheck.all fun path => (OrderedMap.get files path).isNone

def World.current (w : World τ) : Label τ → Bool
  | .write i =>
    match w.phase i with
    | .loaded job _ => job.current w.files
    | _ => true
  | _ => true

namespace Site

variable {files : Files τ} {job : Job τ}

theorem alone_nothing (hrole : job.role.allows job.request.requiredRole = true)
    (hprepare : site.prepare (job.request.read files) job.request = .ok none) :
    site.alone files (job.role, job.request) = .ok files := by
  simp [alone, hrole, hprepare]

variable {w : World τ} {snapshot : Files τ}

theorem alone_of_current (hok : site.PhaseOk (.loaded job snapshot)) (hsnapshot : snapshot = w.files)
    (hcurrent : job.current w.files = true) :
    site.alone w.files (job.role, job.request) = .ok (snapshot.apply job.change) := by
  subst hsnapshot
  obtain ⟨-, change, ⟨hrole, hprepare⟩, hsettled⟩ := hok
  simp only [Job.current, Bool.and_eq_true, decide_eq_true_eq, List.all_eq_true] at hcurrent
  obtain ⟨hread, hfree⟩ := hcurrent
  have hnone : (if job.request.guarded job.role then change.puts.map Prod.fst else []).find?
      (fun path => (OrderedMap.get w.files path).isSome) = none := by
    rw [List.find?_eq_none]
    intro path hpath
    split at hpath
    next hguarded =>
      -- An upload asks for the same files under the lock as before it.
      have hchange := site.settled_of_not_tool (Request.isTool_of_guarded hguarded) hsettled
      have hcheck : path ∈ job.toCheck := by
        rw [Job.toCheck, Job.guarded, if_pos hguarded, hchange]
        exact hpath
      simpa using hfree path hcheck
    next => cases hpath
  simp only at hprepare
  simp only [alone, hrole, if_true, hread, hprepare, hnone, hsettled]
  rfl

def currentNext (w : World τ) (l : Label τ) : Option (World τ) :=
  if w.current l then site.next w l else none

def CurrentStep (w : World τ) (l : Label τ) (w' : World τ) : Prop := site.currentNext w l = some w'

variable {w' : World τ} {l : Label τ}

theorem currentStep_iff :
    site.CurrentStep w l w' ↔ w.current l = true ∧ site.Step w l w' := by
  rw [CurrentStep, currentNext, Step]
  split <;> simp_all

theorem served_step (hkind : site.kind = .content) {start : Files τ} (hlocked : Locked w)
    (hok : ∀ i, site.PhaseOk (w.phase i)) (h : w.served.foldlM site.alone start = .ok w.files)
    (hstep : site.CurrentStep w l w') :
    w'.served.foldlM site.alone start = .ok w'.files := by
  obtain ⟨hcurrent, hstep⟩ := site.currentStep_iff.mp hstep
  have hserve {r : Role × Request τ} {files : Files τ} (hr : site.alone w.files r = .ok files) :
      (w.served ++ [r]).foldlM site.alone start = .ok files := by
    rw [List.foldlM_append, h]
    simp [bind, Except.bind, hr, pure, Except.pure]
  cases site.step_does hstep with
  | nothingToDo _ hrole hprepare => exact hserve (site.alone_nothing hrole hprepare)
  | registered hphase =>
    simp only [World.current, hphase] at hcurrent
    exact hserve (site.alone_of_current (hphase ▸ hok _) (hlocked.snapshot _ _ _ hphase) hcurrent)
  | wroteNext hphase =>
    have hdirectory := (show _ ∧ _ from hphase ▸ hok _).2
    rw [hkind] at hdirectory
    cases hdirectory
  | _ => exact h

variable {ls : List (Label τ)}

theorem run_of_current (h : Run site.CurrentStep w ls w') :
    Run site.Step w ls w' :=
  h.mono fun _ _ _ hstep => (site.currentStep_iff.mp hstep).2

theorem served_run (hkind : site.kind = .content) (h : Run site.CurrentStep (World.start files) ls w) :
    w.served.foldlM site.alone files = .ok w.files := by
  induction h with
  | start => rfl
  | snoc h hstep ih =>
    have hrun := site.run_of_current h
    exact site.served_step hkind (site.locked_run hkind hrun) (site.phaseOk_run hrun) ih hstep

variable {note : Option Text}

theorem prepare_approve {read : Option τ} {path actor time : Text} {change : Change τ}
    (h : site.prepare read (.approve path actor time note) = .ok (some change)) :
    ∃ t d, read = some t ∧ site.parse t = .ok d ∧
      change = ⟨[(path, site.render (d.recordVerification actor time note))], []⟩ := by
  obtain ⟨d, hd, h⟩ := bind_eq_ok.mp h
  obtain ⟨t, ht, hd⟩ := bind_eq_ok.mp hd
  obtain ⟨change', hput, h⟩ := bind_eq_ok.mp h
  obtain rfl := Option.some.inj (pure_eq_ok.mp h)
  exact ⟨t, d, orRefuse_eq_ok.mp ht, explain_eq_ok.mp hd,
    site.put_eq_ok (explain_eq_ok.mp hput)⟩

theorem approve_writes {i : Nat} {path actor time : Text} (hlocked : Locked w)
    (hok : ∀ i, site.PhaseOk (w.phase i))
    (hphase : w.phase i = .loaded job snapshot) (hrequest : job.request = .approve path actor time note)
    (hstep : site.CurrentStep w (.write i) w') :
    ∃ t d, OrderedMap.get w.files path = some t ∧ site.parse t = .ok d ∧
      OrderedMap.get w'.files path = some (site.render (d.recordVerification actor time note)) := by
  obtain ⟨hcurrent, hstep⟩ := site.currentStep_iff.mp hstep
  simp only [World.current, hphase, Job.current, Bool.and_eq_true, decide_eq_true_eq] at hcurrent
  obtain ⟨-, change, ⟨-, hprepare⟩, hsettled⟩ := (show site.PhaseOk (.loaded job snapshot) from
    hphase ▸ hok i)
  obtain rfl := hlocked.snapshot i job snapshot hphase
  have hwrite : w'.files = w.files.apply job.change := by
    simp only [Step, next, hphase, Option.some.injEq] at hstep
    rw [← hstep]
    rfl
  simp only [hrequest] at hprepare hsettled hcurrent
  obtain ⟨t, d, hread, hd, rfl⟩ := site.prepare_approve hprepare
  have hchange := Except.ok.inj hsettled
  refine ⟨t, d, hcurrent.1.trans hread, hd, ?_⟩
  rw [hwrite, ← hchange]
  exact OrderedMap.get_insert_self ..

/-- Where every write finds what its request read before the lock, the requests that succeed come to
what they come to one after the other, and an approval verifies the text stored just before it. -/
theorem requests_serialize (hkind : site.kind = .content) {files : Files τ} {w : World τ}
    {ls : List (Label τ)} (h : Run site.CurrentStep (World.start files) ls w) :
    w.served.foldlM site.alone files = .ok w.files ∧
      ∀ i job snapshot path actor time note w', w.phase i = .loaded job snapshot →
        job.request = .approve path actor time note → site.CurrentStep w (.write i) w' →
        ∃ t d, OrderedMap.get w.files path = some t ∧ site.parse t = .ok d ∧
          OrderedMap.get w'.files path =
            some (site.render (d.recordVerification actor time note)) := by
  refine ⟨site.served_run hkind h, ?_⟩
  intro i job snapshot path actor time note w' hphase hrequest hstep
  have hrun := site.run_of_current h
  exact site.approve_writes (site.locked_run hkind hrun) (site.phaseOk_run hrun) hphase hrequest hstep

end Site

def sampleSite : Site Unit (Document Unit) where
  name := "docs"
  kind := .content
  eq := Yaml.same
  parse := .ok
  render := id
  validate _ _ := .ok ()

def samplePath : Text := "a.md"

def versionWith (body : String) : Document Unit := ⟨mapping [("title", "A")], body.toList⟩

def sampleFiles : Files (Document Unit) := [(samplePath, versionWith "old")]

def sampleApproval : Role × Request (Document Unit) :=
  (.approver, .approve samplePath "human:alice" "t1" none)

def sampleEdit : Role × Request (Document Unit) :=
  (.editor, .edit samplePath (versionWith "new") "human:bob" "t2")

def readBy (i : Nat) (r : Role × Request (Document Unit)) : Label (Document Unit) := .begin i 0 r.1 r.2

def writtenBy (i : Nat) : List (Label (Document Unit)) := [.acquire i, .load i, .write i, .release i]

theorem requests_serialize_edit_approve :
    ∃ w, Run sampleSite.CurrentStep (World.start sampleFiles)
        (readBy 0 sampleEdit :: writtenBy 0 ++ readBy 1 sampleApproval :: writtenBy 1) w ∧
      w.served = [sampleEdit, sampleApproval] ∧
      [sampleEdit, sampleApproval].foldlM sampleSite.alone sampleFiles = .ok w.files := by
  have hrun : ∃ w, (readBy 0 sampleEdit :: writtenBy 0 ++
      readBy 1 sampleApproval :: writtenBy 1).foldlM sampleSite.currentNext
        (World.start sampleFiles) = some w ∧ w.served = [sampleEdit, sampleApproval] :=
    ⟨_, rfl, rfl⟩
  obtain ⟨w, hrun, hserved⟩ := hrun
  have h := Run.of_foldlM hrun
  exact ⟨w, h, hserved, hserved ▸ (sampleSite.requests_serialize rfl h).1⟩

/-- An approval that read the document before an edit puts the old text back, verified: no order of
the two comes to that. -/
theorem approval_restores_old_text :
    ∃ w, Run sampleSite.Step (World.start sampleFiles)
        (readBy 0 sampleApproval :: readBy 1 sampleEdit :: writtenBy 1 ++ writtenBy 0) w ∧
      w.served = [sampleEdit, sampleApproval] ∧
      (OrderedMap.get w.files samplePath).map (fun d => (d.body, d.events.length)) =
        some ("old".toList, 1) ∧
      ∀ order ∈ [[sampleEdit, sampleApproval], [sampleApproval, sampleEdit]],
        ((order.foldlM sampleSite.alone sampleFiles).toOption.bind
          (OrderedMap.get · samplePath)).map (·.body) = some "new".toList := by
  refine ⟨_, Run.of_foldlM rfl, rfl, rfl, ?_⟩
  decide +kernel

end Pgokf.Web
