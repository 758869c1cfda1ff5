import Pgokf.Documents.Document
import Pgokf.Sync.StoredSource
import Pgokf.Web.Identity
import Mathlib.Logic.Function.Basic

/-! # Changing the documents of one bundle (`routes.rs`, `store.rs`, `write.rs`)

Requests run against one bundle, and each read and each write of the store is one step. -/

namespace Pgokf.Web

open Pgokf.Lib Pgokf.Documents

abbrev Files (τ : Type) := OrderedMap Text τ

inductive StoreKind where
  | content
  | directory
  deriving DecidableEq

/- Texts are a type of their own, with what handlers and the catalog's parser do with them. -/
structure Site (F τ : Type) where
  name : Text
  kind : StoreKind
  eq : Yaml F → Yaml F → Bool
  parse : τ → Except Text (Document F)
  render : Document F → τ
  validate : Document F → Text → Except Text Unit

structure Change (τ : Type) where
  puts : List (Text × τ)
  removals : List Text

structure Upload (τ : Type) where
  name : Text
  path : Text
  text : τ

inductive Request (τ : Type) where
  | edit (path : Text) (submitted : τ) (actor time : Text)
  | delete (path : Text)
  | approve (path : Text) (actor time : Text) (note : Option Text)
  | sendBack (path : Text) (actor time : Text) (note : Option Text)
  | upload (documents : List (Upload τ)) (actor time : Text)
  -- The tool server's.
  | putDocument (path : Text) (text : τ) (actor time : Text)
  | deleteDocument (path : Text)

variable {F τ : Type}

namespace Request

def document : Request τ → Option Text
  | edit path .. => some path
  | delete path => some path
  | approve path .. => some path
  | sendBack path .. => some path
  | _ => none

def read (files : Files τ) (r : Request τ) : Option τ := r.document.bind (OrderedMap.get files)

/- The tool server goes by its own tokens, not by the roles of the web interface. -/
def requiredRole : Request τ → Role
  | edit .. => .editor
  | delete .. => .editor
  | approve .. => .approver
  | sendBack .. => .approver
  | upload .. => .uploader
  | putDocument .. => .viewer
  | deleteDocument .. => .viewer

/-- Adding is an uploader's act, replacing an editor's. -/
def guarded (role : Role) : Request τ → Bool
  | upload .. => !role.allows .editor
  | _ => false

def isTool : Request τ → Bool
  | putDocument .. => true
  | deleteDocument .. => true
  | _ => false

theorem isTool_of_guarded {role : Role} {r : Request τ} (h : r.guarded role = true) :
    r.isTool = false := by
  cases r with
  | putDocument | deleteDocument => cases h
  | _ => rfl

end Request

def explain {α : Type} (before : Text) (x : Except Text α) : Except Text α :=
  x.mapError fun why => before ++ why

theorem explain_eq_ok {α : Type} {before : Text} {x : Except Text α} {a : α} :
    explain before x = .ok a ↔ x = .ok a := by
  cases x <;> simp [explain, Except.mapError]

namespace Site

variable (site : Site F τ)

def found (read : Option τ) : Except Text τ :=
  orRefuse read "This concept is not visible to this session or does not exist."

def put (path : Text) (d : Document F) : Except Text (Change τ) := do
  site.validate d path
  pure ⟨[(path, site.render d)], []⟩

variable {change : Change τ}

theorem put_eq_ok {path : Text} {d : Document F} (h : site.put path d = .ok change) :
    change = ⟨[(path, site.render d)], []⟩ := by
  obtain ⟨_, -, h⟩ := bind_eq_ok.mp h
  exact (pure_eq_ok.mp h).symm

def uploaded (actor time : Text) (file : Upload τ) : Except Text (Text × τ) :=
  explain (file.name ++ ": ") do
    let d ← site.parse file.text
    let r ← d.contributeNew actor time
    site.validate r.1 file.path
    pure (file.path, site.render r.1)

def stored (read : Option τ) : Except Text (Document F) := do
  let current ← found read
  explain "The stored document does not parse: " (site.parse current)

def reviewed (path : Text) (d : Document F) : Except Text (Option (Change τ)) := do
  let change ← explain "The reviewed document would not parse: " (site.put path d)
  pure (some change)

/-- What a page's handler asks for, given what it read before the lock. A tool asks once it holds
the lock. -/
def prepare [DecidableEq τ] (read : Option τ) : Request τ → Except Text (Option (Change τ))
  | .edit path submitted actor time => do
    let current ← found read
    if submitted = current then pure none
    else do
      let d ← site.parse submitted
      let change ← site.put path
        (d.contributeEdit site.eq actor time (site.parse current).toOption).1
      pure (some change)
  | .delete path => do
    let _ ← found read
    pure (some ⟨[], [path]⟩)
  | .approve path actor time note => do
    let d ← site.stored read
    site.reviewed path (d.recordVerification actor time note)
  | .sendBack path actor time note => do
    let d ← site.stored read
    site.reviewed path (d.sendBack actor time note)
  | .upload documents actor time => do
    let puts ← documents.mapM (site.uploaded actor time)
    pure (some ⟨puts, []⟩)
  | .putDocument .. => pure (some ⟨[], []⟩)
  | .deleteDocument .. => pure (some ⟨[], []⟩)

/-- `put_document`: whether it replaces a document is decided by the path being there. -/
def putDocument (files : Files τ) (path : Text) (text : τ) (actor time : Text) :
    Except Text (Change τ) :=
  explain (Sync.echo path ++ ": ").toList do
    let d ← site.parse text
    match OrderedMap.get files path with
    | some current =>
      site.put path (d.contributeEdit site.eq actor time (site.parse current).toOption).1
    | none => do
      let r ← d.contributeNew actor time
      site.put path r.1

def deleteDocument (files : Files τ) (path : Text) : Except Text (Change τ) := do
  let _ ← orRefuse (OrderedMap.get files path)
    (Sync.echo site.name ++ " holds no document at " ++ Sync.echo path).toList
  pure ⟨[], [path]⟩

def settled (files : Files τ) (change : Change τ) : Request τ → Except Text (Change τ)
  | .putDocument path text actor time => site.putDocument files path text actor time
  | .deleteDocument path => site.deleteDocument files path
  | _ => .ok change

theorem settled_of_not_tool {files : Files τ} {change' : Change τ} {r : Request τ}
    (hr : r.isTool = false) (h : site.settled files change r = .ok change') : change' = change := by
  cases r with
  | putDocument | deleteDocument => cases hr
  | _ => exact (Except.ok.inj h).symm

end Site

def Files.apply (files : Files τ) (change : Change τ) : Files τ :=
  change.removals.foldl OrderedMap.remove
    (change.puts.foldl (fun files p => OrderedMap.insert files p.1 p.2) files)

/-! ### Requests under way -/

structure Job (τ : Type) where
  request : Request τ
  role : Role
  process : Nat
  /-- What the handler read before it took the lock. -/
  read : Option τ
  change : Change τ

def Job.guarded (job : Job τ) : Bool := job.request.guarded job.role

inductive Phase (τ : Type) where
  | idle
  /-- The paths a guarded upload has found free, and those it has yet to look at. -/
  | pending (job : Job τ) (free left : List Text)
  | holding (job : Job τ)
  | loaded (job : Job τ) (snapshot : Files τ)
  /-- A directory takes one file after the other. -/
  | writing (job : Job τ) (left : Change τ)
  | wrote (job : Job τ)
  | closed (why : Option Text)

structure World (τ : Type) where
  files : Files τ
  holder : Nat → Option Nat
  phase : Nat → Phase τ
  /-- The requests that succeeded, in the order in which they took effect. -/
  served : List (Role × Request τ)

namespace World

def start (files : Files τ) : World τ := ⟨files, fun _ => none, fun _ => .idle, []⟩

def setPhase (w : World τ) (i : Nat) (p : Phase τ) : World τ :=
  { w with phase := Function.update w.phase i p }

def setHolder (w : World τ) (lock : Nat) (h : Option Nat) : World τ :=
  { w with holder := Function.update w.holder lock h }

def serve (w : World τ) (job : Job τ) : World τ :=
  { w with served := w.served ++ [(job.role, job.request)] }

end World

/- The writers of a content bundle share one `pg_advisory_lock`; a directory is only kept from
requests of the same process. -/
def lockOf (kind : StoreKind) (job : Job τ) : Nat :=
  match kind with
  | .content => 0
  | .directory => job.process

inductive Label (τ : Type) where
  | begin (i process : Nat) (role : Role) (request : Request τ)
  | check (i : Nat)
  | acquire (i : Nat)
  | load (i : Nat)
  | write (i : Nat)
  | release (i : Nat)
  | fail (i : Nat) (why : Text)

def forbidden (role : Role) : Text :=
  "This needs the " ++ role.id ++ " role; yours does not include it."

def alreadyExists (path : Text) : Text :=
  path ++ " already exists in this bundle. Replacing a document needs the editor role; " ++
    "upload it under a different name, or ask an editor."

/-- The paths an upload looks at before it writes: all of them, or none for an editor. -/
def Job.toCheck (job : Job τ) : List Text :=
  if job.guarded then job.change.puts.map Prod.fst else []

namespace Site

variable (site : Site F τ)

def begun [DecidableEq τ] (w : World τ) (i process : Nat) (role : Role) (request : Request τ) :
    World τ :=
  if role.allows request.requiredRole then
    let read := request.read w.files
    match site.prepare read request with
    | .error why => w.setPhase i (.closed (some why))
    | .ok none => (w.setPhase i (.closed none)).serve ⟨request, role, process, read, ⟨[], []⟩⟩
    | .ok (some change) =>
      let job : Job τ := ⟨request, role, process, read, change⟩
      w.setPhase i (.pending job [] job.toCheck)
  else w.setPhase i (.closed (some (forbidden request.requiredRole)))

/-- One write of a directory store: the next file, or the next removal, or the end. -/
def writeNext (w : World τ) (i : Nat) (job : Job τ) : Change τ → World τ
  | ⟨p :: puts, removals⟩ =>
    { w.setPhase i (.writing job ⟨puts, removals⟩) with files := OrderedMap.insert w.files p.1 p.2 }
  | ⟨[], path :: removals⟩ =>
    { w.setPhase i (.writing job ⟨[], removals⟩) with files := OrderedMap.remove w.files path }
  | ⟨[], []⟩ => (w.setPhase i (.wrote job)).serve job

def next [DecidableEq τ] (w : World τ) : Label τ → Option (World τ)
  | .begin i process role request =>
    match w.phase i with
    | .idle => some (site.begun w i process role request)
    | _ => none
  | .check i =>
    match w.phase i with
    | .pending job free (path :: left) =>
      if (OrderedMap.get w.files path).isSome then
        some (w.setPhase i (.closed (some (alreadyExists path))))
      else some (w.setPhase i (.pending job (free ++ [path]) left))
    | _ => none
  | .acquire i =>
    match w.phase i with
    | .pending job _ [] =>
      if (w.holder (lockOf site.kind job)).isSome then none
      else some ((w.setHolder (lockOf site.kind job) (some i)).setPhase i (.holding job))
    | _ => none
  | .load i =>
    match w.phase i with
    | .holding job =>
      match site.settled w.files job.change job.request with
      | .error why =>
        some ((w.setHolder (lockOf site.kind job) none).setPhase i (.closed (some why)))
      | .ok change =>
        match site.kind with
        | .content => some (w.setPhase i (.loaded { job with change } w.files))
        | .directory =>
          -- The tools write content bundles only.
          if job.request.isTool then none
          else some (w.setPhase i (.writing job change))
    | _ => none
  | .write i =>
    match w.phase i with
    | .loaded job snapshot =>
      some ({ w.setPhase i (.wrote job) with files := snapshot.apply job.change }.serve job)
    | .writing job left => some (writeNext w i job left)
    | _ => none
  | .release i =>
    match w.phase i with
    | .wrote job => some ((w.setHolder (lockOf site.kind job) none).setPhase i (.closed none))
    | _ => none
  | .fail i why =>
    match w.phase i with
    | .pending _ _ _ => some (w.setPhase i (.closed (some why)))
    | .holding job | .loaded job _ | .writing job _ =>
      some ((w.setHolder (lockOf site.kind job) none).setPhase i (.closed (some why)))
    | _ => none

def Step [DecidableEq τ] (w : World τ) (l : Label τ) (w' : World τ) : Prop :=
  site.next w l = some w'

/- One constructor for each way a request moves on; the label is kept for the steps that write. -/
inductive Does [DecidableEq τ] : World τ → Label τ → World τ → Prop where
  | turnedAway {w : World τ} {l : Label τ} {i : Nat} {why : Option Text}
      (hl : ∀ j, l ≠ .write j) : Does w l (w.setPhase i (.closed why))
  | nothingToDo {w : World τ} {l : Label τ} {i : Nat} {job : Job τ} (hl : ∀ j, l ≠ .write j)
      (hrole : job.role.allows job.request.requiredRole = true)
      (hprepare : site.prepare (job.request.read w.files) job.request = .ok none) :
      Does w l ((w.setPhase i (.closed none)).serve job)
  | asked {w : World τ} {l : Label τ} {i : Nat} {job : Job τ} (hl : ∀ j, l ≠ .write j)
      (hrole : job.role.allows job.request.requiredRole = true)
      (hprepare : site.prepare job.read job.request = .ok (some job.change)) :
      Does w l (w.setPhase i (.pending job [] job.toCheck))
  | foundFree {w : World τ} {l : Label τ} {i : Nat} {job : Job τ} {free left : List Text}
      {path : Text} (hl : ∀ j, l ≠ .write j) (hphase : w.phase i = .pending job free (path :: left))
      (hfree : OrderedMap.get w.files path = none) :
      Does w l (w.setPhase i (.pending job (free ++ [path]) left))
  | acquired {w : World τ} {l : Label τ} {i : Nat} {job : Job τ} {free : List Text}
      (hl : ∀ j, l ≠ .write j) (hphase : w.phase i = .pending job free [])
      (hholder : w.holder (lockOf site.kind job) = none) :
      Does w l ((w.setHolder (lockOf site.kind job) (some i)).setPhase i (.holding job))
  | loaded {w : World τ} {l : Label τ} {i : Nat} {job : Job τ} {change : Change τ}
      (hl : ∀ j, l ≠ .write j) (hkind : site.kind = .content) (hphase : w.phase i = .holding job)
      (hsettled : site.settled w.files job.change job.request = .ok change) :
      Does w l (w.setPhase i (.loaded { job with change } w.files))
  | opened {w : World τ} {l : Label τ} {i : Nat} {job : Job τ} (hl : ∀ j, l ≠ .write j)
      (hkind : site.kind = .directory) (hphase : w.phase i = .holding job) :
      Does w l (w.setPhase i (.writing job job.change))
  | registered {w : World τ} {i : Nat} {job : Job τ} {snapshot : Files τ}
      (hphase : w.phase i = .loaded job snapshot) :
      Does w (.write i)
        ({ w.setPhase i (.wrote job) with files := snapshot.apply job.change }.serve job)
  | wroteNext {w : World τ} {i : Nat} {job : Job τ} {left : Change τ}
      (hphase : w.phase i = .writing job left) : Does w (.write i) (writeNext w i job left)
  | released {w : World τ} {l : Label τ} {i : Nat} {job : Job τ} {why : Option Text}
      (hl : ∀ j, l ≠ .write j) (hphase : w.phase i = .holding job ∨
        (∃ snapshot, w.phase i = .loaded job snapshot) ∨ (∃ left, w.phase i = .writing job left) ∨
          w.phase i = .wrote job) :
      Does w l ((w.setHolder (lockOf site.kind job) none).setPhase i (.closed why))

variable [DecidableEq τ]

theorem begun_does (w : World τ) (i process : Nat) (role : Role) (request : Request τ) :
    site.Does w (.begin i process role request) (site.begun w i process role request) := by
  have hl (j : Nat) : Label.begin i process role request ≠ .write j := by simp
  rw [begun]
  split
  next hrole =>
    dsimp only
    split
    next => exact .turnedAway hl
    next hprepare => exact .nothingToDo hl hrole hprepare
    next change hprepare => exact .asked hl hrole hprepare
  next => exact .turnedAway hl

variable {w w' : World τ}

theorem load_does {i : Nat} (h : site.Step w (.load i) w') : site.Does w (.load i) w' := by
  simp only [Step, next] at h
  split at h
  next job hphase =>
    split at h
    · obtain rfl := Option.some.inj h
      exact .released (by simp) (.inl hphase)
    next change hsettled =>
      split at h
      next hkind =>
        obtain rfl := Option.some.inj h
        exact .loaded (by simp) hkind hphase hsettled
      next hkind =>
        split at h
        · cases h
        next htool =>
          obtain rfl := Option.some.inj h
          obtain rfl := site.settled_of_not_tool (by simpa using htool) hsettled
          exact .opened (by simp) hkind hphase
  · cases h

theorem fail_does {i : Nat} {why : Text} (h : site.Step w (.fail i why) w') :
    site.Does w (.fail i why) w' := by
  simp only [Step, next] at h
  split at h
  · obtain rfl := Option.some.inj h
    exact .turnedAway (by simp)
  next job hphase =>
    obtain rfl := Option.some.inj h
    exact .released (by simp) (.inl hphase)
  next job snapshot hphase =>
    obtain rfl := Option.some.inj h
    exact .released (by simp) (.inr (.inl ⟨_, hphase⟩))
  next job left hphase =>
    obtain rfl := Option.some.inj h
    exact .released (by simp) (.inr (.inr (.inl ⟨_, hphase⟩)))
  · cases h

theorem step_does {l : Label τ} (h : site.Step w l w') : site.Does w l w' := by
  cases l with
  | begin i process role request =>
    simp only [Step, next] at h
    split at h
    · obtain rfl := Option.some.inj h
      exact site.begun_does w i process role request
    · cases h
  | check i =>
    simp only [Step, next] at h
    split at h
    next job free path left hphase =>
      split at h
      · obtain rfl := Option.some.inj h
        exact .turnedAway (by simp)
      next hfree =>
        obtain rfl := Option.some.inj h
        exact .foundFree (by simp) hphase (by simpa using hfree)
    · cases h
  | acquire i =>
    simp only [Step, next] at h
    split at h
    next job free hphase =>
      split at h
      · cases h
      next hholder =>
        obtain rfl := Option.some.inj h
        exact .acquired (by simp) hphase (by simpa using hholder)
    · cases h
  | load i => exact site.load_does h
  | write i =>
    simp only [Step, next] at h
    split at h
    next job snapshot hphase =>
      obtain rfl := Option.some.inj h
      exact .registered hphase
    next job left hphase =>
      obtain rfl := Option.some.inj h
      exact .wroteNext hphase
    · cases h
  | release i =>
    simp only [Step, next] at h
    split at h
    next job hphase =>
      obtain rfl := Option.some.inj h
      exact .released (by simp) (.inr (.inr (.inr hphase)))
    · cases h
  | fail i why => exact site.fail_does h

end Site

end Pgokf.Web
