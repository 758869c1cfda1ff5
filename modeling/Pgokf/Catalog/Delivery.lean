import Pgokf.Catalog.Steps

/-! # Delivery of change events

Under every interleaving no unacknowledged event is lost, claims of one event never overlap, and an
acknowledgement is final. -/

namespace Pgokf.Catalog

open Lib

/- The event without its bundle reference, the only part of it that detaching rewrites. -/
def ChangeEvent.detached (ev : ChangeEvent) : ChangeEvent := { ev with bundleId := none }

inductive EventStep (txn : Txn) : Op → ChangeEvent → ChangeEvent → Prop where
  | keep {op ev ev'} : ev.detached = ev'.detached → EventStep txn op ev ev'
  | claim {ev producer limit lease locked} : ev.claimable txn.now = true →
      EventStep txn (.claimEvents producer limit lease locked) ev
        (ev.claim producer (txn.now + secs lease))
  | acknowledge {ev producer key} : ev.status = .claimed → ev.claimedBy = some producer →
      EventStep txn (.ackEvent ev.eventId producer key) ev (ev.acknowledge key txn.now)

variable {txn : Txn} {o o' o'' : Outbox} {c₀ c c' : State} {es : Journal}
  {e : Entry Request CatalogError Reply} {ev ev' : ChangeEvent} {op : Op}

theorem ChangeEvent.detached_eq (h : ev.detached = ev'.detached) :
    ev.eventId = ev'.eventId ∧ ev.tenantId = ev'.tenantId ∧ ev.status = ev'.status ∧
      ev.claimedBy = ev'.claimedBy ∧ ev.claimExpiresAt = ev'.claimExpiresAt ∧
      ev.acceptanceKey = ev'.acceptanceKey ∧ ev.acknowledgedAt = ev'.acknowledgedAt := by
  simp only [detached, ChangeEvent.mk.injEq] at h
  tauto

theorem EventStep.eventId_eq (h : EventStep txn op ev ev') : ev.eventId = ev'.eventId := by
  cases h with
  | keep h => exact (ChangeEvent.detached_eq h).1
  | claim => rfl
  | acknowledge => rfl

theorem EventStep.of_acknowledged (h : EventStep txn op ev ev') (hack : ev.status = .acknowledged) :
    ev.detached = ev'.detached := by
  cases h with
  | keep h => exact h
  | claim h => simp [ChangeEvent.claimable, hack] at h
  | acknowledge h => simp [hack] at h

theorem EventStep.expiry (h : EventStep txn op ev ev') :
    ev'.claimExpiresAt = ev.claimExpiresAt ∨ ev.claimable txn.now = true := by
  cases h with
  | keep h => exact .inl (ChangeEvent.detached_eq h).2.2.2.2.1.symm
  | claim h => exact .inr h
  | acknowledge => exact .inl rfl

theorem EventStep.of_pending (h : EventStep txn op ev ev') (hpending : ev'.status = .pending) :
    ev.status = .pending ∧ ev'.claimExpiresAt = ev.claimExpiresAt := by
  cases h with
  | keep h =>
    obtain ⟨-, -, hstatus, -, hexpires, -⟩ := ChangeEvent.detached_eq h
    exact ⟨hstatus.trans hpending, hexpires.symm⟩
  | claim | acknowledge => cases hpending

def ChangeEvent.isNew (ev : ChangeEvent) (o : Outbox) : Prop :=
  o.next ≤ ev.eventId ∧ ev.status = .pending ∧ ev.claimExpiresAt = none

/- What recording, pruning and detaching do to the table: no event changes hands. -/
structure Retains (o o' : Outbox) : Prop where
  source : ∀ ev' ∈ o'.rows, (∃ ev ∈ o.rows, ev.detached = ev'.detached) ∨ ev'.isNew o
  kept : ∀ ev ∈ o.rows, ev.status ≠ .acknowledged → ∃ ev' ∈ o'.rows, ev.detached = ev'.detached
  next_le : o.next ≤ o'.next

theorem Retains.refl (o : Outbox) : Retains o o :=
  ⟨fun ev h => .inl ⟨ev, h, rfl⟩, fun ev h _ => ⟨ev, h, rfl⟩, le_rfl⟩

theorem Retains.trans (h₁ : Retains o o') (h₂ : Retains o' o'') : Retains o o'' where
  source := by
    intro ev'' hev''
    obtain ⟨ev', hev', hsame⟩ | ⟨hnext, hrest⟩ := h₂.source ev'' hev''
    · obtain ⟨ev, hev, hsame'⟩ | ⟨hnext, hstatus, hexpires⟩ := h₁.source ev' hev'
      · exact .inl ⟨ev, hev, hsame'.trans hsame⟩
      · obtain ⟨hid, -, hst, -, hex, -⟩ := ChangeEvent.detached_eq hsame
        exact .inr ⟨hid ▸ hnext, hst ▸ hstatus, hex ▸ hexpires⟩
    · exact .inr ⟨h₁.next_le.trans hnext, hrest⟩
  kept := by
    intro ev hev hack
    obtain ⟨ev', hev', hsame⟩ := h₁.kept ev hev hack
    have hack' : ev'.status ≠ .acknowledged := (ChangeEvent.detached_eq hsame).2.2.1 ▸ hack
    obtain ⟨ev'', hev'', hsame'⟩ := h₂.kept ev' hev' hack'
    exact ⟨ev'', hev'', hsame.trans hsame'⟩
  next_le := h₁.next_le.trans h₂.next_le

theorem recordEvent_retains {bundles : BundleTable} {b : BundleId} {operation : ChangeOperation}
    {generation : Int} {changes : List ConceptChange} {context : ChangeContext}
    {syncHash : Option Text} {recorded : Outbox × Int}
    (h : recordEvent bundles o b operation generation changes context syncHash = .ok recorded) :
    Retains o recorded.1 := by
  simp only [recordEvent, bind_eq_ok, orRefuse_eq_ok, pure_eq_ok] at h
  obtain ⟨bundle, -, rfl⟩ := h
  refine ⟨fun ev' hev' => ?_, fun ev hev _ => ⟨ev, ?_, rfl⟩, Int.le_of_lt (Int.lt_succ _)⟩
  · rw [SerialTable.insert_rows] at hev'
    obtain hev' | hev' := List.mem_append.mp hev'
    · exact .inl ⟨ev', hev', rfl⟩
    · rw [List.mem_singleton.mp hev']
      exact .inr ⟨le_rfl, rfl, rfl⟩
  · rw [SerialTable.insert_rows]
    exact List.mem_append_left _ hev

theorem pruneEvents_retains (now : Instant) (retentionDays : Int) (o : Outbox) :
    Retains o (pruneEvents now retentionDays o) := by
  unfold pruneEvents
  split
  · refine ⟨fun ev hev => .inl ⟨ev, (List.mem_filter.mp hev).1, rfl⟩, fun ev hev hack => ?_, le_rfl⟩
    refine ⟨ev, List.mem_filter.mpr ⟨hev, ?_⟩, rfl⟩
    cases hstatus : ev.status with
    | acknowledged => exact absurd hstatus hack
    | pending | claimed => simp [ChangeEvent.aged, hstatus]
  · exact .refl o

theorem detachEvents_retains (b : BundleId) (o : Outbox) : Retains o (detachEvents b o) := by
  have hsame : ∀ ev : ChangeEvent, ev.detached =
      (if ev.bundleId == some b then { ev with bundleId := none } else ev).detached := by
    intro ev
    split <;> rfl
  refine ⟨fun ev' hev' => ?_, fun ev hev _ => ?_, le_rfl⟩
  · obtain ⟨ev, hev, rfl⟩ := List.mem_map.mp hev'
    exact .inl ⟨ev, hev, hsame ev⟩
  · exact ⟨_, List.mem_map_of_mem hev, hsame ev⟩

variable {producer : Text} {limit lease : Int} {locked : List Int} {events : List ChangeEvent}

theorem claimEvents_ok (h : claimEvents txn o producer limit lease locked = .ok (o', events)) :
    ∃ picked : List Int,
      (∀ ev ∈ o.rows, ev.eventId ∈ picked → ev.claimable txn.now = true) ∧
      o'.rows = o.rows.map (fun ev =>
        if ev.eventId ∈ picked then ev.claim producer (txn.now + secs lease) else ev) ∧
      o'.next = o.next ∧ events = o'.rows.filter fun ev => decide (ev.eventId ∈ picked) := by
  simp only [claimEvents, bind_eq_ok, pure_eq_ok, Prod.mk.injEq] at h
  obtain ⟨-, -, -, -, -, -, -, -, rfl, rfl⟩ := h
  refine ⟨pickedEvents txn o limit.toNat locked, ?_, ?_, rfl, ?_⟩
  · intro ev hev hpicked
    obtain ⟨ev', hev', hid⟩ := List.mem_map.mp hpicked
    have hfilter := List.mem_filter.mp (List.mem_of_mem_take hev')
    obtain rfl : ev' = ev := o.eq_of_key hfilter.1 hev hid
    simp only [Bool.and_eq_true] at hfilter
    exact hfilter.2.1.1
  · exact List.map_congr_left fun ev _ => by simp
  · simp

variable {eventId : Int} {key : Text} {success : Bool}

theorem ackEvent_ok (h : ackEvent txn o eventId producer key = .ok (o', success)) :
    success = true ∧
    ((∃ held : ChangeEvent → Bool,
        (∀ ev, held ev = true → ev.eventId = eventId ∧ ev.status = .claimed ∧
          ev.claimedBy = some producer) ∧
        (∃ ev ∈ o.rows, held ev = true) ∧ o'.next = o.next ∧
        o'.rows = o.rows.map fun ev => if held ev then ev.acknowledge key txn.now else ev) ∨
      o' = o ∧ ∃ ev ∈ o.rows, ev.eventId = eventId ∧ ev.status = .acknowledged ∧
        ev.claimedBy = some producer ∧ ev.acceptanceKey = some key) := by
  simp only [ackEvent, bind_eq_ok] at h
  obtain ⟨-, -, -, -, h⟩ := h
  split at h
  · rename_i hany
    simp only [pure_eq_ok, Prod.mk.injEq] at h
    obtain ⟨rfl, rfl⟩ := h
    refine ⟨rfl, .inl ⟨_, ?_, List.any_eq_true.mp hany, rfl, rfl⟩⟩
    intro ev hev
    simp only [Bool.and_eq_true, beq_iff_eq] at hev
    exact ⟨hev.1.1.1, hev.1.2, hev.2⟩
  · split at h
    · cases h
    · rename_i ev hfind
      have hvisible := List.find?_some hfind
      simp only [Bool.and_eq_true, beq_iff_eq] at hvisible
      split at h
      · rename_i hack
        split at h
        · rename_i hkey
          simp only [pure_eq_ok, Prod.mk.injEq] at h
          obtain ⟨rfl, rfl⟩ := h
          exact ⟨rfl, .inr ⟨rfl, ev, List.mem_of_find?_eq_some hfind, hvisible.1, hack, hkey⟩⟩
        · cases h
      · split at h <;> cases h

structure OutboxStep (txn : Txn) (op : Op) (o o' : Outbox) : Prop where
  source : ∀ ev' ∈ o'.rows, (∃ ev ∈ o.rows, EventStep txn op ev ev') ∨ ev'.isNew o
  kept : ∀ ev ∈ o.rows, ev.status ≠ .acknowledged → ∃ ev' ∈ o'.rows, ev'.eventId = ev.eventId
  next_le : o.next ≤ o'.next

theorem Retains.step (h : Retains o o') (txn : Txn) (op : Op) : OutboxStep txn op o o' where
  source := fun ev' hev' => (h.source ev' hev').imp (fun ⟨ev, hev, hsame⟩ => ⟨ev, hev, .keep hsame⟩) id
  kept := fun ev hev hack => by
    obtain ⟨ev', hev', hsame⟩ := h.kept ev hev hack
    exact ⟨ev', hev', (ChangeEvent.detached_eq hsame).1.symm⟩
  next_le := h.next_le

theorem OutboxStep.of_map {f : ChangeEvent → ChangeEvent} (hrows : o'.rows = o.rows.map f)
    (hnext : o'.next = o.next) (hf : ∀ ev ∈ o.rows, EventStep txn op ev (f ev)) :
    OutboxStep txn op o o' where
  source := by
    intro ev' hev'
    rw [hrows] at hev'
    obtain ⟨ev, hev, rfl⟩ := List.mem_map.mp hev'
    exact .inl ⟨ev, hev, hf ev hev⟩
  kept := by
    intro ev hev _
    exact ⟨f ev, hrows ▸ List.mem_map_of_mem hev, (hf ev hev).eventId_eq.symm⟩
  next_le := hnext ▸ le_rfl

theorem claimEvents_step (h : claimEvents txn o producer limit lease locked = .ok (o', events)) :
    OutboxStep txn (.claimEvents producer limit lease locked) o o' := by
  obtain ⟨picked, hpicked, hrows, hnext, -⟩ := claimEvents_ok h
  refine .of_map hrows hnext fun ev hev => ?_
  split
  · exact .claim (hpicked ev hev ‹_›)
  · exact .keep rfl

theorem ackEvent_step (h : ackEvent txn o eventId producer key = .ok (o', success)) :
    OutboxStep txn (.ackEvent eventId producer key) o o' := by
  obtain ⟨-, ⟨held, hheld, -, hnext, hrows⟩ | ⟨rfl, -⟩⟩ := ackEvent_ok h
  · refine .of_map hrows hnext fun ev hev => ?_
    split
    · obtain ⟨rfl, hstatus, hby⟩ := hheld ev ‹_›
      exact .acknowledge hstatus hby
    · exact .keep rfl
  · exact (Retains.refl _).step _ _

variable {reply : Reply}

theorem Does.outboxStep (h : Does c txn op c' reply) :
    OutboxStep txn op c.outbox c'.outbox := by
  have hsync : ∀ {c : State} {b input activation}, syncTail txn c b input = .ok (c', activation) →
      Retains c.outbox c'.outbox := by
    intro c b input activation h
    obtain ⟨_, recorded, -, hrecorded, -, -, -, -, houtbox, -⟩ := syncTail_ok h
    rw [houtbox]
    exact (recordEvent_retains hrecorded).trans (pruneEvents_retains _ _ _)
  have hchange : ∀ {b change transition operation},
      changeBundle txn c b change transition operation = .ok c' → Retains c.outbox c'.outbox := by
    intro b change transition operation h
    obtain ⟨_, recorded, -, hrecorded, -, -, -, houtbox, -⟩ := changeBundle_ok h
    exact houtbox ▸ recordEvent_retains hrecorded
  cases h with
  | registerBundle h =>
    obtain ⟨row, -, h⟩ := registerBundle_ok h
    exact (hsync (c := { c with bundles := c.bundles.add row }) h).step _ _
  | syncBundle h => exact (hsync (syncBundle_ok h)).step _ _
  | setBundleEnabled h | retireBundle h | unretireBundle h => exact (hchange h).step _ _
  | unregisterBundle h =>
    obtain ⟨_, recorded, -, hrecorded, rfl⟩ := unregisterBundle_ok h
    exact ((recordEvent_retains hrecorded).trans (detachEvents_retains _ _)).step _ _
  | claimEvents h => exact claimEvents_step h
  | ackEvent h => exact ackEvent_step h
  | _ => exact (Retains.refl _).step _ _

theorem step_outbox (h : Step exec c e c') :
    OutboxStep e.call.txn e.call.op c.outbox c'.outbox := by
  obtain ⟨reply, -, hdoes⟩ | ⟨-, rfl⟩ := step_does h
  · exact hdoes.outboxStep
  · exact (Retains.refl _).step _ _

/- A claim handed out: from the commit that published it to the end of its lease. -/
structure Lease where
  eventId : Int
  since : Instant
  expires : Instant
  deriving DecidableEq

def Lease.holdsAt (lease : Lease) (τ : Instant) : Prop := lease.since ≤ τ ∧ τ ≤ lease.expires

def Lease.excludes (earlier later : Lease) : Prop :=
  earlier.eventId = later.eventId → ∀ τ, ¬ (earlier.holdsAt τ ∧ later.holdsAt τ)

def leasesOf (e : Entry Request CatalogError Reply) : List Lease :=
  match e.result with
  | .ok (.claimed events) => events.filterMap fun ev =>
      ev.claimExpiresAt.map fun expires => ⟨ev.eventId, e.call.committedAt, expires⟩
  | _ => []

def leases (es : Journal) : List Lease := es.flatMap leasesOf

/-- A nondecreasing clock: a transaction starts before it commits, and commits follow one another. -/
structure Clocked (es : Journal) : Prop where
  starts : ∀ e ∈ es, e.call.txn.now ≤ e.call.committedAt
  ordered : es.Pairwise fun e e' => e.call.committedAt ≤ e'.call.committedAt

theorem Clocked.of_append {es' : Journal} (h : Clocked (es ++ es')) : Clocked es :=
  ⟨fun e he => h.starts e (List.mem_append_left _ he), (List.pairwise_append.mp h.ordered).1⟩

theorem Lease.excludes_of_lt {earlier later : Lease} (h : earlier.expires < later.since) :
    earlier.excludes later := by
  rintro - τ ⟨⟨-, hle⟩, hge, -⟩
  exact absurd (hge.trans hle) (not_le.mpr h)

theorem step_leases (h : Step exec c e c') :
    (leasesOf e).Pairwise (fun a b => a.eventId ≠ b.eventId) ∧
    ∀ lease ∈ leasesOf e, lease.since = e.call.committedAt ∧
      (∃ ev ∈ c.outbox.rows, ev.eventId = lease.eventId ∧ ev.claimable e.call.txn.now = true) ∧
      ∃ ev' ∈ c'.outbox.rows, ev'.eventId = lease.eventId ∧
        ev'.claimExpiresAt = some lease.expires := by
  obtain ⟨⟨txn, committedAt, op⟩, result⟩ := e
  obtain ⟨reply, hreply, hdoes⟩ | ⟨⟨error, herror⟩, rfl⟩ := step_does h
  swap
  · simp only at herror
    simp [leasesOf, herror]
  obtain rfl : result = .ok reply := hreply
  unfold leasesOf
  cases hdoes with
  | claimEvents hclaim =>
    obtain ⟨picked, hpicked, hrows, -, rfl⟩ := claimEvents_ok hclaim
    constructor
    · refine List.Pairwise.filterMap _ ?_ (List.Pairwise.filter _ (SerialTable.ordered _))
      rintro ev ev' hlt a ha b hb
      obtain ⟨x, -, rfl⟩ := Option.map_eq_some_iff.mp ha
      obtain ⟨x', -, rfl⟩ := Option.map_eq_some_iff.mp hb
      exact ne_of_lt hlt
    · intro lease hlease
      obtain ⟨ev', hev', hmap⟩ := List.mem_filterMap.mp hlease
      obtain ⟨expires, hexpires, rfl⟩ := Option.map_eq_some_iff.mp hmap
      obtain ⟨hmem, hin⟩ := List.mem_filter.mp hev'
      refine ⟨rfl, ?_, ev', hmem, rfl, hexpires⟩
      rw [hrows] at hmem
      obtain ⟨ev, hev, hclaimed⟩ := List.mem_map.mp hmem
      have hid : ev.eventId = ev'.eventId := by
        rw [← hclaimed]
        split <;> rfl
      exact ⟨ev, hev, hid, hpicked ev hev (hid ▸ of_decide_eq_true hin)⟩
  | _ => simp

structure LeaseInv (es : Journal) (c : State) : Prop where
  pending_free : ∀ ev ∈ c.outbox.rows, ev.status = .pending → ev.claimExpiresAt = none
  allocated : ∀ lease ∈ leases es, lease.eventId < c.outbox.next
  current_or_past : ∀ lease ∈ leases es, ∀ ev ∈ c.outbox.rows, ev.eventId = lease.eventId →
    ev.claimExpiresAt = some lease.expires ∨ ∃ e ∈ es, lease.expires < e.call.committedAt
  exclusive : (leases es).Pairwise Lease.excludes

theorem LeaseInv.expired (hinv : LeaseInv es c) (hclock : Clocked (es ++ [e]))
    (hev : ev ∈ c.outbox.rows) (hclaimable : ev.claimable e.call.txn.now = true) {lease : Lease}
    (hlease : lease ∈ leases es) (hid : ev.eventId = lease.eventId) :
    lease.expires < e.call.committedAt := by
  obtain hcurrent | ⟨e', he', hlt⟩ := hinv.current_or_past lease hlease ev hev hid
  · cases hstatus : ev.status with
    | pending =>
      rw [hinv.pending_free ev hev hstatus] at hcurrent
      cases hcurrent
    | claimed =>
      have hlt : lease.expires < e.call.txn.now := by
        simpa [ChangeEvent.claimable, hstatus, hcurrent] using hclaimable
      exact hlt.trans_le (hclock.starts e (by simp))
    | acknowledged => simp [ChangeEvent.claimable, hstatus] at hclaimable
  · have hordered := (List.pairwise_append.mp hclock.ordered).2.2 e' he' e (by simp)
    exact hlt.trans_le hordered

theorem LeaseInv.step (hinv : LeaseInv es c) (hclock : Clocked (es ++ [e])) (h : Step exec c e c') :
    LeaseInv (es ++ [e]) c' := by
  have htable := step_outbox h
  obtain ⟨hdistinct, hnew⟩ := step_leases h
  have hleases : leases (es ++ [e]) = leases es ++ leasesOf e := by simp [leases]
  refine ⟨fun ev' hev' hpending => ?_, ?_, ?_, ?_⟩
  · obtain ⟨ev, hev, hstep⟩ | ⟨-, -, hnone⟩ := htable.source ev' hev'
    · obtain ⟨hbefore, hexpires⟩ := hstep.of_pending hpending
      exact hexpires.trans (hinv.pending_free ev hev hbefore)
    · exact hnone
  · intro lease hlease
    rw [hleases] at hlease
    obtain hold | hlease := List.mem_append.mp hlease
    · exact (hinv.allocated lease hold).trans_le htable.next_le
    · obtain ⟨-, -, ev', hev', hid, -⟩ := hnew lease hlease
      exact hid ▸ c'.outbox.allocated ev' hev'
  · intro lease hlease ev' hev' hid
    rw [hleases] at hlease
    obtain hold | hlease := List.mem_append.mp hlease
    · obtain ⟨ev, hev, hstep⟩ | ⟨hnext, -⟩ := htable.source ev' hev'
      · have hid' := hstep.eventId_eq.trans hid
        obtain hexpires | hclaimable := hstep.expiry
        · rw [hexpires]
          refine (hinv.current_or_past lease hold ev hev hid').imp_right ?_
          exact fun ⟨e', he', hlt⟩ => ⟨e', List.mem_append_left _ he', hlt⟩
        · exact .inr ⟨e, by simp, hinv.expired hclock hev hclaimable hold hid'⟩
      · have hlt := hinv.allocated lease hold
        exact absurd (hid ▸ hnext) (not_le.mpr hlt)
    · obtain ⟨-, -, ev'', hev'', hid'', hexpires⟩ := hnew lease hlease
      obtain rfl : ev' = ev'' := c'.outbox.eq_of_key hev' hev'' (hid.trans hid''.symm)
      exact .inl hexpires
  · rw [hleases]
    refine List.pairwise_append.mpr ⟨hinv.exclusive, ?_, fun earlier hearlier later hlater => ?_⟩
    · exact hdistinct.imp fun hne hid => absurd hid hne
    · intro hid
      obtain ⟨hsince, ⟨ev, hev, hev', hclaimable⟩, -⟩ := hnew later hlater
      have hlt := hinv.expired hclock hev hclaimable hearlier (hev'.trans hid.symm)
      exact Lease.excludes_of_lt (hsince ▸ hlt) hid

theorem run_leases (h₀ : c₀.outbox.rows = []) (hrun : CatalogRun c₀ es c) (hclock : Clocked es) :
    LeaseInv es c := by
  refine hrun.history_invariant (P := fun es c => Clocked es → LeaseInv es c) ?_ ?_ hclock
  · intro _
    exact ⟨by simp [h₀], by simp [leases], by simp [leases], List.Pairwise.nil⟩
  · intro es c e c' ih hstep hclock
    exact (ih hclock.of_append).step hclock hstep

def ChangeEvent.acknowledgedBy (ev : ChangeEvent) (producer key : Text) : Prop :=
  ev.status = .acknowledged ∧ ev.claimedBy = some producer ∧ ev.acceptanceKey = some key

theorem acknowledged_run (hrun : CatalogRun c es c') (hev : ev ∈ c.outbox.rows)
    (hack : ev.status = .acknowledged) :
    ∀ ev' ∈ c'.outbox.rows, ev'.eventId = ev.eventId → ev.detached = ev'.detached := by
  refine (hrun.invariant (P := fun s => ev.eventId < s.outbox.next ∧
    ∀ ev' ∈ s.outbox.rows, ev'.eventId = ev.eventId → ev.detached = ev'.detached) ⟨?_, ?_⟩ ?_).2
  · exact c.outbox.allocated ev hev
  · intro ev' hev' hid
    rw [c.outbox.eq_of_key hev' hev hid]
  · rintro s e t ⟨hlt, hsame⟩ hstep
    have htable := step_outbox hstep
    refine ⟨hlt.trans_le htable.next_le, fun ev'' hev'' hid => ?_⟩
    obtain ⟨ev', hev', hev⟩ | ⟨hnext, -⟩ := htable.source ev'' hev''
    · have hbefore := hsame ev' hev' (hev.eventId_eq.trans hid)
      have hack' := (ChangeEvent.detached_eq hbefore).2.2.1.symm.trans hack
      exact hbefore.trans (hev.of_acknowledged hack')
    · exact absurd (hid ▸ hnext) (not_le.mpr hlt)

/- A session that may acknowledge the event: a dispatcher to whom its tenant is visible. -/
def MayAcknowledge (txn : Txn) (ev : ChangeEvent) : Prop :=
  authorizeDispatcherCurrentUser txn.session = .ok () ∧
    tenantPredicate txn.session txn.requireTenant ev.tenantId = true

section Acknowledge

variable {producer key : Text}

theorem ackEvent_acknowledged {eventId : Int} {success : Bool}
    (h : ackEvent txn o eventId producer key = .ok (o', success)) :
    (!isBlank producer && !isBlank key) = true ∧
      ∃ ev' ∈ o'.rows, ev'.eventId = eventId ∧ ev'.acknowledgedBy producer key := by
  constructor
  · simp only [ackEvent, bind_eq_ok, ensure_eq_ok] at h
    obtain ⟨-, -, -, hkeys, -⟩ := h
    exact hkeys
  · obtain ⟨-, ⟨held, hheld, ⟨ev', hev', hmatch⟩, -, hrows⟩ | ⟨rfl, ev', hev', hid, hack⟩⟩ :=
      ackEvent_ok h
    · obtain ⟨hid, -, hby⟩ := hheld ev' hmatch
      refine ⟨ev'.acknowledge key txn.now, ?_, hid, rfl, hby, rfl⟩
      rw [hrows]
      exact List.mem_map.mpr ⟨ev', hev', by simp [hmatch]⟩
    · exact ⟨ev', hev', hid, hack⟩

theorem ackEvent_other_key {producer' key' : Text} (hev : ev ∈ o.rows)
    (hack : ev.acknowledgedBy producer key) (hne : key' ≠ key) {result : Outbox × Bool} :
    ackEvent txn o ev.eventId producer' key' ≠ .ok result := by
  intro h
  obtain ⟨-, ⟨held, hheld, ⟨ev', hev', hmatch⟩, -⟩ | ⟨-, ev', hev', hid, -, -, hkey⟩⟩ := ackEvent_ok h
  · obtain ⟨hid, hclaimed, -⟩ := hheld ev' hmatch
    obtain rfl := o.eq_of_key hev' hev hid
    rw [hack.1] at hclaimed
    cases hclaimed
  · obtain rfl := o.eq_of_key hev' hev hid
    exact hne (Option.some.inj (hkey.symm.trans hack.2.2))

theorem ackEvent_again (hev : ev ∈ o.rows) (hack : ev.acknowledgedBy producer key)
    (hkeys : (!isBlank producer && !isBlank key) = true) (hmay : MayAcknowledge txn ev) :
    ackEvent txn o ev.eventId producer key = .ok (o, true) := by
  have hheld : (o.rows.any fun event => event.eventId == ev.eventId &&
      tenantPredicate txn.session txn.requireTenant event.tenantId && event.status == .claimed &&
        event.claimedBy == some producer) = false := by
    refine List.any_eq_false.mpr fun ev' hev' hmatch => ?_
    simp only [Bool.and_eq_true, beq_iff_eq] at hmatch
    obtain rfl := o.eq_of_key hev' hev hmatch.1.1.1
    exact absurd (hmatch.1.2.symm.trans hack.1) (by decide)
  have hvisible : o.rows.find? (fun event => event.eventId == ev.eventId &&
      tenantPredicate txn.session txn.requireTenant event.tenantId) = some ev := by
    cases hfind : o.rows.find? (fun event => event.eventId == ev.eventId &&
        tenantPredicate txn.session txn.requireTenant event.tenantId) with
    | none =>
      have := List.find?_eq_none.mp hfind ev hev
      simp [hmay.2] at this
    | some ev' =>
      have hmatch := List.find?_some hfind
      simp only [Bool.and_eq_true, beq_iff_eq] at hmatch
      rw [o.eq_of_key (List.mem_of_find?_eq_some hfind) hev hmatch.1]
  simp only [ackEvent, bind_eq_ok, hheld, hvisible]
  refine ⟨(), hmay.1, (), by simpa using hkeys, ?_⟩
  simp [hack.1, hack.2.1, hack.2.2]

end Acknowledge

variable {id : Int}

theorem step_acknowledged (h : Step exec c e c') (hop : e.call.op = .ackEvent id producer key)
    (hok : e.result = .ok reply) :
    (!isBlank producer && !isBlank key) = true ∧
      ∃ ev ∈ c'.outbox.rows, ev.eventId = id ∧ ev.acknowledgedBy producer key := by
  obtain ⟨reply, -, hdoes⟩ | ⟨⟨error, herror⟩, -⟩ := step_does h
  · rw [hop] at hdoes
    cases hdoes with
    | ackEvent hack => exact ackEvent_acknowledged hack
  · rw [hok] at herror
    cases herror

/-- A second acknowledgement fails under another key, and by the same producer under the same key
changes nothing while the event is stored. -/
theorem acknowledge_again {es₂ : Journal} {c₁ c₂ : State}
    {first again : Entry Request CatalogError Reply}
    {producer' key' : Text} (hfirst : Step exec c₁ first c₂)
    (hop : first.call.op = .ackEvent id producer key)
    (hok : first.result = .ok reply) (hrun : CatalogRun c₂ es₂ c) (hagain : Step exec c again c')
    (hop' : again.call.op = .ackEvent id producer' key') :
    (key' ≠ key → c' = c ∧ ∃ error, again.result = .error error) ∧
    (producer' = producer → key' = key → ∀ ev ∈ c.outbox.rows, ev.eventId = id →
      MayAcknowledge again.call.txn ev → c' = c ∧ again.result = .ok (.acknowledged true)) := by
  obtain ⟨hkeys, ev₂, hev₂, hid₂, hack₂⟩ := step_acknowledged hfirst hop hok
  have hstored : ∀ ev ∈ c.outbox.rows, ev.eventId = id → ev.acknowledgedBy producer key := by
    intro ev hev hid
    have hsame := acknowledged_run hrun hev₂ hack₂.1 ev hev (hid.trans hid₂.symm)
    obtain ⟨-, -, hstatus, hby, -, hkey, -⟩ := ChangeEvent.detached_eq hsame
    exact ⟨hstatus ▸ hack₂.1, hby ▸ hack₂.2.1, hkey ▸ hack₂.2.2⟩
  constructor
  · intro hne
    obtain ⟨reply', -, hdoes⟩ | ⟨herror, rfl⟩ := step_does hagain
    · exfalso
      rw [hop'] at hdoes
      cases hdoes with
      | ackEvent hack =>
        -- whichever row the call matched is stored, hence acknowledged under the first key
        obtain ⟨-, ⟨held, hheld, ⟨ev, hev, hmatch⟩, -⟩ | ⟨-, ev, hev, rfl, -⟩⟩ := ackEvent_ok hack
        · obtain ⟨rfl, -⟩ := hheld ev hmatch
          exact ackEvent_other_key hev (hstored ev hev rfl) hne hack
        · exact ackEvent_other_key hev (hstored ev hev rfl) hne hack
    · exact ⟨rfl, herror⟩
  · rintro rfl rfl ev hev rfl hmay
    have hack := ackEvent_again hev (hstored ev hev rfl) hkeys hmay
    have hexec : exec c again.call = .ok (c, .acknowledged true) := by
      simp only [exec, hop', hack]
      rfl
    cases hagain with
    | commit h =>
      obtain ⟨rfl, rfl⟩ := Prod.mk.inj (Except.ok.inj (h.symm.trans hexec))
      exact ⟨rfl, rfl⟩
    | refuse h => cases h.symm.trans hexec

/-- From an empty outbox and under a nondecreasing clock: no call deletes an event that is not
acknowledged; no two claims of one event are unexpired at one instant; a second acknowledgement
fails under another key and changes nothing under its own; and the key and time of an
acknowledgement stay. -/
theorem outbox_delivery (h₀ : c₀.outbox.rows = []) (hclock : Clocked es) (hrun : CatalogRun c₀ es c) :
    (∀ e c', Step exec c e c' → ∀ ev ∈ c.outbox.rows, ev.status ≠ .acknowledged →
      ∃ ev' ∈ c'.outbox.rows, ev'.eventId = ev.eventId) ∧
    (leases es).Pairwise Lease.excludes ∧
    (∀ es₁ first es₂, es = es₁ ++ first :: es₂ → ∀ id producer key reply,
      first.call.op = .ackEvent id producer key → first.result = .ok reply →
      ∀ again c', Step exec c again c' → ∀ producer' key',
        again.call.op = .ackEvent id producer' key' →
        (key' ≠ key → c' = c ∧ ∃ error, again.result = .error error) ∧
        (producer' = producer → key' = key → ∀ ev ∈ c.outbox.rows, ev.eventId = id →
          MayAcknowledge again.call.txn ev → c' = c ∧ again.result = .ok (.acknowledged true))) ∧
    ∀ es' c', CatalogRun c es' c' → ∀ ev ∈ c.outbox.rows, ev.status = .acknowledged →
      ∀ ev' ∈ c'.outbox.rows, ev'.eventId = ev.eventId →
        ev'.status = .acknowledged ∧ ev'.acceptanceKey = ev.acceptanceKey ∧
          ev'.acknowledgedAt = ev.acknowledgedAt := by
  refine ⟨fun e c' hstep => (step_outbox hstep).kept, (run_leases h₀ hrun hclock).exclusive, ?_, ?_⟩
  · rintro es₁ first es₂ rfl id producer key reply hop hok again c' hagain producer' key' hop'
    obtain ⟨c₁, -, hrest⟩ := Run.append_iff.mp hrun
    obtain ⟨c₂, hfirst, hrun₂⟩ := Run.cons_iff.mp hrest
    exact acknowledge_again hfirst hop hok hrun₂ hagain hop'
  · intro es' c' hrun' ev hev hack ev' hev' hid
    obtain ⟨-, -, hstatus, -, -, hkey, htime⟩ :=
      ChangeEvent.detached_eq (acknowledged_run hrun' hev hack ev' hev' hid)
    exact ⟨hstatus ▸ hack, hkey.symm, htime.symm⟩

def redelivered : List Request :=
  [.byAdmin 0 (.registerBundle ⟨[], [], .default⟩),
    .byAdmin 10 (.claimEvents ['p'] 5 1 []),
    .byAdmin 20 (.claimEvents ['q'] 5 1 []),
    .byAdmin (secs 2) (.claimEvents ['q'] 5 1 []),
    .byAdmin (secs 2) (.ackEvent 1 ['q'] ['k'])]

theorem outbox_delivery_redelivered :
    let es := (play exec .empty redelivered).2
    leases es = [⟨1, 10, 10 + secs 1⟩, ⟨1, secs 2, secs 3⟩] ∧
      (leases es).Pairwise Lease.excludes := by
  refine ⟨by decide, ?_⟩
  have hclock : Clocked (play exec .empty redelivered).2 := ⟨by decide, by decide⟩
  exact (outbox_delivery rfl hclock (play_run exec .empty redelivered)).2.1

/-- An accepted acknowledgement, repeated by another producer and, once the event is deleted, by the
same one. -/
def acknowledgedTwice : List Request :=
  [.byAdmin 0 (.registerBundle ⟨[], [], .default⟩),
    .byAdmin 10 (.claimEvents ['p'] 5 60 []),
    .byAdmin 20 (.ackEvent 1 ['p'] ['k']),
    .byAdmin 30 (.ackEvent 1 ['q'] ['k']),
    .byAdmin (days 31) (.syncBundle 1 ⟨[], [], .default⟩),
    .byAdmin (days 31) (.ackEvent 1 ['p'] ['k'])]

theorem acknowledgedTwice_refused :
    ((play exec .empty acknowledgedTwice).2.map fun e => e.result.isOk) =
      [true, true, true, false, true, false] := by
  decide

end Pgokf.Catalog
