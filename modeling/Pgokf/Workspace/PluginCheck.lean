import Mathlib.Data.List.MinMax
import Pgokf.Workspace.WarnPolicy

/-! # The freshness check of a built plugin (`pgokf-workspace`, `lib.rs`, `plugin.rs`,
`freshness.rs`)

A build pins the bundles it read in `okf-workspace.lock`, and lists what it ships there. The check
compares the lock with the catalog as it is later. The lock is followed as the JSON value that its
text parses to. -/

namespace Pgokf.Workspace

open Lib Catalog

variable {F : Type}

/-! ### The snapshot and the lock -/

structure Capabilities where
  freshness : Bool
  catalogGeneration : Bool

def Capabilities.extended (capabilities : Capabilities) : Bool :=
  capabilities.freshness && capabilities.catalogGeneration

/- A client with what the lock records of the bundles beside their rows of the catalog model. -/
structure Connection (F : Type) extends Client F where
  capabilities : Capabilities
  version : Text
  sqlVersion : Text
  bundleName : BundleId → Text
  syncHash : BundleId → Option Text
  lastSyncedAt : BundleId → Option Text

def Connection.viewedBundle (conn : Connection F) (b : BundleId) : Option BundleRow :=
  conn.store.catalog.viewedBundle conn.txn b

def Connection.bundleFreshness (conn : Connection F) (extended : Bool) (b : BundleId) :
    Option EffectiveRow :=
  if extended then conn.store.catalog.bundleFreshness conn.txn b else none

def Connection.bundleState (conn : Connection F) (extended : Bool) (b : BundleId) : Option BundleState :=
  (conn.viewedBundle b).map fun bundle =>
    { id := b
      name := conn.bundleName b
      syncHash := conn.syncHash b
      lastSyncedAt := conn.lastSyncedAt b
      catalogGeneration := if extended then some bundle.catalogGeneration else none
      freshnessState := (conn.bundleFreshness extended b).map (·.state.text)
      freshnessReasons := (conn.bundleFreshness extended b).elim [] (·.reasons) }

/-- Generations and states are pinned by a build in which the freshness had a say. -/
def Connection.snapshotFor (conn : Connection F) (selection : Selection)
    (records : List ConceptRecord) : Snapshot where
  version := conn.version
  sqlVersion := conn.sqlVersion
  bundles := ((records.map (·.bundleId)).insertionSort (· ≤ ·)).dedup.filterMap
    (conn.bundleState (engaged selection records && conn.capabilities.extended))

def optionalText : Option Text → Json F
  | some text => .string text
  | none => .null

/-- A member that is skipped when it is absent. -/
def optionalMember (key : String) (value : Option (Json F)) : List (Text × Json F) :=
  (value.map fun v => (key.toList, v)).toList

def BundleState.json (state : BundleState) : Json F :=
  .object ([("id".toList, .number (.int state.id)), ("name".toList, .string state.name),
      ("sync_hash".toList, optionalText state.syncHash),
        ("last_synced_at".toList, optionalText state.lastSyncedAt)] ++
    optionalMember "catalog_generation" (state.catalogGeneration.map fun n => .number (.int n)) ++
    optionalMember "freshness_state" (state.freshnessState.map .string) ++
    (if state.freshnessReasons.isEmpty then []
      else [("freshness_reasons".toList, .array (state.freshnessReasons.map .string))]))

def Freshness.json (freshness : Freshness) : Json F :=
  .object [("state", .string freshness.state),
    ("reasons", .array (freshness.reasons.map .string)),
    ("scope", .string freshness.scope),
    ("stale_since", optionalText freshness.staleSince),
    ("observed_revision", optionalText freshness.observedRevision),
    ("indexed_revision", optionalText freshness.indexedRevision),
    ("published_revision", optionalText freshness.publishedRevision),
    ("catalog_generation", freshness.catalogGeneration.elim .null fun n => .number (.int n)),
    ("last_reconciled_at", optionalText freshness.lastReconciledAt)]

def Origin.json (origin : Origin) : Json F :=
  .object [("pick", .bool origin.pick), ("seed", .bool origin.seed),
    ("closure", .bool origin.closure)]

def LockEntry.json (entry : LockEntry) : Json F :=
  .object ([("bundle_id".toList, .number (.int entry.bundleId)),
    ("concept_id".toList, .string entry.conceptId),
      ("path".toList, .string entry.path), ("file".toList, .string entry.file),
      ("file_hash".toList, .string entry.fileHash),
        ("content_sha256".toList, .string entry.contentSha256),
      ("exact".toList, .bool entry.exact)] ++
    optionalMember "package_concept_id" (entry.packageConceptId.map .string) ++
    optionalMember "package_hash" (entry.package.map fun package => .string package.1) ++
    optionalMember "package_directory" (entry.package.map fun package => .string package.2) ++
    optionalMember "freshness" (entry.freshness.map Freshness.json) ++
    optionalMember "origin" (entry.origin.map Origin.json))

/- Of the members at the top, those that no check reads are left out. -/
def LockFile.json (lock : LockFile) : Json F :=
  .object [("version", .number (.int 1)), ("name", .string lock.name),
    ("catalog", .object [("version", .string lock.snapshot.version),
      ("sql_version", .string lock.snapshot.sqlVersion),
      ("bundles", .array (lock.snapshot.bundles.map BundleState.json))]),
    ("entries", .array (lock.entries.map LockEntry.json))]

structure PinnedBundle where
  id : BundleId
  name : Option Text
  syncHash : Option Text
  catalogGeneration : Option Int
  deriving DecidableEq

structure PinnedEntry where
  bundleId : BundleId
  conceptId : Text
  state : Text
  reasons : List Text
  deriving DecidableEq

def pinnedBundle (entry : Json F) : Except BuildError PinnedBundle := do
  let id ← orRefuse ((entry.get "id").bind Json.asI64)
    (.invalid "a lockfile bundle entry has no integer id")
  pure {
    id
    name := (entry.get "name").bind Json.asStr
    syncHash := (entry.get "sync_hash").bind Json.asStr
    catalogGeneration := (entry.get "catalog_generation").bind Json.asI64 }

/-- An entry without a recorded state plays no part. -/
def pinnedEntry (entry : Json F) : Option PinnedEntry := do
  let bundleId ← (entry.get "bundle_id").bind Json.asI64
  let conceptId ← (entry.get "concept_id").bind Json.asStr
  let state ← (entry.pointer ["freshness", "state"]).bind Json.asStr
  some {
    bundleId
    conceptId
    state
    reasons := ((entry.pointer ["freshness", "reasons"]).bind Json.asArray).elim []
      (·.filterMap Json.asStr) }

def parseLock (lock : Json F) :
    Except BuildError (Option Text × List PinnedBundle × List PinnedEntry) := do
  let bundles ← orRefuse ((lock.pointer ["catalog", "bundles"]).bind Json.asArray)
    (.invalid "not an okf-workspace.lock: no catalog.bundles list")
  let pinned ← bundles.mapM pinnedBundle
  let entries := ((lock.pointer ["entries"]).bind Json.asArray).getD []
  pure ((lock.get "name").bind Json.asStr, pinned, entries.filterMap pinnedEntry)

/-! ### The comparison -/

inductive PluginStatus where
  | current
  | stale
  | retired
  | unknown
  deriving DecidableEq

def PluginStatus.rank : PluginStatus → Nat
  | .current => 0
  | .unknown => 1
  | .stale => 2
  | .retired => 3

structure BundleCheck where
  bundleId : BundleId
  name : Option Text
  status : PluginStatus
  reasons : List Text
  deriving DecidableEq

structure PluginCheck where
  name : Option Text
  status : PluginStatus
  reasons : List Text
  bundles : List BundleCheck
  deriving DecidableEq

structure LiveBundle where
  syncHash : Option Text
  catalogGeneration : Option Int
  enabled : Bool
  retired : Bool
  freshnessState : Option Text
  freshnessReasons : List Text
  deriving DecidableEq

abbrev LiveScopes := Text → Option (Text × List Text)

def Connection.liveBundle (conn : Connection F) (b : BundleId) : Option LiveBundle :=
  (conn.viewedBundle b).map fun bundle =>
    { syncHash := conn.syncHash b
      catalogGeneration := if conn.capabilities.extended then some bundle.catalogGeneration else none
      enabled := bundle.enabled
      retired := bundle.retiredAt.isSome
      freshnessState := (conn.bundleFreshness conn.capabilities.extended b).map (·.state.text)
      freshnessReasons := (conn.bundleFreshness conn.capabilities.extended b).elim [] (·.reasons) }

def Connection.liveScopes (conn : Connection F) (b : BundleId) : LiveScopes := fun concept =>
  if conn.capabilities.extended then
    (conn.store.catalog.scopeFreshness conn.txn b .concept concept).map fun row =>
      (row.state.text, row.reasons)
  else none

/-- A recorded or live state that speaks against the plugin. -/
def isDrift (state : Text) : Bool := state != "fresh" && state != "unknown"

def inParens (reasons : List Text) : Text :=
  if reasons.isEmpty then [] else " (" ++ ", ".toList.intercalate reasons ++ ")"

def numeral (n : Int) : Text := (toString n).toList

section Compare

variable (pin : PinnedBundle) (live : LiveBundle) (scopes : LiveScopes)

def generationDrift : List Text :=
  match pin.catalogGeneration, live.catalogGeneration with
  | some pinned, some now =>
    if pinned ≠ now then
      ["the catalog generation advanced from " ++ numeral pinned ++ " to " ++ numeral now]
    else []
  | _, _ => []

def hashDrift : List Text :=
  match pin.syncHash, live.syncHash with
  | some pinned, some now => if pinned ≠ now then ["the bundle's content changed"] else []
  | _, _ => []

def stateDrift : List Text :=
  match live.freshnessState with
  | some state =>
    if state ≠ "fresh" then
      ["the bundle's freshness is " ++ state ++ inParens live.freshnessReasons]
    else []
  | none => []

def builtDrift (entry : PinnedEntry) : List Text :=
  if isDrift entry.state then
    ["concept " ++ entry.conceptId ++ " was already " ++ entry.state ++
      " when the plugin was built" ++ inParens entry.reasons ++
      "; rebuild to pick up the reconciled content"]
  else []

def scopeDrift (entry : PinnedEntry) : List Text :=
  match scopes entry.conceptId with
  | some (state, reasons) =>
    if isDrift state then ["concept " ++ entry.conceptId ++ " is now " ++ state ++ inParens reasons]
    else []
  | none => []

def drift (entries : List PinnedEntry) : List Text :=
  generationDrift pin live ++ hashDrift pin live ++ stateDrift live ++ entries.flatMap builtDrift ++
    entries.flatMap (scopeDrift scopes)

def gaps : List Text :=
  (if pin.catalogGeneration.isSome && live.catalogGeneration.isNone then
    ["the catalog records no catalog generation to compare the pin against".toList] else []) ++
  (if pin.syncHash.isSome && live.syncHash.isNone then
    ["the catalog records no sync hash to compare the pin against".toList] else [])

/-- A generation that matches, or a bundle that is fresh now. -/
def confirmed : Bool :=
  (pin.catalogGeneration.isSome && pin.catalogGeneration == live.catalogGeneration) ||
    live.freshnessState == some "fresh".toList

def unconfirmedReasons : List Text :=
  if !(gaps pin live).isEmpty then gaps pin live
  else if pin.catalogGeneration.isNone && pin.syncHash.isNone then
    ["the lockfile pins nothing comparable for this bundle"]
  else ["the pins match, but the catalog offers no live freshness state or catalog generation to confirm them"]

def PinnedBundle.check (status : PluginStatus) (reasons : List Text) : BundleCheck :=
    ⟨pin.id, pin.name, status, reasons⟩

/- A retired state ends the comparison before any drift is reported. -/
def compareBundle (found : Option LiveBundle) (entries : List PinnedEntry) : BundleCheck :=
  match found with
  | none => pin.check .retired ["the bundle is gone from the catalog".toList]
  | some live =>
    if live.retired then pin.check .retired ["the bundle is retired".toList]
    else if !live.enabled then pin.check .retired ["the bundle is disabled".toList]
    else if live.freshnessState = some "retired".toList then
      pin.check .retired ["the bundle's freshness is retired".toList]
    else if !(drift pin live scopes entries).isEmpty then pin.check .stale
      (drift pin live scopes entries)
    else if !confirmed pin live then pin.check .unknown (unconfirmedReasons pin live)
    else pin.check .current (gaps pin live)

end Compare

def aggregate (name : Option Text) (bundles : List BundleCheck) : PluginCheck where
  name := name
  status := ((bundles.map (·.status)).argmax PluginStatus.rank).getD .unknown
  reasons := bundles.flatMap fun bundle =>
    bundle.reasons.map fun reason => "bundle " ++ numeral bundle.bundleId ++ ": " ++ reason
  bundles := bundles

def Connection.compareLock (conn : Connection F) (name : Option Text) (pinned : List PinnedBundle)
    (entries : List PinnedEntry) : PluginCheck :=
  if pinned.isEmpty then ⟨name, .unknown, ["the lockfile pins no bundles"], []⟩
  else aggregate name (pinned.map fun pin =>
    compareBundle pin (conn.liveScopes pin.id) (conn.liveBundle pin.id)
      (entries.filter (·.bundleId == pin.id)))

/-- `none` is a content that is no JSON. -/
def Connection.checkPluginFreshness (conn : Connection F) (content : Option (Json F)) :
    Except BuildError PluginCheck := do
  let lock ← orRefuse content (.invalid "the lock content is not valid JSON")
  let (name, pinned, entries) ← parseLock lock
  pure (conn.compareLock name pinned entries)

section Current

variable {pin : PinnedBundle} {scopes : LiveScopes} {entries : List PinnedEntry}
  {bundles : List BundleCheck}

theorem compareBundle_current {found : Option LiveBundle}
    (h : (compareBundle pin scopes found entries).status = .current) :
    ∃ live, found = some live ∧ drift pin live scopes entries = [] ∧ confirmed pin live = true := by
  cases found with
  | none => cases h
  | some live =>
    refine ⟨live, rfl, ?_⟩
    rw [compareBundle] at h
    split_ifs at h with hretired hdisabled hstate hdrift hconfirmed
    · cases h
    · cases h
    · cases h
    · cases h
    · cases h
    · exact ⟨by simpa using hdrift, by simpa using hconfirmed⟩

theorem aggregate_current {name : Option Text} (h : (aggregate name bundles).status = .current) :
    ∀ check ∈ bundles, check.status = .current := by
  intro check hcheck
  have hmem : check.status ∈ bundles.map (·.status) := List.mem_map_of_mem hcheck
  cases hworst : (bundles.map (·.status)).argmax PluginStatus.rank with
  | none => simp [aggregate, hworst] at h
  | some worst =>
    have hcurrent : worst = .current := by simpa [aggregate, hworst] using h
    have hle := List.le_of_mem_argmax hmem hworst
    rw [hcurrent] at hle
    cases hstatus : check.status with
    | current => rfl
    | stale | retired | unknown => simp [hstatus, PluginStatus.rank] at hle

theorem text_eq_fresh {state : FreshnessState} : isDrift state.text = false ↔ state = .fresh := by
  cases state <;> decide

variable {live : LiveBundle}

theorem scopes_of_drift (h : drift pin live scopes entries = []) {entry : PinnedEntry}
    (hentry : entry ∈ entries)
    {scope : Text × List Text} (hscope : scopes entry.conceptId = some scope) :
    isDrift scope.1 = false := by
  have hentries : entries.flatMap (scopeDrift scopes) = [] := (List.append_eq_nil_iff.mp h).2
  have hnone := List.flatMap_eq_nil_iff.mp hentries entry hentry
  rw [scopeDrift, hscope] at hnone
  cases hdrift : isDrift scope.1 with
  | false => rfl
  | true => simp [hdrift] at hnone

theorem state_of_drift (h : drift pin live scopes entries = []) {state : Text}
    (hstate : live.freshnessState = some state) : state = "fresh" := by
  have hnone : stateDrift live = [] := by
    simp only [drift, List.append_eq_nil_iff] at h
    exact h.1.1.2
  by_contra hne
  simp only [stateDrift, hstate, if_pos hne] at hnone
  exact List.cons_ne_nil _ _ hnone

end Current

section Recorded

variable {lock : LockFile} {entry : LockEntry} {name : Option Text} {pinned : List PinnedBundle}
  {entries : List PinnedEntry}

def ConceptRecord.shipped (record : ConceptRecord) : List ConceptRef :=
  record.key :: record.package.elim [] fun package =>
    package.resources.map fun member => (record.bundleId, member.conceptId)

def Plugin.shipped (plugin : Plugin) : List ConceptRef := plugin.concepts.flatMap ConceptRecord.shipped

def LockEntry.listed (entry : LockEntry) : ConceptRef × Bool :=
  ((entry.bundleId, entry.conceptId), entry.freshness.isSome)

variable {record : ConceptRecord} {f : PluginFile} {engaged : Bool}

theorem listed_eq {package : Option (Text × Text)} :
    (lockEntry record f package engaged).listed = (record.key, engaged) := by
  cases engaged <;> rfl

theorem member_listed_eq {member : ResourceFile} {freshness : Option Freshness} {package : Text × Text} :
    (memberLockEntry record f member freshness package engaged).listed =
      ((record.bundleId, member.conceptId), engaged) := by
  cases engaged <;> rfl

variable {texts : Texts} {placing : Placing}

theorem recordFiles_listed (record : ConceptRecord) (placed : Materialized)
    (h : placing.recordFiles texts record = .ok placed) :
    placed.entries.map LockEntry.listed = record.shipped.map (·, placing.engaged) := by
  unfold Placing.recordFiles at h
  unfold ConceptRecord.shipped
  cases hpackage : record.package with
  | some package =>
    simp only [hpackage, Placing.packageFiles, bind_eq_ok, pure_eq_ok] at h
    obtain ⟨members, hmembers, rfl⟩ := h
    have hlisted : members.map (fun result => result.2.listed) =
        package.resources.map fun member => ((record.bundleId, member.conceptId), placing.engaged) := by
      refine map_of_mapM (fun member result hresult => ?_) hmembers
      simp only [Placing.memberFiles, bind_eq_ok, pure_eq_ok] at hresult
      obtain ⟨_, -, rfl⟩ := hresult
      exact member_listed_eq
    simp only [List.map_cons, List.map_map, listed_eq, Option.elim_some]
    exact congrArg _ hlisted
  | none =>
    simp only [hpackage, Placing.documentFiles, bind_eq_ok, pure_eq_ok] at h
    obtain ⟨_, -, rfl⟩ := h
    simp only [List.map_cons, List.map_nil, listed_eq, Option.elim_none]

theorem contentFiles_listed {unicode : Unicode} {records : List ConceptRecord} {discovers : Bool}
    {content : Materialized} (h : contentFiles unicode texts placing records discovers = .ok content) :
    content.entries.map LockEntry.listed = (records.flatMap ConceptRecord.shipped).map
      (·, placing.engaged) := by
  simp only [contentFiles, bind_eq_ok, pure_eq_ok] at h
  obtain ⟨-, -, parts, hparts, rfl⟩ := h
  rw [List.map_flatMap, List.map_flatMap, List.flatMap_def, List.flatMap_def]
  exact congrArg List.flatten (map_of_mapM recordFiles_listed hparts)

theorem get_freshness :
    (entry.json : Json F).get "freshness".toList = entry.freshness.map Freshness.json := by
  obtain ⟨bundleId, conceptId, path, file, fileHash, contentSha256, exact, packageConceptId,
    package, freshness,
    origin⟩ := entry
  cases packageConceptId <;> cases package <;> cases freshness <;> cases origin <;> rfl

theorem pinnedEntry_json {freshness : Freshness} (hfreshness : entry.freshness = some freshness)
    (hrange : (Json.number (.int entry.bundleId) : Json F).asI64 = some entry.bundleId) :
    ∃ pin, pinnedEntry (entry.json : Json F) = some pin ∧ pin.bundleId = entry.bundleId ∧
      pin.conceptId = entry.conceptId := by
  have hbundle : ((entry.json : Json F).get "bundle_id".toList).bind Json.asI64 =
    some entry.bundleId := hrange
  have hstate : ((entry.json : Json F).pointer ["freshness", "state"]).bind Json.asStr =
    some freshness.state := by
    simp only [Json.pointer, List.foldlM_cons, get_freshness, hfreshness]
    rfl
  have hconcept : ((entry.json : Json F).get "concept_id".toList).bind Json.asStr =
    some entry.conceptId := rfl
  simp only [pinnedEntry, hbundle, hconcept, hstate]
  exact ⟨_, rfl, rfl, rfl⟩

theorem parseLock_json (h : parseLock (lock.json : Json F) = .ok (name, pinned, entries)) :
    List.Forall₂ (fun state pin => pinnedBundle (BundleState.json state : Json F) = .ok pin)
        lock.snapshot.bundles pinned ∧
      entries = lock.entries.filterMap fun entry => pinnedEntry (entry.json : Json F) := by
  simp only [parseLock, bind_eq_ok, orRefuse_eq_ok, pure_eq_ok, Prod.mk.injEq] at h
  obtain ⟨bundles, hbundles, _, hpins, rfl, rfl, rfl⟩ := h
  obtain rfl : lock.snapshot.bundles.map BundleState.json = bundles := Option.some.inj hbundles
  rw [List.mapM_map] at hpins
  refine ⟨forall₂_of_mapM hpins, ?_⟩
  exact List.filterMap_map

end Recorded

section Shipped

variable {unicode : Unicode} {texts : Texts} {options : BuildOptions} {selection : Selection}
  {snapshot : Snapshot}
  {records : List ConceptRecord} {report : BuildReport} {plugin : Plugin} {builder live : Connection F}

theorem assembleWithReport_lock
    (h : assembleWithReport unicode texts options selection snapshot records report = .ok plugin) :
    plugin.concepts = records ∧ ∃ lock,
      assembleLock unicode texts options selection snapshot records report = .ok lock ∧
      (∃ f ∈ plugin.files, f.bytes = texts.lock lock) ∧ lock.snapshot = snapshot ∧
      lock.entries.map LockEntry.listed =
        (records.flatMap ConceptRecord.shipped).map (·, engaged selection records) := by
  simp only [assembleWithReport, bind_eq_ok, pure_eq_ok] at h
  obtain ⟨prepared, hprepared, content, hcontent, extra, hextra, ⟨⟩, -, rfl⟩ := h
  refine ⟨rfl, _, ?_, ⟨_, List.mem_append_right _ (List.mem_singleton.mpr rfl), rfl⟩, rfl,
    contentFiles_listed hcontent⟩
  simp only [assembleLock, bind_eq_ok, pure_eq_ok]
  exact ⟨prepared, hprepared, content, hcontent, extra, hextra, rfl⟩

def Client.ConceptStale (client : Client F) (v : ConceptRef) : Prop :=
  ∃ row, client.store.catalog.scopeFreshness client.txn v.1 .concept v.2 = some row ∧ row.state ≠ .fresh

variable {v : ConceptRef}

theorem effectiveState_of_fresh_bundle {client : Client F}
    (hbundle : ∀ row, client.store.catalog.bundleFreshness client.txn v.1 = some row →
      row.state = .fresh) :
    client.effectiveState v = .fresh ↔ ¬ client.PathStale v ∧ ¬ client.ConceptStale v := by
  unfold Client.effectiveState State.effectiveState Client.PathStale Client.ConceptStale
  cases hconcept : client.store.catalog.scopeFreshness client.txn v.1 .concept v.2 with
  | some row => simp
  | none =>
    cases hpath : client.store.catalog.scopeFreshness client.txn v.1 .path (client.rows v).path with
    | some row => simp
    | none =>
      cases hrow : client.store.catalog.bundleFreshness client.txn v.1 with
      | some row => simp [hbundle row hrow]
      | none => simp

/-- A plugin that is current had its bundles confirmed, and no recorded concept has drifted. -/
structure Connection.Confirms (conn : Connection F) (pinned : List PinnedBundle)
    (entries : List PinnedEntry) : Prop where
  bundle : ∀ pin ∈ pinned, conn.capabilities.extended = true ∧
    ∀ row, conn.store.catalog.bundleFreshness conn.txn pin.id = some row → row.state = .fresh
  concept : ∀ pin ∈ pinned, ∀ entry ∈ entries, entry.bundleId = pin.id →
    ¬ conn.ConceptStale (entry.bundleId, entry.conceptId)

theorem liveBundle_eq {b : BundleId} {row : LiveBundle} (h : live.liveBundle b = some row) :
    (live.capabilities.extended = false → row.catalogGeneration = none ∧ row.freshnessState = none) ∧
      (live.capabilities.extended = true →
        row.freshnessState = (live.store.catalog.bundleFreshness live.txn b).map (·.state.text)) := by
  obtain ⟨bundle, -, rfl⟩ := Option.map_eq_some_iff.mp h
  constructor
  · intro hplain
    simp [hplain, Connection.bundleFreshness]
  · intro hextended
    simp [hextended, Connection.bundleFreshness]

variable {pinned : List PinnedBundle}

theorem confirms_of_current {name : Option Text} {entries : List PinnedEntry}
    (h : (live.compareLock name pinned entries).status = .current) : live.Confirms pinned entries := by
  have hall : ∀ pin ∈ pinned, ∃ row, live.liveBundle pin.id = some row ∧
      drift pin row (live.liveScopes pin.id) (entries.filter (·.bundleId == pin.id)) = [] ∧
      confirmed pin row = true := by
    intro pin hpin
    rw [Connection.compareLock, if_neg (by simpa using List.ne_nil_of_mem hpin)] at h
    exact compareBundle_current (aggregate_current h _ (List.mem_map_of_mem hpin))
  have hextended : ∀ pin ∈ pinned, live.capabilities.extended = true := by
    intro pin hpin
    obtain ⟨row, hrow, -, hconfirmed⟩ := hall pin hpin
    by_contra hplain
    obtain ⟨hgeneration, hstate⟩ := (liveBundle_eq hrow).1 (by simpa using hplain)
    cases hpinned : pin.catalogGeneration <;>
      simp [confirmed, hgeneration, hstate, hpinned] at hconfirmed
  constructor
  · intro pin hpin
    obtain ⟨row, hrow, hdrift, -⟩ := hall pin hpin
    refine ⟨hextended pin hpin, fun freshness hfreshness => text_eq_fresh.mp ?_⟩
    have hstate := (liveBundle_eq hrow).2 (hextended pin hpin)
    rw [hfreshness, Option.map_some] at hstate
    rw [state_of_drift hdrift hstate]
    decide
  · rintro pin hpin entry hentry hbundle ⟨row, hrow, hne⟩
    obtain ⟨_, -, hdrift, -⟩ := hall pin hpin
    have hmem : entry ∈ entries.filter (·.bundleId == pin.id) :=
      List.mem_filter.mpr ⟨hentry, by simp [hbundle]⟩
    have hscope : live.liveScopes pin.id entry.conceptId = some (row.state.text, row.reasons) := by
      rw [Connection.liveScopes, if_pos (hextended pin hpin), ← hbundle, hrow]
      rfl
    exact hne (text_eq_fresh.mp (scopes_of_drift hdrift hmem hscope))

theorem mem_snapshotFor (selection : Selection) {record : ConceptRecord} (hrecord : record ∈ records)
    (hseen : (builder.viewedBundle record.bundleId).isSome = true) :
    ∃ state ∈ (builder.snapshotFor selection records).bundles, state.id = record.bundleId := by
  obtain ⟨bundle, hbundle⟩ := Option.isSome_iff_exists.mp hseen
  have hid : record.bundleId ∈ ((records.map (·.bundleId)).insertionSort (· ≤ ·)).dedup := by
    rw [List.mem_dedup, List.mem_insertionSort]
    exact List.mem_map_of_mem hrecord
  have hpinned : ∀ extended, ∃ state, builder.bundleState extended record.bundleId = some state ∧
      state.id = record.bundleId := by
    intro extended
    rw [Connection.bundleState, hbundle]
    exact ⟨_, rfl, rfl⟩
  obtain ⟨state, hstate, hstateId⟩ :=
    hpinned (engaged selection records && builder.capabilities.extended)
  exact ⟨state, List.mem_filterMap.mpr ⟨_, hid, hstate⟩, hstateId⟩

theorem bundle_of_mem_shipped (h : v ∈ records.flatMap ConceptRecord.shipped) :
    ∃ record ∈ records, record.bundleId = v.1 := by
  obtain ⟨record, hrecord, hv⟩ := List.mem_flatMap.mp h
  refine ⟨record, hrecord, ?_⟩
  rcases List.mem_cons.mp hv with rfl | hv
  · rfl
  · cases hpackage : record.package with
    | none => simp [hpackage] at hv
    | some package =>
      rw [hpackage, Option.elim_some] at hv
      obtain ⟨member, -, rfl⟩ := List.mem_map.mp hv
      rfl

theorem pin_of_state {bundles : List BundleState}
    (h : List.Forall₂ (fun state pin => pinnedBundle (BundleState.json state : Json F) = .ok pin)
      bundles pinned)
    {state : BundleState} (hstate : state ∈ bundles) :
    ∃ pin ∈ pinned, pin.id = state.id ∧
      (Json.number (.int state.id) : Json F).asI64 = some state.id := by
  induction h with
  | nil => cases hstate
  | cons hread _ ih =>
    rcases List.mem_cons.mp hstate with rfl | hstate
    · simp only [pinnedBundle, bind_eq_ok, orRefuse_eq_ok, pure_eq_ok] at hread
      obtain ⟨id, hid, rfl⟩ := hread
      have hid : (Json.number (.int state.id) : Json F).asI64 = some id := hid
      obtain rfl := Json.asI64_int hid
      exact ⟨_, List.mem_cons_self, rfl, hid⟩
    · obtain ⟨pin, hpin, hread⟩ := ih hstate
      exact ⟨pin, List.mem_cons_of_mem _ hpin, hread⟩

/-- Of a plugin that is current everything that it ships is fresh, exactly if no path of it is
overridden without its concept, and no concept of a plugin whose lock records no states. -/
theorem current_plugin_fresh_iff (builder live : Connection F) (selection : Selection)
    (records : List ConceptRecord)
    (hseen : ∀ record ∈ records, (builder.viewedBundle record.bundleId).isSome = true)
    (hplugin : assembleWithReport unicode texts options selection
      (builder.snapshotFor selection records) records
      report = .ok plugin) :
    ∃ lock, assembleLock unicode texts options selection
      (builder.snapshotFor selection records) records report =
        .ok lock ∧ (∃ f ∈ plugin.files, f.bytes = texts.lock lock) ∧
      ∀ check, live.checkPluginFreshness (some lock.json) = .ok check → check.status = .current →
        ((∀ v ∈ plugin.shipped, live.effectiveState v = .fresh) ↔
          ∀ v ∈ plugin.shipped, ¬ live.PathStale v ∧
            (engaged selection records = false → ¬ live.ConceptStale v)) := by
  obtain ⟨hconcepts, lock, hlock, hfile, hsnapshot, hlisted⟩ := assembleWithReport_lock hplugin
  refine ⟨lock, hlock, hfile, fun check hcheck hcurrent => ?_⟩
  rw [Plugin.shipped, hconcepts]
  simp only [Connection.checkPluginFreshness, bind_eq_ok, orRefuse_eq_ok, Option.some.injEq, pure_eq_ok,
    exists_eq_left'] at hcheck
  obtain ⟨⟨name, pinned, entries⟩, hparse, rfl⟩ := hcheck
  obtain ⟨hpins, rfl⟩ := parseLock_json hparse
  rw [hsnapshot] at hpins
  have hconfirms := confirms_of_current hcurrent
  have hpinned : ∀ v ∈ records.flatMap ConceptRecord.shipped, ∃ pin ∈ pinned, pin.id = v.1 ∧
      (Json.number (.int v.1) : Json F).asI64 = some v.1 := by
    intro v hv
    obtain ⟨record, hrecord, hbundle⟩ := bundle_of_mem_shipped hv
    obtain ⟨state, hstate, hid⟩ := mem_snapshotFor selection hrecord (hseen record hrecord)
    obtain ⟨pin, hpin, hpinId, hrange⟩ := pin_of_state hpins hstate
    rw [hid, hbundle] at hpinId hrange
    exact ⟨pin, hpin, hpinId, hrange⟩
  have hfresh : ∀ v ∈ records.flatMap ConceptRecord.shipped,
      (live.effectiveState v = .fresh ↔ ¬ live.PathStale v ∧ ¬ live.ConceptStale v) := by
    intro v hv
    obtain ⟨pin, hpin, hid, -⟩ := hpinned v hv
    exact effectiveState_of_fresh_bundle (hid ▸ (hconfirms.bundle pin hpin).2)
  -- A concept whose state is recorded is compared with its override.
  have hrecorded : engaged selection records = true → ∀ v ∈ records.flatMap ConceptRecord.shipped,
      ¬ live.ConceptStale v := by
    intro hengaged v hv
    obtain ⟨pin, hpin, hid, hrange⟩ := hpinned v hv
    have hmem : (v, true) ∈ lock.entries.map LockEntry.listed := by
      rw [hlisted, hengaged]
      exact List.mem_map_of_mem hv
    obtain ⟨entry, hentry, hshown⟩ := List.mem_map.mp hmem
    obtain ⟨rfl, hstate⟩ := Prod.mk.inj hshown
    obtain ⟨freshness, hfreshness⟩ := Option.isSome_iff_exists.mp hstate
    obtain ⟨pinnedEntry, hread, hbundle, hconcept⟩ := pinnedEntry_json hfreshness hrange
    have hno := hconfirms.concept pin hpin pinnedEntry (List.mem_filterMap.mpr ⟨entry, hentry, hread⟩)
      (hbundle.trans hid.symm)
    rwa [hbundle, hconcept] at hno
  constructor
  · intro hships v hv
    obtain ⟨hpath, hconcept⟩ := (hfresh v hv).mp (hships v hv)
    exact ⟨hpath, fun _ => hconcept⟩
  · intro hnone v hv
    obtain ⟨hpath, hplain⟩ := hnone v hv
    refine (hfresh v hv).mpr ⟨hpath, ?_⟩
    cases hengaged : engaged selection records with
    | false => exact hplain hengaged
    | true => exact hrecorded hengaged v hv

end Shipped

def connectionAfter (calls : List (StoreCall Nat)) : Connection Nat where
  toClient := pathClient calls
  capabilities := ⟨true, true⟩
  version := []
  sqlVersion := []
  bundleName _ := "docs"
  syncHash _ := some "h"
  lastSyncedAt _ := none

def builtAt : Connection Nat := connectionAfter ((laterMarked .concept "a").take 1)

def shippedRecord : ConceptRecord :=
  { recordFromRow (1, "a") (builtAt.rows (1, "a")) true with exact := true, bytes := [65] }

def warningOnly : Selection := { excluding with stalePolicy := .warn }

def builtLock (selection : Selection) : Except BuildError LockFile :=
  assembleLock plainUnicode blankTexts genericOptions selection
    (builtAt.snapshotFor selection [shippedRecord])
    [shippedRecord] noReport

def statusOf (selection : Selection) (live : Connection Nat) : Except BuildError PluginStatus := do
  let lock ← builtLock selection
  let check ← live.checkPluginFreshness (some lock.json)
  pure check.status

def builtPlugin (selection : Selection) : Except BuildError Plugin :=
  assembleWithReport plainUnicode blankTexts genericOptions selection
    (builtAt.snapshotFor selection [shippedRecord])
    [shippedRecord] noReport

theorem current_plugin_fresh_iff_unmarked :
    ∃ plugin, builtPlugin warningOnly = .ok plugin ∧ statusOf warningOnly builtAt = .ok .current ∧
      (1, "a".toList) ∈ plugin.shipped ∧ ∀ v ∈ plugin.shipped, builtAt.effectiveState v = .fresh := by
  have hbuilt : (builtPlugin warningOnly).isOk = true := by decide +kernel
  have hstatus : (statusOf warningOnly builtAt).toOption = some .current := by decide +kernel
  have hseen : ∀ record ∈ [shippedRecord], (builtAt.viewedBundle record.bundleId).isSome = true :=
    by decide +kernel
  cases hplugin : builtPlugin warningOnly with
  | error refusal =>
    rw [hplugin] at hbuilt
    cases hbuilt
  | ok plugin =>
    cases hcurrent : statusOf warningOnly builtAt with
    | error refusal =>
      rw [hcurrent] at hstatus
      cases hstatus
    | ok status =>
      rw [hcurrent] at hstatus
      obtain rfl : status = .current := Option.some.inj hstatus
      obtain ⟨lock, hlock, -, hiff⟩ :=
        current_plugin_fresh_iff builtAt builtAt warningOnly [shippedRecord] hseen hplugin
      simp only [statusOf, bind_eq_ok, pure_eq_ok] at hcurrent
      obtain ⟨lock', hlock', check, hcheck, hcheckStatus⟩ := hcurrent
      obtain rfl : lock' = lock := Except.ok.inj (hlock'.symm.trans hlock)
      have hshipped : plugin.shipped = [(1, "a".toList)] := by
        rw [Plugin.shipped, (assembleWithReport_lock hplugin).1]
        rfl
      refine ⟨plugin, rfl, rfl, hshipped ▸ List.mem_singleton.mpr rfl,
        (hiff check hcheck hcheckStatus).mpr ?_⟩
      rw [hshipped]
      intro v hv
      obtain rfl := List.mem_singleton.mp hv
      have hno : ∀ kind key, builtAt.store.catalog.scopeFreshness builtAt.txn 1 kind key = none := by
        intro kind key
        have hscopes : builtAt.store.catalog.freshness.scopes (1, kind, key) = none := rfl
        simp [State.scopeFreshness, hscopes]
      constructor
      · rintro ⟨-, row, hrow, -⟩
        exact absurd (hrow.symm.trans (hno _ _)) (Option.some_ne_none row)
      · rintro - ⟨row, hrow, -⟩
        exact absurd (hrow.symm.trans (hno _ _)) (Option.some_ne_none row)

/-- After a build that records no states the concept is marked stale, after one that records them
its path is. Both plugins stay current. -/
theorem later_override_unseen :
    (builtPlugin warningOnly).isOk = true ∧ (builtPlugin excluding).isOk = true ∧
      (statusOf warningOnly (connectionAfter (laterMarked .concept "a"))).toOption = some .current ∧
      (connectionAfter (laterMarked .concept "a")).effectiveState (1, "a".toList) = .stale ∧
      (statusOf excluding (connectionAfter (laterMarked .path "a.md"))).toOption = some .current ∧
      (connectionAfter (laterMarked .path "a.md")).effectiveState (1, "a".toList) = .stale := by
  decide +kernel

end Pgokf.Workspace
