import Pgokf.Workspace.Options
import Pgokf.Workspace.StalePolicy

/-! # Assembling the tree (`pgokf-workspace`, `plugin.rs`)

`assemble_with_report` from loaded records: which files a tree has and when a build is refused.
Generated texts are functions of what they are rendered from. -/

namespace Pgokf.Workspace

open Lib Catalog Sync

structure PluginFile where
  path : Text
  bytes : Bytes
  sha256 : Text
  executable : Bool
  deriving DecidableEq

structure BundleState where
  id : BundleId
  name : Text
  syncHash : Option Text
  lastSyncedAt : Option Text
  catalogGeneration : Option Int
  freshnessState : Option Text
  freshnessReasons : List Text
  deriving DecidableEq

structure Snapshot where
  version : Text
  sqlVersion : Text
  bundles : List BundleState
  deriving DecidableEq

structure BuildReport where
  freshnessAvailable : Bool
  closure : Option ClosureReport
  excluded : List StaleConcept

structure LockEntry where
  bundleId : BundleId
  conceptId : Text
  path : Text
  file : Text
  fileHash : Text
  contentSha256 : Text
  exact : Bool
  packageConceptId : Option Text
  -- The hash and the directory of the package.
  package : Option (Text × Text)
  freshness : Option Freshness
  origin : Option Origin
  deriving DecidableEq

structure LockFile where
  name : Text
  target : Target
  root : Text
  harness : Option CustomHarness
  snapshot : Snapshot
  files : List PluginFile
  entries : List LockEntry
  policy : Option (StalePolicy × Bool)
  closure : Option ClosureReport
  excluded : List StaleConcept

structure IndexInputs where
  profile : Profile
  name : Text
  title : Text
  records : List ConceptRecord
  listed : List (Text × ConceptRecord)
  packages : List (Text × ConceptRecord)
  packagePrefix : Text
  freshnessLink : Option Text
  staleCount : Nat

/- The renderings of the generated files, and the digest of a buffer. -/
structure Texts where
  sha256 : Bytes → Text
  index : IndexInputs → BuildOptions → Selection → Bytes
  systemPrompt : Text → BuildOptions → List ConceptRecord → Bytes
  modelfile : Text → Bytes → Bytes
  freshnessDoc : List ConceptRecord → List StaleConcept → Selection → Bytes
  withStaleBanner : ConceptRecord → Bytes
  warning : ConceptRecord → Text → Bytes
  memberWarning : ConceptRecord → ResourceFile → Text → Bytes
  mcpEntry : McpSpec → BuildOptions → Bytes
  guide : Profile → BuildOptions → Bytes
  tools : BuildOptions → Bytes
  manifest : Text → BuildOptions → Selection → Option Text → Bool → Bytes
  pluginJson : Text → BuildOptions → Selection → List ConceptRecord → Snapshot → List PluginFile → Bytes
  lock : LockFile → Bytes

/-- `engaged`: the freshness or the closure had a say in the build. -/
def engaged (selection : Selection) (records : List ConceptRecord) : Bool :=
  !selection.seeds.isEmpty || selection.stalePolicy == .exclude ||
    records.any fun record => record.freshness.isStale || !(staleMembers record).isEmpty

variable (unicode : Unicode) (texts : Texts)

def Texts.file (path : Text) (bytes : Bytes) : PluginFile := ⟨path, bytes, texts.sha256 bytes, false⟩

def lockOrigin (origin : Origin) : Option Origin :=
  if origin.pick || origin.seed || origin.closure then some origin else none

def lockEntry (record : ConceptRecord) (f : PluginFile) (package : Option (Text × Text))
    (engaged : Bool) :
    LockEntry where
  bundleId := record.bundleId
  conceptId := record.conceptId
  path := record.path
  file := f.path
  fileHash := record.fileHash
  contentSha256 := f.sha256
  exact := record.exact
  packageConceptId := record.resource.map (·.packageConceptId)
  package := package
  freshness := if engaged then some record.freshness else none
  origin := if engaged then lockOrigin record.origin else none

/-- The entry of a package member: under its own id, with its own state where it was read. -/
def memberLockEntry (record : ConceptRecord) (f : PluginFile) (member : ResourceFile)
    (memberFreshness : Option Freshness) (package : Text × Text) (engaged : Bool) : LockEntry where
  bundleId := record.bundleId
  conceptId := member.conceptId
  path := member.conceptId
  file := f.path
  fileHash := member.fileHash
  contentSha256 := f.sha256
  exact := record.exact
  packageConceptId := some record.conceptId
  package := some package
  freshness := if engaged then some (memberFreshness.getD record.freshness) else none
  origin := if engaged then lockOrigin record.origin else none

structure Materialized where
  listed : List (Text × ConceptRecord)
  packages : List (Text × ConceptRecord)
  files : List PluginFile
  entries : List LockEntry

/- What a build fixes before it places the records. -/
structure Placing where
  layout : Layout
  bundleDirs : OrderedMap BundleId Text
  packageDirs : OrderedMap ConceptRef Text
  multiBundle : Bool
  engaged : Bool

namespace Placing

variable (placing : Placing)

def packageDir (record : ConceptRecord) : Text := (placing.packageDirs.get record.key).getD []

def packageBase (record : ConceptRecord) : Text :=
  placing.layout.packagesDir ++ '/' :: placing.packageDir record

/-- A stale member keeps its bytes and gets a warning beside it. -/
def memberFiles (record : ConceptRecord) (package : PackageRecord) (member : ResourceFile) :
    Except BuildError (List PluginFile × LockEntry) := do
  let path ← treePath member.path
  let freshness := package.memberFreshness.get member.conceptId
  let f := { texts.file (placing.packageBase record ++ '/' :: path) member.bytes with executable :=
    member.isScript }
  let warnings := if freshness.any Freshness.isStale then
    [texts.file (adjacentWarningPath f.path)
      (texts.memberWarning record member (adjacentWarningPath f.path))] else []
  pure (warnings ++ [f],
    memberLockEntry record f member freshness (package.hash, placing.packageDir record) placing.engaged)

def packageFiles (record : ConceptRecord) (package : PackageRecord) :
    Except BuildError Materialized := do
  let manifest := texts.file (joined (placing.packageBase record) "SKILL.md") record.bytes
  let members ← package.resources.mapM (placing.memberFiles texts record package)
  let warnings := if record.freshness.isStale then
    [texts.file (adjacentWarningPath manifest.path)
      (texts.warning record (adjacentWarningPath manifest.path))] else []
  pure {
    listed := []
    packages := [(placing.packageDir record, record)]
    files := manifest :: members.flatMap (·.1) ++ warnings
    entries := lockEntry record manifest
      (some (package.hash, placing.packageDir record)) placing.engaged ::
      members.map (·.2) }

def isScript (record : ConceptRecord) : Bool := record.resource.any (·.isScript)

def documentDir (record : ConceptRecord) : Text :=
  if isScript record then placing.layout.scriptsDir else placing.layout.contentDir

def relativePath (record : ConceptRecord) (path : Text) : Text :=
  if placing.multiBundle then (placing.bundleDirs.get record.bundleId).getD [] ++ '/' :: path else path

def indexDir : Text := (splitParent '/' placing.layout.indexPath).1

/-- A reconstructed document takes the banner in; stored bytes stay as they are, with a warning
beside them. -/
def documentFiles (record : ConceptRecord) : Except BuildError Materialized := do
  let path ← treePath record.path
  let relative := placing.relativePath record path
  let filePath := placing.documentDir record ++ '/' :: relative
  let bytes := if record.freshness.isStale &&
    !record.exact then texts.withStaleBanner record else record.bytes
  let f := { texts.file filePath bytes with executable := isScript record }
  let warnings := if record.freshness.isStale && record.exact then
    [texts.file (adjacentWarningPath filePath)
      (texts.warning record (adjacentWarningPath filePath))] else []
  pure {
    listed := [(relativePrefix placing.indexDir (placing.documentDir record) ++ relative, record)]
    packages := []
    files := f :: warnings
    entries := [lockEntry record f none placing.engaged] }

def recordFiles (record : ConceptRecord) : Except BuildError Materialized :=
  match record.package with
  | some package => placing.packageFiles texts record package
  | none => placing.documentFiles texts record

end Placing

/-- A harness that discovers skills by directory skips a package whose directory is not its name. -/
def checkPackageDirectory (dirs : OrderedMap ConceptRef Text) (record : ConceptRecord) :
    Except BuildError Unit :=
  match record.package with
  | none => .ok ()
  | some package =>
    let dir := (dirs.get record.key).getD []
    let name := slug unicode package.name
    ensure (dir == name)
      (.invalid ("skill package " ++ String.ofList package.name ++ " (bundle " ++
        toString record.bundleId ++
        ") cannot be written as " ++ String.ofList dir ++ ": its name collides with " ++
        (if dir = name ++ '-' :: (toString record.bundleId).toList then
          "the plugin's own directory or another package of that name"
            else "another package of that name") ++
        "; rename the plugin or drop the duplicate from the selection"))

def checkPackageDirectories (dirs : OrderedMap ConceptRef Text) (records : List ConceptRecord)
    (discoversByDirectory : Bool) : Except BuildError Unit :=
  if discoversByDirectory then records.forM (checkPackageDirectory unicode dirs) else .ok ()

def contentFiles (placing : Placing) (records : List ConceptRecord) (discoversByDirectory : Bool) :
    Except BuildError Materialized := do
  checkPackageDirectories unicode placing.packageDirs records discoversByDirectory
  let parts ← records.mapM (placing.recordFiles texts)
  pure ⟨parts.flatMap (·.listed), parts.flatMap (·.packages), parts.flatMap (·.files),
    parts.flatMap (·.entries)⟩

/-! ### The rest of the tree -/

def componentOrder : List Component := [.mcp, .guide, .tools]

def docsDir (profile : Profile) (layout : Layout) : Text :=
  match profile.shape with
  | .skills | .agentPlugin => layout.contentDir
  | .instructionFile => "knowledge"
  | .promptBundle | .generic => joined layout.root "knowledge"

def toolsDir (profile : Profile) (layout : Layout) : Text :=
  match profile.shape with
  | .skills => joined layout.root "scripts"
  | .agentPlugin => layout.scriptsDir
  | .instructionFile => "tools"
  | .promptBundle | .generic => joined layout.root "tools"

def componentFiles (profile : Profile) (layout : Layout) (options : BuildOptions) :
    Component → Except BuildError (List PluginFile)
  | .mcp =>
    match profile.mcp with
    | none => .ok []
    | some spec => do
      let name := spec.location options.remoteEndpoint.isSome
      let path := if profile.shape = .agentPlugin then layout.root ++ '/' :: name else name
      checkMcpEntry spec options
      pure [texts.file path (texts.mcpEntry spec options)]
  | .guide => .ok [texts.file (joined (docsDir profile layout) "USING-THE-CATALOG.md")
    (texts.guide profile options)]
  | .tools =>
    .ok [{ texts.file (joined (toolsDir profile layout) "okf.sh")
      (texts.tools options) with executable := true }]

def extras (profile : Profile) (layout : Layout) (options : BuildOptions) :
    Except BuildError (List PluginFile) := do
  let parts ← (componentOrder.filter fun component => options.components.contains component).mapM
    (componentFiles texts profile layout options)
  pure parts.flatten

def validateRecords (records : List ConceptRecord) : Except BuildError Unit := do
  ensure (!records.isEmpty) (.invalid "the selection matched no visible concept")
  match records.find? fun record => record.bytes.isEmpty && record.resource.isNone with
  | some empty =>
    .error (.invalid ("concept " ++ toString empty.bundleId ++ ":" ++ String.ofList empty.conceptId ++
      " has no content loaded"))
  | none => pure ()

def keptStale (requireClosure : Bool) (records : List ConceptRecord) : List StaleConcept :=
  (records.filter fun record => record.freshness.isStale).map (.of · requireClosure) ++
    records.flatMap fun record => (staleMembers record).map (.member record requireClosure)

def isMultiBundle (records : List ConceptRecord) : Bool := 1 < (records.map (·.bundleId)).dedup.length

structure Plugin where
  target : Target
  name : Text
  root : Text
  files : List PluginFile
  conceptCount : Nat
  packageCount : Nat
  concepts : List ConceptRecord
  warnings : List StaleConcept
  excluded : List StaleConcept
  freshnessAvailable : Bool

/- What every later stage of a build reads. -/
structure Prepared where
  profile : Profile
  name : Text
  baseModel : Text
  title : Text
  layout : Layout

def prepare (options : BuildOptions) (records : List ConceptRecord) : Except BuildError Prepared := do
  validateRecords records
  let profile ← options.profile
  let name ← packageName unicode options.name
  let baseModel ← validatedBaseModel options.baseModel
  validateOptions options profile
  pure ⟨profile, name, baseModel, (options.title.filter fun t => !(trim t).isEmpty).getD name,
    layoutOf profile name⟩

def Prepared.placing (prepared : Prepared) (records : List ConceptRecord) (engaged : Bool) :
    Placing where
  layout := prepared.layout
  bundleDirs := bundleDirectories unicode records
  packageDirs := packageDirectories unicode records prepared.name
  multiBundle := isMultiBundle records
  engaged := engaged

def Prepared.discoversByDirectory (prepared : Prepared) : Bool :=
  prepared.profile.shape == .agentPlugin || prepared.profile.shape == .skills

def writesFreshness (selection : Selection) (records : List ConceptRecord)
    (report : BuildReport) : Bool :=
  !(keptStale selection.requireClosure records).isEmpty || !report.excluded.isEmpty

section Files

variable (prepared : Prepared) (options : BuildOptions) (selection : Selection)
  (records : List ConceptRecord) (report : BuildReport) (content : Materialized)

def indexFile : PluginFile :=
  let indexDir := (splitParent '/' prepared.layout.indexPath).1
  texts.file prepared.layout.indexPath (texts.index
    { profile := prepared.profile
      name := prepared.name
      title := prepared.title
      records := records
      listed := content.listed
      packages := content.packages
      packagePrefix := relativePrefix indexDir prepared.layout.packagesDir
      freshnessLink :=
        if writesFreshness selection records report then
          some (relativePrefix indexDir prepared.layout.metaDir ++ "FRESHNESS.md")
        else none
      staleCount := (keptStale selection.requireClosure records).length + report.excluded.length }
    options selection)

def promptFiles : List PluginFile :=
  if prepared.profile.shape = .promptBundle then
    let prompt := texts.systemPrompt prepared.title options records
    [texts.file (joined prepared.layout.root "Modelfile") (texts.modelfile prepared.baseModel prompt),
      texts.file (joined prepared.layout.root "system-prompt.md") prompt]
  else []

def freshnessFiles : List PluginFile :=
  if writesFreshness selection records report then
    [texts.file (prepared.layout.metaPath "FRESHNESS.md")
      (texts.freshnessDoc records report.excluded selection)]
  else []

def manifestFile : PluginFile :=
  let wroteAnEntry := prepared.profile.mcp.isSome && options.components.contains .mcp
  texts.file (prepared.layout.metaPath "okf-workspace.yaml")
    (texts.manifest prepared.name options selection (options.remoteEndpoint.filter fun _ => wroteAnEntry)
      (engaged selection records))

/-- `plugin.json` stands second in an Agent Plugin, and covers every other file. -/
def withPluginJson (snapshot : Snapshot) (files : List PluginFile) : List PluginFile :=
  if prepared.profile.shape = .agentPlugin then
    files.insertIdx 1 (texts.file (joined prepared.layout.root "plugin.json")
      (texts.pluginJson prepared.name options selection records snapshot files))
  else files

def lockFile (snapshot : Snapshot) (files : List PluginFile) : LockFile where
  name := prepared.name
  target := options.target
  root := prepared.layout.root
  harness := if options.target = .custom then options.harness else none
  snapshot := snapshot
  files := files
  entries := content.entries
  policy := if engaged selection records then some
    (selection.stalePolicy, report.freshnessAvailable) else none
  closure := if engaged selection records then report.closure else none
  excluded := if engaged selection records then report.excluded else []

def treeFiles (snapshot : Snapshot) (extra : List PluginFile) : List PluginFile :=
  withPluginJson texts prepared options selection records snapshot
    (indexFile texts prepared options selection records report content :: promptFiles texts prepared
      options records ++
      content.files ++ freshnessFiles texts prepared selection records report ++ extra ++
      [manifestFile texts prepared options selection records])

end Files

def assembleWithReport (options : BuildOptions) (selection : Selection) (snapshot : Snapshot)
    (records : List ConceptRecord) (report : BuildReport) : Except BuildError Plugin := do
  let prepared ← prepare unicode options records
  let content ← contentFiles unicode texts
    (prepared.placing unicode records (engaged selection records)) records
    prepared.discoversByDirectory
  let extra ← extras texts prepared.profile prepared.layout options
  let files := treeFiles texts prepared options selection records report content snapshot extra
  let lock := lockFile prepared options selection records report content snapshot files
  let all := files ++ [texts.file (prepared.layout.metaPath "okf-workspace.lock") (texts.lock lock)]
  ensureUniquePaths unicode (all.map (·.path))
  pure {
    target := options.target
    name := prepared.name
    root := prepared.layout.root
    files := all
    conceptCount := records.length
    packageCount := content.packages.length
    concepts := records
    warnings := keptStale selection.requireClosure records
    excluded := report.excluded
    freshnessAvailable := report.freshnessAvailable }

def assembleLock (options : BuildOptions) (selection : Selection) (snapshot : Snapshot)
    (records : List ConceptRecord) (report : BuildReport) : Except BuildError LockFile := do
  let prepared ← prepare unicode options records
  let content ← contentFiles unicode texts
    (prepared.placing unicode records (engaged selection records)) records
    prepared.discoversByDirectory
  let extra ← extras texts prepared.profile prepared.layout options
  pure (lockFile prepared options selection records report content snapshot
    (treeFiles texts prepared options selection records report content snapshot extra))

def treeSafe (path : Text) : Bool := ((path.map cleanChar).splitOn '/').all safeSegment

def ConceptRecord.writable (record : ConceptRecord) : Bool :=
  match record.package with
  | some package => package.resources.all fun member => treeSafe member.path
  | none => treeSafe record.path

namespace Placing

variable (placing : Placing) (record : ConceptRecord)

def memberPath (member : ResourceFile) : Text :=
    placing.packageBase record ++ '/' :: member.path.map cleanChar

def documentPath : Text :=
  placing.documentDir record ++ '/' :: placing.relativePath record (record.path.map cleanChar)

def ownPaths : List Text :=
  match record.package with
  | some package => joined (placing.packageBase record) "SKILL.md" :: package.resources.map
    (placing.memberPath record)
  | none => [placing.documentPath record]

def memberWarnings (package : PackageRecord) (member : ResourceFile) : List Text :=
  if (package.memberFreshness.get member.conceptId).any Freshness.isStale then
    [adjacentWarningPath (placing.memberPath record member)] else []

def warningPaths : List Text :=
  match record.package with
  | some package =>
    package.resources.flatMap (placing.memberWarnings record package) ++
      if record.freshness.isStale
        then [adjacentWarningPath (joined (placing.packageBase record) "SKILL.md")] else []
  | none =>
    if record.freshness.isStale &&
      record.exact then [adjacentWarningPath (placing.documentPath record)] else []

end Placing

section Content

variable {unicode : Unicode} {texts : Texts} {placing : Placing} {record : ConceptRecord}

theorem treePath_ok {path t : Text} : treePath path = .ok t ↔ treeSafe path = true ∧
    path.map cleanChar = t := by
  simp only [treePath, bind_eq_ok, ensure_eq_ok, pure_eq_ok]
  exact exists_const Unit

variable {package : PackageRecord} {member : ResourceFile}

theorem memberFiles_ok {result : List PluginFile × LockEntry}
    (h : placing.memberFiles texts record package member = .ok result) :
    treeSafe member.path = true ∧
      result.1.map (·.path) = placing.memberWarnings record package member ++
        [placing.memberPath record member] := by
  simp only [Placing.memberFiles, bind_eq_ok, treePath_ok, pure_eq_ok] at h
  obtain ⟨_, ⟨hsafe, rfl⟩, rfl⟩ := h
  refine ⟨hsafe, ?_⟩
  unfold Placing.memberWarnings
  split <;> rfl

theorem memberFiles_total (h : treeSafe member.path = true) :
    ∃ result, placing.memberFiles texts record package member = .ok result := by
  have hpath : treePath member.path = .ok (member.path.map cleanChar) := treePath_ok.mpr ⟨h, rfl⟩
  exact ⟨_, by simp only [Placing.memberFiles, hpath]; rfl⟩

theorem memberFiles_paths {members : List ResourceFile} {results : List (List PluginFile × LockEntry)}
    (h : members.mapM (placing.memberFiles texts record package) = .ok results) :
    ((results.flatMap (·.1)).map (·.path)).Perm
      (members.map (placing.memberPath record) ++ members.flatMap
        (placing.memberWarnings record package)) := by
  have hall := forall₂_of_mapM h
  clear h
  induction hall with
  | nil => exact .nil
  | cons hmember _ ih =>
    obtain ⟨-, hpaths⟩ := memberFiles_ok hmember
    refine List.perm_iff_count.mpr fun a => ?_
    have hrest := List.perm_iff_count.mp ih a
    simp only [List.flatMap_cons, List.map_append, hpaths, List.map_cons, List.count_append,
      List.cons_append,
      List.count_cons, List.count_nil] at hrest ⊢
    omega

theorem recordFiles_paths {placed : Materialized} (h : placing.recordFiles texts record = .ok placed) :
    (placed.files.map (·.path)).Perm (placing.ownPaths record ++ placing.warningPaths record) := by
  unfold Placing.recordFiles at h
  unfold Placing.ownPaths Placing.warningPaths
  split at h
  next package hpackage =>
    simp only [Placing.packageFiles, bind_eq_ok, pure_eq_ok] at h
    obtain ⟨members, hmembers, rfl⟩ := h
    refine List.perm_iff_count.mpr fun a => ?_
    have hcount := List.perm_iff_count.mp (memberFiles_paths hmembers) a
    split <;>
      simp only [List.map_cons, List.map_append, List.map_nil, List.count_append, List.count_cons,
        List.count_nil,
        List.cons_append, Texts.file] at hcount ⊢ <;> omega
  next hpackage =>
    simp only [Placing.documentFiles, bind_eq_ok, treePath_ok, pure_eq_ok] at h
    obtain ⟨_, ⟨-, rfl⟩, rfl⟩ := h
    by_cases hwarn : (record.freshness.isStale && record.exact) = true
    · simp only [hwarn, if_true]
      exact .rfl
    · simp only [hwarn]
      exact .rfl

theorem recordFiles_total :
    (∃ placed, placing.recordFiles texts record = .ok placed) ↔ record.writable = true := by
  unfold Placing.recordFiles ConceptRecord.writable
  cases record.package with
  | some package =>
    have hmembers : (∃ results,
      package.resources.mapM (placing.memberFiles texts record package) = .ok results) ↔
        (package.resources.all fun member => treeSafe member.path) = true := by
      rw [mapM_total, List.all_eq_true]
      refine forall₂_congr fun member _ => ⟨fun h => ?_, memberFiles_total⟩
      obtain ⟨result, hresult⟩ := h
      exact (memberFiles_ok hresult).1
    rw [← hmembers]
    simp only [Placing.packageFiles, bind_eq_ok, pure_eq_ok]
    constructor
    · rintro ⟨_, results, hresults, -⟩
      exact ⟨results, hresults⟩
    · rintro ⟨results, hresults⟩
      exact ⟨_, results, hresults, rfl⟩
  | none =>
    simp only [Placing.documentFiles, bind_eq_ok, treePath_ok, pure_eq_ok]
    constructor
    · rintro ⟨_, _, hsafe, -⟩
      exact hsafe.1
    · intro hsafe
      exact ⟨_, _, ⟨hsafe, rfl⟩, rfl⟩

variable {records : List ConceptRecord} {discovers : Bool}

theorem contentFiles_total :
    (∃ content, contentFiles unicode texts placing records discovers = .ok content) ↔
      checkPackageDirectories unicode placing.packageDirs records discovers = .ok () ∧
        ∀ record ∈ records, record.writable = true := by
  have hparts : (∃ parts, records.mapM (placing.recordFiles texts) = .ok parts) ↔
      ∀ record ∈ records, record.writable = true :=
    mapM_total.trans (forall₂_congr fun _ _ => recordFiles_total)
  rw [← hparts]
  simp only [contentFiles, bind_eq_ok, pure_eq_ok]
  constructor
  · rintro ⟨_, ⟨⟩, hdirs, parts, hparts, -⟩
    exact ⟨hdirs, parts, hparts⟩
  · rintro ⟨hdirs, parts, hparts⟩
    exact ⟨_, (), hdirs, parts, hparts, rfl⟩

theorem contentFiles_paths {content : Materialized}
    (h : contentFiles unicode texts placing records discovers = .ok content) :
    (content.files.map (·.path)).Perm
      (records.flatMap placing.ownPaths ++ records.flatMap placing.warningPaths) := by
  simp only [contentFiles, bind_eq_ok, pure_eq_ok] at h
  obtain ⟨-, -, parts, hparts, rfl⟩ := h
  have hall := forall₂_of_mapM hparts
  clear hparts
  induction hall with
  | nil => exact .nil
  | cons hrecord _ ih =>
    refine List.perm_iff_count.mpr fun a => ?_
    have hfirst := List.perm_iff_count.mp (recordFiles_paths hrecord) a
    have hrest := List.perm_iff_count.mp ih a
    simp only [List.flatMap_cons, List.map_append, List.count_append] at hfirst hrest ⊢
    omega

end Content

section Refused

variable (prepared : Prepared) (options : BuildOptions) (selection : Selection)
  (records : List ConceptRecord) (report : BuildReport) (extra : List PluginFile)

def freshnessPath : Text := prepared.layout.metaPath "FRESHNESS.md"

/-- The paths of a tree, but those that are there because something stale was kept. -/
def plainPaths : List Text :=
  (if prepared.profile.shape = .agentPlugin then [joined prepared.layout.root "plugin.json"] else []) ++
    prepared.layout.indexPath ::
      ((if prepared.profile.shape = .promptBundle then
          [joined prepared.layout.root "Modelfile", joined prepared.layout.root "system-prompt.md"]
            else []) ++
        records.flatMap (prepared.placing unicode records false).ownPaths ++
        (if report.excluded.isEmpty then [] else [freshnessPath prepared]) ++ extra.map (·.path) ++
        [prepared.layout.metaPath "okf-workspace.yaml", prepared.layout.metaPath "okf-workspace.lock"])

/-- The warnings beside the files, and the report when nothing but kept stale content calls for it. -/
def labelPaths : List Text :=
  records.flatMap (prepared.placing unicode records false).warningPaths ++
    if report.excluded.isEmpty &&
      !(keptStale selection.requireClosure records).isEmpty then [freshnessPath prepared]
    else []

structure Acceptable : Prop where
  prepares : prepare unicode options records = .ok prepared
  directories : checkPackageDirectories unicode
    (packageDirectories unicode records prepared.name) records
    prepared.discoversByDirectory = .ok ()
  writable : ∀ record ∈ records, record.writable = true
  extras : Workspace.extras texts prepared.profile prepared.layout options = .ok extra

end Refused

section Assemble

variable {unicode : Unicode} {texts : Texts} {prepared : Prepared} {options : BuildOptions}
  {selection : Selection}
  {snapshot : Snapshot} {records : List ConceptRecord} {report : BuildReport} {extra : List PluginFile}
  {content : Materialized}

theorem withPluginJson_paths (f : PluginFile) (rest : List PluginFile) :
    ((withPluginJson texts prepared options selection records snapshot (f :: rest)).map (·.path)).Perm
      ((if prepared.profile.shape =
        .agentPlugin then [joined prepared.layout.root "plugin.json"] else []) ++
        (f :: rest).map (·.path)) := by
  unfold withPluginJson
  split
  · refine (List.Perm.map PluginFile.path (List.perm_insertIdx _ (f :: rest) (i := 1) ?_))
    simp
  · exact .rfl

theorem freshnessFiles_paths :
    ((freshnessFiles texts prepared selection records report).map (·.path)).Perm
      ((if report.excluded.isEmpty then [] else [freshnessPath prepared]) ++
        if report.excluded.isEmpty && !(keptStale selection.requireClosure records).isEmpty then
          [freshnessPath prepared] else []) := by
  unfold freshnessFiles writesFreshness
  cases report.excluded.isEmpty <;> cases (keptStale selection.requireClosure records).isEmpty <;>
    exact .rfl

theorem promptFiles_paths : (promptFiles texts prepared options records).map (·.path) =
    if prepared.profile.shape = .promptBundle then
      [joined prepared.layout.root "Modelfile", joined prepared.layout.root "system-prompt.md"]
        else [] := by
  unfold promptFiles
  split <;> rfl

theorem labels_last {all plugin prompt content own warnings report excluded kept extra : List Text}
    {index manifest : Text} (lock : Text)
    (hall : all.Perm (plugin ++ index :: (prompt ++ content ++ report ++ extra ++ [manifest])))
    (hcontent : content.Perm (own ++ warnings)) (hreport : report.Perm (excluded ++ kept)) :
    (all ++ [lock]).Perm
      (plugin ++ index :: (prompt ++ own ++ excluded ++ extra ++ [manifest, lock]) ++
        (warnings ++ kept)) := by
  refine List.perm_iff_count.mpr fun a => ?_
  have hallCount := List.perm_iff_count.mp hall a
  have hcontentCount := List.perm_iff_count.mp hcontent a
  have hreportCount := List.perm_iff_count.mp hreport a
  simp only [List.count_append, List.count_cons, List.count_nil] at hallCount hcontentCount hreportCount ⊢
  omega

theorem treeFiles_paths
    (hcontent : contentFiles unicode texts
      (prepared.placing unicode records (engaged selection records)) records
      prepared.discoversByDirectory = .ok content) (lock : Bytes) :
    ((treeFiles texts prepared options selection records report content snapshot extra ++
        [texts.file (prepared.layout.metaPath "okf-workspace.lock") lock]).map (·.path)).Perm
      (plainPaths unicode prepared records report extra ++
        labelPaths unicode prepared selection records report) := by
  have hpaths := contentFiles_paths hcontent
  have hown : (prepared.placing unicode records (engaged selection records)).ownPaths =
      (prepared.placing unicode records false).ownPaths := rfl
  have hwarn : (prepared.placing unicode records (engaged selection records)).warningPaths =
      (prepared.placing unicode records false).warningPaths := rfl
  rw [hown, hwarn] at hpaths
  have htree : ((treeFiles texts prepared options selection records report content snapshot
    extra).map (·.path)).Perm
      ((if prepared.profile.shape =
        .agentPlugin then [joined prepared.layout.root "plugin.json"] else []) ++
        prepared.layout.indexPath :: ((promptFiles texts prepared options records).map (·.path) ++
          content.files.map (·.path) ++ (freshnessFiles texts prepared selection records report).map
            (·.path) ++
          extra.map (·.path) ++ [prepared.layout.metaPath "okf-workspace.yaml"])) := by
    unfold treeFiles
    refine (withPluginJson_paths _ _).trans (.of_eq ?_)
    simp only [List.append_eq, List.map_cons, List.map_append, List.map_nil]
    rfl
  rw [List.map_append]
  have hlast := labels_last
    (prepared.layout.metaPath "okf-workspace.lock") htree hpaths freshnessFiles_paths
  rw [promptFiles_paths] at hlast
  exact hlast

theorem assemble_ok {plugin : Plugin}
    (h : assembleWithReport unicode texts options selection snapshot records report = .ok plugin) :
    ∃ prepared content extra, Acceptable unicode texts prepared options records extra ∧
      contentFiles unicode texts (prepared.placing unicode records (engaged selection records)) records
        prepared.discoversByDirectory = .ok content ∧
      UniquePaths unicode (plugin.files.map (·.path)) ∧
      ∃ lock, plugin.files =
        treeFiles texts prepared options selection records report content snapshot extra ++
        [texts.file (prepared.layout.metaPath "okf-workspace.lock") lock] := by
  simp only [assembleWithReport, bind_eq_ok, pure_eq_ok] at h
  obtain ⟨prepared, hprepared, content, hcontent, extra, hextra, ⟨⟩, hunique, rfl⟩ := h
  obtain ⟨hdirs, hwritable⟩ := contentFiles_total.mp ⟨content, hcontent⟩
  exact ⟨prepared, content, extra, ⟨hprepared, hdirs, hwritable, hextra⟩, hcontent,
    ensureUniquePaths_ok.mp hunique,
    _, rfl⟩

theorem assemble_ok_iff :
    (∃ plugin, assembleWithReport unicode texts options selection snapshot records report = .ok plugin) ↔
      ∃ prepared extra, Acceptable unicode texts prepared options records extra ∧
        UniquePaths unicode (plainPaths unicode prepared records report extra ++
          labelPaths unicode prepared selection records report) := by
  constructor
  · rintro ⟨plugin, h⟩
    obtain ⟨prepared, content, extra, hacceptable, hcontent, hunique, lock, hfiles⟩ := assemble_ok h
    rw [hfiles] at hunique
    exact ⟨prepared, extra, hacceptable, hunique.perm (treeFiles_paths hcontent lock)⟩
  · rintro ⟨prepared, extra, hacceptable, hunique⟩
    obtain ⟨content, hcontent⟩ : ∃ content, contentFiles unicode texts
        (prepared.placing unicode records (engaged selection records)) records
          prepared.discoversByDirectory =
          .ok content := contentFiles_total.mpr ⟨hacceptable.directories, hacceptable.writable⟩
    simp only [assembleWithReport, bind_eq_ok, pure_eq_ok]
    refine ⟨_, prepared, hacceptable.prepares, content, hcontent, extra, hacceptable.extras, (), ?_, rfl⟩
    exact ensureUniquePaths_ok.mpr (hunique.perm (treeFiles_paths hcontent _).symm)

end Assemble

end Pgokf.Workspace
