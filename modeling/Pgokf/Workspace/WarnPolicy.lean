import Pgokf.Workspace.Assembly

/-! # What the warn policy refuses (`pgokf-workspace`, `plugin.rs`)

A build that keeps what is stale labels it: with warnings beside the files and with a report. The
labels are files too, and a tree with two files at one path is refused. -/

namespace Pgokf.Workspace

open Lib Catalog

def Freshness.freshened (freshness : Freshness) : Freshness := { freshness with state := "fresh" }

def PackageRecord.freshened (package : PackageRecord) : PackageRecord :=
  { package with memberFreshness := package.memberFreshness.map fun entry =>
    (entry.1, entry.2.freshened) }

def ConceptRecord.freshened (record : ConceptRecord) : ConceptRecord :=
  { record with freshness := record.freshness.freshened, package :=
    record.package.map PackageRecord.freshened }

section Freshened

variable {unicode : Unicode} {texts : Texts} {placing : Placing} {record : ConceptRecord}
  {records : List ConceptRecord} {options : BuildOptions}

@[simp] theorem freshened_isStale (freshness : Freshness) : freshness.freshened.isStale = false := by
  simp [Freshness.isStale, Freshness.freshened]

theorem get_freshened (entries : OrderedMap Text Freshness) (key : Text) :
    (OrderedMap.get (entries.map fun entry => (entry.1, entry.2.freshened)) key).any
      Freshness.isStale = false := by
  induction entries with
  | nil => rfl
  | cons entry rest ih =>
    rw [List.map_cons, OrderedMap.get]
    split
    · simp
    · exact ih

theorem staleMembers_freshened : staleMembers record.freshened = [] := by
  refine staleMembers_eq_nil.mpr fun package hpackage entry hentry => ?_
  obtain ⟨original, -, rfl⟩ := Option.map_eq_some_iff.mp hpackage
  obtain ⟨e, -, rfl⟩ := List.mem_map.mp hentry
  exact freshened_isStale e.2

theorem keptStale_freshened (requireClosure : Bool) :
    keptStale requireClosure (records.map ConceptRecord.freshened) = [] := by
  have hnone : ∀ record ∈ records.map ConceptRecord.freshened,
      record.freshness.isStale = false ∧ staleMembers record = [] := by
    intro record hrecord
    obtain ⟨original, -, rfl⟩ := List.mem_map.mp hrecord
    exact ⟨freshened_isStale original.freshness, staleMembers_freshened⟩
  have hfilter : (records.map ConceptRecord.freshened).filter
    (fun record => record.freshness.isStale) = [] :=
    List.filter_eq_nil_iff.mpr fun record hrecord => by simp [(hnone record hrecord).1]
  have hmembers : (records.map ConceptRecord.freshened).flatMap
      (fun record => (staleMembers record).map (StaleConcept.member record requireClosure)) = [] :=
    List.flatMap_eq_nil_iff.mpr fun record hrecord => by rw [(hnone record hrecord).2]; rfl
  rw [keptStale, hfilter, hmembers]
  rfl

/-! ### What does not depend on the freshness -/

theorem bundleDirectories_freshened :
    bundleDirectories unicode (records.map ConceptRecord.freshened) =
      bundleDirectories unicode records := by
  have hnames : bundleNames (records.map ConceptRecord.freshened) = bundleNames records := by
    rw [bundleNames, List.foldl_map]
    rfl
  rw [bundleDirectories, hnames]
  rfl

theorem packageDirectories_freshened (name : Text) :
    packageDirectories unicode (records.map ConceptRecord.freshened) name =
      packageDirectories unicode records name := by
  have hstep : (fun acc record => placePackage unicode acc record.freshened) = placePackage unicode := by
    funext acc record
    unfold placePackage
    cases hpackage : record.package <;> simp only [ConceptRecord.freshened, hpackage] <;> rfl
  rw [packageDirectories, List.foldl_map, hstep]
  rfl

theorem isMultiBundle_freshened :
    isMultiBundle (records.map ConceptRecord.freshened) = isMultiBundle records := by
  simp only [isMultiBundle, List.map_map]
  rfl

theorem validateRecords_freshened :
    validateRecords (records.map ConceptRecord.freshened) = validateRecords records := by
  unfold validateRecords
  rw [List.find?_map, List.isEmpty_map]
  have hsame : (fun record : ConceptRecord => record.bytes.isEmpty && record.resource.isNone) ∘
      ConceptRecord.freshened = fun record => record.bytes.isEmpty && record.resource.isNone := rfl
  rw [hsame]
  cases records.find? fun record => record.bytes.isEmpty && record.resource.isNone <;> rfl

theorem prepare_freshened :
    prepare unicode options (records.map ConceptRecord.freshened) = prepare unicode options records := by
  rw [prepare, validateRecords_freshened]
  rfl

theorem writable_freshened : record.freshened.writable = record.writable := by
  unfold ConceptRecord.writable
  cases hpackage : record.package <;> simp only [ConceptRecord.freshened, hpackage] <;> rfl

theorem checkPackageDirectory_freshened (dirs : OrderedMap ConceptRef Text) :
    checkPackageDirectory unicode dirs record.freshened = checkPackageDirectory unicode dirs record := by
  unfold checkPackageDirectory
  cases hpackage : record.package <;> simp only [ConceptRecord.freshened, hpackage] <;> rfl

theorem ownPaths_freshened : placing.ownPaths record.freshened = placing.ownPaths record := by
  unfold Placing.ownPaths
  cases hpackage : record.package <;> simp only [ConceptRecord.freshened, hpackage] <;> rfl

theorem warningPaths_freshened : placing.warningPaths record.freshened = [] := by
  unfold Placing.warningPaths
  cases hpackage : record.package with
  | none => simp [ConceptRecord.freshened, hpackage]
  | some package =>
    have hmembers : package.freshened.resources.flatMap
        (placing.memberWarnings record.freshened package.freshened) = [] := by
      refine List.flatMap_eq_nil_iff.mpr fun member _ => ?_
      have hfresh := get_freshened package.memberFreshness member.conceptId
      simp [Placing.memberWarnings, PackageRecord.freshened, hfresh]
    have hstale : record.freshened.freshness.isStale = false := freshened_isStale record.freshness
    have hsome : record.freshened.package = some package.freshened := by
      simp only [ConceptRecord.freshened, hpackage, Option.map_some]
    simp only [hsome, hmembers, hstale]
    rfl

theorem placing_freshened (prepared : Prepared) (engaged : Bool) :
    prepared.placing unicode (records.map ConceptRecord.freshened) engaged =
      prepared.placing unicode records engaged := by
  simp only [Prepared.placing, bundleDirectories_freshened, packageDirectories_freshened,
    isMultiBundle_freshened]

theorem plainPaths_freshened (prepared : Prepared) (report : BuildReport) (extra : List PluginFile) :
    plainPaths unicode prepared (records.map ConceptRecord.freshened) report extra =
      plainPaths unicode prepared records report extra := by
  have hown : (records.map ConceptRecord.freshened).flatMap
    (prepared.placing unicode records false).ownPaths =
      records.flatMap (prepared.placing unicode records false).ownPaths := by
    rw [List.flatMap_map]
    simp only [ownPaths_freshened]
  simp only [plainPaths, placing_freshened, hown]

theorem labelPaths_freshened (prepared : Prepared) (selection : Selection) (report : BuildReport) :
    labelPaths unicode prepared selection (records.map ConceptRecord.freshened) report = [] := by
  have hwarnings : (records.map ConceptRecord.freshened).flatMap
      (prepared.placing unicode records false).warningPaths = [] := by
    rw [List.flatMap_map]
    simp only [warningPaths_freshened]
    exact List.flatMap_eq_nil_iff.mpr fun _ _ => rfl
  simp [labelPaths, placing_freshened, hwarnings, keptStale_freshened]

theorem checkPackageDirectories_freshened (dirs : OrderedMap ConceptRef Text) (discovers : Bool) :
    checkPackageDirectories unicode dirs (records.map ConceptRecord.freshened) discovers =
      checkPackageDirectories unicode dirs records discovers := by
  have hforM : (records.map ConceptRecord.freshened).forM (checkPackageDirectory unicode dirs) =
      records.forM (checkPackageDirectory unicode dirs) := by
    induction records with
    | nil => rfl
    | cons record rest ih =>
      rw [List.map_cons, List.forM, List.forM, checkPackageDirectory_freshened, ih]
  simp only [checkPackageDirectories, hforM]

theorem acceptable_freshened {prepared : Prepared} {extra : List PluginFile} :
    Acceptable unicode texts prepared options (records.map ConceptRecord.freshened) extra ↔
      Acceptable unicode texts prepared options records extra := by
  have hwritable : (∀ record ∈ records.map ConceptRecord.freshened, record.writable = true) ↔
      ∀ record ∈ records, record.writable = true := by
    simp only [List.forall_mem_map, writable_freshened]
  constructor
  · rintro ⟨hprepare, hdirectories, hall, hextra⟩
    rw [prepare_freshened] at hprepare
    rw [checkPackageDirectories_freshened, packageDirectories_freshened] at hdirectories
    exact ⟨hprepare, hdirectories, hwritable.mp hall, hextra⟩
  · rintro ⟨hprepare, hdirectories, hall, hextra⟩
    refine ⟨prepare_freshened.trans hprepare, ?_, hwritable.mpr hall, hextra⟩
    rw [checkPackageDirectories_freshened, packageDirectories_freshened]
    exact hdirectories

end Freshened

/-- A build with stale records is refused where the same build with fresh ones is not exactly if a
warning or the report falls on another of them or on a path of the tree. -/
theorem warn_refuses_iff (unicode : Unicode) (texts : Texts) (options : BuildOptions)
    (selection : Selection)
    (snapshot : Snapshot) (records : List ConceptRecord) (report : BuildReport) :
    ((∃ plugin, assembleWithReport unicode texts options selection snapshot records report =
      .ok plugin) ↔
        ∃ plugin, assembleWithReport unicode texts options selection snapshot
          (records.map ConceptRecord.freshened) report = .ok plugin) ↔
      ∀ prepared extra, Acceptable unicode texts prepared options records extra →
        UniquePaths unicode (plainPaths unicode prepared records report extra) →
        UniquePaths unicode (labelPaths unicode prepared selection records report) ∧
          ∀ p ∈ plainPaths unicode prepared records report extra,
            ∀ l ∈ labelPaths unicode prepared selection records report, ¬ Collide unicode p l := by
  have hfresh : (∃ plugin, assembleWithReport unicode texts options selection snapshot
      (records.map ConceptRecord.freshened) report = .ok plugin) ↔
      ∃ prepared extra, Acceptable unicode texts prepared options records extra ∧
        UniquePaths unicode (plainPaths unicode prepared records report extra) := by
    rw [assemble_ok_iff]
    simp only [acceptable_freshened, plainPaths_freshened, labelPaths_freshened, List.append_nil]
  rw [hfresh, assemble_ok_iff]
  constructor
  · intro hsame prepared extra hacceptable hplain
    obtain ⟨prepared', extra', hacceptable', hunique⟩ := hsame.mpr ⟨prepared, extra, hacceptable, hplain⟩
    obtain rfl := Except.ok.inj (hacceptable'.prepares.symm.trans hacceptable.prepares)
    obtain rfl := Except.ok.inj (hacceptable'.extras.symm.trans hacceptable.extras)
    exact (uniquePaths_append.mp hunique).2
  · intro hlabels
    constructor
    · rintro ⟨prepared, extra, hacceptable, hunique⟩
      exact ⟨prepared, extra, hacceptable, (uniquePaths_append.mp hunique).1⟩
    · rintro ⟨prepared, extra, hacceptable, hplain⟩
      exact ⟨prepared, extra, hacceptable,
        uniquePaths_append.mpr ⟨hplain, hlabels prepared extra hacceptable hplain⟩⟩

def blankTexts : Texts where
  sha256 _ := []
  index _ _ _ := []
  systemPrompt _ _ _ := []
  modelfile _ _ := []
  freshnessDoc _ _ _ := []
  withStaleBanner _ := []
  warning _ _ := []
  memberWarning _ _ _ := []
  mcpEntry _ _ := []
  guide _ _ := []
  tools _ := []
  manifest _ _ _ _ _ := []
  pluginJson _ _ _ _ _ _ := []
  lock _ := []

def genericOptions : BuildOptions where
  target := .generic
  name := "guide"
  title := none
  baseModel := none
  components := []
  mcpCommand := none
  mcpUrl := none
  tenant := none
  webUrl := none
  harness := none

def staleReference (path : Text) : ConceptRecord where
  bundleId := 1
  bundleName := "team"
  conceptId := path
  path := path
  title := none
  fileHash := []
  trustTier := "verified"
  exact := true
  bytes := [65]
  package := none
  resource := some ⟨false, "kit/SKILL"⟩
  freshness := { Freshness.unknown with state := "stale", scope := "concept" }
  origin := ⟨true, false, false⟩

def stemTwins : List ConceptRecord :=
  [staleReference "kit/references/limits.md", staleReference "kit/references/limits.txt"]

def warningSelection : Selection := { excluding with picks := keys stemTwins, stalePolicy := .warn }

def sampleSnapshot : Snapshot := ⟨"0.1", "0.1", []⟩

def noReport : BuildReport := ⟨true, none, []⟩

/-- `limits.md` and `limits.txt` are both stale, and both warnings go to `limits.stale-warning.md`. -/
theorem stem_twins_refused :
    (¬ ∃ plugin, assembleWithReport plainUnicode blankTexts genericOptions warningSelection
      sampleSnapshot stemTwins
        noReport = .ok plugin) ∧
      ∃ plugin, assembleWithReport plainUnicode blankTexts genericOptions warningSelection sampleSnapshot
        (stemTwins.map ConceptRecord.freshened) noReport = .ok plugin := by
  have hstale : (assembleWithReport plainUnicode blankTexts genericOptions warningSelection
    sampleSnapshot stemTwins
      noReport).isOk = false := by decide +kernel
  have hfresh : (assembleWithReport plainUnicode blankTexts genericOptions warningSelection
    sampleSnapshot
      (stemTwins.map ConceptRecord.freshened) noReport).isOk = true := by decide +kernel
  constructor
  · rintro ⟨plugin, hplugin⟩
    rw [hplugin] at hstale
    cases hstale
  · cases hresult : assembleWithReport plainUnicode blankTexts genericOptions warningSelection
      sampleSnapshot
        (stemTwins.map ConceptRecord.freshened) noReport with
    | error refusal =>
      rw [hresult] at hfresh
      cases hfresh
    | ok plugin => exact ⟨plugin, rfl⟩

end Pgokf.Workspace
