import Pgokf.Lib.Separated
import Pgokf.Lib.Utf8
import Pgokf.Sync.Packages

/-! # What the digests of a bundle and of a package are taken over

A path ends at its NUL and a hash has a fixed width, so a line end in a path does no harm. -/

namespace Pgokf.Sync

open Lib

/- A field that ends at a NUL, and a digest of 64 characters. -/
structure Framed (path hash : Text) : Prop where
  path : '\x00' ∉ path
  hash : hash.length = 64

theorem framed_split {path path' hash hash' s t : Text} (h : Framed path hash) (h' : Framed path' hash')
    (heq : path ++ '\x00' :: hash ++ ['\n'] ++ s = path' ++ '\x00' :: hash' ++ ['\n'] ++ t) :
    path = path' ∧ hash = hash' ∧ s = t := by
  simp only [List.append_assoc, List.cons_append, List.nil_append] at heq
  obtain ⟨hpath, hrest⟩ := append_sep_inj h.path h'.path heq
  have hlen : hash.length = hash'.length := by rw [h.hash, h'.hash]
  obtain ⟨hhash, hend⟩ := List.append_inj hrest hlen
  exact ⟨hpath, hhash, (List.cons.inj hend).2⟩

def syncRecord (pair : Text × Text) : Text := pair.1 ++ '\x00' :: pair.2 ++ ['\n']

/- What the digest of a bundle is about. -/
def digestedPairs (current : List FileMetadata) : List (Text × Text) :=
  (current.filter fun entry => !isReservedPath entry.path).map fun entry => (entry.path, entry.hash)

theorem selfDelimiting_syncRecord :
    SelfDelimiting (fun pair : Text × Text => Framed pair.1 pair.2) syncRecord where
  ne_nil pair _ := by simp [syncRecord]
  split ha hb h := by
    obtain ⟨hpath, hhash, hrest⟩ := framed_split ha hb h
    exact ⟨Prod.ext hpath hhash, hrest⟩

theorem syncBuffer_eq (current : List FileMetadata) :
    syncBuffer current = (digestedPairs current).flatMap syncRecord := by
  induction current with
  | nil => rfl
  | cons e current ih =>
    rw [digestedPairs] at ih ⊢
    rw [syncBuffer, List.flatMap_cons, ← syncBuffer, ih, List.filter_cons]
    cases hreserved : isReservedPath e.path with
    | true => simp
    | false => simp [syncRecord]

theorem syncBuffer_inj {l l' : List FileMetadata} (hl : ∀ e ∈ l, Framed e.path e.hash)
    (hl' : ∀ e ∈ l', Framed e.path e.hash)
    (h : syncBuffer l = syncBuffer l') : digestedPairs l = digestedPairs l' := by
  have hgood {l : List FileMetadata} (hl : ∀ e ∈ l, Framed e.path e.hash) :
      ∀ pair ∈ digestedPairs l, Framed pair.1 pair.2 := by
    intro pair hpair
    obtain ⟨e, he, rfl⟩ := List.mem_map.mp hpair
    exact hl e (List.mem_filter.mp he).1
  rw [syncBuffer_eq, syncBuffer_eq] at h
  exact selfDelimiting_syncRecord.flatMap_inj (hgood hl) (hgood hl') h

/-! ### The buffer of `package_hash` -/

/- What the digest of a package says of a member. -/
structure MemberRecord where
  cls : FileClass
  path : Text
  hash : Text
  deriving DecidableEq

def PackageMember.record (m : PackageMember) : MemberRecord := ⟨m.cls, m.packagePath, m.fileHash⟩

def MemberRecord.line (r : MemberRecord) : Text :=
    r.cls.label ++ '\x00' :: r.path ++ '\x00' :: r.hash ++ ['\n']

theorem label_plain (cls : FileClass) : '\x00' ∉ cls.label := by
  cases cls <;> decide

theorem label_inj {a b : FileClass} (h : a.label = b.label) : a = b := by
  cases a <;> cases b <;> first | rfl | exact absurd h (by decide)

theorem selfDelimiting_line :
    SelfDelimiting (fun r : MemberRecord => Framed r.path r.hash) MemberRecord.line where
  ne_nil r _ := by simp [MemberRecord.line]
  split {a b s t} ha hb h := by
    have h' : a.cls.label ++ '\x00' :: (a.path ++ '\x00' :: a.hash ++ ['\n'] ++ s) =
        b.cls.label ++ '\x00' :: (b.path ++ '\x00' :: b.hash ++ ['\n'] ++ t) := by
      simpa [MemberRecord.line] using h
    obtain ⟨hlabel, hrest⟩ := append_sep_inj (label_plain a.cls) (label_plain b.cls) h'
    obtain ⟨hpath, hhash, hend⟩ := framed_split ha hb hrest
    obtain ⟨cls, path, hash⟩ := a
    obtain rfl := label_inj hlabel
    obtain rfl := hpath
    obtain rfl := hhash
    exact ⟨rfl, hend⟩

/- The records in the order in which they are hashed. -/
def sortedRecords (members : List PackageMember) : List MemberRecord :=
  (members.insertionSort fun a b => a.packagePath ≤ b.packagePath).map PackageMember.record

theorem packageBuffer_eq (skillMdHash : Text) (members : List PackageMember) :
    packageBuffer skillMdHash members =
      "pgokf.package:v1\n1\n1\n" ++ skillMdHash ++ '\n' ::
        (sortedRecords members).flatMap MemberRecord.line := by
  have hlines : (sortedRecords members).flatMap MemberRecord.line =
      (members.insertionSort fun a b => a.packagePath ≤ b.packagePath).flatMap fun member =>
        member.cls.label ++ '\x00' :: member.packagePath ++ '\x00' :: member.fileHash ++ ['\n'] :=
    List.flatMap_map _ _ _
  rw [hlines]
  exact rfl

theorem sortedRecords_perm (members : List PackageMember) :
    (sortedRecords members).Perm (members.map PackageMember.record) :=
  (List.perm_insertionSort _ members).map PackageMember.record

theorem sortedRecords_sorted (members : List PackageMember) :
    (sortedRecords members).Pairwise fun a b => a.path ≤ b.path := by
  have htotal : Std.Total fun a b : PackageMember => a.packagePath ≤ b.packagePath :=
    ⟨fun a b => le_total _ _⟩
  have htrans : IsTrans PackageMember fun a b => a.packagePath ≤ b.packagePath := ⟨fun a b c => le_trans⟩
  exact List.pairwise_map.mpr (List.pairwise_insertionSort _ members)

variable {h : Text} {ms ms' : List PackageMember}

theorem packageBuffer_inj {h' : Text} (hh : h.length = 64) (hh' : h'.length = 64)
    (hms : ∀ m ∈ ms, Framed m.packagePath m.fileHash) (hms' : ∀ m ∈ ms', Framed m.packagePath m.fileHash)
    (heq : packageBuffer h ms = packageBuffer h' ms') :
    h = h' ∧ (ms.map PackageMember.record).Perm (ms'.map PackageMember.record) := by
  have hgood {ms : List PackageMember} (hms : ∀ m ∈ ms, Framed m.packagePath m.fileHash) :
      ∀ r ∈ sortedRecords ms, Framed r.path r.hash := by
    intro r hr
    obtain ⟨m, hm, rfl⟩ := List.mem_map.mp ((sortedRecords_perm ms).mem_iff.mp hr)
    exact hms m hm
  rw [packageBuffer_eq, packageBuffer_eq, List.append_assoc, List.append_assoc] at heq
  obtain ⟨hhash, hrest⟩ := List.append_inj (List.append_cancel_left heq) (hh.trans hh'.symm)
  have hrecords := selfDelimiting_line.flatMap_inj (hgood hms) (hgood hms') (List.cons.inj hrest).2
  refine ⟨hhash, (sortedRecords_perm ms).symm.trans ?_⟩
  rw [hrecords]
  exact sortedRecords_perm ms'

/- Members at one place of the package are recorded alike. -/
def OneRecordPerPath (members : List PackageMember) : Prop :=
  ∀ m ∈ members, ∀ m' ∈ members, m.packagePath = m'.packagePath → m.record = m'.record

theorem packageBuffer_perm (hone : OneRecordPerPath ms) (hperm : ms.Perm ms') :
    packageBuffer h ms = packageBuffer h ms' := by
  have hrecords : (sortedRecords ms).Perm (sortedRecords ms') :=
    ((sortedRecords_perm ms).trans (hperm.map PackageMember.record)).trans (sortedRecords_perm ms').symm
  have hanti : ∀ a b, a ∈ sortedRecords ms → b ∈ sortedRecords ms' → a.path ≤ b.path →
    b.path ≤ a.path → a = b := by
    intro a b ha hb hab hba
    obtain ⟨m, hm, rfl⟩ := List.mem_map.mp ((sortedRecords_perm ms).mem_iff.mp ha)
    obtain ⟨m', hm', rfl⟩ := List.mem_map.mp ((sortedRecords_perm ms').mem_iff.mp hb)
    exact hone m hm m' (hperm.mem_iff.mpr hm') (le_antisymm hab hba)
  rw [packageBuffer_eq, packageBuffer_eq,
    List.Perm.eq_of_pairwise hanti (sortedRecords_sorted ms) (sortedRecords_sorted ms') hrecords]

variable {root : Text} {index : PackageIndex} {m : PackageMember}

theorem packageMember_path {e : FileMetadata} (h : packageMember root index e = some m) :
    m.path = e.path ∧ relative '/' root e.path = some m.packagePath := by
  unfold packageMember at h
  split at h
  next hmember =>
    rw [Bool.and_eq_true, decide_eq_true_iff] at hmember
    obtain ⟨x, hx, rfl⟩ := Option.map_eq_some_iff.mp h
    simp only [PackageIndex.packageRelative, Option.bind_eq_bind, hmember.2, Option.bind_some,
      Option.bind_eq_some_iff, Option.map_eq_some_iff] at hx
    obtain ⟨y, hy, -, -, rfl⟩ := hx
    exact ⟨rfl, hy⟩
  next => cases h

variable {current : List FileMetadata}

theorem mem_packageMembers :
    m ∈ packageMembers root index current ↔ ∃ e ∈ current, packageMember root index e = some m := by
  rw [packageMembers, List.mem_insertionSort, List.mem_filterMap]

theorem packageMembers_oneRecord (hdistinct : (current.map (·.path)).Nodup) :
    OneRecordPerPath (packageMembers root index current) := by
  intro m hm m' hm' hpath
  obtain ⟨e, he, hem⟩ := mem_packageMembers.mp hm
  obtain ⟨e', he', hem'⟩ := mem_packageMembers.mp hm'
  obtain ⟨-, hrel⟩ := packageMember_path hem
  obtain ⟨-, hrel'⟩ := packageMember_path hem'
  have hsame : e.path = e'.path := by
    rw [hpath] at hrel
    rcases relative_eq_some.mp hrel with ⟨hroot, hp⟩ | ⟨hroot, hp⟩ <;>
      rcases relative_eq_some.mp hrel' with ⟨hroot', hp'⟩ | ⟨hroot', hp'⟩
    · rw [hp, hp']
    · exact absurd hroot hroot'
    · exact absurd hroot' hroot
    · rw [hp, hp']
  obtain rfl := List.inj_on_of_nodup_map hdistinct he he' hsame
  rw [Option.some.inj (hem.symm.trans hem')]

theorem packageMembers_perm {current' : List FileMetadata} (hperm : current.Perm current') :
    (packageMembers root index current).Perm (packageMembers root index current') :=
  ((List.perm_insertionSort _ _).trans (hperm.filterMap _)).trans (List.perm_insertionSort _ _).symm

/-- The bytes under both digests say what was hashed, in whatever order the members came, as long as
members at one path are recorded alike. -/
theorem digest_buffers_decodable :
    (∀ l l' : List FileMetadata, (∀ e ∈ l, Framed e.path e.hash) → (∀ e ∈ l', Framed e.path e.hash) →
      utf8Bytes (syncBuffer l) = utf8Bytes (syncBuffer l') → (digestedPairs l).Perm (digestedPairs l')) ∧
    (∀ h h' : Text, ∀ ms ms' : List PackageMember, h.length = 64 → h'.length = 64 →
      (∀ m ∈ ms, Framed m.packagePath m.fileHash) → (∀ m ∈ ms', Framed m.packagePath m.fileHash) →
      utf8Bytes (packageBuffer h ms) = utf8Bytes (packageBuffer h' ms') →
        h = h' ∧ ∀ r, r ∈ ms.map PackageMember.record ↔ r ∈ ms'.map PackageMember.record) ∧
    (∀ h : Text, ∀ ms ms' : List PackageMember, OneRecordPerPath ms → ms.Perm ms' →
      packageBuffer h ms = packageBuffer h ms') ∧
    ∀ h root : Text, ∀ index : PackageIndex, ∀ l l' : List FileMetadata, (l.map (·.path)).Nodup →
      l.Perm l' →
      packageBuffer h (packageMembers root index l) = packageBuffer h
        (packageMembers root index l') := by
  refine ⟨?_, ?_, fun _ _ _ hone hperm => packageBuffer_perm hone hperm, ?_⟩
  · intro l l' hl hl' heq
    rw [syncBuffer_inj hl hl' (utf8Bytes_inj.mp heq)]
  · intro h h' ms ms' hh hh' hms hms' heq
    obtain ⟨hhash, hrecords⟩ := packageBuffer_inj hh hh' hms hms' (utf8Bytes_inj.mp heq)
    exact ⟨hhash, fun r => hrecords.mem_iff⟩
  · intro h root index l l' hdistinct hperm
    exact packageBuffer_perm (packageMembers_oneRecord hdistinct) (packageMembers_perm hperm)

def memberAtRun (hash : Char) : PackageMember :=
  ⟨.skillScript, "kit/scripts/run.sh", "scripts/run.sh", "kit/scripts/run.sh", List.replicate 64 hash⟩

def memberAtLogo : PackageMember :=
  ⟨.skillAsset, "kit/assets/logo.png", "assets/logo.png", "kit/assets/logo.png", List.replicate 64 'c'⟩

theorem digest_buffers_decodable_two :
    packageBuffer (List.replicate 64 '0') [memberAtRun 'a', memberAtLogo] =
      packageBuffer (List.replicate 64 '0') [memberAtLogo, memberAtRun 'a'] := by
  have hone : OneRecordPerPath [memberAtRun 'a', memberAtLogo] := by
    unfold OneRecordPerPath
    decide
  exact digest_buffers_decodable.2.2.1 _ _ _ hone (List.Perm.swap _ _ [])

/-- Two members at one path: the buffer tells which came first. -/
theorem twice_recorded_member :
    Framed (memberAtRun 'a').packagePath (memberAtRun 'a').fileHash ∧
      Framed (memberAtRun 'b').packagePath (memberAtRun 'b').fileHash ∧
      [memberAtRun 'a', memberAtRun 'b'].Perm [memberAtRun 'b', memberAtRun 'a'] ∧
      packageBuffer (List.replicate 64 '0') [memberAtRun 'a', memberAtRun 'b'] ≠
        packageBuffer (List.replicate 64 '0') [memberAtRun 'b', memberAtRun 'a'] :=
  ⟨⟨by decide, by simp [memberAtRun]⟩, ⟨by decide, by simp [memberAtRun]⟩, List.Perm.swap _ _ [],
    by decide +kernel⟩

end Pgokf.Sync
