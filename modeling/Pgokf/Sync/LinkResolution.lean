import Pgokf.Sync.Links

/-! # Where a link leads (`okf-parser/src/normalize.rs`)

A destination is a walk through directories: an empty segment or `.` stays, `..` goes to the parent,
which the root does not have, and every other segment to a child. -/

namespace Pgokf.Sync

open Lib

def Proper (segment : Text) : Prop :=
  segment ≠ [] ∧ segment ≠ "." ∧ segment ≠ ".."

variable {parts : List Text}

theorem canonical_intercalate (hne : parts ≠ []) (hproper : ∀ part ∈ parts, Proper part)
    (hslash : ∀ part ∈ parts, '/' ∉ part) : Canonical (['/'].intercalate parts) := by
  rw [Canonical, List.splitOn_intercalate '/' hslash hne]
  exact hproper

variable {path : Text}

theorem Canonical.proper {segment : Text} (h : Canonical path) (hmem : segment ∈ path.splitOn '/') :
    Proper segment := h segment hmem

theorem Canonical.not_rooted (h : Canonical path) : path.head? ≠ some '/' := by
  intro hhead
  cases path with
  | nil => cases hhead
  | cons c rest =>
    obtain rfl := Option.some.inj hhead
    have hfirst : [] ∈ ('/' :: rest).splitOn '/' := by
      have hsplit : ('/' :: rest).splitOn '/' = [].splitOn '/' ++ rest.splitOn '/' :=
        splitOn_append_sep [] rest
      rw [hsplit]
      exact List.mem_append_left _ (by simp)
    exact (h [] hfirst).1 rfl

/-! ### The extension -/

/- A path, cut before the name of its file. -/
theorem exists_directory (path : Text) :
    ∃ directory, path = directory ++ fileName path ∧ '/' ∉ fileName path ∧
      ∀ name : Text, '/' ∉ name →
        (directory ++ name).splitOn '/' = (path.splitOn '/').dropLast ++ [name] := by
  rw [fileName, splitParent]
  cases hs : rsplitOnce '/' path with
  | none =>
    have hpath := rsplitOnce_none.mp hs
    refine ⟨[], rfl, hpath, fun name hname => ?_⟩
    rw [splitOn_of_notMem hpath, List.nil_append, splitOn_of_notMem hname]
    rfl
  | some xy =>
    obtain ⟨directory, file⟩ := xy
    obtain ⟨rfl, hfile⟩ := rsplitOnce_some.mp hs
    refine ⟨directory ++ ['/'], by simp, hfile, fun name hname => ?_⟩
    rw [List.append_assoc, List.singleton_append, splitOn_append_sep, splitOn_append_sep,
      splitOn_of_notMem hname,
      splitOn_of_notMem hfile, List.dropLast_concat]

variable {stem : Text}

theorem proper_md (h : stem ≠ []) : Proper (stem ++ ".md") := by
  obtain ⟨c, rest, rfl⟩ := List.exists_cons_of_ne_nil h
  refine ⟨by simp, fun heq => ?_, fun heq => ?_⟩
  · have hlength := congrArg List.length heq
    simp at hlength
  · have hlength := congrArg List.length heq
    simp at hlength

theorem isMarkdown_md (h : stem ≠ []) : isMarkdown (stem ++ ".md".toList) = true := by
  have hsplit : rsplitOnce '.' (stem ++ ".md".toList) = some (stem, "md".toList) :=
    rsplitOnce_some.mpr ⟨rfl, by decide⟩
  rw [isMarkdown, hsplit]
  simp [h]

variable {extended : Text}

/- With the extension a canonical path stays one, and the name of its file is Markdown. -/
theorem applyMarkdownExtension_canonical (h : Canonical path)
    (happly : applyMarkdownExtension path = .ok extended) :
    Canonical extended ∧ isMarkdown (fileName extended) = true ∧ ".md" <:+ extended := by
  obtain ⟨directory, hpath, hfile, hsplit⟩ := exists_directory path
  have hname : Proper (fileName path) := by
    refine h.proper (List.mem_of_getLast? ?_)
    exact splitOn_getLast path
  -- Both branches end a nonempty stem with the extension.
  obtain ⟨stem, hstem, hslash, rfl⟩ : ∃ stem, stem ≠ [] ∧ '/' ∉ stem ∧
    extended = directory ++ (stem ++ ".md") := by
    rw [applyMarkdownExtension, h.extension] at happly
    cases hs : rsplitOnce '.' (fileName path) with
    | none =>
      simp only [hs, Option.bind_none, Except.ok.injEq] at happly
      refine ⟨fileName path, hname.1, hfile, ?_⟩
      rw [← happly, ← List.append_assoc, ← hpath]
    | some xy =>
      obtain ⟨stem, ext⟩ := xy
      obtain ⟨hcut, -⟩ := rsplitOnce_some.mp hs
      by_cases hstem : stem = []
      · simp only [hs, Option.bind_some, if_pos hstem, Except.ok.injEq] at happly
        refine ⟨fileName path, hname.1, hfile, ?_⟩
        rw [← happly, ← List.append_assoc, ← hpath]
      · simp only [hs, Option.bind_some, if_neg hstem] at happly
        split at happly
        next hmd =>
          refine ⟨stem, hstem, fun hmem => hfile ?_, ?_⟩
          · rw [hcut]
            exact List.mem_append_left _ hmem
          · have htake : path.take (path.length - ext.length) = directory ++ stem ++ ['.'] := by
              have hcutPath : path = directory ++ stem ++ ['.'] ++ ext := by
                rw [hpath, hcut]
                simp
              rw [hcutPath, List.length_append, Nat.add_sub_cancel]
              exact List.take_left
            rw [htake] at happly
            rw [← Except.ok.inj happly]
            simp
        next => cases happly
  have hnew : '/' ∉ stem ++ ".md" := by
    rw [List.mem_append, not_or]
    exact ⟨hslash, by decide⟩
  have hsegments := hsplit _ hnew
  refine ⟨?_, ?_, ?_⟩
  · intro segment hsegment
    rw [hsegments, List.mem_append, List.mem_singleton] at hsegment
    rcases hsegment with hsegment | rfl
    · exact h segment (List.mem_of_mem_dropLast hsegment)
    · exact proper_md hstem
  · have hlast := splitOn_getLast (directory ++ (stem ++ ".md"))
    rw [hsegments, List.getLast?_concat, Option.some.injEq] at hlast
    rw [← hlast]
    exact isMarkdown_md hstem
  · rw [← List.append_assoc]
    exact List.suffix_append _ _

theorem normalizePath_extended (h : Canonical path)
    (happly : applyMarkdownExtension path = .ok extended) :
    normalizePath extended = .ok extended := by
  obtain ⟨hcanonical, hmarkdown, -⟩ := applyMarkdownExtension_canonical h happly
  rw [hcanonical.normalizePath, applyMarkdownExtension_md hcanonical hmarkdown]

theorem mem_components {part : Text} (h : .normal part ∈ components path) :
    part ∈ path.splitOn '/' ∧ Proper part := by
  have hsegment : ∀ {segment : Text}, segmentComponent segment = some (.normal part) →
    segment = part ∧ Proper part := by
    intro segment hcomponent
    rw [segmentComponent] at hcomponent
    split at hcomponent
    next => cases hcomponent
    next hstay =>
      rw [not_or] at hstay
      split at hcomponent
      next => cases hcomponent
      next hup =>
        obtain rfl := Component.normal.inj (Option.some.inj hcomponent)
        exact ⟨rfl, hstay.1, hstay.2, hup⟩
  rw [components] at h
  cases hs : path.splitOn '/' with
  | nil =>
    rw [hs] at h
    cases h
  | cons first rest =>
    simp only [hs, List.mem_append, Option.mem_toList, List.mem_filterMap] at h
    rcases h with hfirst | ⟨segment, hmem, hrest⟩
    · split at hfirst
      next => split at hfirst <;> cases hfirst
      next =>
        split at hfirst
        next => cases hfirst
        next =>
          obtain ⟨rfl, hproper⟩ := hsegment hfirst
          exact ⟨List.mem_cons_self, hproper⟩
    · obtain ⟨rfl, hproper⟩ := hsegment hrest
      exact ⟨List.mem_cons_of_mem _ hmem, hproper⟩

theorem mem_of_normalParts {raw : Text} {parsed : List Component}
    (h : normalParts raw parsed = .ok parts) :
    ∀ part ∈ parts, .normal part ∈ parsed := by
  induction parsed generalizing parts with
  | nil =>
    obtain rfl := Except.ok.inj h
    simp
  | cons component rest ih =>
    cases component with
    | rootDir | parentDir => cases h
    | curDir => exact fun part hpart => List.mem_cons_of_mem _ (ih h part hpart)
    | normal name =>
      rw [normalParts] at h
      cases hrest : normalParts raw rest with
      | error e =>
        rw [hrest] at h
        cases h
      | ok tail =>
        rw [hrest] at h
        obtain rfl := Except.ok.inj h
        intro part hpart
        rcases List.mem_cons.mp hpart with rfl | hpart
        · exact List.mem_cons_self
        · exact List.mem_cons_of_mem _ (ih hrest part hpart)

theorem canonical_of_normalizePath {normalized : Text} (h : normalizePath path = .ok normalized) :
    Canonical normalized := by
  rw [normalizePath] at h
  split at h
  next => cases h
  next =>
    cases hparts : normalParts path (components path) with
    | error e =>
      rw [hparts] at h
      cases h
    | ok parts =>
      rw [hparts] at h
      simp only [bind, Except.bind] at h
      split at h
      next => cases h
      next hne =>
        have hmem : ∀ part ∈ parts, part ∈ path.splitOn '/' ∧ Proper part :=
          fun part hpart => mem_components (mem_of_normalParts hparts part hpart)
        have hjoined := canonical_intercalate hne (fun part hpart => (hmem part hpart).2)
          fun part hpart => notMem_of_mem_splitOn (hmem part hpart).1
        exact (applyMarkdownExtension_canonical hjoined h).1

/- From one directory to another along the segments of a destination. -/
inductive Walks : List Text → List Text → List Text → Prop
  | done {place : List Text} : Walks place [] place
  | stay {place rest goal : List Text} {segment : Text} (hstay : segment = [] ∨ segment = ".") :
      Walks place rest goal → Walks place (segment :: rest) goal
  | up {place rest goal : List Text} {name : Text} : Walks place rest goal →
      Walks (place ++ [name]) (".." :: rest) goal
  | down {place rest goal : List Text} {name : Text} (hname : Proper name) :
    Walks (place ++ [name]) rest goal →
      Walks place (name :: rest) goal

variable {place segments : List Text}

theorem foldlM_walkComponent {goal : List Text} :
    segments.foldlM walkComponent place = some goal ↔ Walks place segments goal := by
  constructor
  · intro h
    induction segments generalizing place with
    | nil =>
      obtain rfl := Option.some.inj h
      exact .done
    | cons segment rest ih =>
      rw [List.foldlM_cons] at h
      obtain ⟨next, hnext, hrest⟩ := Option.bind_eq_some_iff.mp h
      rw [walkComponent] at hnext
      split at hnext
      next hstay =>
        obtain rfl := Option.some.inj hnext
        exact .stay hstay (ih hrest)
      next hstay =>
        split at hnext
        next hup =>
          split at hnext
          next => cases hnext
          next hne =>
            obtain rfl := Option.some.inj hnext
            rw [hup, ← List.dropLast_append_getLast hne]
            exact .up (ih hrest)
        next hup =>
          obtain rfl := Option.some.inj hnext
          rw [not_or] at hstay
          exact .down ⟨hstay.1, hstay.2, hup⟩ (ih hrest)
  · intro h
    induction h with
    | done => rfl
    | stay hstay _ ih =>
      rw [List.foldlM_cons, walkComponent, if_pos hstay]
      exact ih
    | up _ ih =>
      have hstay : ¬("..".toList = [] ∨ "..".toList = ".".toList) := by decide
      rw [List.foldlM_cons, walkComponent, if_neg hstay, if_pos rfl, if_neg (by simp),
        List.dropLast_concat]
      exact ih
    | down hname _ ih =>
      have hstay : ¬(_ = [] ∨ _ = ".".toList) := not_or.mpr ⟨hname.1, hname.2.1⟩
      rw [List.foldlM_cons, walkComponent, if_neg hstay, if_neg hname.2.2]
      exact ih

/- What the directories of a walk are made of stays proper. -/
theorem Walks.proper {goal : List Text} (h : Walks place segments goal)
    (hplace : ∀ name ∈ place, Proper name ∧ '/' ∉ name)
    (hsegments : ∀ segment ∈ segments, '/' ∉ segment) :
    ∀ name ∈ goal, Proper name ∧ '/' ∉ name := by
  induction h with
  | done => exact hplace
  | stay _ _ ih =>
    exact ih hplace fun segment hsegment => hsegments segment (List.mem_cons_of_mem _ hsegment)
  | up _ ih =>
    exact ih (fun name hname => hplace name (List.mem_append_left _ hname))
      fun segment hsegment => hsegments segment (List.mem_cons_of_mem _ hsegment)
  | down hname _ ih =>
    refine ih (fun name hmem => ?_)
      fun segment hsegment => hsegments segment (List.mem_cons_of_mem _ hsegment)
    rcases List.mem_append.mp hmem with hmem | hmem
    · exact hplace name hmem
    · obtain rfl := List.mem_singleton.mp hmem
      exact ⟨hname, hsegments _ List.mem_cons_self⟩

def linkDestination (target : Text) : Text :=
  (target.map fun c => if c = '\\' then '/' else c).takeWhile (· ≠ '#')

def linkStart (destination sourcePath : Text) : List Text :=
  if destination.head? = some '/' then [] else (sourcePath.splitOn '/').dropLast

/- The empty destination is the source itself. -/
def LinkResolution (destination sourcePath path : Text) : Prop :=
  if destination = [] then path = sourcePath
  else ∃ goal, Walks (linkStart destination sourcePath) (destination.splitOn '/') goal ∧ goal ≠ [] ∧
    applyMarkdownExtension (['/'].intercalate goal) = .ok path

theorem parentComponents_eq (path : Text) : parentComponents path = (path.splitOn '/').dropLast := by
  rw [parentComponents]
  cases hs : rsplitOnce '/' path with
  | none =>
    rw [splitOn_of_notMem (rsplitOnce_none.mp hs)]
    rfl
  | some xy =>
    obtain ⟨directory, file⟩ := xy
    obtain ⟨rfl, hfile⟩ := rsplitOnce_some.mp hs
    rw [splitOn_append_sep, splitOn_of_notMem hfile, List.dropLast_concat]

variable {target : Text}

theorem resolveLinkPath_of_nil {sourcePath : Text} (hdestination : linkDestination target = [])
    (h : resolveLinkPath target sourcePath = some path) : path = sourcePath := by
  unfold linkDestination at hdestination
  rw [resolveLinkPath] at h
  simp only [hdestination, if_true] at h
  split at h
  next => exact (Option.some.inj h).symm
  next => cases h

/- The leading slash of a rooted destination is an empty segment, at which the walk stays. -/
theorem resolveLinkPath_of_ne (sourcePath : Text) (hdestination : linkDestination target ≠ []) :
    resolveLinkPath target sourcePath =
      (((linkDestination target).splitOn '/').foldlM walkComponent
        (linkStart (linkDestination target) sourcePath)).bind
        fun goal => if goal = [] then none else some (['/'].intercalate goal) := by
  have hfold : (target.map fun c => if c = '\\' then '/' else c).takeWhile (· ≠ '#') =
    linkDestination target := rfl
  rw [resolveLinkPath]
  simp only [hfold, if_neg hdestination]
  split
  next rooted hrooted =>
    have hsplit : ('/' :: rooted).splitOn '/' = [].splitOn '/' ++ rooted.splitOn '/' :=
      splitOn_append_sep [] rooted
    rw [hrooted, hsplit, linkStart, if_pos List.head?_cons]
    rfl
  next hother =>
    have hhead : (linkDestination target).head? ≠ some '/' := by
      intro hhead
      obtain ⟨rest, hrest⟩ := List.head?_eq_some_iff.mp hhead
      exact hother rest hrest
    rw [linkStart, if_neg hhead, parentComponents_eq]
    rfl

/-- A resolved link is canonical and where its destination leads; one that leaves the bundle on the
way is not resolved. -/
theorem link_target_canonical (target sourcePath : Text)
    (hsource : normalizePath sourcePath = .ok sourcePath) :
    (∀ path, resolveLinkTarget target sourcePath = some path →
      normalizePath path = .ok path ∧ Canonical path ∧ path.head? ≠ some '/' ∧ ".md".toList <:+ path ∧
        LinkResolution (linkDestination target) sourcePath path) ∧
    (∀ before after, (linkDestination target).splitOn '/' = before ++ "..".toList :: after →
      Walks (linkStart (linkDestination target) sourcePath) before [] →
        resolveLinkTarget target sourcePath = none) := by
  have hcanonical := canonical_of_normalizePath hsource
  refine ⟨fun path h => ?_, fun before after hsegments hbefore => ?_⟩
  · obtain ⟨resolved, hresolved, happly⟩ := Option.bind_eq_some_iff.mp h
    have happly : applyMarkdownExtension resolved = .ok path := by
      cases hresult : applyMarkdownExtension resolved with
      | error e =>
        rw [hresult] at happly
        cases happly
      | ok extended =>
        rw [hresult] at happly
        rw [Option.some.inj happly]
    -- The resolved path is canonical whichever way it comes about.
    have hjoined : Canonical resolved ∧ LinkResolution (linkDestination target) sourcePath path := by
      rw [LinkResolution]
      by_cases hdestination : linkDestination target = []
      · obtain rfl := resolveLinkPath_of_nil hdestination hresolved
        have hsame := hcanonical.normalizePath.symm.trans hsource
        rw [if_pos hdestination]
        exact ⟨hcanonical, Except.ok.inj (happly.symm.trans hsame)⟩
      · rw [resolveLinkPath_of_ne sourcePath hdestination, Option.bind_eq_some_iff] at hresolved
        obtain ⟨goal, hgoal, hjoin⟩ := hresolved
        split at hjoin
        next => cases hjoin
        next hne =>
          obtain rfl := Option.some.inj hjoin
          have hwalk := foldlM_walkComponent.mp hgoal
          have hstart : ∀ name ∈ linkStart (linkDestination target) sourcePath, Proper name ∧
            '/' ∉ name := by
            intro name hname
            rw [linkStart] at hname
            split at hname
            next => cases hname
            next =>
              have hmem := List.mem_of_mem_dropLast hname
              exact ⟨hcanonical.proper hmem, notMem_of_mem_splitOn hmem⟩
          have hproper := hwalk.proper hstart fun segment hsegment => notMem_of_mem_splitOn hsegment
          rw [if_neg hdestination]
          exact ⟨canonical_intercalate hne (fun part hpart => (hproper part hpart).1) fun part hpart =>
            (hproper part hpart).2, goal, hwalk, hne, happly⟩
    obtain ⟨hpath, -, hsuffix⟩ := applyMarkdownExtension_canonical hjoined.1 happly
    exact ⟨normalizePath_extended hjoined.1 happly, hpath, hpath.not_rooted, hsuffix, hjoined.2⟩
  · have hdestination : linkDestination target ≠ [] := by
      intro hnil
      rw [hnil] at hsegments
      have hmem : "..".toList ∈ ([] : Text).splitOn '/' := by
        rw [hsegments]
        exact List.mem_append_right _ List.mem_cons_self
      exact absurd hmem (by decide)
    have hescape : ((linkDestination target).splitOn '/').foldlM walkComponent
        (linkStart (linkDestination target) sourcePath) = none := by
      rw [hsegments, List.foldlM_append, foldlM_walkComponent.mpr hbefore]
      rfl
    rw [resolveLinkTarget, resolveLinkPath_of_ne sourcePath hdestination, hescape]
    rfl

theorem link_target_canonical_sibling :
    resolveLinkTarget "..\\guide#top".toList "docs/deep/start.md".toList = some "docs/guide.md".toList ∧
      normalizePath "docs/guide.md".toList = .ok "docs/guide.md".toList ∧
      resolveLinkTarget "../../../guide".toList "docs/deep/start.md".toList = none := by
  have hsource : normalizePath "docs/deep/start.md".toList = .ok "docs/deep/start.md".toList :=
    by decide +kernel
  have hresolved : resolveLinkTarget "..\\guide#top".toList "docs/deep/start.md".toList =
    some "docs/guide.md".toList := by
    decide +kernel
  refine ⟨hresolved, ((link_target_canonical _ _ hsource).1 _ hresolved).1, ?_⟩
  refine (link_target_canonical _ _ hsource).2 ["..".toList, "..".toList] ["guide".toList]
    (by decide +kernel) ?_
  exact foldlM_walkComponent.mp (by decide +kernel)

/- A query is no fragment: it stays in the name. -/
theorem query_kept :
    normalizePath "docs/start.md".toList = .ok "docs/start.md".toList ∧
      resolveLinkTarget "guide?v=2".toList "docs/start.md".toList = some "docs/guide?v=2.md".toList ∧
      ¬LinkResolution "guide".toList "docs/start.md".toList "docs/guide?v=2.md".toList := by
  refine ⟨by decide +kernel, by decide +kernel, fun h => ?_⟩
  rw [LinkResolution, if_neg (by decide)] at h
  obtain ⟨goal, hwalk, -, happly⟩ := h
  have hgoal : some goal = some ["docs".toList, "guide".toList] := by
    rw [← foldlM_walkComponent.mpr hwalk]
    decide +kernel
  obtain rfl := Option.some.inj hgoal
  exact absurd happly (by decide +kernel)

end Pgokf.Sync
