import Mathlib.Data.List.DropRight
import Pgokf.Lib.FileTree
import Pgokf.Sync.Normalize

/-! # Bundles in a directory (`store.rs`)

The path of a document is checked name by name, and no link is followed below the root of the
bundle. -/

namespace Pgokf.Web

open Lib FileTree Sync

/- Paths of this process are lists of components; the database names its paths by texts. -/
structure Stores where
  localRoot : Option (List Component)
  dbRoot : Option Text

def Stores.localDir (stores : Stores) (dbPath : Text) : Option (List Component) := do
  let localRoot ← stores.localRoot
  let dbRoot := (← stores.dbRoot).rdropWhile (· = '/')
  let rest := dbPath.drop dbRoot.length
  let segments := ((rest.dropWhile (· = '/')).splitOn '/').filter (· ≠ [])
  if ¬ (dbRoot <+: dbPath ∧ (rest = [] ∨ rest.head? = some '/')) then none
  else if ".".toList ∈ segments ∨ "..".toList ∈ segments then none
  else some (localRoot ++ segments.map .normal)

structure StoreEnv where
  host : Host Text Bytes
  describe : Errno → String
  -- A text as `{:?}` and a path as `display` write them.
  debug : Text → String
  display : List (PathPart Text) → String
  randomSuffix : Except String Text

section Store

variable (env : StoreEnv) (root : List (PathPart Text))

def goOn (t : FileTree Text Bytes) (path : Text) (names : List Text) : Component →
    Except String (List Text)
  | .normal segment =>
    if segment = ".git" then .error (env.debug path ++ " reaches into a git directory")
    else
      match lstat env.host t (root ++ (names ++ [segment]).map .name) with
      | .ok (.link _) => .error (env.debug path ++ " goes through a symbolic link")
      | _ => .ok (names ++ [segment])
  | _ => .error (env.debug path ++ " is not a plain bundle-relative path")

def confined (t : FileTree Text Bytes) (path : Text) : Except String (List Text) :=
  if path = [] then .error "an empty path" else (components path).foldlM (goOn env root t path) []

def readConfined (path : Text) (t : FileTree Text Bytes) : Except String (Loc Text × Bytes) := do
  let names ← confined env root t path
  let file := root ++ names.map PathPart.name
  match readFile env.host file t with
  | .ok found => .ok found
  | .error e => .error ("reading " ++ env.display file ++ ": " ++ env.describe e)

def tempName (name suffix : Text) : Text := '.' :: (name ++ '.' :: (suffix ++ ".pgokf-tmp"))

/- The bytes go to a new file, which is then renamed to the document. -/
def placeFile (temp file : List (PathPart Text)) (bytes : Bytes) (t : FileTree Text Bytes) :
    EStateM.Result String (FileTree Text Bytes) Unit :=
  match openNew env.host [] temp t with
  | .error e t => .error ("writing " ++ env.display temp ++ ": " ++ env.describe e) t
  | .ok handle t =>
    match writeAll env.host handle bytes t with
    | .error e t => .error ("writing " ++ env.display temp ++ ": " ++ env.describe e) t
    | .ok () t =>
      match rename env.host temp file t with
      | .ok () t => .ok () t
      | .error e t =>
        .error ("replacing " ++ env.display file ++ ": " ++ env.describe e)
          (stateAfter (removeFile env.host temp t))

def writeConfined (path : Text) (bytes : Bytes) (t : FileTree Text Bytes) :
    EStateM.Result String (FileTree Text Bytes) Unit :=
  match confined env root t path with
  | .error e => .error e t
  | .ok names =>
    let parent := root ++ names.dropLast.map PathPart.name
    match createDirAll env.host parent t with
    | .error e t => .error ("creating " ++ env.display parent ++ ": " ++ env.describe e) t
    | .ok () t =>
      match names.getLast?, env.randomSuffix with
      | none, _ => .error (env.debug path ++ " has no file name") t
      | some _, .error e => .error e t
      | some name, .ok suffix =>
        placeFile env (parent ++ [.name (tempName name suffix)]) (parent ++ [.name name]) bytes t

def removeConfined (path : Text) (t : FileTree Text Bytes) :
    EStateM.Result String (FileTree Text Bytes) Unit :=
  match confined env root t path with
  | .error e => .error e t
  | .ok names =>
    let file := root ++ names.map PathPart.name
    match removeFile env.host file t with
    | .ok () t => .ok () t
    | .error .notFound t => .ok () t
    | .error e t => .error ("removing " ++ env.display file ++ ": " ++ env.describe e) t

end Store

section Plain

variable {env : StoreEnv} {host : Host Text Bytes} {root : List (PathPart Text)}
  {base loc l : Loc Text} {names front : List Text} {n n' m : Text} {t t' : FileTree Text Bytes}

/-- From the root, which leads to `base`, the names are followed by no link. -/
structure Plain (host : Host Text Bytes) (root : List (PathPart Text)) (base : Loc Text)
    (names : List Text) (t : FileTree Text Bytes) : Prop where
  walked : t.walk host.links [] root = .ok base
  noLink : ∀ front n, front ++ [n] <+: names →
    ∀ target, t.node (base ++ front ++ [n]) ≠ some (.link target)

theorem Plain.walk_eq (h : Plain host root base names t) (hfront : front <+: names)
    (hwalk : t.walk host.links [] (root ++ front.map .name) = .ok l) : l = base ++ front := by
  induction front using List.reverseRecOn generalizing l with
  | nil =>
    rw [List.map_nil, List.append_nil, h.walked] at hwalk
    rw [List.append_nil, Except.ok.inj hwalk]
  | append_singleton front n ih =>
    rw [List.map_append, List.map_singleton, ← List.append_assoc] at hwalk
    cases hinit : t.walk host.links [] (root ++ front.map .name) with
    | error e =>
      rw [walk_append_error hinit] at hwalk
      cases hwalk
    | ok init =>
      obtain rfl := ih ((List.prefix_append _ _).trans hfront) hinit
      rcases walk_exists t.root hinit with hdir | ⟨content, hfile⟩
      · rw [walk_snoc hinit hdir (h.noLink front n hfront), entryAt] at hwalk
        split at hwalk
        · cases hwalk
        · rw [← List.append_assoc, Except.ok.inj hwalk]
      · rw [walk_append_file (List.cons_ne_nil _ _) t.root hinit hfile] at hwalk
        cases hwalk

theorem Plain.entry_eq (h : Plain host root base names t) (hfront : front <+: names)
    (hentry : resolveEntry host t (root ++ front.map .name ++ [.name n]) = .ok (loc, m)) :
      loc = base ++ front ∧ m = n := by
  obtain ⟨init, hinit, hwalk, -⟩ := resolveEntry_ok hentry
  obtain ⟨rfl, hlast⟩ := List.append_inj' hinit rfl
  exact ⟨h.walk_eq hfront hwalk, (PathPart.name.inj (List.cons.inj hlast).1).symm⟩

theorem walk_dirs (hwalk : t.walk host.links [] root = .ok base)
    (hdir : t.node (base ++ front) = some .dir) :
    t.walk host.links [] (root ++ front.map .name) = .ok (base ++ front) := by
  induction front using List.reverseRecOn with
  | nil => simpa using hwalk
  | append_singleton front n ih =>
    rw [← List.append_assoc] at hdir
    rw [List.map_append, List.map_singleton, ← List.append_assoc, ← List.append_assoc]
    exact walk_snoc_dir (ih (t.inDir _ n (by rw [hdir]; rfl))) hdir

def Checked (env : StoreEnv) (root : List (PathPart Text)) (t : FileTree Text Bytes)
    (names : List Text) : Prop :=
  ".git".toList ∉ names ∧ ∀ front n, front ++ [n] <+: names → ∀ target,
    lstat env.host t (root ++ (front ++ [n]).map .name) ≠ .ok (.link target)

variable {path : Text}

theorem Checked.goOn {c : Component} (h : Checked env root t names)
    (hstep : Web.goOn env root t path names c = .ok front) : Checked env root t front ∧ front ≠ [] := by
  unfold Web.goOn at hstep
  split at hstep
  next segment =>
    split at hstep
    next => cases hstep
    next hgit =>
      split at hstep
      next => cases hstep
      next hlink =>
        obtain rfl := Except.ok.inj hstep
        refine ⟨⟨fun hmem => ?_, fun front n hfront target => ?_⟩, by simp⟩
        · rcases List.mem_append.mp hmem with hmem | hmem
          · exact h.1 hmem
          · exact hgit (List.mem_singleton.mp hmem).symm
        · rcases List.prefix_concat_iff.mp hfront with hwhole | hpart
          · rw [hwhole]
            exact hlink target
          · exact h.2 front n hpart target
  next => cases hstep

theorem components_ne_nil (h : path ≠ []) : components path ≠ [] := by
  intro hnil
  rw [components] at hnil
  split at hnil
  next hsplit => exact List.splitOn_ne_nil _ _ hsplit
  next first rest hsplit =>
    obtain ⟨hleading, -⟩ := List.append_eq_nil_iff.mp hnil
    by_cases hfirst : first = []
    · by_cases hrest : rest = []
      · -- A text that is one empty segment is empty.
        rw [hfirst, hrest] at hsplit
        have hjoin : ['/'].intercalate (path.splitOn '/') = path := List.intercalate_splitOn '/'
        rw [hsplit] at hjoin
        exact h hjoin.symm
      · simp [hfirst, hrest] at hleading
    · by_cases hdot : first = "."
      · simp [hdot] at hleading
      · rw [if_neg hfirst, if_neg hdot, segmentComponent, if_neg (not_or.mpr ⟨hfirst, hdot⟩)] at hleading
        split at hleading <;> cases hleading

theorem confined_ok (h : confined env root t path = .ok names) : Checked env root t names ∧
    names ≠ [] := by
  rw [confined] at h
  split at h
  next => cases h
  next hpath =>
    have hrun : ∀ (cs : List Component) (done : List Text), Checked env root t done →
        cs.foldlM (goOn env root t path) done = .ok names → Checked env root t names ∧
          (cs ≠ [] ∨ done ≠ [] → names ≠ []) := by
      intro cs
      induction cs with
      | nil =>
        intro done hdone hrun
        obtain rfl := Except.ok.inj hrun
        exact ⟨hdone, fun hne => hne.resolve_left fun hnil => hnil rfl⟩
      | cons c cs ih =>
        intro done hdone hrun
        rw [List.foldlM_cons] at hrun
        obtain ⟨next, hnext, hrun⟩ := bind_eq_ok.mp hrun
        obtain ⟨hchecked, hne⟩ := hdone.goOn hnext
        obtain ⟨hresult, hkept⟩ := ih next hchecked hrun
        exact ⟨hresult, fun _ => hkept (.inr hne)⟩
    obtain ⟨hresult, hne⟩ := hrun _ [] ⟨by simp, by simp⟩ h
    exact ⟨hresult, hne (.inl (components_ne_nil hpath))⟩

theorem Checked.plain (h : Checked env root t names) (hwalk : t.walk env.host.links [] root = .ok base) :
    Plain env.host root base names t := by
  refine ⟨hwalk, fun front n hfront target hnode => h.2 front n hfront target ?_⟩
  have hdir : t.node (base ++ front) = some .dir := t.inDir _ n (by rw [hnode]; rfl)
  rw [List.map_append, List.map_singleton, ← List.append_assoc, lstat,
    resolveEntry_snoc (walk_dirs hwalk hdir) hdir]
  dsimp only
  rw [hnode]

theorem firstMissing_of_walk (hwalk : t.walk host.links [] root = .ok base) :
    firstMissing host t root.reverse = none := by
  induction root using List.reverseRecOn with
  | nil => rfl
  | append_singleton parents part _ =>
    rw [List.reverse_append, List.reverse_singleton, List.singleton_append, firstMissing,
      List.reverse_reverse]
    cases hparents : t.walk host.links [] parents with
    | error e =>
      rw [walk_append_error hparents] at hwalk
      cases hwalk
    | ok loc =>
      rcases walk_exists t.root hparents with hdir | ⟨content, hfile⟩
      · cases part with
        | up => simp [resolveEntry]
        | name n =>
          rw [resolveEntry_snoc hparents hdir]
          dsimp only
          cases hnode : t.node (loc ++ [n]) with
          | some node => rfl
          | none =>
            rw [walk_snoc hparents hdir (by simp [hnode]), entryAt, hnode] at hwalk
            cases hwalk
      · rw [walk_append_file (List.cons_ne_nil _ _) t.root hparents hfile] at hwalk
        cases hwalk

/- What has been made on the way to the names, since the tree was `t`. -/
structure Made (host : Host Text Bytes) (root : List (PathPart Text)) (base : Loc Text)
    (names : List Text) (t t' : FileTree Text Bytes) : Prop where
  plain : Plain host root base names t'
  kept : t.Extends t'
  same : ∀ x, (∀ q, q <+: names → q ≠ [] → x ≠ base ++ q) → t'.node x = t.node x

theorem Made.mkdir (h : Made host root base names t t') (hfront : front ++ [n] <+: names) :
    Made host root base names t (stateAfter (mkdir host (root ++ front.map .name ++ [.name n]) t')) := by
  rcases mkdir_cases host
    (root ++ front.map .name ++ [.name n]) t' with ⟨loc, m, hentry, hnone, -, hmade⟩ | ⟨e, hmade, -⟩
  · obtain ⟨rfl, rfl⟩ := h.plain.entry_eq ((List.prefix_append _ _).trans hfront) hentry
    obtain ⟨-, -, -, hdir⟩ := resolveEntry_ok hentry
    have hput : t'.Extends (t'.put (base ++ front) m (some .dir)) := extends_put hnone
    rw [hmade]
    refine ⟨⟨walk_mono hput h.plain.walked, fun front' n' hfront' target hnode => ?_⟩, fun x hx =>
      ?_, fun x hx => ?_⟩
    · by_cases hx : base ++ front' ++ [n'] = base ++ front ++ [m]
      · rw [stateAfter, hx, put_node_self hdir (by rw [hnone]; simp)] at hnode
        cases hnode
      · rw [stateAfter, put_node_of_ne hx] at hnode
        exact h.plain.noLink front' n' hfront' target hnode
    · rw [stateAfter, hput x (by rw [h.kept x hx]; exact hx), h.kept x hx]
    · have hne := hx _ hfront (by simp)
      rw [← List.append_assoc] at hne
      rw [stateAfter, put_node_of_ne hne, h.same x hx]
  · rw [hmade]
    exact h

theorem Made.createDirAll (h : Made host root base names t t') (hfront : front <+: names) :
    Made host root base names t (stateAfter (createDirAll host (root ++ front.map .name) t')) := by
  rw [FileTree.createDirAll]
  induction front using List.reverseRecOn with
  | nil =>
    rw [List.map_nil, List.append_nil, createDirAllRev_unchanged (firstMissing_of_walk h.plain.walked)]
    exact h
  | append_singleton front n ih =>
    have hparents := ih ((List.prefix_append _ _).trans hfront)
    have hfirst := h.mkdir hfront
    rw [List.map_append, List.map_singleton, ← List.append_assoc, List.reverse_append,
      List.reverse_singleton,
      List.singleton_append, createDirAllRev, List.reverse_reverse]
    cases hmk : FileTree.mkdir host (root ++ front.map .name ++ [.name n]) t' with
    | ok u u' =>
      rw [hmk] at hfirst
      exact hfirst
    | error e u' =>
      rw [hmk] at hfirst
      cases e with
      | notFound =>
        -- A `mkdir` that fails changes nothing, so the parents are made in the tree it was tried in.
        obtain rfl : u' = t' := by
          rcases mkdir_cases host
            (root ++ front.map .name ++ [.name n]) t' with ⟨_, _, _, _, _, hmade⟩ | ⟨_, hmade, -⟩
          · rw [hmade] at hmk
            cases hmk
          · rw [hmade] at hmk
            injection hmk with _ hsame
            exact hsame.symm
        dsimp only
        cases hrec : createDirAllRev host (root ++ front.map PathPart.name).reverse u' with
        | error e v =>
          rw [hrec] at hparents
          exact hparents
        | ok w v =>
          rw [hrec, stateAfter] at hparents
          have hsecond := hparents.mkdir hfront
          dsimp only
          cases hagain : FileTree.mkdir host (root ++ front.map .name ++ [.name n]) v with
          | ok w v' =>
            rw [hagain] at hsecond
            exact hsecond
          | error e v' =>
            rw [hagain] at hsecond
            dsimp only
            split
            · exact hsecond
            · exact hsecond
      | _ =>
        dsimp only
        split
        · exact hfirst
        · exact hfirst

theorem resolveEntry_sibling {parent : List (PathPart Text)}
    (h : resolveEntry host t (parent ++ [.name n]) = .ok (loc, m)) :
      resolveEntry host t (parent ++ [.name n']) = .ok (loc, n') := by
  obtain ⟨init, hinit, hwalk, hdir⟩ := resolveEntry_ok h
  obtain ⟨rfl, -⟩ := List.append_inj' hinit rfl
  exact resolveEntry_snoc hwalk hdir

/- An operation that changes nothing but what `P` holds of, and nothing that was there if it fails. -/
def ChangesAt (P : Loc Text → Prop) (t : FileTree Text Bytes)
    (after : EStateM.Result String (FileTree Text Bytes) Unit) : Prop :=
  (∀ x, ¬ P x → (stateAfter after).node x = t.node x) ∧ ∀ e t', after = .error e t' → t.Extends t'

theorem ChangesAt.error {P : Loc Text → Prop} {e : String}
    (hsame : ∀ x, ¬ P x → t'.node x = t.node x) (hkept : t.Extends t') :
    ChangesAt P t (.error e t') := by
  refine ⟨hsame, fun e' u h => ?_⟩
  injection h with _ hu
  exact hu ▸ hkept

theorem Plain.placeFile (h : Plain env.host root base (front ++ [n]) t) (temp : Text) (bytes : Bytes) :
    ChangesAt (fun x => x = base ++ front ++ [temp] ∨ x = base ++ front ++ [n]) t
      (Web.placeFile env (root ++ front.map .name ++ [.name temp])
        (root ++ front.map .name ++ [.name n]) bytes t) := by
  rw [Web.placeFile]
  rcases openNew_cases env.host []
    (root ++ front.map .name ++ [.name temp]) t with ⟨e, hopen⟩ | ⟨loc, m, hentry, hnone, hopen⟩
  · rw [hopen]
    exact .error (fun _ _ => rfl) fun _ _ => rfl
  · obtain ⟨rfl, rfl⟩ := h.entry_eq (List.prefix_append _ _) hentry
    obtain ⟨-, -, -, hdir⟩ := resolveEntry_ok hentry
    have hput : FileAt (base ++ front ++ [m]) t (t.put (base ++ front) m (some (.file []))) :=
      FileAt.put hdir (by rw [hnone]; simp)
    have hwritten : FileAt (base ++ front ++ [m]) t
      (stateAfter (writeAll env.host (base ++ front, m) bytes
        (t.put (base ++ front) m (some (.file []))))) :=
      hput.writeAll (by rw [hput.extends hnone _ (by rw [hdir]; rfl), hdir]) bytes
    rw [hopen]
    dsimp only
    cases hwrite : writeAll env.host (base ++ front, m) bytes
      (t.put (base ++ front) m (some (.file []))) with
    | error e u =>
      rw [hwrite] at hwritten
      exact .error (fun x hx => hwritten.same x fun htemp => hx (.inl htemp)) (hwritten.extends hnone)
    | ok v u =>
      rw [hwrite, stateAfter] at hwritten
      have hthere := resolveEntry_extends (hwritten.extends hnone) hentry
      dsimp only
      rcases rename_cases env.host (root ++ front.map .name ++ [.name m])
        (root ++ front.map .name ++ [.name n]) u
        with ⟨e, hrename⟩ | ⟨loc, m', loc', n', u', hsource, htarget, hrename, hsame⟩
      · -- What is not the temporary file was never touched, and the temporary file is gone again.
        have hback : ∀ x, (stateAfter
          (removeFile env.host (root ++ front.map .name ++ [.name m]) u)).node x = t.node x := by
          intro x
          rw [removeFile_node hthere (.inr hwritten.here) x]
          split
          next hx => rw [hx, hnone]
          next hx => exact hwritten.same x hx
        rw [hrename]
        exact .error (fun x _ => hback x) fun x _ => hback x
      · obtain ⟨rfl, rfl⟩ := Prod.mk.inj (Except.ok.inj (hsource.symm.trans hthere))
        obtain ⟨rfl, rfl⟩ :=
          Prod.mk.inj (Except.ok.inj (htarget.symm.trans (resolveEntry_sibling hthere)))
        rw [hrename]
        refine ⟨fun x hx => ?_, fun e t' ht => (by cases ht)⟩
        obtain ⟨htemp, hfile⟩ := not_or.mp hx
        exact (hsame x htemp hfile).trans (hwritten.same x htemp)

end Plain

section Confined

variable {env : StoreEnv} {root : List (PathPart Text)} {base : Loc Text} {t : FileTree Text Bytes}
  {path : Text}

def Beneath (base l : Loc Text) : Prop := ∃ names, names ≠ [] ∧ ".git".toList ∉ names ∧ l = base ++ names

theorem readConfined_beneath (hroot : t.walk env.host.links [] root = .ok base) {l : Loc Text}
    {content : Bytes} (h : readConfined env root path t = .ok (l, content)) : Beneath base l := by
  obtain ⟨names, hnames, h⟩ := bind_eq_ok.mp h
  obtain ⟨hchecked, hne⟩ := confined_ok hnames
  refine ⟨names, hne, hchecked.1, ?_⟩
  dsimp only at h
  split at h
  next found hread =>
    rw [readFile] at hread
    split at hread
    next => cases hread
    next loc hwalk =>
      obtain rfl := (hchecked.plain hroot).walk_eq List.prefix_rfl hwalk
      split at hread
      next =>
        split at hread
        next => exact (congrArg Prod.fst ((Except.ok.inj hread).trans (Except.ok.inj h))).symm
        next => cases hread
      next => cases hread
  next => cases h

theorem tempName_ne_git (name suffix : Text) : tempName name suffix ≠ ".git" := by
  intro h
  have hlength := congrArg List.length h
  simp [tempName] at hlength
  omega

theorem writeConfined_confined (hroot : t.walk env.host.links [] root = .ok base) (path : Text)
    (bytes : Bytes) :
    ChangesAt (Beneath base) t (writeConfined env root path bytes t) := by
  rw [writeConfined]
  cases hnames : confined env root t path with
  | error e => exact .error (fun _ _ => rfl) fun _ _ => rfl
  | ok names =>
    obtain ⟨⟨hgit, hlinks⟩, hne⟩ := confined_ok hnames
    obtain ⟨front, n, rfl⟩ : ∃ front n, names = front ++ [n] :=
      ⟨_, _, (List.dropLast_concat_getLast hne).symm⟩
    have hmade := Made.createDirAll ⟨Checked.plain ⟨hgit, hlinks⟩ hroot, fun _ _ => rfl, fun _ _ => rfl⟩
      (List.prefix_append front [n])
    -- The names that lead to a directory on the way are among those checked.
    have hway : ∀ x, ¬ Beneath base x → ∀ q, q <+: front ++ [n] → q ≠ [] → x ≠ base ++ q :=
      fun x hx q hq hnil heq => hx ⟨q, hnil, fun hmem => hgit (hq.subset hmem), heq⟩
    dsimp only
    rw [List.dropLast_concat, List.getLast?_concat]
    cases hdirs : createDirAll env.host (root ++ front.map PathPart.name) t with
    | error e u =>
      rw [hdirs, stateAfter] at hmade
      exact .error (fun x hx => hmade.same x (hway x hx)) hmade.kept
    | ok v u =>
      rw [hdirs, stateAfter] at hmade
      dsimp only
      cases hsuffix : env.randomSuffix with
      | error e => exact .error (fun x hx => hmade.same x (hway x hx)) hmade.kept
      | ok suffix =>
        obtain ⟨hsame, hkept⟩ := hmade.plain.placeFile (tempName n suffix) bytes
        have htemp : Beneath base (base ++ front ++ [tempName n suffix]) := by
          refine ⟨front ++ [tempName n suffix], by simp, fun hmem => ?_, List.append_assoc _ _ _⟩
          rcases List.mem_append.mp hmem with hmem | hmem
          · exact hgit (List.mem_append_left _ hmem)
          · exact tempName_ne_git n suffix (List.mem_singleton.mp hmem).symm
        refine ⟨fun x hx => (hsame x ?_).trans (hmade.same x (hway x hx)), fun e t' h x hx => ?_⟩
        · rintro (rfl | rfl)
          · exact hx htemp
          · exact hx ⟨front ++ [n], hne, hgit, List.append_assoc _ _ _⟩
        · rw [hkept e t' h x (by rw [hmade.kept x hx]; exact hx), hmade.kept x hx]

theorem removeConfined_confined (hroot : t.walk env.host.links [] root = .ok base) {x : Loc Text}
    (hx : ¬ Beneath base x) :
    (stateAfter (removeConfined env root path t)).node x = t.node x := by
  have hstate : ∀ names,
    (stateAfter (removeFile env.host (root ++ names.map PathPart.name) t)).node x = t.node x →
      confined env root t path = .ok names →
        (stateAfter (removeConfined env root path t)).node x = t.node x := by
    intro names hsame hnames
    rw [removeConfined, hnames]
    dsimp only
    split <;> rename_i hremoved <;> rw [hremoved] at hsame <;> exact hsame
  cases hnames : confined env root t path with
  | error e => rw [removeConfined, hnames, stateAfter]
  | ok names =>
    refine hstate names ?_ hnames
    obtain ⟨hchecked, hne⟩ := confined_ok hnames
    obtain ⟨front, n, rfl⟩ : ∃ front n, names = front ++ [n] :=
      ⟨_, _, (List.dropLast_concat_getLast hne).symm⟩
    rw [List.map_append, List.map_singleton, ← List.append_assoc, removeFile]
    cases hentry : resolveEntry env.host t (root ++ front.map .name ++ [.name n]) with
    | error e => rfl
    | ok entry =>
      obtain ⟨loc, m⟩ := entry
      obtain ⟨rfl, rfl⟩ := (hchecked.plain hroot).entry_eq (List.prefix_append _ _) hentry
      dsimp only
      split
      · rfl
      · rfl
      · refine put_node_of_ne fun heq => hx ⟨front ++ [m], hne, hchecked.1, ?_⟩
        rw [heq, List.append_assoc]

/- A directory with some names behind it. -/
def LexicallyBeneath (localRoot dir : List Component) : Prop :=
  ∃ segments : List Text, dir = localRoot ++ segments.map .normal ∧
    ∀ s ∈ segments, s ≠ [] ∧ s ≠ "." ∧ s ≠ ".." ∧ '/' ∉ s

theorem localDir_beneath {stores : Stores} {dbPath : Text} {dir : List Component}
    (h : stores.localDir dbPath = some dir) :
    ∃ localRoot, stores.localRoot = some localRoot ∧ LexicallyBeneath localRoot dir := by
  simp only [Stores.localDir, Option.bind_eq_bind, Option.bind_eq_some_iff] at h
  obtain ⟨localRoot, hlocal, dbRoot, -, h⟩ := h
  split at h
  next => cases h
  next =>
    split at h
    next => cases h
    next hdots =>
      obtain ⟨hdot, hup⟩ := not_or.mp hdots
      refine ⟨localRoot, hlocal, _, (Option.some.inj h).symm, fun s hs => ?_⟩
      obtain ⟨hmem, hne⟩ := List.mem_filter.mp hs
      exact ⟨of_decide_eq_true hne, fun heq => hdot (heq ▸ hs), fun heq =>
        hup (heq ▸ hs), notMem_of_mem_splitOn hmem⟩

/-- Whatever the links are, the store stays beneath the root and out of every git directory there. A
write that fails leaves all that was there. -/
theorem directory_store_confined (hroot : t.walk env.host.links [] root = .ok base) (path : Text)
    (bytes : Bytes) (stores : Stores) (dbPath : Text) :
    (∀ l content, readConfined env root path t = .ok (l, content) → Beneath base l) ∧
      (∀ x, ¬ Beneath base x → (stateAfter (writeConfined env root path bytes t)).node x = t.node x ∧
        (stateAfter (removeConfined env root path t)).node x = t.node x) ∧
      (∀ e t', writeConfined env root path bytes t = .error e t' → t.Extends t') ∧
      ∀ dir, stores.localDir dbPath = some dir →
        ∃ localRoot, stores.localRoot = some localRoot ∧ LexicallyBeneath localRoot dir := by
  obtain ⟨hwrite, hfailed⟩ := writeConfined_confined hroot path bytes
  exact ⟨fun l content h => readConfined_beneath hroot h, fun x hx =>
    ⟨hwrite x hx, removeConfined_confined hroot hx⟩,
    hfailed, fun dir h => localDir_beneath h⟩

end Confined

def bareStore : FileTree Text Bytes where
  node
    | [] => some .dir
    | _ :: _ => none
  root := rfl
  inDir loc n h := by cases loc <;> cases h

/- Everything is permitted. -/
def freeEnv : StoreEnv where
  host := ⟨40, fun _ => true, fun _ => true, fun _ => true, fun _ content => (content, true)⟩
  describe _ := ""
  debug _ := ""
  display _ := ""
  randomSuffix := .ok "00"

def gitStore : FileTree Text Bytes := bareStore.put [] ".git" (some .dir)

theorem directory_store_confined_git :
    gitStore.walk 40 [] [.name ".git"] = .ok [".git"] ∧
      ∀ x, ¬ Beneath [".git"] x →
        (stateAfter (writeConfined freeEnv [.name ".git"] "a.md" [65] gitStore)).node x =
          gitStore.node x := by
  have hroot : gitStore.walk 40 [] [.name ".git"] = .ok [".git"] := by decide +kernel
  have hstore : gitStore.walk freeEnv.host.links [] [.name ".git"] = .ok [".git"] := hroot
  exact ⟨hroot, fun x hx => ((directory_store_confined hstore "a.md" [65] ⟨none, none⟩ []).2.1 x hx).1⟩

/-- The root of a bundle is not looked at: one that lies in a git directory is written to like any
other. -/
theorem directory_store_in_git :
    gitStore.walk freeEnv.host.links [] [.name ".git"] = .ok [".git"] ∧
      (stateAfter (writeConfined freeEnv [.name ".git"] "a.md" [65] gitStore)).node
        [".git", "a.md"] = some (.file [65]) ∧
      gitStore.node [".git", "a.md"] = none := by
  decide +kernel

end Pgokf.Web
