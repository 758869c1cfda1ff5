import Mathlib.Data.List.Basic
import Mathlib.Data.List.Infix
import Pgokf.Lib.Effect

/-! # Trees of files with symbolic links

A location is what is left of a path once every link on it has been followed. An operation walks its
path as a kernel does and changes the tree at one location. -/

namespace Pgokf.Lib

abbrev Loc (ν : Type) := List ν

inductive PathPart (ν : Type) where
  | up
  | name (n : ν)
  deriving DecidableEq

structure LinkTarget (ν : Type) where
  absolute : Bool
  parts : List (PathPart ν)
  deriving DecidableEq

inductive Node (ν β : Type) where
  | dir
  | file (content : β)
  | link (target : LinkTarget ν)
  deriving DecidableEq

@[ext]
structure FileTree (ν β : Type) where
  node : Loc ν → Option (Node ν β)
  root : node [] = some .dir
  inDir : ∀ loc n, (node (loc ++ [n])).isSome = true → node loc = some .dir

inductive Errno where
  | notFound
  | notDirectory
  | isDirectory
  | alreadyExists
  | tooManyLinks
  | denied
  | noSpace
  deriving DecidableEq

/- How many links a walk may follow, where entries may be created, files opened and marked, and what
a file holds after an attempt to write to it, with whether all of it was written. -/
structure Host (ν β : Type) where
  links : Nat
  mayCreate : Loc ν → Bool
  mayOpen : Loc ν → Bool
  mayMark : Loc ν → Bool
  write : Loc ν → β → β × Bool

namespace FileTree

variable {ν β : Type}

def isDirAt (t : FileTree ν β) (loc : Loc ν) : Bool :=
  match t.node loc with
  | some .dir => true
  | _ => false

theorem isDirAt_iff {t : FileTree ν β} {loc : Loc ν} : t.isDirAt loc = true ↔
    t.node loc = some .dir := by
  unfold isDirAt
  split <;> simp_all

/-! ### Walking a path -/

section Walk

variable {t t' : FileTree ν β} {loc l : Loc ν} {n : ν} {parts : List (PathPart ν)} {links : Nat}
  {follow : Loc ν → List (PathPart ν) → Except Errno (Loc ν)}

def walkParts (t : FileTree ν β) (follow : Loc ν → List (PathPart ν) → Except Errno (Loc ν)) :
    Loc ν → List (PathPart ν) → Except Errno (Loc ν)
  | loc, [] => .ok loc
  | loc, .up :: rest => walkParts t follow loc.dropLast rest
  | loc, .name n :: rest =>
    match t.node (loc ++ [n]) with
    | none => .error .notFound
    | some .dir => walkParts t follow (loc ++ [n]) rest
    | some (.file _) => if rest.isEmpty then .ok (loc ++ [n]) else .error .notDirectory
    | some (.link target) => follow (if target.absolute then [] else loc) (target.parts ++ rest)

/-- The location a path leads to, following at most so many links. -/
def walk (t : FileTree ν β) : Nat → Loc ν → List (PathPart ν) → Except Errno (Loc ν)
  | 0 => walkParts t fun _ _ => .error .tooManyLinks
  | links + 1 => walkParts t (walk t links)

theorem node_dropLast (h : t.node loc = some .dir) : t.node loc.dropLast = some .dir := by
  rcases List.eq_nil_or_concat' loc with rfl | ⟨init, n, rfl⟩
  · exact t.root
  · rw [List.dropLast_concat]
    exact t.inDir init n (by rw [h]; rfl)

/- What a walk keeps, link by link: it holds of the walk if it holds of whatever the links lead to. -/
theorem walkParts_exists
    (hfollow : ∀ loc parts l, t.node loc = some .dir → follow loc parts = .ok l →
      t.node l = some .dir ∨ ∃ content, t.node l = some (.file content))
        (hloc : t.node loc = some .dir)
    (h : walkParts t follow loc parts = .ok l) : t.node l = some .dir ∨
      ∃ content, t.node l = some (.file content) := by
  induction parts generalizing loc with
  | nil =>
    obtain rfl := Except.ok.inj h
    exact .inl hloc
  | cons part rest ih =>
    cases part with
    | up => exact ih (node_dropLast hloc) h
    | name n =>
      rw [walkParts] at h
      cases hnode : t.node (loc ++ [n]) with
      | none =>
        rw [hnode] at h
        cases h
      | some node =>
        rw [hnode] at h
        cases node with
        | dir => exact ih hnode h
        | file content =>
          dsimp only at h
          split at h
          · obtain rfl := Except.ok.inj h
            exact .inr ⟨content, hnode⟩
          · cases h
        | link target =>
          refine hfollow _ _ l ?_ h
          cases target.absolute with
          | true => exact t.root
          | false => exact hloc

theorem walk_exists (hloc : t.node loc = some .dir) (h : walk t links loc parts = .ok l) :
    t.node l = some .dir ∨ ∃ content, t.node l = some (.file content) := by
  induction links generalizing loc parts l with
  | zero => exact walkParts_exists (fun _ _ _ _ h => by cases h) hloc h
  | succ links ih => exact walkParts_exists (fun _ _ _ hloc h => ih hloc h) hloc h

/- The second tree holds everything the first does. -/
def Extends (t t' : FileTree ν β) : Prop := ∀ l, (t.node l).isSome = true → t'.node l = t.node l

theorem walkParts_mono (hext : t.Extends t')
    {follow' : Loc ν → List (PathPart ν) → Except Errno (Loc ν)}
    (hfollow : ∀ loc parts l, follow loc parts = .ok l → follow' loc parts = .ok l)
    (h : walkParts t follow loc parts = .ok l) : walkParts t' follow' loc parts = .ok l := by
  induction parts generalizing loc with
  | nil => exact h
  | cons part rest ih =>
    cases part with
    | up => exact ih h
    | name n =>
      rw [walkParts] at h ⊢
      cases hnode : t.node (loc ++ [n]) with
      | none =>
        rw [hnode] at h
        cases h
      | some node =>
        rw [hext _ (by rw [hnode]; rfl), hnode]
        rw [hnode] at h
        cases node with
        | dir => exact ih h
        | file content => exact h
        | link target => exact hfollow _ _ l h

theorem walk_mono (hext : t.Extends t') (h : walk t links loc parts = .ok l) :
    walk t' links loc parts = .ok l := by
  induction links generalizing loc parts l with
  | zero => exact walkParts_mono hext (fun _ _ _ h => by cases h) h
  | succ links ih => exact walkParts_mono hext (fun _ _ _ h => ih h) h

/- What a walk comes to that takes one more step, to an entry that is no link. -/
def entryAt (t : FileTree ν β) (l : Loc ν) (n : ν) : Except Errno (Loc ν) :=
  match t.node (l ++ [n]) with
  | none => .error .notFound
  | some _ => .ok (l ++ [n])

theorem walkParts_snoc (hfollow : ∀ loc parts, follow loc parts = .ok l →
    follow loc (parts ++ [.name n]) = entryAt t l n)
    (h : walkParts t follow loc parts = .ok l) (hdir : t.node l = some .dir)
    (hlink : ∀ target, t.node (l ++ [n]) ≠ some (.link target)) :
    walkParts t follow loc (parts ++ [.name n]) = entryAt t l n := by
  induction parts generalizing loc with
  | nil =>
    obtain rfl := Except.ok.inj h
    rw [List.nil_append, walkParts, entryAt]
    cases hnode : t.node (loc ++ [n]) with
    | none => rfl
    | some node =>
      cases node with
      | dir => rfl
      | file content => rfl
      | link target => exact absurd hnode (hlink target)
  | cons part rest ih =>
    cases part with
    | up => exact ih h
    | name m =>
      rw [List.cons_append, walkParts]
      rw [walkParts] at h
      cases hnode : t.node (loc ++ [m]) with
      | none =>
        rw [hnode] at h
        cases h
      | some node =>
        rw [hnode] at h
        cases node with
        | dir => exact ih h
        | file content =>
          dsimp only at h
          split at h
          · obtain rfl := Except.ok.inj h
            rw [hnode] at hdir
            cases hdir
          · cases h
        | link target =>
          dsimp only at h ⊢
          rw [← List.append_assoc]
          exact hfollow _ _ h

theorem walk_snoc (h : walk t links loc parts = .ok l) (hdir : t.node l = some .dir)
    (hlink : ∀ target, t.node (l ++ [n]) ≠ some (.link target)) :
    walk t links loc (parts ++ [.name n]) = entryAt t l n := by
  induction links generalizing loc parts with
  | zero => exact walkParts_snoc (fun _ _ h => by cases h) h hdir hlink
  | succ links ih => exact walkParts_snoc (fun _ _ h => ih h) h hdir hlink

variable {e : Errno} {more : List (PathPart ν)}

theorem walkParts_append_error
    (hfollow : ∀ loc parts, follow loc parts = .error e → follow loc (parts ++ more) = .error e)
    (h : walkParts t follow loc parts = .error e) :
      walkParts t follow loc (parts ++ more) = .error e := by
  induction parts generalizing loc with
  | nil => cases h
  | cons part rest ih =>
    cases part with
    | up => exact ih h
    | name n =>
      rw [walkParts] at h
      rw [List.cons_append, walkParts]
      cases hnode : t.node (loc ++ [n]) with
      | none =>
        rw [hnode] at h
        exact h
      | some node =>
        rw [hnode] at h
        cases node with
        | dir => exact ih h
        | file content =>
          dsimp only at h ⊢
          split at h
          · cases h
          next hrest =>
            rw [if_neg (by simp_all)]
            exact h
        | link target =>
          dsimp only at h ⊢
          rw [← List.append_assoc]
          exact hfollow _ _ h

theorem walk_append_error (h : walk t links loc parts = .error e) :
    walk t links loc (parts ++ more) = .error e := by
  induction links generalizing loc parts with
  | zero => exact walkParts_append_error (fun _ _ h => h) h
  | succ links ih => exact walkParts_append_error (fun _ _ h => ih h) h

variable {content : β}

theorem walkParts_append_file (hmore : more ≠ []) (hloc : t.node loc = some .dir)
    (hfollow : ∀ loc parts, t.node loc = some .dir → follow loc parts = .ok l →
      follow loc (parts ++ more) = .error .notDirectory) (h : walkParts t follow loc parts = .ok l)
    (hfile : t.node l = some (.file content)) :
    walkParts t follow loc (parts ++ more) = .error .notDirectory := by
  induction parts generalizing loc with
  | nil =>
    obtain rfl := Except.ok.inj h
    rw [hloc] at hfile
    cases hfile
  | cons part rest ih =>
    cases part with
    | up => exact ih (node_dropLast hloc) h
    | name n =>
      rw [walkParts] at h
      rw [List.cons_append, walkParts]
      cases hnode : t.node (loc ++ [n]) with
      | none =>
        rw [hnode] at h
        cases h
      | some node =>
        rw [hnode] at h
        cases node with
        | dir => exact ih hnode h
        | file content => simp [hmore]
        | link target =>
          dsimp only at h ⊢
          rw [← List.append_assoc]
          refine hfollow _ _ ?_ h
          split
          · exact t.root
          · exact hloc

theorem walk_append_file (hmore : more ≠ []) (hloc : t.node loc = some .dir)
    (h : walk t links loc parts = .ok l) (hfile : t.node l = some (.file content)) :
    walk t links loc (parts ++ more) = .error .notDirectory := by
  induction links generalizing loc parts with
  | zero => exact walkParts_append_file hmore hloc (fun _ _ _ h => by cases h) h hfile
  | succ links ih => exact walkParts_append_file hmore hloc (fun _ _ hloc h => ih hloc h) h hfile

theorem walk_snoc_dir (h : walk t links loc parts = .ok l) (hdir : t.node (l ++ [n]) = some .dir) :
    walk t links loc (parts ++ [.name n]) = .ok (l ++ [n]) := by
  rw [walk_snoc h (t.inDir l n (by rw [hdir]; rfl)) (by rw [hdir]; simp), entryAt, hdir]

theorem walkParts_names (hdir : t.node (loc ++ l) = some .dir) :
    walkParts t follow loc (l.map .name ++ parts) = walkParts t follow (loc ++ l) parts := by
  induction l generalizing loc with
  | nil => rw [List.append_nil, List.map_nil, List.nil_append]
  | cons n l ih =>
    rw [List.append_cons] at hdir ⊢
    have hfirst : t.node (loc ++ [n]) = some .dir := by
      clear ih
      induction l using List.reverseRecOn with
      | nil => rwa [List.append_nil] at hdir
      | append_singleton l m ih =>
        rw [← List.append_assoc] at hdir
        exact ih (t.inDir _ m (by rw [hdir]; rfl))
    rw [List.map_cons, List.cons_append, walkParts, hfirst]
    exact ih hdir

theorem walk_names (hdir : t.node (loc ++ l) = some .dir) :
    walk t links loc (l.map .name ++ parts) = walk t links (loc ++ l) parts := by
  cases links with
  | zero | succ links => exact walkParts_names hdir

theorem walk_location (hdir : t.node l = some .dir) : walk t links [] (l.map .name) = .ok l := by
  have h : walk t links [] (l.map .name ++ []) = walk t links ([] ++ l) [] := walk_names hdir
  rw [List.append_nil, List.nil_append] at h
  rw [h]
  cases links <;> rfl

end Walk

section Put

variable [DecidableEq ν] {t : FileTree ν β} {loc l : Loc ν} {n : ν} {node : Option (Node ν β)}

/- Puts, replaces or removes an entry of a directory. An entry that is itself a directory is left
alone. -/
def put (t : FileTree ν β) (loc : Loc ν) (n : ν) (node : Option (Node ν β)) : FileTree ν β :=
  if h : t.isDirAt loc = true ∧ t.isDirAt (loc ++ [n]) = false then
    { node := Function.update t.node (loc ++ [n]) node
      root := by
        rw [Function.update_of_ne (by simp)]
        exact t.root
      inDir := by
        intro l m hsome
        by_cases hl : l = loc ++ [n]
        · -- Nothing is below an entry that is no directory.
          subst hl
          rw [Function.update_of_ne (by simp)] at hsome
          have hdir := isDirAt_iff.mpr (t.inDir _ m hsome)
          rw [h.2] at hdir
          cases hdir
        · rw [Function.update_of_ne hl]
          by_cases hlm : l ++ [m] = loc ++ [n]
          · obtain ⟨rfl, -⟩ := List.append_inj' hlm rfl
            exact isDirAt_iff.mp h.1
          · rw [Function.update_of_ne hlm] at hsome
            exact t.inDir l m hsome }
  else t

theorem put_node_self (hloc : t.node loc = some .dir) (hleaf : t.node (loc ++ [n]) ≠ some .dir) :
    (t.put loc n node).node (loc ++ [n]) = node := by
  have h : t.isDirAt loc = true ∧ t.isDirAt (loc ++ [n]) = false :=
    ⟨isDirAt_iff.mpr hloc, Bool.eq_false_iff.mpr fun hd => hleaf (isDirAt_iff.mp hd)⟩
  rw [put, dif_pos h]
  exact Function.update_self _ _ _

theorem put_node_of_ne (h : l ≠ loc ++ [n]) : (t.put loc n node).node l = t.node l := by
  rw [put]
  split
  · exact Function.update_of_ne h _ _
  · rfl

theorem extends_put (hnone : t.node (loc ++ [n]) = none) : t.Extends (t.put loc n node) := by
  intro l hl
  refine put_node_of_ne fun h => ?_
  rw [h, hnone] at hl
  cases hl

end Put

section Operations

variable [DecidableEq ν] (host : Host ν β)

/- The directory and the name of the last part of a path, which is not followed. -/
def resolveEntry (t : FileTree ν β) (path : List (PathPart ν)) : Except Errno (Loc ν × ν) :=
  match path.getLast? with
  | some (.name n) =>
    match t.walk host.links [] path.dropLast with
    | .error e => .error e
    | .ok loc => if t.isDirAt loc then .ok (loc, n) else .error .notDirectory
  | _ => .error .isDirectory

def lstat (t : FileTree ν β) (path : List (PathPart ν)) : Except Errno (Node ν β) :=
  match resolveEntry host t path with
  | .error .isDirectory => .ok .dir
  | .error e => .error e
  | .ok (loc, n) =>
    match t.node (loc ++ [n]) with
    | none => .error .notFound
    | some node => .ok node

def isDirPath (t : FileTree ν β) (path : List (PathPart ν)) : Bool :=
  match t.walk host.links [] path with
  | .error _ => false
  | .ok loc => t.isDirAt loc

def canonicalize (t : FileTree ν β) (path : List (PathPart ν)) : Except Errno (Loc ν) :=
    t.walk host.links [] path

def mkdir (path : List (PathPart ν)) (t : FileTree ν β) :
    EStateM.Result Errno (FileTree ν β) Unit :=
  match resolveEntry host t path with
  | .error e => .error e t
  | .ok (loc, n) =>
    match t.node (loc ++ [n]) with
    | some _ => .error .alreadyExists t
    | none => if host.mayCreate (loc ++ [n]) then .ok ()
      (t.put loc n (some .dir)) else .error .denied t

/- The path is taken from its end. A directory whose parent is missing is tried again after the
parent. -/
def createDirAllRev : List (PathPart ν) → FileTree ν β → EStateM.Result Errno (FileTree ν β) Unit
  | [], t => .ok () t
  | part :: parents, t =>
    match mkdir host (parents.reverse ++ [part]) t with
    | .ok () t => .ok () t
    | .error .notFound t =>
      match createDirAllRev parents t with
      | .error e t => .error e t
      | .ok () t =>
        match mkdir host (parents.reverse ++ [part]) t with
        | .ok () t => .ok () t
        | .error e t => if isDirPath host t (parents.reverse ++ [part]) then
          .ok () t else .error e t
    | .error e t => if isDirPath host t (parents.reverse ++ [part]) then .ok () t else .error e t

/-- `std::fs::create_dir_all`. -/
def createDirAll (path : List (PathPart ν)) (t : FileTree ν β) :
    EStateM.Result Errno (FileTree ν β) Unit :=
  createDirAllRev host path.reverse t

/-- An exclusive open: whatever is there already is refused. -/
def openNew (empty : β) (path : List (PathPart ν)) (t : FileTree ν β) :
    EStateM.Result Errno (FileTree ν β) (Loc ν × ν) :=
  match resolveEntry host t path with
  | .error e => .error e t
  | .ok (loc, n) =>
    match t.node (loc ++ [n]) with
    | some _ => .error .alreadyExists t
    | none =>
      if host.mayCreate (loc ++ [n]) then .ok (loc, n)
        (t.put loc n (some (.file empty))) else .error .denied t

/-- An open that creates or truncates a file and does not follow a link at the end of the path. -/
def openNoFollow (empty : β) (path : List (PathPart ν)) (t : FileTree ν β) :
    EStateM.Result Errno (FileTree ν β) (Loc ν × ν) :=
  match resolveEntry host t path with
  | .error e => .error e t
  | .ok (loc, n) =>
    match t.node (loc ++ [n]) with
    | some .dir => .error .isDirectory t
    | some (.link _) => .error .tooManyLinks t
    | some (.file _) =>
      if host.mayOpen (loc ++ [n]) then .ok (loc, n)
        (t.put loc n (some (.file empty))) else .error .denied t
    | none =>
      if host.mayCreate (loc ++ [n]) then .ok (loc, n)
        (t.put loc n (some (.file empty))) else .error .denied t

def writeAll (handle : Loc ν × ν) (content : β) (t : FileTree ν β) :
    EStateM.Result Errno (FileTree ν β) Unit :=
  let written := host.write (handle.1 ++ [handle.2]) content
  let t := t.put handle.1 handle.2 (some (.file written.1))
  if written.2 then .ok () t else .error .noSpace t

def readFile (path : List (PathPart ν)) (t : FileTree ν β) : Except Errno (Loc ν × β) :=
  match t.walk host.links [] path with
  | .error e => .error e
  | .ok loc =>
    match t.node loc with
    | some (.file content) => if host.mayOpen loc then .ok (loc, content) else .error .denied
    | _ => .error .isDirectory

def setMode (mark : β → β) (path : List (PathPart ν)) (t : FileTree ν β) :
    EStateM.Result Errno (FileTree ν β) Unit :=
  match resolveEntry host t path with
  | .error e => .error e t
  | .ok (loc, n) =>
    match t.node (loc ++ [n]) with
    | some (.file content) =>
      if host.mayMark (loc ++ [n]) then .ok ()
        (t.put loc n (some (.file (mark content)))) else .error .denied t
    | _ => .error .denied t

def removeFile (path : List (PathPart ν)) (t : FileTree ν β) :
    EStateM.Result Errno (FileTree ν β) Unit :=
  match resolveEntry host t path with
  | .error e => .error e t
  | .ok (loc, n) =>
    match t.node (loc ++ [n]) with
    | none => .error .notFound t
    | some .dir => .error .isDirectory t
    | some _ => .ok () (t.put loc n none)

/-- A rename of an entry that is no directory, over whatever other such entry is there. -/
def rename (source target : List (PathPart ν)) (t : FileTree ν β) :
    EStateM.Result Errno (FileTree ν β) Unit :=
  match resolveEntry host t source, resolveEntry host t target with
  | .error e, _ => .error e t
  | .ok _, .error e => .error e t
  | .ok (loc, n), .ok (loc', n') =>
    match t.node (loc ++ [n]), t.node (loc' ++ [n']) with
    | none, _ => .error .notFound t
    | some .dir, _ => .error .isDirectory t
    | some _, some .dir => .error .isDirectory t
    | some node, _ =>
      if loc ++ [n] = loc' ++ [n'] then .ok () t
      else if host.mayCreate (loc' ++ [n']) then .ok () ((t.put loc' n' (some node)).put loc n none)
      else .error .denied t

end Operations

end FileTree

/-! ### Creating a path of directories -/

namespace FileTree

section CreateDirAll

variable {ν β : Type} {host : Host ν β} {t t' u : FileTree ν β} {l loc : Loc ν} {n : ν}
  {part : PathPart ν} {parents path : List (PathPart ν)}

theorem resolveEntry_ok (h : resolveEntry host t path = .ok (loc, n)) :
    ∃ init, path = init ++ [.name n] ∧ t.walk host.links [] init = .ok loc ∧
      t.node loc = some .dir := by
  unfold resolveEntry at h
  split at h
  next m hlast =>
    split at h
    · cases h
    next walked hwalk =>
      split at h
      next hdir =>
        obtain ⟨rfl, rfl⟩ := Prod.mk.inj (Except.ok.inj h)
        refine ⟨path.dropLast, ?_, hwalk, isDirAt_iff.mp hdir⟩
        exact (List.dropLast_append_getLast? _ hlast).symm
      · cases h
  · cases h

theorem resolveEntry_snoc (hwalk : t.walk host.links [] path = .ok loc)
    (hdir : t.node loc = some .dir) :
    resolveEntry host t (path ++ [.name n]) = .ok (loc, n) := by
  unfold resolveEntry
  rw [List.getLast?_concat, List.dropLast_concat, hwalk]
  exact if_pos (isDirAt_iff.mpr hdir)

theorem node_none_of_below (h : t.node l = none) {x : Loc ν} (hx : l <+: x) : t.node x = none := by
  obtain ⟨rest, rfl⟩ := hx
  induction rest using List.reverseRecOn with
  | nil => rwa [List.append_nil]
  | append_singleton rest n ih =>
    cases hnode : t.node (l ++ (rest ++ [n])) with
    | none => rfl
    | some node =>
      rw [← List.append_assoc] at hnode
      have hdir := t.inDir _ n (by rw [hnode]; rfl)
      rw [ih] at hdir
      cases hdir

/- The second tree has new directories at and below a location where there was nothing. -/
structure Grows (l : Loc ν) (t t' : FileTree ν β) : Prop where
  made : t'.node l = some .dir
  fresh : ∀ x, l <+: x → t.node x = none
  dirs : ∀ x, l <+: x → t'.node x = none ∨ t'.node x = some .dir
  same : ∀ x, ¬l <+: x → t'.node x = t.node x

theorem Grows.extends (h : Grows l t t') : t.Extends t' := by
  intro x hx
  refine h.same x fun hl => ?_
  rw [h.fresh x hl] at hx
  cases hx

/- What an open that creates or truncates finds at the end of a path. -/
structure Opens (host : Host ν β) (t : FileTree ν β) (path : List (PathPart ν)) (loc : Loc ν)
    (n : ν) : Prop where
  walked : t.walk host.links [] path.dropLast = .ok loc
  dir : t.node loc = some .dir
  last : path.getLast? = some (.name n)
  leaf : (t.node (loc ++ [n]) = none ∧ host.mayCreate (loc ++ [n]) = true) ∨
    ∃ content, t.node (loc ++ [n]) = some (.file content)

theorem Opens.leaf_ne (h : Opens host t path loc n) : t.node (loc ++ [n]) ≠ some .dir := by
  rcases h.leaf with ⟨hnone, -⟩ | ⟨content, hfile⟩
  · rw [hnone]
    simp
  · rw [hfile]
    simp

variable [DecidableEq ν]

theorem mkdir_cases (host : Host ν β) (path : List (PathPart ν)) (t : FileTree ν β) :
    (∃ loc n, resolveEntry host t path = .ok (loc, n) ∧ t.node (loc ++ [n]) = none ∧
      host.mayCreate (loc ++ [n]) = true ∧ mkdir host path t = .ok () (t.put loc n (some .dir))) ∨
    ∃ e, mkdir host path t = .error e t ∧
      (e = .notFound → resolveEntry host t path = .error .notFound) ∧
      ∀ loc n, resolveEntry host t path = .ok (loc, n) → t.node (loc ++ [n]) = none →
        host.mayCreate (loc ++ [n]) = false := by
  rw [mkdir]
  cases hentry : resolveEntry host t path with
  | error e =>
    right
    exact ⟨e, rfl, fun he => (by rw [he]), fun loc n h => (by cases h)⟩
  | ok entry =>
    obtain ⟨loc, n⟩ := entry
    dsimp only
    cases hnode : t.node (loc ++ [n]) with
    | some node =>
      right
      refine ⟨.alreadyExists, rfl, fun he => (by cases he), fun loc' n' h hnone => ?_⟩
      obtain ⟨rfl, rfl⟩ := Prod.mk.inj (Except.ok.inj h)
      rw [hnode] at hnone
      cases hnone
    | none =>
      dsimp only
      cases hmay : host.mayCreate (loc ++ [n]) with
      | true => exact .inl ⟨loc, n, rfl, hnode, hmay, rfl⟩
      | false =>
        right
        refine ⟨.denied, rfl, fun he => (by cases he), fun loc' n' h _ => ?_⟩
        obtain ⟨rfl, rfl⟩ := Prod.mk.inj (Except.ok.inj h)
        exact hmay

/-- The first directory that is made on the way to the end of a path, given from its end. -/
def firstMissing (host : Host ν β) (t : FileTree ν β) : List (PathPart ν) → Option (Loc ν)
  | [] => none
  | part :: parents =>
    match resolveEntry host t (parents.reverse ++ [part]) with
    | .error .notFound => firstMissing host t parents
    | .error _ => none
    | .ok (loc, n) => if (t.node (loc ++ [n])).isNone && host.mayCreate (loc ++ [n]) then some
      (loc ++ [n]) else none

theorem Grows.put (hloc : t.node loc = some .dir) (hnone : t.node (loc ++ [n]) = none) :
    Grows (loc ++ [n]) t (t.put loc n (some .dir)) where
  made := put_node_self hloc (by rw [hnone]; simp)
  fresh _ hx := node_none_of_below hnone hx
  dirs x hx := by
    by_cases h : x = loc ++ [n]
    · subst h
      exact .inr (put_node_self hloc (by rw [hnone]; simp))
    · rw [put_node_of_ne h]
      exact .inl (node_none_of_below hnone hx)
  same x hx := put_node_of_ne fun h => hx (h ▸ List.prefix_rfl)

theorem Grows.extend (h : Grows l t t') (hl : l <+: loc) (hloc : t'.node loc = some .dir)
    (hnone : t'.node (loc ++ [n]) = none) : Grows l t (t'.put loc n (some .dir)) where
  made := by
    rw [put_node_of_ne, h.made]
    rintro rfl
    rw [h.made] at hnone
    cases hnone
  fresh := h.fresh
  dirs x hx := by
    by_cases hxn : x = loc ++ [n]
    · subst hxn
      exact .inr (put_node_self hloc (by rw [hnone]; simp))
    · rw [put_node_of_ne hxn]
      exact h.dirs x hx
  same x hx := by
    rw [put_node_of_ne, h.same x hx]
    rintro rfl
    exact hx (hl.trans (List.prefix_append _ _))

theorem Grows.retry (h : Grows l t t') {w : Loc ν} (hwalk : t'.walk host.links [] path = .ok w)
    (hl : l <+: w) (n : ν) :
    Grows l t (stateAfter (mkdir host (path ++ [.name n]) t')) ∧
      ((stateAfter (mkdir host (path ++ [.name n]) t')).walk host.links [] (path ++ [.name n]) = .ok
        (w ++ [n]) ∨
        ∃ e, mkdir host (path ++ [.name n]) t' = .error e t' ∧
          isDirPath host t' (path ++ [.name n]) = false) := by
  have hdir : t'.node w = some .dir := by
    rcases h.dirs w hl with hnone | hdir
    · rcases walk_exists t'.root hwalk with h | ⟨content, h⟩
      · exact h
      · rw [hnone] at h
        cases h
    · exact hdir
  have hentry : resolveEntry host t' (path ++ [.name n]) = .ok (w, n) :=
    resolveEntry_snoc hwalk hdir
  rcases mkdir_cases host
    (path ++ [.name n]) t' with ⟨loc, m, hres, hnone, -, hmk⟩ | ⟨e, hmk, -, hdenied⟩
  · rw [hentry] at hres
    obtain ⟨rfl, rfl⟩ := Prod.mk.inj (Except.ok.inj hres)
    rw [hmk]
    refine ⟨h.extend hl hdir hnone, .inl ?_⟩
    exact walk_snoc_dir (walk_mono (extends_put hnone) hwalk)
      (put_node_self hdir (by rw [hnone]; simp))
  · rw [hmk]
    refine ⟨h, ?_⟩
    rcases h.dirs (w ++ [n]) (hl.trans (List.prefix_append _ _)) with hnone | hthere
    · right
      refine ⟨e, rfl, ?_⟩
      cases hpath : isDirPath host t' (path ++ [.name n]) with
      | false => rfl
      | true =>
        rw [isDirPath, walk_snoc hwalk hdir (by rw [hnone]; simp), entryAt, hnone] at hpath
        cases hpath
    · exact .inl (walk_snoc_dir hwalk hthere)

/-- The last attempt of `createDirAllRev`, once the parents are there. -/
theorem Grows.remade (h : Grows l t t') {w : Loc ν} (hwalk : t'.walk host.links [] path = .ok w)
    (hl : l <+: w) (n : ν) {result : EStateM.Result Errno (FileTree ν β) Unit}
    (hresult : result = match mkdir host (path ++ [.name n]) t' with
      | .ok () t => .ok () t
      | .error e t => if isDirPath host t (path ++ [.name n]) then .ok () t else .error e t) :
    Grows l t (stateAfter result) ∧
      ∀ u, result = .ok () u → ∃ w, u.walk host.links [] (path ++ [.name n]) = .ok w ∧ l <+: w := by
  obtain ⟨hretry, hend⟩ := h.retry hwalk hl n
  have hlonger : l <+: w ++ [n] := hl.trans (List.prefix_append _ _)
  subst hresult
  cases hagain : mkdir host (path ++ [.name n]) t' with
  | ok _ v =>
    rw [hagain] at hretry hend
    refine ⟨hretry, fun u hu => ?_⟩
    obtain rfl : v = u := by
      injection hu
    rcases hend with hend | ⟨e, he, -⟩
    · exact ⟨w ++ [n], hend, hlonger⟩
    · cases he
  | error e v =>
    rw [hagain] at hretry hend
    dsimp only
    cases hpath : isDirPath host v (path ++ [.name n]) with
    | false => exact ⟨hretry, fun u hu => by cases hu⟩
    | true =>
      refine ⟨hretry, fun u hu => ?_⟩
      obtain rfl : v = u := by
        injection hu
      rcases hend with hend | ⟨e', he', hnot⟩
      · exact ⟨w ++ [n], hend, hlonger⟩
      · injection he' with _ hv
        rw [← hv, hpath] at hnot
        cases hnot

theorem createDirAllRev_unchanged (h : firstMissing host t parents = none) :
    stateAfter (createDirAllRev host parents t) = t := by
  induction parents with
  | nil => rfl
  | cons part parents ih =>
    rw [firstMissing] at h
    rw [createDirAllRev]
    rcases mkdir_cases host
      (parents.reverse ++ [part]) t with ⟨loc, n, hres, hnone, hmay, hmk⟩ | ⟨e, hmk, hmissing, -⟩
    · rw [hres] at h
      simp [hnone, hmay] at h
    · rw [hmk]
      by_cases he : e = .notFound
      · subst he
        rw [hmissing rfl] at h
        have hstate := ih h
        dsimp only
        cases hrec : createDirAllRev host parents t with
        | error e t' =>
          rw [hrec] at hstate
          exact hstate
        | ok u t' =>
          rw [hrec] at hstate
          obtain rfl : t' = t := hstate
          dsimp only
          rw [hmk]
          dsimp only
          split <;> rfl
      · cases e with
        | notFound => exact absurd rfl he
        | _ =>
          dsimp only
          split <;> rfl

/-- A path of which a part is missing: the tree grows from the first missing directory on. -/
theorem createDirAllRev_grows (h : firstMissing host t parents = some l) :
    Grows l t (stateAfter (createDirAllRev host parents t)) ∧
      ∀ t', createDirAllRev host parents t = .ok () t' →
        ∃ w, t'.walk host.links [] parents.reverse = .ok w ∧ l <+: w := by
  induction parents with
  | nil => cases h
  | cons part parents ih =>
    rw [firstMissing] at h
    rw [createDirAllRev, List.reverse_cons]
    rcases mkdir_cases host (parents.reverse ++ [part]) t with ⟨loc, n, hres, hnone, hmay, hmk⟩
      | ⟨e, hmk, hmissing, hdenied⟩
    · -- The last directory is the only one that is missing.
      rw [hres] at h
      obtain rfl : loc ++ [n] = l := by simpa [hnone, hmay] using h
      obtain ⟨init, hpath, hwalk, hdir⟩ := resolveEntry_ok hres
      rw [hmk]
      refine ⟨Grows.put hdir hnone, fun t' ht' => ⟨loc ++ [n], ?_, List.prefix_rfl⟩⟩
      obtain rfl : t.put loc n (some .dir) = t' := by
        injection ht'
      rw [hpath]
      exact walk_snoc_dir (walk_mono (extends_put hnone) hwalk)
        (put_node_self hdir (by rw [hnone]; simp))
    · cases hres : resolveEntry host t (parents.reverse ++ [part]) with
      | ok entry =>
        obtain ⟨loc, n⟩ := entry
        rw [hres] at h
        dsimp only at h
        split at h
        next hcond =>
          rw [Bool.and_eq_true, Option.isNone_iff_eq_none] at hcond
          rw [hdenied loc n hres hcond.1] at hcond
          cases hcond.2
        · cases h
      | error e' =>
        rw [hres] at h
        -- The rest of the errors leave nothing to make.
        obtain rfl : e' = .notFound := by
          cases e' with
          | notFound => rfl
          | _ => cases h
        have he : e = .notFound := by
          rw [mkdir, hres] at hmk
          injection hmk with he
          exact he.symm
        subst he
        rw [hmk]
        obtain ⟨hgrows, hwalk⟩ := ih h
        dsimp only
        cases hrec : createDirAllRev host parents t with
        | error e t' =>
          rw [hrec] at hgrows
          exact ⟨hgrows, fun t'' h => by cases h⟩
        | ok u t' =>
          rw [hrec] at hgrows hwalk
          obtain ⟨w, hw, hl⟩ := hwalk t' rfl
          obtain ⟨n, rfl⟩ : ∃ n, part = .name n := by
            cases part with
            | name n => exact ⟨n, rfl⟩
            | up =>
              rw [resolveEntry, List.getLast?_concat] at hres
              cases hres
          exact Grows.remade hgrows hw hl n rfl

theorem createDirAllRev_extends : t.Extends (stateAfter (createDirAllRev host parents t)) := by
  cases h : firstMissing host t parents with
  | none =>
    rw [createDirAllRev_unchanged h]
    exact fun _ _ => rfl
  | some l => exact (createDirAllRev_grows h).1.extends

theorem openNoFollow_cases (host : Host ν β) (empty : β) (path : List (PathPart ν)) (t : FileTree ν β) :
    (∃ e, openNoFollow host empty path t = .error e t) ∨
    ∃ loc n, Opens host t path loc n ∧
      openNoFollow host empty path t = .ok (loc, n) (t.put loc n (some (.file empty))) := by
  rw [openNoFollow]
  cases hentry : resolveEntry host t path with
  | error e => exact .inl ⟨e, rfl⟩
  | ok entry =>
    obtain ⟨loc, n⟩ := entry
    obtain ⟨init, rfl, hwalk, hdir⟩ := resolveEntry_ok hentry
    have hwalk' : t.walk host.links [] (init ++ [PathPart.name n]).dropLast = .ok loc := by
      rw [List.dropLast_concat]
      exact hwalk
    dsimp only
    cases hnode : t.node (loc ++ [n]) with
    | none =>
      dsimp only
      cases hmay : host.mayCreate (loc ++ [n]) with
      | true => exact .inr ⟨loc, n, ⟨hwalk', hdir, List.getLast?_concat, .inl ⟨hnode, hmay⟩⟩, rfl⟩
      | false => exact .inl ⟨.denied, rfl⟩
    | some node =>
      cases node with
      | dir => exact .inl ⟨.isDirectory, rfl⟩
      | link target => exact .inl ⟨.tooManyLinks, rfl⟩
      | file content =>
        dsimp only
        cases hmay : host.mayOpen (loc ++ [n]) with
        | true => exact .inr ⟨loc, n, ⟨hwalk', hdir, List.getLast?_concat, .inr ⟨content, hnode⟩⟩, rfl⟩
        | false => exact .inl ⟨.denied, rfl⟩

theorem openNoFollow_create {empty : β} (h : Opens host t path loc n)
    (hnone : t.node (loc ++ [n]) = none) (hmay : host.mayCreate (loc ++ [n]) = true) :
    openNoFollow host empty path t = .ok (loc, n) (t.put loc n (some (.file empty))) := by
  rw [openNoFollow, resolveEntry, h.last, h.walked]
  dsimp only
  rw [if_pos (isDirAt_iff.mpr h.dir)]
  dsimp only
  rw [hnone, if_pos hmay]

/- One location holds a file, and nothing else has changed. -/
structure FileAt (l : Loc ν) (t t' : FileTree ν β) : Prop where
  here : ∃ content, t'.node l = some (.file content)
  same : ∀ x, x ≠ l → t'.node x = t.node x

theorem FileAt.put {content : β} (hloc : t.node loc = some .dir)
    (hleaf : t.node (loc ++ [n]) ≠ some .dir) :
    FileAt (loc ++ [n]) t (t.put loc n (some (.file content))) :=
  ⟨⟨content, put_node_self hloc hleaf⟩, fun _ hx => put_node_of_ne hx⟩

theorem FileAt.writeAll (h : FileAt (loc ++ [n]) t t') (hdir : t'.node loc = some .dir)
    (content : β) :
    FileAt (loc ++ [n]) t (stateAfter (writeAll host (loc, n) content t')) := by
  obtain ⟨old, hold⟩ := h.here
  have hput : FileAt (loc ++ [n]) t
    (t'.put loc n (some (.file (host.write (loc ++ [n]) content).1))) := by
    refine ⟨⟨_, put_node_self hdir (by rw [hold]; simp)⟩, fun x hx => ?_⟩
    rw [put_node_of_ne hx]
    exact h.same x hx
  rw [FileTree.writeAll]
  dsimp only
  split
  · exact hput
  · exact hput

/- The trees differ in files only, so that paths lead to the same directories. -/
structure SameFrame (t t' : FileTree ν β) : Prop where
  dirs : ∀ x, t'.node x = some .dir ↔ t.node x = some .dir
  links : ∀ x target, t'.node x = some (.link target) ↔ t.node x = some (.link target)

omit [DecidableEq ν] in
theorem SameFrame.refl (t : FileTree ν β) : SameFrame t t := ⟨fun _ => Iff.rfl, fun _ _ => Iff.rfl⟩

omit [DecidableEq ν] in
theorem SameFrame.trans {t'' : FileTree ν β} (h : SameFrame t t') (h' : SameFrame t' t'') :
    SameFrame t t'' :=
  ⟨fun x => (h'.dirs x).trans (h.dirs x), fun x target =>
    (h'.links x target).trans (h.links x target)⟩

theorem SameFrame.put {node : Option (Node ν β)} (hdir : t.node (loc ++ [n]) ≠ some .dir)
    (hlink : ∀ target, t.node (loc ++ [n]) ≠ some (.link target)) (hnode : node ≠ some .dir)
    (hnode' : ∀ target, node ≠ some (.link target)) : SameFrame t (t.put loc n node) := by
  by_cases hloc : t.node loc = some .dir
  · have hself : (t.put loc n node).node (loc ++ [n]) = node := put_node_self hloc hdir
    constructor
    · intro x
      by_cases hx : x = loc ++ [n]
      · rw [hx, hself]
        exact ⟨fun h => absurd h hnode, fun h => absurd h hdir⟩
      · rw [put_node_of_ne hx]
    · intro x target
      by_cases hx : x = loc ++ [n]
      · rw [hx, hself]
        exact ⟨fun h => absurd h (hnode' target), fun h => absurd h (hlink target)⟩
      · rw [put_node_of_ne hx]
  · have hsame : t.put loc n node = t := by
      rw [FileTree.put, dif_neg fun h => hloc (isDirAt_iff.mp h.1)]
    rw [hsame]
    exact SameFrame.refl t

omit [DecidableEq ν] in
theorem walkParts_frame (hframe : SameFrame t t')
    {follow follow' : Loc ν → List (PathPart ν) → Except Errno (Loc ν)}
    (hfollow : ∀ loc parts l, follow loc parts = .ok l → t.node l = some .dir →
      follow' loc parts = .ok l)
    (h : walkParts t follow loc path = .ok l) (hl : t.node l = some .dir) :
      walkParts t' follow' loc path = .ok l := by
  induction path generalizing loc with
  | nil => exact h
  | cons part rest ih =>
    cases part with
    | up => exact ih h
    | name n =>
      rw [walkParts] at h ⊢
      cases hnode : t.node (loc ++ [n]) with
      | none =>
        rw [hnode] at h
        cases h
      | some node =>
        rw [hnode] at h
        cases node with
        | dir =>
          rw [(hframe.dirs _).mpr hnode]
          exact ih h
        | file content =>
          -- A file ends the path, and the end is a directory.
          dsimp only at h
          split at h
          · obtain rfl := Except.ok.inj h
            rw [hnode] at hl
            cases hl
          · cases h
        | link target =>
          rw [(hframe.links _ target).mpr hnode]
          exact hfollow _ _ l h hl

omit [DecidableEq ν] in
theorem walk_frame {links : Nat} (hframe : SameFrame t t') (h : walk t links loc path = .ok l)
    (hl : t.node l = some .dir) : walk t' links loc path = .ok l := by
  induction links generalizing loc path l with
  | zero => exact walkParts_frame hframe (fun _ _ _ h => by cases h) h hl
  | succ links ih => exact walkParts_frame hframe (fun _ _ _ h hl => ih h hl) h hl

omit [DecidableEq ν] in
theorem resolveEntry_frame (hframe : SameFrame t t') (h : resolveEntry host t path = .ok (loc, n)) :
    resolveEntry host t' path = .ok (loc, n) := by
  obtain ⟨init, rfl, hwalk, hdir⟩ := resolveEntry_ok h
  exact resolveEntry_snoc (walk_frame hframe hwalk hdir) ((hframe.dirs _).mpr hdir)

omit [DecidableEq ν] in
theorem resolveEntry_extends (hext : t.Extends t') (h : resolveEntry host t path = .ok (loc, n)) :
    resolveEntry host t' path = .ok (loc, n) := by
  obtain ⟨init, rfl, hwalk, hdir⟩ := resolveEntry_ok h
  exact resolveEntry_snoc (walk_mono hext hwalk) (by rw [hext _ (by rw [hdir]; rfl), hdir])

theorem openNew_cases (host : Host ν β) (empty : β) (path : List (PathPart ν)) (t : FileTree ν β) :
    (∃ e, openNew host empty path t = .error e t) ∨
    ∃ loc n, resolveEntry host t path = .ok (loc, n) ∧ t.node (loc ++ [n]) = none ∧
      openNew host empty path t = .ok (loc, n) (t.put loc n (some (.file empty))) := by
  rw [openNew]
  cases hentry : resolveEntry host t path with
  | error e => exact .inl ⟨e, rfl⟩
  | ok entry =>
    obtain ⟨loc, n⟩ := entry
    dsimp only
    cases hnode : t.node (loc ++ [n]) with
    | some node => exact .inl ⟨.alreadyExists, rfl⟩
    | none =>
      dsimp only
      cases hmay : host.mayCreate (loc ++ [n]) with
      | true => exact .inr ⟨loc, n, rfl, hnode, rfl⟩
      | false => exact .inl ⟨.denied, rfl⟩

theorem rename_cases (host : Host ν β) (source target : List (PathPart ν)) (t : FileTree ν β) :
    (∃ e, rename host source target t = .error e t) ∨
    ∃ loc n loc' n' t', resolveEntry host t source = .ok (loc, n) ∧
      resolveEntry host t target = .ok (loc', n') ∧
      rename host source target t = .ok () t' ∧ ∀ x, x ≠ loc ++ [n] → x ≠ loc' ++ [n'] →
        t'.node x = t.node x := by
  unfold rename
  split
  next e _ => exact .inl ⟨e, rfl⟩
  next e _ _ => exact .inl ⟨e, rfl⟩
  next loc n loc' n' hsource htarget =>
    split
    · exact .inl ⟨_, rfl⟩
    · exact .inl ⟨_, rfl⟩
    · exact .inl ⟨_, rfl⟩
    · split
      · exact .inr ⟨loc, n, loc', n', t, hsource, htarget, rfl, fun _ _ _ => rfl⟩
      · split
        · refine .inr ⟨loc, n, loc', n', _, hsource, htarget, rfl, fun x hx hx' => ?_⟩
          rw [put_node_of_ne hx, put_node_of_ne hx']
        · exact .inl ⟨_, rfl⟩

omit [DecidableEq ν] in
theorem FileAt.extends (h : FileAt l t t') (hnone : t.node l = none) : t.Extends t' := by
  intro x hx
  refine h.same x fun hl => ?_
  rw [hl, hnone] at hx
  cases hx

/- The second tree has directories that the first has not, and is the same otherwise. -/
def NewDirs (t t' : FileTree ν β) : Prop :=
  ∀ x, t'.node x = t.node x ∨ t.node x = none ∧ t'.node x = some .dir

theorem createDirAll_newDirs (host : Host ν β) (path : List (PathPart ν)) (t : FileTree ν β) :
    NewDirs t (stateAfter (createDirAll host path t)) := by
  intro x
  rw [createDirAll]
  cases h : firstMissing host t path.reverse with
  | none =>
    rw [createDirAllRev_unchanged h]
    exact .inl rfl
  | some l =>
    obtain ⟨hgrows, -⟩ := createDirAllRev_grows h
    by_cases hx : l <+: x
    · rcases hgrows.dirs x hx with hnone | hdir
      · exact .inl (hnone.trans (hgrows.fresh x hx).symm)
      · exact .inr ⟨hgrows.fresh x hx, hdir⟩
    · exact .inl (hgrows.same x hx)

omit [DecidableEq ν] in
theorem NewDirs.extends (h : NewDirs t t') : t.Extends t' := by
  intro x hx
  rcases h x with hsame | ⟨hnone, -⟩
  · exact hsame
  · rw [hnone] at hx
    cases hx

theorem removeFile_node (h : resolveEntry host t path = .ok (loc, n))
    (hleaf : t.node (loc ++ [n]) = none ∨ ∃ content, t.node (loc ++ [n]) = some (.file content))
    (x : Loc ν) :
    (stateAfter (removeFile host path t)).node x = if x = loc ++ [n] then none else t.node x := by
  obtain ⟨-, -, -, hdir⟩ := resolveEntry_ok h
  rw [removeFile, h]
  dsimp only
  rcases hleaf with hnone | ⟨content, hfile⟩
  · rw [hnone]
    change t.node x = _
    split
    next hx => rwa [hx]
    next => rfl
  · rw [hfile]
    change (t.put loc n none).node x = _
    split
    next hx =>
      rw [hx]
      exact put_node_self hdir (by rw [hfile]; simp)
    next hx => exact put_node_of_ne hx

theorem removeFile_sameFrame (h : resolveEntry host t path = .ok (loc, n))
    (hleaf : t.node (loc ++ [n]) = none ∨ ∃ content, t.node (loc ++ [n]) = some (.file content)) :
    SameFrame t (stateAfter (removeFile host path t)) := by
  have hkept {node : Node ν β} (hnode : ∀ content, Node.file content ≠ node) (x : Loc ν) :
      (stateAfter (removeFile host path t)).node x = some node ↔ t.node x = some node := by
    rw [removeFile_node h hleaf]
    split
    next hx =>
      rw [hx]
      rcases hleaf with hnone | ⟨content, hfile⟩
      · simp [hnone]
      · simp [hfile, hnode content]
    next => rfl
  exact ⟨hkept (by simp), fun x target => hkept (by simp) x⟩

/- The trees differ in the content of files only. -/
def SameKinds (t u : FileTree ν β) : Prop :=
  ∀ x, u.node x = t.node x ∨ ∃ a b, t.node x = some (.file a) ∧ u.node x = some (.file b)

section
omit [DecidableEq ν]

theorem SameKinds.symm (h : SameKinds t u) : SameKinds u t := by
  intro x
  rcases h x with heq | ⟨a, b, ha, hb⟩
  · exact .inl heq.symm
  · exact .inr ⟨b, a, hb, ha⟩

theorem SameKinds.isDirAt (h : SameKinds t u) (x : Loc ν) : u.isDirAt x = t.isDirAt x := by
  rw [FileTree.isDirAt, FileTree.isDirAt]
  rcases h x with heq | ⟨a, b, ha, hb⟩
  · rw [heq]
  · rw [ha, hb]

theorem SameKinds.isNone (h : SameKinds t u) (x : Loc ν) : u.node x = none ↔ t.node x = none := by
  rcases h x with heq | ⟨a, b, ha, hb⟩
  · rw [heq]
  · simp [ha, hb]

theorem SameKinds.dir (h : SameKinds t u) (hdir : t.node l = some .dir) : u.node l = some .dir := by
  rw [← isDirAt_iff, h.isDirAt, isDirAt_iff, hdir]

theorem SameKinds.file {content : β} (h : SameKinds t u) (hfile : t.node l = some (.file content)) :
    ∃ content', u.node l = some (.file content') := by
  rcases h l with heq | ⟨a, b, -, hb⟩
  · exact ⟨content, heq.trans hfile⟩
  · exact ⟨b, hb⟩

theorem walkParts_kinds (h : SameKinds t u)
    {follow : Loc ν → List (PathPart ν) → Except Errno (Loc ν)} :
    walkParts u follow loc path = walkParts t follow loc path := by
  induction path generalizing loc with
  | nil => rfl
  | cons part rest ih =>
    cases part with
    | up => exact ih
    | name n =>
      rw [walkParts, walkParts, ih]
      rcases h (loc ++ [n]) with heq | ⟨a, b, ha, hb⟩
      · rw [heq]
      · rw [ha, hb]

theorem walk_kinds (h : SameKinds t u) (links : Nat) : walk u links = walk t links := by
  induction links with
  | zero => exact funext fun _ => funext fun _ => walkParts_kinds h
  | succ links ih =>
    rw [walk, walk, ih]
    exact funext fun _ => funext fun _ => walkParts_kinds h

theorem resolveEntry_kinds (h : SameKinds t u) :
    resolveEntry host u path = resolveEntry host t path := by
  simp only [resolveEntry, walk_kinds h, h.isDirAt]

theorem isDirPath_kinds (h : SameKinds t u) : isDirPath host u path = isDirPath host t path := by
  simp only [isDirPath, walk_kinds h, h.isDirAt]

theorem Opens.kinds (h : Opens host t path loc n) (hkinds : SameKinds t u) :
    Opens host u path loc n where
  walked := by
    rw [walk_kinds hkinds, h.walked]
  dir := hkinds.dir h.dir
  last := h.last
  leaf := by
    rcases h.leaf with ⟨hnone, hmay⟩ | ⟨content, hfile⟩
    · exact .inl ⟨(hkinds.isNone _).mpr hnone, hmay⟩
    · exact .inr (hkinds.file hfile)

end

theorem SameKinds.put (h : SameKinds t u) (hloc : t.node loc = some .dir)
    (hleaf : t.node (loc ++ [n]) = none)
    (node : Option (Node ν β)) : SameKinds (t.put loc n node) (u.put loc n node) := by
  have hloc' := h.dir hloc
  intro x
  by_cases hx : x = loc ++ [n]
  · subst hx
    rw [put_node_self hloc (by rw [hleaf]; simp),
      put_node_self hloc' (by rw [(h.isNone _).mpr hleaf]; simp)]
    exact .inl rfl
  · rw [put_node_of_ne hx, put_node_of_ne hx]
    exact h x

theorem mkdir_kinds (h : SameKinds t u) (path : List (PathPart ν)) :
    (∃ t' u', mkdir host path t = .ok () t' ∧ mkdir host path u = .ok () u' ∧ SameKinds t' u') ∨
    ∃ e, mkdir host path t = .error e t ∧ mkdir host path u = .error e u := by
  rw [mkdir, mkdir, resolveEntry_kinds h]
  cases hentry : resolveEntry host t path with
  | error e => exact .inr ⟨e, rfl, rfl⟩
  | ok entry =>
    obtain ⟨loc, n⟩ := entry
    obtain ⟨-, -, -, hdir⟩ := resolveEntry_ok hentry
    dsimp only
    cases hnode : t.node (loc ++ [n]) with
    | some node =>
      obtain ⟨node', hnode'⟩ := Option.ne_none_iff_exists'.mp fun hnone => by
        rw [(h.isNone _).mp hnone] at hnode
        cases hnode
      rw [hnode']
      exact .inr ⟨_, rfl, rfl⟩
    | none =>
      rw [(h.isNone _).mpr hnode]
      dsimp only
      split
      · exact .inl ⟨_, _, rfl, rfl, h.put hdir hnode _⟩
      · exact .inr ⟨_, rfl, rfl⟩

/-- The content of files has no part in which directories are made. -/
theorem createDirAllRev_kinds (h : SameKinds t u)
    (hok : createDirAllRev host parents t = .ok () t') :
    ∃ u', createDirAllRev host parents u = .ok () u' ∧ SameKinds t' u' := by
  induction parents generalizing t' with
  | nil =>
    obtain rfl : t = t' := by
      injection hok
    exact ⟨u, rfl, h⟩
  | cons part parents ih =>
    -- The last attempt on a directory, after its parents are there or were not missing.
    have hlast {e : Errno} {v w v' : FileTree ν β} (hvw : SameKinds v w)
        (hv : (if isDirPath host v (parents.reverse ++ [part]) = true then
          .ok () v else .error e v :
          EStateM.Result Errno (FileTree ν β) Unit) = .ok () v') :
        ∃ w', (if isDirPath host w (parents.reverse ++ [part]) = true then
          .ok () w else .error e w :
          EStateM.Result Errno (FileTree ν β) Unit) = .ok () w' ∧ SameKinds v' w' := by
      rw [isDirPath_kinds hvw]
      split at hv
      next hdir =>
        obtain rfl : v = v' := by
          injection hv
        exact ⟨w, if_pos hdir, hvw⟩
      · cases hv
    rw [createDirAllRev] at hok ⊢
    rcases mkdir_kinds h (parents.reverse ++ [part]) with
      ⟨t₁, u₁, ht, hu, hkinds⟩ | ⟨e, ht, hu⟩
    · rw [ht] at hok
      obtain rfl : t₁ = t' := by
        injection hok
      exact ⟨u₁, by rw [hu], hkinds⟩
    · rw [ht] at hok
      rw [hu]
      cases e with
      | notFound =>
        dsimp only at hok ⊢
        cases hrec : createDirAllRev host parents t with
        | error e t₁ =>
          rw [hrec] at hok
          cases hok
        | ok _ t₁ =>
          obtain ⟨u₁, hrec', hkinds⟩ := ih hrec
          rw [hrec] at hok
          rw [hrec']
          dsimp only at hok ⊢
          rcases mkdir_kinds hkinds (parents.reverse ++ [part]) with
            ⟨t₂, u₂, ht₂, hu₂, hkinds₂⟩ | ⟨e, ht₂, hu₂⟩
          · rw [ht₂] at hok
            obtain rfl : t₂ = t' := by
              injection hok
            exact ⟨u₂, by rw [hu₂], hkinds₂⟩
          · rw [ht₂] at hok
            rw [hu₂]
            exact hlast hkinds hok
      | _ => exact hlast h hok

end CreateDirAll

end FileTree

end Pgokf.Lib
