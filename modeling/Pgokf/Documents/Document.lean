import Pgokf.Json
import Pgokf.Lib.OrderedMap

/-! # Documents of the human workflow (`documents.rs`): front matter, body, provenance -/

namespace Pgokf.Documents

open Pgokf.Lib

/- A key of a YAML mapping; one that is no string is known by its text. -/
inductive Key where
  | text (t : Text)
  | other (rendered : Text)
  deriving DecidableEq

/-- `serde_yaml::Value`. -/
inductive Yaml (F : Type) where
  | null
  | bool (b : Bool)
  | number (n : JsonNumber F)
  | string (t : Text)
  | sequence (items : List (Yaml F))
  | mapping (fields : List (Key × Yaml F))
  | tagged (tag : Text) (value : Yaml F)

abbrev Mapping (F : Type) := OrderedMap Key (Yaml F)

def field (name : String) : Key := .text name.toList

variable {F : Type}

namespace Yaml

def str (t : String) : Yaml F := .string t.toList

/- `as_str`, `as_sequence` and `get` look through the tags of a value; `as_sequence_mut` writes
below them. -/
def asStr : Yaml F → Option Text
  | .string t => some t
  | .tagged _ v => v.asStr
  | _ => none

def asSequence : Yaml F → Option (List (Yaml F))
  | .sequence items => some items
  | .tagged _ v => v.asSequence
  | _ => none

def setSequence (items : List (Yaml F)) : Yaml F → Yaml F
  | .tagged tag v => .tagged tag (v.setSequence items)
  | _ => .sequence items

def get (key : Key) : Yaml F → Option (Yaml F)
  | .mapping fields => OrderedMap.get fields key
  | .tagged _ v => v.get key
  | _ => none

def actor : Yaml F → Option Text
  | .string actor => some (trim actor)
  | other => ((other.get (field "by")).bind asStr).map trim

end Yaml

def mapping (pairs : List (String × Text)) : Mapping F :=
  pairs.foldl (fun m p => OrderedMap.insert m (field p.1) (.string p.2)) []

/-- A note counts when something is left of it after trimming. -/
def noteOf (note : Option Text) : Option Text := (note.map trim).filter fun n => n ≠ []

def withNote (m : Mapping F) (note : Option Text) : Mapping F :=
  match noteOf note with
  | some n => OrderedMap.insert m (field "note") (.string n)
  | none => m

def event (actor time : Text) (note : Option Text) : Yaml F :=
  .mapping (withNote (mapping [("by", actor), ("at", time)]) note)

@[ext]
structure Document (F : Type) where
  frontmatter : Mapping F
  body : Text

namespace Document

def get (d : Document F) (key : Key) : Option (Yaml F) := OrderedMap.get d.frontmatter key

def text (d : Document F) (key : Key) : Option Text := (d.get key).bind Yaml.asStr

def set (d : Document F) (key : Key) (value : Yaml F) : Document F :=
  { d with frontmatter := OrderedMap.insert d.frontmatter key value }

@[simp]
theorem get_set_self (d : Document F) (k : Key) (v : Yaml F) : (d.set k v).get k = some v :=
  OrderedMap.get_insert_self ..

variable {k j : Key}

theorem get_set_of_ne (d : Document F) (v : Yaml F) (h : j ≠ k) :
    (d.set k v).get j = d.get j :=
  OrderedMap.get_insert_of_ne _ v h

def itemsOf (value : Option (Yaml F)) : List (Yaml F) := (value.bind Yaml.asSequence).getD []

/-- A value under the key that is no sequence is replaced by one. -/
def listMut (d : Document F) (key : Key) (change : List (Yaml F) → List (Yaml F)) : Document F :=
  let items := change (itemsOf (d.get key))
  d.set key <|
    match d.get key with
    | some v => if v.asSequence.isSome then v.setSequence items else .sequence items
    | none => .sequence items

theorem get_listMut_of_ne (d : Document F) (change : List (Yaml F) → List (Yaml F)) (h : j ≠ k) :
    (d.listMut k change).get j = d.get j :=
  get_set_of_ne _ _ h

def stampOrigin (d : Document F) (actor time : Text) : Document F :=
  let d := if (d.get (field "generated")).isSome then d
    else d.set (field "generated") (event actor time none)
  if (d.get (field "author")).isSome then d else d.set (field "author") (.string actor)

def activateDraft (d : Document F) : Document F :=
  if (d.text (field "status")).all (· = "draft".toList) then d.set (field "status") (Yaml.str "active")
  else d

theorem get_activateDraft_of_ne (d : Document F) (h : k ≠ field "status") :
    d.activateDraft.get k = d.get k := by
  rw [activateDraft]
  split
  · exact get_set_of_ne _ _ h
  · rfl

def recordVerification (d : Document F) (actor time : Text) (note : Option Text) : Document F :=
  (d.listMut (field "verified") (· ++ [event actor time note])).activateDraft

def sendBack (d : Document F) (actor time : Text) (note : Option Text) : Document F :=
  let review := withNote
    (mapping [("by", actor), ("at", time), ("outcome", "sent-back")]) note
  (d.set (field "status") (Yaml.str "draft")).listMut (field "reviews") (· ++ [.mapping review])

def entryOf : Yaml F → Mapping F
  | .mapping m => m
  | other => mapping [("event", other.asStr.getD [])]

def setAside (actor time reason : Text) (item : Yaml F) : Yaml F :=
  .mapping <| [("superseded_by", actor), ("superseded_at", time), ("reason", reason)].foldl
    (fun m p => OrderedMap.insert m (field p.1) (.string p.2)) (entryOf item)

/-- The events a `verified` value holds, whatever shape it takes. -/
def eventsOf : Option (Yaml F) → List (Yaml F)
  | none => []
  | some .null => []
  | some (.sequence events) => events
  | some one => [one]

def quarantineVerifications (d : Document F) (actor time reason : Text) : Document F × Nat :=
  let previous := eventsOf (d.get (field "verified"))
  let d := { d with frontmatter := OrderedMap.remove d.frontmatter (field "verified") }
  (d.listMut (field "superseded_verifications") (· ++ previous.map (setAside actor time reason)),
    previous.length)

@[simp]
theorem get_quarantine_verified (d : Document F) (actor time reason : Text) :
    (d.quarantineVerifications actor time reason).1.get (field "verified") = none := by
  rw [quarantineVerifications, get_listMut_of_ne _ _ (by decide)]
  exact OrderedMap.get_remove_self ..

variable {key : Key}

theorem get_quarantine_of_ne (d : Document F) (actor time reason : Text) (hv : key ≠ field "verified")
    (hs : key ≠ field "superseded_verifications") :
    (d.quarantineVerifications actor time reason).1.get key = d.get key := by
  rw [quarantineVerifications, get_listMut_of_ne _ _ hs]
  exact OrderedMap.get_remove_of_ne _ hv

/-- The events of the stored list that are not among the items yet, pushed one by one. -/
def inheritItems (eq : Yaml F → Yaml F → Bool) (mine previous : List (Yaml F)) : List (Yaml F) :=
  previous.foldl (fun mine event =>
    if mine.any (fun item => eq item event) then mine else mine ++ [event]) mine

def inheritKey (eq : Yaml F → Yaml F → Bool) (stored d : Document F) (key : Key) : Document F :=
  match stored.get key with
  | some (.sequence previous) => d.listMut key fun mine => inheritItems eq mine previous
  | _ => d

def inheritVerifications (eq : Yaml F → Yaml F → Bool) (d stored : Document F) : Document F :=
  [field "verified", field "superseded_verifications"].foldl (inheritKey eq stored) d

theorem get_inheritKey_of_ne (eq : Yaml F → Yaml F → Bool) (stored d : Document F) (h : j ≠ k) :
    (inheritKey eq stored d k).get j = d.get j := by
  rw [inheritKey]
  split
  · exact get_listMut_of_ne _ _ h
  · rfl

theorem get_inherit_of_ne (eq : Yaml F → Yaml F → Bool) (d stored : Document F)
    (hv : key ≠ field "verified") (hs : key ≠ field "superseded_verifications") :
    (d.inheritVerifications eq stored).get key = d.get key := by
  simp only [inheritVerifications, List.foldl_cons, List.foldl_nil, get_inheritKey_of_ne _ _ _ hs,
    get_inheritKey_of_ne _ _ _ hv]

/-- `stored` is none when the version in the catalog cannot be parsed. -/
def inheriting (eq : Yaml F → Yaml F → Bool) (d : Document F) (stored : Option (Document F)) :
    Document F :=
  match stored with
  | some stored => d.inheritVerifications eq stored
  | none => d

theorem get_inheriting_of_ne (eq : Yaml F → Yaml F → Bool) (d : Document F)
    (stored : Option (Document F))
    (hv : key ≠ field "verified") (hs : key ≠ field "superseded_verifications") :
    (d.inheriting eq stored).get key = d.get key := by
  cases stored with
  | none => rfl
  | some stored => exact get_inherit_of_ne eq d stored hv hs

def actorOf (d : Document F) (key : Key) : Option Text := (d.get key).bind Yaml.actor

def human : Text := "human:"

/-- A person someone else claims to speak for: named by the field, not the actor, who is no person. -/
def claimsPerson (d : Document F) (actor : Text) (key : Key) : Option Text :=
  (d.actorOf key).filter fun claimed =>
    human.isPrefixOf claimed && decide (claimed ≠ actor) && !human.isPrefixOf actor

def attributionRefusal (key claimed actor : Text) : Text :=
  "this document is declared " ++ key ++ " by " ++ claimed ++ ", and " ++ actor
    ++ " is not a person; a contribution may name the pipeline or agent that produced it, "
    ++ "never a person who did not"

def checkAttribution (d : Document F) (actor : Text) (key : String) : Except Text Unit :=
  match d.claimsPerson actor (field key) with
  | some claimed => .error (attributionRefusal key.toList claimed actor)
  | none => .ok ()

def contributeNew (d : Document F) (actor time : Text) : Except Text (Document F × Nat) := do
  d.checkAttribution actor "generated"
  d.checkAttribution actor "author"
  pure ((d.stampOrigin actor time).quarantineVerifications actor time "uploaded")

def contributeEdit (eq : Yaml F → Yaml F → Bool) (d : Document F) (actor time : Text)
    (stored : Option (Document F)) : Document F × Nat :=
  let r := (d.inheriting eq stored).quarantineVerifications actor time "edited"
  (r.1.set (field "generated") (event actor time none), r.2)

end Document

end Pgokf.Documents
