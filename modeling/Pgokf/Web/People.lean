import Pgokf.Lib.OrderedMap
import Pgokf.Lib.Transaction
import Pgokf.Sync.Package
import Pgokf.Web.Identity

/-! # The people of the catalog (`user_store.rs`)

A name belongs to exactly one way in: a password, or one identity provider. -/

namespace Pgokf.Web.Auth

open Lib

structure UserRecord where
  role : Role
  -- None for a person an identity provider signed in.
  hash : Option Text
  display : Option Text
  -- The slug of the provider that brought them, none for a person with a password.
  provider : Option Text
  deriving DecidableEq

abbrev People := OrderedMap Text UserRecord

namespace People

def record (people : People) (name : Text) : Option UserRecord := OrderedMap.get people name

def matched (people : People) (p : Text → UserRecord → Bool) : Bool := people.any fun e => p e.1 e.2

def notAUser (name : Text) : Text := name ++ " is not a user"

def noPasswordHere (name : Text) : Text :=
  name ++ (" signs in through an identity provider and has no password here; to give them one, " ++
    "remove them and add them again").toList

/-- `INSERT … ON CONFLICT (name) DO NOTHING`, with whether a row was written. -/
def provision (people : People) (name : Text) (role : Role) (display : Option Text) (provider : Text) :
    People × Bool :=
  match people.record name with
  | some _ => (people, false)
  | none => (OrderedMap.insert people name ⟨role, none, display, some provider⟩, true)

def refreshDisplay (people : People) (name provider : Text) (display : Option Text) : People :=
  OrderedMap.updateWhere people
    (fun n r => n == name && r.provider == some provider && r.display != display)
    fun r => { r with display }

def demotePeopleOf (people : People) (provider : Text) : People :=
  OrderedMap.updateWhere people (fun _ r => r.provider == some provider && r.role != .viewer)
    fun r => { r with role := .viewer }

def insert (people : People) (name : Text) (role : Role) (hash : Text) (display : Option Text) :
    Except Text People :=
  match people.record name with
  | some _ => .error (name ++ " already exists")
  | none => .ok (OrderedMap.insert people name ⟨role, some hash, display, none⟩)

def setRole (people : People) (name : Text) (role : Role) : Except Text People := do
  ensure (people.matched fun n _ => n == name) (notAUser name)
  return OrderedMap.updateWhere people (fun n _ => n == name) fun r => { r with role }

/-- Only a person with a password gets a new one. -/
def setHash (people : People) (name hash : Text) : Except Text People := do
  ensure (people.matched fun n r => n == name && r.hash.isSome)
    (if (people.record name).isSome then noPasswordHere name else notAUser name)
  return OrderedMap.updateWhere people (fun n r => n == name && r.hash.isSome)
    fun r => { r with hash := some hash }

/-- The last person cannot be removed. -/
def remove (people : People) (name : Text) : Except Text People := do
  ensure ((people.record name).isSome && decide (1 < people.length))
    (if (people.record name).isSome then "the last user cannot be removed" else notAUser name)
  return OrderedMap.remove people name

end People

/-- Exactly one of a password hash and an owning provider: the table's `users_sign_in_check`. -/
def UserRecord.OneWayIn (r : UserRecord) : Prop := r.hash.isSome ≠ r.provider.isSome

def People.OneWayIn (people : People) : Prop := ∀ e ∈ people, e.2.OneWayIn

namespace People

variable {people people' : People} {name provider hash : Text} {role : Role} {display : Option Text}

theorem OneWayIn.updateWhere {p : Text → UserRecord → Bool} {f : UserRecord → UserRecord}
    (h : people.OneWayIn) (hf : ∀ n r, p n r = true → r.OneWayIn → (f r).OneWayIn) :
    People.OneWayIn (OrderedMap.updateWhere people p f) := by
  intro e he
  rcases OrderedMap.mem_updateWhere.mp he with ⟨he, -⟩ | ⟨r, hr, hp, heq⟩
  · exact h e he
  · rw [heq]
    exact hf e.1 r hp (h _ hr)

theorem OneWayIn.insert {r : UserRecord} (h : people.OneWayIn) (hr : r.OneWayIn) :
    People.OneWayIn (OrderedMap.insert people name r) := by
  intro e he
  rcases OrderedMap.mem_insert he with rfl | he
  · exact hr
  · exact h e he

theorem OneWayIn.provision (h : people.OneWayIn) :
    (people.provision name role display provider).1.OneWayIn := by
  rw [People.provision]
  split
  · exact h
  · exact h.insert (by simp [UserRecord.OneWayIn])

theorem OneWayIn.refreshDisplay (h : people.OneWayIn) :
    (people.refreshDisplay name provider display).OneWayIn :=
  h.updateWhere fun _ _ _ hr => hr

theorem OneWayIn.demotePeopleOf (h : people.OneWayIn) : (people.demotePeopleOf provider).OneWayIn :=
  h.updateWhere fun _ _ _ hr => hr

theorem OneWayIn.inserted (h : people.OneWayIn)
    (hi : people.insert name role hash display = .ok people') :
    people'.OneWayIn := by
  rw [People.insert.eq_def] at hi
  split at hi
  · cases hi
  · obtain rfl := Except.ok.inj hi
    exact h.insert (by simp [UserRecord.OneWayIn])

theorem OneWayIn.setRole (h : people.OneWayIn) (hs : people.setRole name role = .ok people') :
    people'.OneWayIn := by
  obtain ⟨_, -, hs⟩ := bind_eq_ok.mp hs
  obtain rfl := pure_eq_ok.mp hs
  exact h.updateWhere fun _ _ _ hr => hr

theorem OneWayIn.setHash (h : people.OneWayIn) (hs : people.setHash name hash = .ok people') :
    people'.OneWayIn := by
  obtain ⟨_, -, hs⟩ := bind_eq_ok.mp hs
  obtain rfl := pure_eq_ok.mp hs
  refine h.updateWhere fun n r hp hr => ?_
  have hhash : r.hash.isSome = true := (Bool.and_eq_true_iff.mp hp).2
  simpa [UserRecord.OneWayIn, hhash] using hr

theorem OneWayIn.remove (h : people.OneWayIn) (hr : people.remove name = .ok people') :
    people'.OneWayIn := by
  obtain ⟨_, -, hr⟩ := bind_eq_ok.mp hr
  obtain rfl := pure_eq_ok.mp hr
  exact fun e he => h e (List.mem_of_mem_filter he)

end People

end Pgokf.Web.Auth
