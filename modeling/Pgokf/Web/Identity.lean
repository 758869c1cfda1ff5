import Pgokf.Text

/-! # Who is asking (`auth.rs`): roles, modes and principals of the web interface -/

namespace Pgokf.Web

/-- What a person may do, as a ladder: each role holds every role below it. -/
inductive Role where
  | viewer
  | uploader
  | editor
  | approver
  | admin
  deriving DecidableEq

namespace Role

def rung : Role → Nat
  | viewer => 0
  | uploader => 1
  | editor => 2
  | approver => 3
  | admin => 4

def id : Role → Text
  | viewer => "viewer"
  | uploader => "uploader"
  | editor => "editor"
  | approver => "approver"
  | admin => "admin"

def allows (role required : Role) : Bool := required.rung ≤ role.rung

def max (r s : Role) : Role := if r.rung ≤ s.rung then s else r

end Role

structure Principal where
  subject : Text
  display : Text
  role : Role
  deriving DecidableEq

def subjectMax : Nat := 128

/- Only ASCII characters pass, so the length in bytes the source bounds is the number of characters. -/
def validSubject (subject : Text) : Bool :=
  !subject.isEmpty && subject.length ≤ subjectMax &&
    subject.all fun c => c.isAlphanum || ['.', '_', '-', '@', '+'].contains c

/-- Group names mapped to roles, with the role of a person in no mapped group. -/
structure RoleMapping where
  map : List (Text × Role)
  defaultRole : Role
  deriving DecidableEq

namespace RoleMapping

def knownGroups (m : RoleMapping) (groups : List Text) : List Text :=
  groups.filter fun group => m.map.any fun e => e.1 == group

def roleFor (m : RoleMapping) (groups : List Text) : Role :=
  match (m.map.filter fun e => groups.any (· == e.1)).map Prod.snd with
  | [] => m.defaultRole
  | role :: rest => rest.foldl Role.max role

end RoleMapping

end Pgokf.Web
