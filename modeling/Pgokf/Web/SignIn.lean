import Pgokf.Catalog.RelationshipRows
import Pgokf.Web.People
import Pgokf.Web.Sessions

/-! # Signing in and being recognized (`auth.rs`, `oidc.rs`, `routes.rs`)

The identity state of the catalog, the calls that change it, and the person a request's cookie
names. -/

namespace Pgokf.Web.Auth

open Lib
open Catalog (debugText)

inductive ProviderKind where
  | oidc
  | gitHub
  deriving DecidableEq

def ProviderKind.id : ProviderKind → Text
  | oidc => "oidc"
  | gitHub => "github"

structure ProviderSettings where
  id : Text
  enabled : Bool
  kind : ProviderKind
  issuer : Text
  clientId : Text
  deriving DecidableEq

def changedProvider (before settings : ProviderSettings) : Bool :=
  before.kind != settings.kind ||
    trimEndMatches (· == '/') before.issuer != trimEndMatches (· == '/') settings.issuer ||
    before.clientId != settings.clientId

structure OidcAuth where
  id : Option Text
  kind : ProviderKind
  issuer : Text
  clientId : Text
  roles : RoleMapping

/-- The session signer, and the digests and the password check of the libraries. -/
structure Env where
  sessions : Sessions
  fingerprint : Text → Text
  digest : Text → Text
  verifies : Text → Text → Bool

variable (env : Env)

def OidcAuth.binding (o : OidcAuth) : Text :=
  env.digest (o.id.getD [] ++ '\n' :: o.kind.id ++ '\n' :: trimEndMatches (· == '/') o.issuer ++
    '\n' :: o.clientId)

structure State where
  people : People
  sessions : SessionTable
  settings : OrderedMap Text ProviderSettings

def State.empty : State := ⟨[], [], []⟩

inductive Opening where
  | password (subject hash : Text)
  | provider (person : Principal) (groups : List Text) (provider : OidcAuth)

def Opening.claims (nonce : Text) (now : Nat) : Opening → SessionClaims
  | password subject hash =>
    ⟨subject, now + env.sessions.seconds, nonce, env.fingerprint hash, none, [], none, Mode.users.id⟩
  | provider person groups o =>
    ⟨person.subject, now + env.sessions.seconds, nonce, o.binding env, some person.display, groups, o.id,
      Mode.oidc.id⟩

def SessionClaims.row (c : SessionClaims) : SessionRow :=
  ⟨c.nonce, c.subject, c.mode, c.provider, c.expires⟩

namespace State

/-- A session is recorded before its cookie is handed out. -/
def openSession (s : State) (opening : Opening) (nonce : Text) (now catalogNow : Nat) :
    Except Text State := do
  let sessions ← s.sessions.add (opening.claims env nonce now).row catalogNow
  return { s with sessions }

def endAllSessionsOf (s : State) (subject : Text) : State :=
  { s with sessions := s.sessions.removeAllFor subject }

/-- Signing out ends the session a cookie presents by the cookie's own claims. -/
def endSessionFrom (s : State) (cookie : Option Text) (mode : Mode) (now : Nat) : State :=
  match env.sessions.openClaims cookie mode now with
  | some claims => { s with sessions := s.sessions.remove claims.nonce }
  | none => s

def logout (s : State) (cookie : Option Text) (now now' : Nat) : State :=
  s.endSessionFrom env cookie ((env.sessions.presentedMode cookie now).getD .users) now'

def displayMax : Nat := 256

def passwordMin : Nat := 12

def validatedDisplay (display : Option Text) : Except Text (Option Text) :=
  match (display.map trim).filter fun d => !d.isEmpty with
  | none => .ok none
  | some d => do
    ensure (!d.any isControl) "a name holds no control characters"
    ensure (decide (d.length ≤ displayMax)) "a name is at most 256 characters"
    return some d

def validatedPassword (password : Text) : Except Text Unit :=
  ensure (decide (passwordMin ≤ password.length)) "a password needs at least 12 characters"

/- The salt of a stored hash is random, so the hash a call stores is given beside the password. -/
def addUser (s : State) (name : Text) (role : Role) (display : Option Text) (password hash : Text) :
    Except Text State := do
  ensure (validSubject (trim name))
    (debugText (trim name) ++ " is not a valid user name (letters, digits, . _ - @ +)").toList
  let display ← validatedDisplay display
  validatedPassword password
  let people ← s.people.insert (trim name) role hash display
  return { s with people }

def setRole (s : State) (name : Text) (role : Role) : Except Text State := do
  let people ← s.people.setRole name role
  return { s with people }

def setPassword (s : State) (name password hash : Text) : Except Text State := do
  validatedPassword password
  let people ← s.people.setHash name hash
  return { s with people }.endAllSessionsOf name

def removeUser (s : State) (name : Text) : Except Text State := do
  let people ← s.people.remove name
  return { s with people }.endAllSessionsOf name

def maxNameLen : Nat := 256

/- A name without a row and one without a password cost a verification of their own, and name
nobody. -/
def verify (s : State) (name password : Text) (throttled : Bool) : Option Principal :=
  if maxNameLen < Sync.utf8Len (trim name) || throttled then none
  else (s.people.record (trim name)).bind fun record =>
    record.hash.bind fun hash =>
      if env.verifies hash password then
        some ⟨trim name, record.display.getD (trim name), record.role⟩
      else none

/-- The session is bound to the hash stored now. -/
def issueCookie (s : State) (person : Principal) (nonce : Text) (now catalogNow : Nat) :
    Except Text State := do
  let record ← orRefuse (s.people.record person.subject)
    (person.subject ++ " is no longer a user")
  let hash ← orRefuse record.hash
    (person.subject ++ " has no password here: they sign in through the identity provider")
  s.openSession env (.password person.subject hash) nonce now catalogNow

def loginSubmit (s : State) (name password : Text) (throttled : Bool) (nonce : Text)
    (now catalogNow : Nat) : Except Text State := do
  let person ← orRefuse (s.verify env name password throttled)
    "Unknown user name or wrong password."
  s.issueCookie env person nonce now catalogNow

inductive Admission where
  | new
  | known
  | refused (why : Text)

def settle (s : State) (name : Text) (record : UserRecord) (provider : Text) (display : Option Text) :
    State × Admission :=
  match record.provider with
  | some own =>
    if own = provider then
      ({ s with people := s.people.refreshDisplay name provider display }, .known)
    else (s, .refused (("That account's name belongs to someone who signs in here through another " ++
      "identity provider (").toList ++ own ++ ")."))
  | none => (s, .refused "That account's name belongs to someone who signs in here with a password.")

def admittedDisplay (person : Principal) : Option Text :=
  if person.display.take displayMax = person.subject then none
  else some (person.display.take displayMax)

def admitPerson (s : State) (person : Principal) (provider : OidcAuth) :
    Except Text (State × Admission) := do
  let id ← orRefuse provider.id "only a provider set up on the Admin page admits people here"
  match s.people.record person.subject with
  | some record => return s.settle person.subject record id (admittedDisplay person)
  | none =>
    match s.people.provision person.subject .viewer (admittedDisplay person) id with
    | (people, true) => return ({ s with people }, .new)
    | (_, false) =>
      let record ← orRefuse (s.people.record person.subject)
        (person.subject ++ " could neither be found nor recorded")
      return s.settle person.subject record id (admittedDisplay person)

def authCallback (s : State) (person : Principal) (groups : List Text) (provider : OidcAuth)
    (nonce : Text) (now catalogNow : Nat) : Except Text State := do
  let admitted ← s.admitPerson person provider
  match admitted.2 with
  | .refused why => .error why
  | _ => admitted.1.openSession env (.provider person groups provider) nonce now catalogNow

def stored (s : State) (id : Text) : Option ProviderSettings := OrderedMap.get s.settings id

def saveSettings (s : State) (settings : ProviderSettings) (isNew : Bool) : Except Text State := do
  ensure (!(isNew && (s.stored settings.id).isSome))
    "another provider already has that name or handle; give this one a name of its own"
  return { s with settings := OrderedMap.insert s.settings settings.id settings }

def removeSettings (s : State) (id : Text) : State :=
  { s with settings := OrderedMap.remove s.settings id }

def endSessionsOpenedByProvider (s : State) (provider : Text) : State :=
  { s with sessions := s.sessions.removeProvider provider }

def demotePeopleOf (s : State) (provider : Text) : State :=
  { s with people := s.people.demotePeopleOf provider }

/-- Whether the settings are a registration of their own under the slug: a new one, or another one. -/
def registers (s : State) (settings : ProviderSettings) : Bool :=
  match s.stored settings.id with
  | none => true
  | some before => changedProvider before settings

def saveProvider (s : State) (settings : ProviderSettings) : Except Text State := do
  let before := s.stored settings.id
  let changed := before.any fun before => changedProvider before settings
  let saved ← s.saveSettings settings before.isNone
  let ended :=
    if !settings.enabled || changed then saved.endSessionsOpenedByProvider settings.id else saved
  return if before.isNone || changed then ended.demotePeopleOf settings.id else ended

/-- The people a provider brought keep their rows when it is removed. -/
def removeProvider (s : State) (id : Text) : Except Text State := do
  let _ ← orRefuse (s.stored id) "That identity provider"
  return (s.removeSettings id).endSessionsOpenedByProvider id

end State

end Pgokf.Web.Auth
