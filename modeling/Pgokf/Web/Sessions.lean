import Mathlib.Algebra.GroupWithZero.Nat
import Pgokf.Lib.Transaction
import Pgokf.Web.Identity

/-! # Sessions of the web interface (`auth.rs`, `session_store.rs`)

The cookie this site signs says whose session it is, the row it keeps that it has not been ended. -/

namespace Pgokf.Web.Auth

open Lib

inductive Mode where
  | none
  | header
  | users
  | oidc
  deriving DecidableEq

namespace Mode

def id : Mode → Text
  | none => "none"
  | header => "header"
  | users => "users"
  | oidc => "oidc"

def parse (text : Text) : Option Mode := [none, header, users, oidc].find? fun mode => mode.id == text

end Mode

structure SessionClaims where
  subject : Text
  expires : Nat
  nonce : Text
  binding : Text
  display : Option Text
  groups : List Text
  provider : Option Text
  mode : Text
  deriving DecidableEq

/-- One sign-in in progress, carried in a cookie while the person is away at the provider. -/
structure Flow where
  provider : Option Text
  state : Text
  nonce : Text
  verifier : Text
  next : Text
  expires : Nat
  deriving DecidableEq

/-- What this site seals under its one key. -/
inductive Token where
  | session (claims : SessionClaims)
  | flow (flow : Flow)
  deriving DecidableEq

/- The JSON of a sign-in in progress uses the letters of a session's fields, so it parses as one. It
names no mode. -/
def Token.claims : Token → SessionClaims
  | session claims => claims
  | flow f => ⟨f.state, f.expires, f.nonce, f.provider.getD [], none, [], none, []⟩

theorem Token.eq_session {t : Token} {mode : Mode} (h : t.claims.mode = mode.id) :
    t = .session t.claims := by
  cases t with
  | session claims => rfl
  | flow f => cases mode <;> cases h

structure SessionRow where
  nonce : Text
  subject : Text
  mode : Text
  provider : Option Text
  expires : Nat
  deriving DecidableEq

abbrev SessionTable := List SessionRow

/- The catalog's clock reads microseconds, an expiry is in seconds. -/
def SessionRow.expiresAt (row : SessionRow) : Nat := row.expires * 1000000

namespace SessionTable

def isLive (table : SessionTable) (nonce subject mode : Text) (now : Nat) : Bool :=
  table.any fun row => row.nonce == nonce && row.subject == subject && row.mode == mode &&
    decide (now < row.expiresAt)

/-- Records a session, with the expired ones pruned on the way. -/
def add (table : SessionTable) (row : SessionRow) (now : Nat) : Except Text SessionTable := do
  ensure (decide (row.expires < 2 ^ 63)) "a session expiry past i64"
  let live := table.filter fun other => !decide (other.expiresAt < now)
  ensure (!live.any fun other => other.nonce == row.nonce) "recording a session"
  return live ++ [row]

def remove (table : SessionTable) (nonce : Text) : SessionTable :=
  table.filter fun row => row.nonce != nonce

def removeAllFor (table : SessionTable) (subject : Text) : SessionTable :=
  table.filter fun row => row.subject != subject

def removeProvider (table : SessionTable) (provider : Text) : SessionTable :=
  table.filter fun row => row.provider != some provider

variable {table table' : SessionTable} {row : SessionRow} {nonce subject mode : Text} {now : Nat}

theorem isLive_iff : table.isLive nonce subject mode now = true ↔
    ∃ row ∈ table, row.nonce = nonce ∧ row.subject = subject ∧ row.mode = mode ∧
      now < row.expiresAt := by
  simp [isLive, and_assoc]

theorem mem_of_add (h : table.add row now = .ok table') : ∀ r ∈ table', r = row ∨ r ∈ table := by
  obtain ⟨_, -, h⟩ := bind_eq_ok.mp h
  obtain ⟨_, -, h⟩ := bind_eq_ok.mp h
  obtain rfl := pure_eq_ok.mp h
  intro r hr
  rcases List.mem_append.mp hr with hr | hr
  · exact .inr (List.mem_of_mem_filter hr)
  · exact .inl (List.mem_singleton.mp hr)

end SessionTable

/-- The session signer: how long a session lasts, and what a sealed text holds when its tag is this
site's. -/
structure Sessions where
  seconds : Nat
  opened : Text → Option Token

/-- What one request reads off the clocks: the site's twice, then the catalog's. -/
structure Moment where
  presented : Nat
  read : Nat
  catalog : Nat

namespace Sessions

variable (sessions : Sessions)

def presentedClaims (cookie : Option Text) (now : Nat) : Option SessionClaims :=
  ((cookie.bind sessions.opened).map Token.claims).filter fun claims => decide (now < claims.expires)

def presentedMode (cookie : Option Text) (now : Nat) : Option Mode :=
  (sessions.presentedClaims cookie now).bind fun claims => Mode.parse claims.mode

def openClaims (cookie : Option Text) (mode : Mode) (now : Nat) : Option SessionClaims :=
  ((cookie.bind sessions.opened).map Token.claims).filter fun claims =>
    decide (now < claims.expires) && claims.mode == mode.id

def readSession (table : SessionTable) (cookie : Option Text) (mode : Mode) (m : Moment) :
    Option SessionClaims :=
  (sessions.openClaims cookie mode m.read).filter fun claims =>
    table.isLive claims.nonce claims.subject mode.id m.catalog

variable {sessions} {table : SessionTable} {cookie : Option Text} {mode : Mode} {m : Moment} {now : Nat}
  {claims : SessionClaims}

theorem openClaims_eq_some (h : sessions.openClaims cookie mode now = some claims) :
    cookie.bind sessions.opened = some (.session claims) ∧ now < claims.expires ∧
      claims.mode = mode.id := by
  obtain ⟨hclaims, hcheck⟩ := Option.filter_eq_some_iff.mp h
  obtain ⟨t, ht, rfl⟩ := Option.map_eq_some_iff.mp hclaims
  obtain ⟨hexpires, hmode⟩ := Bool.and_eq_true_iff.mp hcheck
  have hmode := beq_iff_eq.mp hmode
  exact ⟨ht.trans (congrArg some (Token.eq_session hmode)), of_decide_eq_true hexpires, hmode⟩

theorem readSession_eq_some (h : sessions.readSession table cookie mode m = some claims) :
    cookie.bind sessions.opened = some (.session claims) ∧ m.read < claims.expires ∧
      claims.mode = mode.id ∧ table.isLive claims.nonce claims.subject mode.id m.catalog = true := by
  obtain ⟨hopen, hlive⟩ := Option.filter_eq_some_iff.mp h
  obtain ⟨htoken, hexpires, hmode⟩ := openClaims_eq_some hopen
  exact ⟨htoken, hexpires, hmode, hlive⟩

end Sessions

end Pgokf.Web.Auth
