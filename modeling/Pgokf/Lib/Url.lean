import Mathlib.Data.List.DropRight
import Pgokf.Lib.Path

/-! # Addresses as a browser reads them

The URL parser of the web, as far as the scheme, the host and the port. White space and control
characters are taken off the ends and tabs and newlines out of the text; a backslash is a slash
where the scheme is special, and more slashes than two make no difference. -/

namespace Pgokf.Lib.Url

variable {H : Type}

def isControlOrSpace (c : Char) : Bool := c.toNat ≤ 0x20

def isTabOrNewline (c : Char) : Bool := c ∈ ['\t', '\n', '\r']

def stripEnds (t : List Char) : List Char := (t.dropWhile isControlOrSpace).rdropWhile isControlOrSpace

def normalize (t : List Char) : List Char := (stripEnds t).filter fun c => !isTabOrNewline c

def isSlash (c : Char) : Bool := c = '/' ∨ c = '\\'

def endsAuthority (c : Char) : Bool := c ∈ ['/', '\\', '?', '#']

/-- How the text of a host is read: an address between brackets, and anything else. -/
structure HostReader (H : Type) where
  ipv6 : List Char → Option H
  domain : List Char → Option H

def HostReader.read (reader : HostReader H) (t : List Char) : Option H :=
  match t with
  | '[' :: rest => if rest.getLast? = some ']' then reader.ipv6 rest.dropLast else none
  | _ => reader.domain t

/-- The first colon that is not between brackets separates the port. -/
def splitPort : Bool → List Char → List Char × Option (List Char)
  | _, [] => ([], none)
  | inside, c :: rest =>
    if c = ':' ∧ inside = false then ([], some rest)
    else
      let (host, port) := splitPort (if c = '[' then true else if c = ']' then false else inside) rest
      (c :: host, port)

def readPort (t : List Char) : Option (Option Nat) :=
  if t.all Char.isDigit then
    if t = [] then some none
    else if Nat.ofDigitChars 10 t 0 ≤ 65535 then some (some (Nat.ofDigitChars 10 t 0)) else none
  else none

def afterUserInfo (authority : List Char) : List Char :=
  match rsplitOnce '@' authority with
  | some (_, rest) => rest
  | none => authority

def readHostPort (reader : HostReader H) (t : List Char) : Option (H × Option Nat) :=
  let (host, port) := splitPort false t
  if host = [] then none
  else do
    let host ← reader.read host
    match port with
    | some text => do
      let port ← readPort text
      pure (host, port)
    | none => pure (host, none)

def readAuthority (reader : HostReader H) (authority : List Char) : Option (H × Option Nat) :=
  readHostPort reader (afterUserInfo authority)

/-- The special schemes that have a host, with their default ports. -/
def defaultPort : List (List Char × Nat) :=
  [("http".toList, 80), ("https".toList, 443), ("ws".toList, 80), ("wss".toList, 443),
    ("ftp".toList, 21)]

structure Address (H : Type) where
  scheme : List Char
  host : H
  port : Option Nat
  deriving DecidableEq

inductive Reading (H : Type) where
  | failure
  -- An address of another scheme, which has no host or one of another kind.
  | other (scheme : List Char)
  | url (u : Address H)
  deriving DecidableEq

def isSchemeChar (c : Char) : Bool := c.isAlphanum || c ∈ ['+', '-', '.']

def splitScheme (t : List Char) : Option (List Char × List Char) :=
  match t with
  | c :: _ =>
    if c.isAlpha then
      match t.dropWhile isSchemeChar with
      | ':' :: rest => some ((t.takeWhile isSchemeChar).map Char.toLower, rest)
      | _ => none
    else none
  | [] => none

/-- Behind the slashes the authority reaches to the next slash, question mark or hash sign. -/
def authorityOf (t : List Char) : List Char := (t.dropWhile isSlash).takeWhile fun c => !endsAuthority c

def readFromAuthority (reader : HostReader H) (scheme t : List Char) : Reading H :=
  match readAuthority reader (authorityOf t) with
  | some (host, port) => .url ⟨scheme, host, if port = defaultPort.lookup scheme then none else port⟩
  | none => .failure

def startsWithTwoSlashes (t : List Char) : Bool :=
  match t with
  | a :: b :: _ => isSlash a && isSlash b
  | _ => false

/-- A text without a scheme on a page of a special scheme. -/
def resolve (reader : HostReader H) (base : Address H) (t : List Char) : Reading H :=
  if startsWithTwoSlashes t then readFromAuthority reader base.scheme t else .url base

def parse (reader : HostReader H) (base : Option (Address H)) (input : List Char) : Reading H :=
  let t := normalize input
  match splitScheme t with
  | some (scheme, rest) =>
    if (defaultPort.lookup scheme).isSome then
      match base with
      | some page =>
        if page.scheme = scheme ∧ ¬"//".toList <+: rest then resolve reader page rest
        else readFromAuthority reader scheme rest
      | none => readFromAuthority reader scheme rest
    else .other scheme
  | none =>
    match base with
    | some page => resolve reader page t
    | none => .failure

section NoColon

variable {t : List Char}

variable {c : Char}

theorem mem_of_mem_normalize (h : c ∈ normalize t) : c ∈ t := by
  have hstripped := (List.mem_filter.mp h).1
  exact (List.dropWhile_sublist _).subset ((List.rdropWhile_prefix _ _).subset hstripped)

theorem splitScheme_none (h : ':' ∉ t) : splitScheme t = none := by
  cases t with
  | nil => rfl
  | cons c rest =>
    simp only [splitScheme]
    split
    · split
      next hdrop =>
        have hmem : ':' ∈ (c :: rest).dropWhile isSchemeChar := by rw [hdrop]; exact List.mem_cons_self
        exact absurd ((List.dropWhile_sublist _).subset hmem) h
      next => rfl
    · rfl

theorem splitPort_none (h : ':' ∉ t) (inside : Bool) : splitPort inside t = (t, none) := by
  induction t generalizing inside with
  | nil => rfl
  | cons c rest ih =>
    rw [List.mem_cons, not_or] at h
    rw [splitPort, if_neg fun hcolon => h.1 hcolon.1.symm, ih h.2]

theorem parse_of_no_colon (reader : HostReader H) (page : Address H) (h : ':' ∉ t) :
    parse reader (some page) t = resolve reader page (normalize t) := by
  rw [parse]
  simp only [splitScheme_none fun hmem => h (mem_of_mem_normalize hmem)]

theorem mem_authorityOf (h : c ∈ authorityOf t) : c ∈ t ∧ endsAuthority c = false := by
  refine ⟨(List.dropWhile_sublist _).subset ((List.takeWhile_prefix _).subset h), ?_⟩
  simpa using List.mem_takeWhile_imp h

theorem mem_afterUserInfo (h : c ∈ afterUserInfo t) : c ∈ t := by
  rw [afterUserInfo] at h
  split at h
  next before rest hsplit =>
    obtain ⟨rfl, -⟩ := rsplitOnce_some.mp hsplit
    simp [h]
  next => exact h

theorem readAuthority_of_no_colon (reader : HostReader H) (h : ':' ∉ t) (host : H) (port : Option Nat) :
    readAuthority reader t = some (host, port) ↔
      afterUserInfo t ≠ [] ∧ reader.read (afterUserInfo t) = some host ∧ port = none := by
  rw [readAuthority, readHostPort, splitPort_none fun hmem => h (mem_afterUserInfo hmem)]
  by_cases hempty : afterUserInfo t = []
  · simp [hempty]
  · cases hread : reader.read (afterUserInfo t) with
    | none => simp [hempty, hread]
    | some found => simp [hempty, hread, eq_comm]

end NoColon

end Pgokf.Lib.Url
