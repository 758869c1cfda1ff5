import Pgokf.ParseInt
import Pgokf.Sync.Classify

/-! # The client address (`pgokf-web`, `auth.rs`)

Behind a trusted proxy the address of the client is read from the `X-Forwarded-For` header, to which
each proxy appends. How an address is written is a parameter. -/

namespace Pgokf.Web

open Lib Sync

inductive IpAddr where
  | v4 (bits : BitVec 32)
  | v6 (bits : BitVec 128)
  deriving DecidableEq

def IpAddr.width : IpAddr → Nat
  | .v4 _ => 32
  | .v6 _ => 128

/-- `to_ipv4_mapped`: `::ffff:a.b.c.d`. -/
def toIpv4Mapped (bits : BitVec 128) : Option (BitVec 32) :=
  if bits >>> 32 = 0xffff#128 then some (bits.setWidth 32) else none

/-- `address/prefix`. -/
structure Cidr where
  addr : IpAddr
  prefixLength : Nat
  fits : prefixLength ≤ addr.width

variable (parseIp : Text → Option IpAddr)

/-- The first bits of the two agree; the mask of no bits is written out, as a shift by the width is
none. -/
def sameNetwork (a b : BitVec 128) (bits keep : Nat) : Bool :=
  let mask := if keep = 0 then 0#128 else BitVec.allOnes 128 <<< (bits - keep)
  a &&& mask == b &&& mask

def Cidr.contains (range : Cidr) (ip : IpAddr) : Bool :=
  match range.addr, ip with
  | .v4 a, .v4 b => sameNetwork (a.setWidth 128) (b.setWidth 128) 32 range.prefixLength
  | .v6 a, .v6 b => sameNetwork a b 128 range.prefixLength
  | .v4 a, .v6 b =>
    match toIpv4Mapped b with
    | some b => sameNetwork (a.setWidth 128) (b.setWidth 128) 32 range.prefixLength
    | none => false
  | .v6 _, .v4 _ => false

structure TrustedProxies where
  cidrs : List Cidr
  any : Bool

def TrustedProxies.trusts (proxies : TrustedProxies) (ip : IpAddr) : Bool :=
  proxies.any || proxies.cidrs.any (·.contains ip)

def isVisibleAscii (b : UInt8) : Bool := (32 ≤ b && b < 127) || b == 9

/-- `HeaderValue::to_str`. -/
def headerText (value : Bytes) : Option Text :=
  if value.all isVisibleAscii then some (value.map fun b => Char.ofNat b.toNat) else none

/-- The addresses of the header lines, from the left; what is no text and what is no address is
passed over. -/
def forwardedHops (lines : List Bytes) : List IpAddr :=
  ((lines.filterMap headerText).flatMap fun text => text.splitOn ',').filterMap fun hop =>
    parseIp (trim hop)

/-- `client_ip`: behind a trusted peer the rightmost address that is not trusted, else the first,
else the peer. -/
def TrustedProxies.clientIp (proxies : TrustedProxies) (lines : List Bytes) (peer : Option IpAddr) :
    Option IpAddr :=
  match peer with
  | none => none
  | some peer =>
    if !proxies.trusts peer then some peer
    else
      let forwarded := forwardedHops parseIp lines
      ((forwarded.reverse.find? fun ip => !proxies.trusts ip).or forwarded.head?).or (some peer)

/-! ### What a proxy appends -/

def comma : Bytes := [44, 32]

/-- The header as a proxy sends it on: the address on a line of its own, or behind what its line
held before. -/
def appendAddress (lines : List Bytes) (before : Option Bytes) (address : Bytes) : List Bytes :=
  lines ++ [before.elim address fun held => held ++ comma ++ address]

section Appended

variable {parseIp} {lines : List Bytes} {before : Option Bytes} {address : Bytes} {a : IpAddr}

structure Writes (parseIp : Text → Option IpAddr) (address : Bytes) (a : IpAddr) : Prop where
  visible : address.all isVisibleAscii = true
  single : 44 ∉ address
  parsed : parseIp (trim (address.map fun b => Char.ofNat b.toNat)) = some a

theorem forwardedHops_append (first second : List Bytes) :
    forwardedHops parseIp (first ++ second) = forwardedHops parseIp first ++
      forwardedHops parseIp second := by
  simp only [forwardedHops, List.filterMap_append, List.flatMap_append]

theorem forwardedHops_hidden {line : Bytes} (h : line.all isVisibleAscii = false) :
    forwardedHops parseIp [line] = [] := by
  simp [forwardedHops, headerText, h]

theorem trim_space (t : Text) : trim (' ' :: t) = trim t := by
  rw [trim, List.dropWhile_cons_of_pos (by decide), trim]

theorem comma_notMem (h : 44 ∉ address) : ',' ∉ address.map fun b => Char.ofNat b.toNat := by
  intro hmem
  obtain ⟨b, hb, hchar⟩ := List.mem_map.mp hmem
  have hvalid : b.toNat.isValidChar := .inl (lt_trans b.toNat_lt (by decide))
  have hcode : b.toNat = 44 := by
    have hsame : (Char.ofNat b.toNat).toNat = b.toNat := by
      rw [Char.ofNat, dif_pos hvalid]
      rfl
    rw [← hsame, hchar]
    rfl
  have hbyte : b = 44 := UInt8.toNat_inj.mp hcode
  exact h (hbyte ▸ hb)

theorem forwardedHops_address (h : Writes parseIp address a) :
    forwardedHops parseIp [address] = [a] := by
  have htext : headerText address = some (address.map fun b => Char.ofNat b.toNat) := if_pos h.visible
  simp only [forwardedHops, List.filterMap_cons, htext, List.filterMap_nil, List.flatMap_cons,
    List.flatMap_nil,
    List.append_nil, splitOn_of_notMem (comma_notMem h.single), h.parsed]

theorem forwardedHops_behind {held : Bytes} (h : Writes parseIp address a)
    (hheld : held.all isVisibleAscii = true) :
    forwardedHops parseIp [held ++ comma ++ address] = forwardedHops parseIp [held] ++ [a] := by
  have hline : (held ++ comma ++ address).all isVisibleAscii = true := by
    rw [List.all_append, List.all_append, hheld, h.visible]
    decide
  have htext : headerText (held ++ comma ++ address) = some ((held.map fun b => Char.ofNat b.toNat) ++
      ',' :: ' ' :: address.map fun b => Char.ofNat b.toNat) := by
    rw [headerText, if_pos hline, List.map_append, List.map_append, List.append_assoc]
    rfl
  have hspace : ',' ∉ ' ' :: address.map fun b => Char.ofNat b.toNat := by
    rw [List.mem_cons, not_or]
    exact ⟨by decide, comma_notMem h.single⟩
  have hheldText : headerText held = some (held.map fun b => Char.ofNat b.toNat) := if_pos hheld
  simp only [forwardedHops, List.filterMap_cons, htext, hheldText, List.filterMap_nil, List.flatMap_cons,
    List.flatMap_nil, List.append_nil, splitOn_append_sep, splitOn_of_notMem hspace,
      List.filterMap_append,
    trim_space, h.parsed]

variable {proxies : TrustedProxies}

theorem clientIp_trusted {peer : IpAddr} (h : proxies.trusts peer = true) (lines : List Bytes) :
    proxies.clientIp parseIp lines (some peer) =
      (((forwardedHops parseIp lines).reverse.find? fun ip => !proxies.trusts ip).or
        (forwardedHops parseIp lines).head?).or (some peer) := by
  simp only [TrustedProxies.clientIp, h]
  rfl

theorem find_untrusted_any (h : proxies.any = true) (hops : List IpAddr) :
    hops.find? (fun ip => !proxies.trusts ip) = none := by
  simp [List.find?_eq_none, TrustedProxies.trusts, h]

theorem hops_of_text (h : Writes parseIp address a)
    (hbefore : before.all (·.all isVisibleAscii) = true) :
    forwardedHops parseIp (appendAddress lines before address) =
      forwardedHops parseIp (lines ++ before.toList) ++ [a] := by
  rw [appendAddress, forwardedHops_append, forwardedHops_append]
  cases before with
  | none =>
    have hnil : forwardedHops parseIp [] = [] := rfl
    rw [Option.elim_none, forwardedHops_address h, Option.toList_none, hnil, List.append_nil]
  | some held =>
    rw [Option.elim_some, forwardedHops_behind h hbefore, List.append_assoc]
    rfl

theorem hops_of_hidden (hbefore : before.all (·.all isVisibleAscii) = false) :
    forwardedHops parseIp (appendAddress lines before address) = forwardedHops parseIp lines := by
  rw [appendAddress, forwardedHops_append]
  cases before with
  | none => cases hbefore
  | some held =>
    have hline : (held ++ comma ++ address).all isVisibleAscii = false := by
      have hheld : held.all isVisibleAscii = false := hbefore
      rw [List.all_append, List.all_append, hheld]
      rfl
    rw [Option.elim_some, forwardedHops_hidden hline, List.append_nil]

/-- The address a proxy appends is the one counted by, exactly if its line is text and, where every
peer is trusted, no other address stands first; on a line that is no text the rest of the header has
to give it. An untrusted peer counts as itself. -/
theorem client_ip_of_appended_iff (parseIp : Text → Option IpAddr) (proxies : TrustedProxies)
    (peer : IpAddr)
    (lines : List Bytes) (before : Option Bytes) (haddress : Writes parseIp address a)
    (hpeer : proxies.trusts peer = true) (houtside : ∀ range ∈ proxies.cidrs, range.contains a = false) :
    (proxies.clientIp parseIp (appendAddress lines before address) (some peer) = some a ↔
      if before.all (·.all isVisibleAscii) then
        proxies.any = true → ∀ hop ∈ (forwardedHops parseIp (lines ++ before.toList)).head?, hop = a
      else if proxies.any then (forwardedHops parseIp lines).head?.getD peer = a
      else (forwardedHops parseIp lines).reverse.find? (fun hop => !proxies.trusts hop) = some a) ∧
    ∀ other headers headers', proxies.trusts other = false →
      proxies.clientIp parseIp headers (some other) = proxies.clientIp parseIp headers'
        (some other) := by
  have htrusts : proxies.trusts a = proxies.any := by
    have hnone : proxies.cidrs.any (·.contains a) = false := by simpa using houtside
    rw [TrustedProxies.trusts, hnone, Bool.or_false]
  constructor
  · rw [clientIp_trusted hpeer]
    cases htext : before.all (·.all isVisibleAscii) with
    | true =>
      rw [hops_of_text haddress htext, if_pos rfl]
      cases hany : proxies.any with
      | true =>
        rw [find_untrusted_any hany]
        cases hhead : (forwardedHops parseIp (lines ++ before.toList)).head? <;> simp [hhead]
      | false => simp [htrusts, hany]
    | false =>
      rw [hops_of_hidden htext, if_neg Bool.false_ne_true]
      cases hany : proxies.any with
      | true =>
        rw [find_untrusted_any hany, if_pos rfl]
        cases (forwardedHops parseIp lines).head? <;> simp
      | false =>
        rw [if_neg Bool.false_ne_true]
        cases hfind : (forwardedHops parseIp lines).reverse.find? fun ip => !proxies.trusts ip with
        | some hop => simp
        | none =>
          -- Every address read is trusted, and so is the peer; the appended one is not.
          have hne : ∀ ip, proxies.trusts ip = true → ip ≠ a := by
            rintro ip hip rfl
            rw [htrusts, hany] at hip
            cases hip
          have hall : ∀ ip ∈ forwardedHops parseIp lines, proxies.trusts ip = true := by
            simpa [List.find?_eq_none] using hfind
          cases hhead : (forwardedHops parseIp lines).head? with
          | none => simp [hne peer hpeer]
          | some hop => simp [hne hop (hall hop (List.mem_of_head? hhead))]
  · intro other headers headers' hother
    simp only [TrustedProxies.clientIp, hother]
    rfl

end Appended

def sender : IpAddr := .v4 0xcb007109#32
def forged : IpAddr := .v4 0x06060606#32
def proxyPeer : IpAddr := .v4 0x0a000001#32

def bytesOf (text : String) : Bytes := text.toList.map fun c => UInt8.ofNat c.toNat

def sampleParseIp (text : Text) : Option IpAddr :=
  if text = "203.0.113.9" then some sender
  else if text = "6.6.6.6" then some forged
  else none

def privateRange : TrustedProxies := ⟨[⟨.v4 0x0a000000#32, 8, by decide⟩], false⟩
def anyPeer : TrustedProxies := ⟨[], true⟩

theorem client_ip_of_appended_iff_private :
    privateRange.clientIp sampleParseIp
      (appendAddress [] (some (bytesOf "6.6.6.6")) (bytesOf "203.0.113.9"))
      (some proxyPeer) = some sender := by
  have haddress : Writes sampleParseIp (bytesOf "203.0.113.9") sender :=
    ⟨by decide, by decide, by decide⟩
  refine (client_ip_of_appended_iff sampleParseIp privateRange proxyPeer [] _ haddress (by decide)
    (by decide)).1.mpr ?_
  rw [if_pos (by decide)]
  intro hany
  cases hany

/-- Where every peer is trusted the forged address is taken; and a line that is no text leaves the
line before it. -/
theorem forged_address_counted :
    anyPeer.clientIp sampleParseIp (appendAddress [] (some (bytesOf "6.6.6.6")) (bytesOf "203.0.113.9"))
        (some proxyPeer) = some forged ∧
      privateRange.clientIp sampleParseIp
        (appendAddress [bytesOf "6.6.6.6"] (some [255]) (bytesOf "203.0.113.9"))
        (some proxyPeer) = some forged ∧
      privateRange.trusts sender = false := by
  decide

end Pgokf.Web
