import MemosNote.Library.Effect
import MemosNote.Webhook.AddressText

/-!
# Connections for link metadata

The getter of link metadata checks its address and the address of every redirect.  Its connections
look up their host once, check every answer, and hand the answers themselves to the dialer.

Main results:

- Theorem {lit}`isInternalIP_iff`: the internal addresses as intervals, with mapped addresses.
- Theorem {lit}`secureDialContext_external`: one connection dials no internal address.
- Theorem {lit}`getHTMLMeta_external`: a whole request with its redirects dials none.
-/

namespace MemosNote
namespace HttpGetter

open Library Webhook

/-! ## Internal addresses -/

/-- The addresses of the host itself. -/
def IsLoopback (ip : IP) : Bool :=
  match To4 ip with
  | some v4 => v4 / 2 ^ 24 = 127
  | none => ip.toNat = 1

/-- The addresses of private networks. -/
def IsPrivate (ip : IP) : Bool :=
  match To4 ip with
  | some v4 =>
      v4 / 2 ^ 24 = 10 || (v4 / 2 ^ 24 = 172 && v4 / 2 ^ 16 % 256 / 16 * 16 = 16) ||
        (v4 / 2 ^ 24 = 192 && v4 / 2 ^ 16 % 256 = 168)
  | none => ip.toNat / 2 ^ 120 / 2 * 2 = 0xfc

/-- The addresses of one link. -/
def IsLinkLocalUnicast (ip : IP) : Bool :=
  match To4 ip with
  | some v4 => v4 / 2 ^ 24 = 169 && v4 / 2 ^ 16 % 256 = 254
  | none => ip.toNat / 2 ^ 120 = 0xfe && ip.toNat / 2 ^ 112 % 256 / 64 * 64 = 0x80

/-- The addresses that stand for none. -/
def IsUnspecified (ip : IP) : Bool :=
  ip = ofIPv4 0 || ip = 0

/-- The addresses that are refused. -/
def isInternalIP (ip : IP) : Bool :=
  IsLoopback ip || IsPrivate ip || IsLinkLocalUnicast ip || IsUnspecified ip

/-- A loopback, private, link-local or unspecified address, also in IPv6 form. -/
def Internal (ip : IP) : Prop :=
  Reserved ip ∨ ip = ofIPv4 0 ∨ ip = 0

/-- The check covers all internal addresses and no others. -/
theorem isInternalIP_iff (ip : IP) : isInternalIP ip = true ↔ Internal ip := by
  have hlt := ip.isLt
  have hreserved : (IsLoopback ip || IsPrivate ip || IsLinkLocalUnicast ip) = true ↔
      Reserved ip := by
    rw [Reserved]
    by_cases hmapped : ip.toNat / 2 ^ 32 = 0xffff
    · have hfour : To4 ip = some (ip.toNat % 2 ^ 32) := if_pos hmapped
      rw [if_pos hmapped]
      simp only [IsLoopback, IsPrivate, IsLinkLocalUnicast, hfour, ReservedIPv4, Bool.or_eq_true,
        Bool.and_eq_true, decide_eq_true_eq]
      omega
    · have hfour : To4 ip = none := if_neg hmapped
      rw [if_neg hmapped]
      simp only [IsLoopback, IsPrivate, IsLinkLocalUnicast, hfour, ReservedIPv6, Bool.or_eq_true,
        Bool.and_eq_true, decide_eq_true_eq]
      omega
  rw [isInternalIP, Bool.or_eq_true, hreserved, IsUnspecified, Internal, Bool.or_eq_true,
    decide_eq_true_eq, decide_eq_true_eq]

/-! ## Connections -/

/-- What the getter has done: the lookups it has made, and the addresses it has handed to the
dialer. -/
structure Log where
  lookups : ℕ := 0
  dialed : List (List Char) := []

/-- What the getter meets: the answers of the resolver, which may be others with each lookup, an
answer without an address among them; the outcome of each dial; and the parser of addresses, with
the scheme and the host name. -/
structure Web where
  lookupIPAddr : ℕ → List Char → Except String (List (Option IP))
  connect : ℕ → List Char → Option String
  parseURL : List Char → Option (List Char × List Char)

/-- A request, with a log of what it asked and dialed. -/
abbrev GetM :=
  Effect String Log

namespace Web

variable (web : Web)

/-- The text of the refusal. -/
def errInternalIP : String :=
  "internal IP addresses are not allowed"

/-- The next answers of the resolver. -/
def lookup (host : List Char) : GetM (List (Option IP)) := do
  let n ← Effect.read Log.lookups
  Effect.update fun log => { log with lookups := log.lookups + 1 }
  Effect.ofExcept (web.lookupIPAddr n host)

/-- The addresses among the answers, none of which may be internal. -/
def allowedIPs (host : List Char) : List (Option IP) → Except String (List IP)
  | [] => .ok []
  | none :: addrs => allowedIPs host addrs
  | some ip :: addrs =>
      if isInternalIP ip then
        .error ("host=" ++ String.ofList host ++ ", ip=" ++ String.ofList (IPString ip) ++ ": " ++
          errInternalIP)
      else (allowedIPs host addrs).map (ip :: ·)

/-- The addresses of a host; one internal address refuses them all. -/
def resolveAllowedIPs (host : List Char) : GetM (List IP) :=
  match ParseIP host with
  | some ip =>
      if isInternalIP ip then
        Effect.fail (String.ofList (IPString ip) ++ ": " ++ errInternalIP)
      else pure [ip]
  | none => do
      let addrs ← (web.lookup host).mapError ("failed to resolve hostname: " ++ ·)
      let ips ← Effect.ofExcept (allowedIPs host addrs)
      if ips = [] then Effect.fail "hostname resolved to no addresses" else pure ips

/-- Hand an address to the dialer. -/
def dialContext (address : List Char) : GetM Unit := do
  let n ← Effect.read fun log => log.dialed.length
  Effect.update fun log => { log with dialed := log.dialed ++ [address] }
  match web.connect n address with
  | none => pure ()
  | some err => Effect.fail err

/-- Dial one address after the other until one answers; without any, there is no connection. -/
def dialFirst (port : List Char) : Option String → List IP → GetM (Option IP)
  | none, [] => pure none
  | some err, [] => Effect.fail err
  | _, ip :: ips => do
      let result ← (web.dialContext (JoinHostPort (IPString ip) port)).attempt
      match result with
      | .ok _ => pure (some ip)
      | .error err => dialFirst port (some err) ips

/-- Dial the resolved addresses, one after another. -/
def secureDialContext (address : List Char) : GetM (Option IP) :=
  match SplitHostPort address with
  | none => Effect.fail "invalid address"
  | some (host, port) => do
      let ips ← web.resolveAllowedIPs host
      web.dialFirst port none ips

/-! ## Requests -/

/-- The scheme is one of the web, and the host is no internal address. -/
def validateURL (urlStr : List Char) : Except String Unit :=
  match web.parseURL urlStr with
  | none => .error "invalid URL format"
  | some (scheme, host) =>
      if scheme ≠ "http".toList ∧ scheme ≠ "https".toList then
        .error "only http/https protocols are allowed"
      else if host = [] then .error "empty hostname"
      else
        match ParseIP host with
        | some ip =>
            if isInternalIP ip then .error (String.ofList (IPString ip) ++ ": " ++ errInternalIP)
            else .ok ()
        | none => .ok ()

/-- What a request meets: the addresses that the transport asks connections for, and then a
redirect, a page or an error. -/
structure Exchange where
  connections : List (List Char)
  outcome : Except String (List Char ⊕ List Char)

/-- A request and the requests it is redirected to, with as many redirects as are left.  The
transport may go on when a connection fails. -/
def follow (exchange : ℕ → List Char → Exchange) : ℕ → List Char → GetM (List Char)
  | left, url => do
      let sent := exchange left url
      Effect.forEach (fun address => do
        let _ ← (web.secureDialContext address).attempt
        pure ()) sent.connections
      match sent.outcome with
      | .error err => Effect.fail err
      | .ok (.inr page) => pure page
      | .ok (.inl location) => do
          Effect.ofExcept ((web.validateURL location).mapError ("redirect to internal IP: " ++ ·))
          match left with
          | 0 => Effect.fail "too many redirects"
          | left + 1 => follow exchange left location

/-- Fetch a page; redirects are followed, up to ten requests. -/
def GetHTMLMeta (exchange : ℕ → List Char → Exchange) (urlStr : List Char) : GetM (List Char) := do
  Effect.ofExcept (web.validateURL urlStr)
  web.follow exchange 9 urlStr

end Web

/-! ## What is dialed -/

/-- The address that a dialer is given is read as one that is not internal. -/
def External (address : List Char) : Prop :=
  ∃ ip host port, SplitHostPort address = some (host, port) ∧ ParseIP host = some ip ∧ ¬ Internal ip

/-- Only external addresses have been dialed. -/
def DialedExternal (log : Log) : Prop :=
  ∀ address ∈ log.dialed, External address

private theorem bracket_notMem_IPString (ip : IP) : '[' ∉ IPString ip ∧ ']' ∉ IPString ip := by
  constructor <;> intro h <;> rcases mem_IPString h with h | h | h <;> exact absurd h (by decide)

private theorem external_join {ip : IP} (hip : ¬ Internal ip) {address host port : List Char}
    (h : SplitHostPort address = some (host, port)) :
    External (JoinHostPort (IPString ip) port) := by
  rcases splitHostPort_some h with ⟨-, -, hopen, hclose, hcolon⟩
  rcases bracket_notMem_IPString ip with ⟨hopen', hclose'⟩
  exact ⟨ip, IPString ip, port, splitHostPort_join hopen' hclose' hopen hclose hcolon,
    parseIP_string ip, hip⟩

namespace Web

variable {web : Web}

private theorem lookup_keeps (host : List Char) :
    Effect.Keeps DialedExternal (web.lookup host) := by
  apply Effect.Keeps.read_bind
  intro log hlog
  exact (Effect.Keeps.update (f := fun log : Log => { log with lookups := log.lookups + 1 })
    fun _ h => h).bind (fun _ => Effect.Keeps.ofExcept _) log hlog

/-- The addresses that are allowed are not internal. -/
theorem allowedIPs_ok {host : List Char} {addrs : List (Option IP)} {ips : List IP}
    (h : allowedIPs host addrs = .ok ips) : ∀ ip ∈ ips, ¬ Internal ip := by
  induction addrs generalizing ips with
  | nil =>
      rcases Except.ok.inj h with rfl
      exact fun ip hip => absurd hip List.not_mem_nil
  | cons addr addrs ih =>
      cases addr with
      | none => exact ih h
      | some ip =>
          rw [allowedIPs] at h
          split at h
          · cases h
          · rename_i hinternal
            cases hrest : allowedIPs host addrs with
            | error err =>
                rw [hrest] at h
                cases h
            | ok rest =>
                rw [hrest] at h
                rcases Except.ok.inj h with rfl
                intro ip' hip'
                rcases List.mem_cons.mp hip' with rfl | hmem
                · exact mt (isInternalIP_iff ip').mpr hinternal
                · exact ih hrest ip' hmem

/-- Resolving a host dials nothing, and answers with external addresses. -/
theorem resolveAllowedIPs_triple (host : List Char) :
    Effect.Triple DialedExternal (web.resolveAllowedIPs host)
      (fun ips log => DialedExternal log ∧ ∀ ip ∈ ips, ¬ Internal ip)
      fun _ => DialedExternal := by
  rw [resolveAllowedIPs]
  cases hparse : ParseIP host with
  | some ip =>
      dsimp only
      split
      · exact Effect.Triple.fail fun _ hlog => hlog
      · rename_i hinternal
        apply Effect.Triple.pure
        intro log hlog
        refine ⟨hlog, fun ip' hip' => ?_⟩
        rw [List.mem_singleton.mp hip']
        exact mt (isInternalIP_iff ip).mpr hinternal
  | none =>
      refine (lookup_keeps host).triple.mapError.bind fun addrs => ?_
      apply Effect.Triple.bind (Q := fun ips log => DialedExternal log ∧ ∀ ip ∈ ips, ¬ Internal ip)
      · exact Effect.Triple.ofExcept (fun ips hips _ hlog => ⟨hlog, allowedIPs_ok hips⟩)
          fun _ _ _ hlog => hlog
      · intro ips
        split
        · exact Effect.Triple.fail fun _ h => h.1
        · exact Effect.Triple.pure fun _ h => h

private theorem dialContext_keeps {address : List Char} (haddress : External address) :
    Effect.Keeps DialedExternal (web.dialContext address) := by
  apply Effect.Keeps.read_bind
  intro log hlog
  refine Effect.Keeps.bind (Effect.Keeps.update ?_) (fun _ => ?_) log hlog
  · intro log hlog address' hmem
    rcases List.mem_append.mp hmem with hmem | hmem
    · exact hlog address' hmem
    · rw [List.mem_singleton.mp hmem]
      exact haddress
  · cases web.connect log.dialed.length address with
    | none => exact Effect.Keeps.pure _
    | some err => exact Effect.Keeps.fail _

private theorem dialFirst_keeps {address host port : List Char}
    (haddress : SplitHostPort address = some (host, port)) {ips : List IP}
    (hips : ∀ ip ∈ ips, ¬ Internal ip) (dialErr : Option String) :
    Effect.Keeps DialedExternal (web.dialFirst port dialErr ips) := by
  induction ips generalizing dialErr with
  | nil =>
      cases dialErr with
      | none => exact Effect.Keeps.pure _
      | some err => exact Effect.Keeps.fail _
  | cons ip ips ih =>
      rw [dialFirst]
      refine (dialContext_keeps (external_join (hips ip (by simp)) haddress)).attempt.bind
        fun result => ?_
      cases result with
      | ok _ => exact Effect.Keeps.pure _
      | error err => exact ih (fun ip' hip' => hips ip' (by simp [hip'])) (some err)

/-- One connection hands only external addresses to the dialer. -/
theorem secureDialContext_external (address : List Char) :
    Effect.Keeps DialedExternal (web.secureDialContext address) := by
  rw [secureDialContext]
  cases hsplit : SplitHostPort address with
  | none => exact Effect.Keeps.fail _
  | some parts =>
      apply Effect.Triple.keeps
      refine (resolveAllowedIPs_triple parts.1).bind fun ips log hlog => ?_
      exact (dialFirst_keeps (show _ = some (parts.1, parts.2) from hsplit) hlog.2 none).triple log
        hlog.1

private theorem follow_keeps (exchange : ℕ → List Char → Exchange) (left : ℕ) (url : List Char) :
    Effect.Keeps DialedExternal (web.follow exchange left url) := by
  induction left generalizing url with
  | zero =>
      rw [follow]
      refine Effect.Keeps.bind (Effect.Keeps.forEach fun address _ =>
        (secureDialContext_external address).attempt.bind fun _ => Effect.Keeps.pure _) fun _ => ?_
      split
      · exact Effect.Keeps.fail _
      · exact Effect.Keeps.pure _
      · exact (Effect.Keeps.ofExcept _).bind fun _ => Effect.Keeps.fail _
  | succ left ih =>
      rw [follow]
      refine Effect.Keeps.bind (Effect.Keeps.forEach fun address _ =>
        (secureDialContext_external address).attempt.bind fun _ => Effect.Keeps.pure _) fun _ => ?_
      split
      · exact Effect.Keeps.fail _
      · exact Effect.Keeps.pure _
      · exact (Effect.Keeps.ofExcept _).bind fun _ => ih _

end Web

/-- A request dials external addresses only, whatever it is redirected to and whatever the resolver
answers. -/
theorem getHTMLMeta_external (web : Web) (exchange : ℕ → List Char → Web.Exchange)
    (urlStr : List Char) :
    DialedExternal (web.GetHTMLMeta exchange urlStr {}).2 :=
  (Effect.Keeps.ofExcept _).bind (fun _ => Web.follow_keeps exchange 9 urlStr) {}
    fun _ h => absurd h List.not_mem_nil

end HttpGetter
end MemosNote
