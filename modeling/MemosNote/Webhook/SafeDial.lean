import Mathlib.Data.List.Basic
import MemosNote.Store.MigrationFiles

/-!
# Connections of webhooks

A webhook is delivered by a client that looks up the host of the address, rejects answers in
reserved ranges, and lets a dialer connect to the host.  The dialer looks the host up again.

Main results:

- Theorem {lit}`isReservedIP_iff`: the reserved ranges as intervals, with mapped addresses.
- Theorem {lit}`splitHostPort_joinHostPort`: the dialer gets the host that was looked up.
- Theorem {lit}`never_reserved_iff`: the hosts for which no connection goes to a reserved address.
-/

namespace MemosNote
namespace Webhook

open Store (splitAll)

/-! ## Addresses -/

/-- An address of 16 bytes.  An IPv4 address is the mapped one. -/
abbrev IP :=
  BitVec 128

/-- An address with its zone. -/
structure Addr where
  ip : IP
  zone : List Char
deriving DecidableEq, Repr

/-- The 16 bytes of an IPv4 address. -/
def ofIPv4 (v4 : ℕ) : IP :=
  BitVec.ofNat 128 (0xffff * 2 ^ 32 + v4)

/-- The IPv4 address of an address that is one. -/
def To4 (ip : IP) : Option ℕ :=
  if ip.toNat / 2 ^ 32 = 0xffff then some (ip.toNat % 2 ^ 32) else none

/-- A field of an IPv4 address: a number up to 255, without leading zeros. -/
def parseOctet (digits : List Char) : Option ℕ :=
  if digits ≠ [] ∧ digits.all Char.isDigit ∧ (digits.length = 1 ∨ digits.head? ≠ some '0') ∧
      Nat.ofDigitChars 10 digits 0 ≤ 255 then
    some (Nat.ofDigitChars 10 digits 0)
  else none

def parseIPv4 (s : List Char) : Option ℕ := do
  match splitAll '.' s with
  | [a, b, c, d] =>
      let a ← parseOctet a
      let b ← parseOctet b
      let c ← parseOctet c
      let d ← parseOctet d
      some (((a * 256 + b) * 256 + c) * 256 + d)
  | _ => none

/-- The value of a hexadecimal digit. -/
def hexDigit (c : Char) : Option ℕ :=
  if c.isDigit then some (c.toNat - '0'.toNat)
  else if 'a' ≤ c ∧ c ≤ 'f' then some (c.toNat - 'a'.toNat + 10)
  else if 'A' ≤ c ∧ c ≤ 'F' then some (c.toNat - 'A'.toNat + 10)
  else none

/-- A field of an IPv6 address: one to four hexadecimal digits. -/
def parseField16 (digits : List Char) : Option ℕ := do
  let values ← digits.mapM hexDigit
  if values ≠ [] ∧ values.length ≤ 4 then some (values.foldl (fun n d => n * 16 + d) 0) else none

/-- The fields of the end of an IPv6 address, the last two of which may be an IPv4 address. -/
def parseFields : List (List Char) → Option (List ℕ)
  | [] => some []
  | [last] =>
      if '.' ∈ last then (parseIPv4 last).map fun v4 => [v4 / 2 ^ 16, v4 % 2 ^ 16]
      else (parseField16 last).map fun n => [n]
  | field :: fields => do
      let n ← parseField16 field
      let rest ← parseFields fields
      some (n :: rest)

/-- The texts before and after the first two adjacent colons. -/
def splitEllipsis : List Char → Option (List Char × List Char)
  | ':' :: ':' :: rest => some ([], rest)
  | c :: cs => (splitEllipsis cs).map fun parts => (c :: parts.1, parts.2)
  | [] => none

/-- The eight fields of an IPv6 address without its zone. -/
def parseIPv6Fields (s : List Char) : Option (List ℕ) := do
  match splitEllipsis s with
  | none =>
      let fields ← parseFields (splitAll ':' s)
      if fields.length = 8 then some fields else none
  | some (before, after) =>
      let left ← if before = [] then some [] else (splitAll ':' before).mapM parseField16
      let right ← if after = [] then some [] else parseFields (splitAll ':' after)
      if left.length + right.length ≤ 7 then
        some (left ++ List.replicate (8 - (left.length + right.length)) 0 ++ right)
      else none

def ofFields (fields : List ℕ) : IP :=
  BitVec.ofNat 128 (fields.foldl (fun n field => n * 2 ^ 16 + field) 0)

def parseIPv6 (s : List Char) : Option Addr := do
  let fields ← parseIPv6Fields (s.takeWhile (· ≠ '%'))
  match s.dropWhile (· ≠ '%') with
  | [] => some ⟨ofFields fields, []⟩
  | _ :: zone => if zone = [] then none else some ⟨ofFields fields, zone⟩

/-- The address of a text. -/
def ParseAddr (s : List Char) : Option Addr :=
  match s.find? fun c => c = '.' || c = ':' || c = '%' with
  | some '.' => (parseIPv4 s).map fun v4 => ⟨ofIPv4 v4, []⟩
  | some ':' => parseIPv6 s
  | _ => none

/-- The address of a text without a zone. -/
def ParseIP (s : List Char) : Option IP := do
  let addr ← ParseAddr s
  if addr.zone = [] then some addr.ip else none

/-! ## Reserved ranges -/

/-- A range of addresses: those that begin with as many bits of a number as the mask has. -/
structure IPNet where
  isIPv4 : Bool
  number : ℕ
  ones : ℕ
deriving DecidableEq, Repr

/-- Whether an address is in a range; a mapped address is compared as the IPv4 address. -/
def IPNet.Contains (n : IPNet) (ip : IP) : Bool :=
  match To4 ip with
  | some v4 => n.isIPv4 && v4 / 2 ^ (32 - n.ones) == n.number / 2 ^ (32 - n.ones)
  | none => !n.isIPv4 && ip.toNat / 2 ^ (128 - n.ones) == n.number / 2 ^ (128 - n.ones)

def ParseCIDR (s : List Char) : Option IPNet := do
  match splitAll '/' s with
  | [addr, mask] =>
      let parsed ← ParseIP addr
      let isIPv4 := !addr.contains ':'
      if mask ≠ [] ∧ mask.all Char.isDigit ∧
          Nat.ofDigitChars 10 mask 0 ≤ (if isIPv4 then 32 else 128) then
        let number := if isIPv4 then parsed.toNat % 2 ^ 32 else parsed.toNat
        some ⟨isIPv4, number, Nat.ofDigitChars 10 mask 0⟩
      else none
  | _ => none

/-- The ranges that webhooks must never reach. -/
def reservedCIDRs : List String :=
  ["127.0.0.0/8", "10.0.0.0/8", "172.16.0.0/12", "192.168.0.0/16", "169.254.0.0/16", "::1/128",
    "fc00::/7", "fe80::/10"]

/-- The parsed ranges; a range that cannot be parsed stops the program at its start. -/
def reservedNetworks : List IPNet :=
  reservedCIDRs.filterMap fun cidr => ParseCIDR cidr.toList

/-- Whether an address is in a reserved range, unless private addresses are allowed. -/
def isReservedIP (AllowPrivateIPs : Bool) (ip : IP) : Bool :=
  if AllowPrivateIPs then false else reservedNetworks.any fun network => network.Contains ip

/-- The ranges are parsed. -/
theorem reservedNetworks_eq : reservedNetworks = [
    ⟨true, 0x7f000000, 8⟩, ⟨true, 0x0a000000, 8⟩, ⟨true, 0xac100000, 12⟩,
    ⟨true, 0xc0a80000, 16⟩, ⟨true, 0xa9fe0000, 16⟩, ⟨false, 1, 128⟩,
    ⟨false, 0xfc00 * 2 ^ 112, 7⟩, ⟨false, 0xfe80 * 2 ^ 112, 10⟩] := by
  decide +kernel

/-! ## Host and port -/

/-- The texts before and after the last separator. -/
def splitLast (separator : Char) : List Char → Option (List Char × List Char)
  | [] => none
  | c :: cs =>
      match splitLast separator cs with
      | some parts => some (c :: parts.1, parts.2)
      | none => if c = separator then some ([], cs) else none

/-- The texts before and after the first separator. -/
def splitFirst (separator : Char) : List Char → Option (List Char × List Char)
  | [] => none
  | c :: cs =>
      if c = separator then some ([], cs)
      else (splitFirst separator cs).map fun parts => (c :: parts.1, parts.2)

/-- The host and the port of an address; a host with colons stands in brackets. -/
def SplitHostPort (hostport : List Char) : Option (List Char × List Char) :=
  match splitLast ':' hostport with
  | none => none
  | some (before, port) =>
      match hostport with
      | '[' :: rest =>
          match splitFirst ']' rest with
          | none => none
          | some (host, tail) =>
              -- The bracket is closed just before the last colon.
              if tail ≠ ':' :: port ∨ '[' ∈ rest ∨ ']' ∈ tail then none else some (host, port)
      | _ =>
          if ':' ∈ before ∨ '[' ∈ hostport ∨ ']' ∈ hostport then none else some (before, port)

def JoinHostPort (host port : List Char) : List Char :=
  if ':' ∈ host then '[' :: (host ++ ']' :: ':' :: port) else host ++ ':' :: port

/-- A text with a separator can be split. -/
theorem splitLast_ne_none {separator : Char} {s : List Char} (h : separator ∈ s) :
    splitLast separator s ≠ none := by
  induction s with
  | nil => cases h
  | cons c cs ih =>
      unfold splitLast
      cases hcs : splitLast separator cs with
      | some parts => simp
      | none =>
          rcases List.mem_cons.mp h with rfl | hmem
          · simp
          · exact absurd hcs (ih hmem)

theorem splitLast_some {separator : Char} {s before after : List Char}
    (h : splitLast separator s = some (before, after)) :
    s = before ++ separator :: after ∧ separator ∉ after := by
  induction s generalizing before with
  | nil => cases h
  | cons c cs ih =>
      unfold splitLast at h
      cases hrest : splitLast separator cs with
      | some parts =>
          rw [hrest] at h
          cases h
          rcases @ih parts.1 (by rw [hrest]) with ⟨hcs, hafter⟩
          exact ⟨by rw [hcs]; rfl, hafter⟩
      | none =>
          rw [hrest] at h
          dsimp only at h
          split_ifs at h with hc
          cases h
          exact ⟨by rw [hc]; rfl, fun hmem => splitLast_ne_none hmem hrest⟩

theorem splitLast_append {separator : Char} (before : List Char) {after : List Char}
    (h : separator ∉ after) :
    splitLast separator (before ++ separator :: after) = some (before, after) := by
  have hnone : splitLast separator after = none := by
    cases hsplit : splitLast separator after with
    | none => rfl
    | some parts =>
        have hafter := (@splitLast_some _ _ parts.1 parts.2 hsplit).1
        exact absurd (by rw [hafter]; simp) h
  induction before with
  | nil => simp [splitLast, hnone]
  | cons c cs ih => simp [splitLast, ih]

private theorem splitFirst_some {separator : Char} {s before after : List Char}
    (h : splitFirst separator s = some (before, after)) :
    s = before ++ separator :: after ∧ separator ∉ before := by
  induction s generalizing before with
  | nil => cases h
  | cons c cs ih =>
      unfold splitFirst at h
      split_ifs at h with hc
      · cases h
        exact ⟨by rw [hc]; rfl, by simp⟩
      · cases hrest : splitFirst separator cs with
        | none =>
            rw [hrest] at h
            cases h
        | some parts =>
            rw [hrest] at h
            cases h
            rcases @ih parts.1 (by rw [hrest]) with ⟨hcs, hbefore⟩
            refine ⟨by rw [hcs]; rfl, ?_⟩
            simp [Ne.symm hc, hbefore]

private theorem splitFirst_append {separator : Char} {before : List Char} (after : List Char)
    (h : separator ∉ before) :
    splitFirst separator (before ++ separator :: after) = some (before, after) := by
  induction before with
  | nil => simp [splitFirst]
  | cons c cs ih =>
      rw [List.mem_cons, not_or] at h
      rw [List.cons_append, splitFirst, if_neg (Ne.symm h.1), ih h.2]
      rfl

/-- The parts of an address hold no brackets, and the port no colon. -/
theorem splitHostPort_some {hostport host port : List Char}
    (h : SplitHostPort hostport = some (host, port)) :
    '[' ∉ host ∧ ']' ∉ host ∧ '[' ∉ port ∧ ']' ∉ port ∧ ':' ∉ port := by
  unfold SplitHostPort at h
  cases hlast : splitLast ':' hostport with
  | none =>
      rw [hlast] at h
      cases h
  | some parts =>
      rcases @splitLast_some _ _ parts.1 parts.2 hlast with ⟨hsplit, hport⟩
      rw [hlast] at h
      dsimp only at h
      split at h
      · rename_i rest
        split at h
        · cases h
        · rename_i host' tail hfirst
          split_ifs at h with hbad
          cases h
          rw [not_or, not_or, not_not] at hbad
          rcases splitFirst_some hfirst with ⟨hrest, hhost⟩
          rcases hbad with ⟨htail, hopen, hclose⟩
          rw [hrest, htail] at hopen
          rw [htail] at hclose
          simp only [List.mem_append, List.mem_cons, not_or] at hopen hclose
          exact ⟨hopen.1, hhost, hopen.2.2.2, hclose.2, hport⟩
      · split_ifs at h with hbad
        cases h
        rw [not_or, not_or] at hbad
        rcases hbad with ⟨-, hopen, hclose⟩
        rw [hsplit] at hopen hclose
        simp only [List.mem_append, List.mem_cons, not_or] at hopen hclose
        exact ⟨hopen.1, hclose.1, hopen.2.2, hclose.2.2, hport⟩

/-- A host and a port without brackets, and without a colon in the port, are split off again after
they were joined. -/
theorem splitHostPort_join {host port : List Char} (hopen : '[' ∉ host) (hclose : ']' ∉ host)
    (hopen' : '[' ∉ port) (hclose' : ']' ∉ port) (hcolon : ':' ∉ port) :
    SplitHostPort (JoinHostPort host port) = some (host, port) := by
  unfold JoinHostPort
  by_cases hhost : ':' ∈ host
  · rw [if_pos hhost]
    have hlast : splitLast ':' ('[' :: (host ++ ']' :: ':' :: port)) =
        some ('[' :: (host ++ [']']), port) := by
      have happend := splitLast_append ('[' :: (host ++ [']'])) hcolon
      rw [List.cons_append, List.append_assoc] at happend
      exact happend
    have hfirst := splitFirst_append (':' :: port) hclose
    have hrest : '[' ∉ host ++ ']' :: ':' :: port := by
      simp [hopen, hopen']
    have htail : ']' ∉ ':' :: port := by
      simp [hclose']
    simp only [SplitHostPort, hlast, hfirst, hrest, htail, ne_eq, not_true_eq_false, or_self,
      if_false]
  · rw [if_neg hhost]
    have hlast := splitLast_append host hcolon
    have hbrackets : '[' ∉ host ++ ':' :: port ∧ ']' ∉ host ++ ':' :: port := by
      simp [hopen, hopen', hclose, hclose']
    unfold SplitHostPort
    rw [hlast]
    dsimp only
    split
    · rename_i rest heq
      exact absurd (by rw [heq]; simp) hbrackets.1
    · rw [if_neg]
      simp only [hhost, hbrackets, or_self, not_false_eq_true]

/-- The host and the port that an address was split into are split off again after they were
joined. -/
theorem splitHostPort_joinHostPort {hostport host port : List Char}
    (h : SplitHostPort hostport = some (host, port)) :
    SplitHostPort (JoinHostPort host port) = some (host, port) := by
  rcases splitHostPort_some h with ⟨hopen, hclose, hopen', hclose', hcolon⟩
  exact splitHostPort_join hopen hclose hopen' hclose' hcolon

/-! ## Dialing -/

/-- What the network answers: the lookup of a host, and the later lookup of the dialer; and how
texts are quoted. -/
structure Network where
  AllowPrivateIPs : Bool
  lookup : List Char → Except String (List (List Char))
  dialLookup : List Char → List IP
  quote : List Char → String

namespace Network

variable (net : Network)

/-- The answers of a lookup; a literal is its own answer. -/
def LookupHost (host : List Char) : Except String (List (List Char)) :=
  if host = [] then .error "lookup : no such host"
  else if (ParseAddr host).isSome then .ok [host]
  else net.lookup host

/-- An answer in a reserved range; an answer that is no address passes. -/
def isReservedAnswer (answer : List Char) : Bool :=
  match ParseIP answer with
  | some ip => isReservedIP net.AllowPrivateIPs ip
  | none => false

/-- Check the answers of a lookup.  The dialer gets the host. -/
def safeDialContext (addr : List Char) : Except String (List Char) := do
  match SplitHostPort addr with
  | none => throw ("webhook: invalid address " ++ net.quote addr)
  | some (host, port) =>
      match net.LookupHost host with
      | .error err => throw ("webhook: failed to resolve host " ++ net.quote host ++ ": " ++ err)
      | .ok ips =>
          if ips.any net.isReservedAnswer then
            throw "webhook: connection to reserved/private IP address is not allowed"
          else pure (JoinHostPort host port)

/-- The addresses one of which a dialer connects to: a literal, or the answers of a lookup of its
own. -/
def dialAddresses (addr : List Char) : List IP :=
  match SplitHostPort addr with
  | none => []
  | some (host, _) =>
      match ParseAddr host with
      | some literal => [literal.ip]
      | none => net.dialLookup host

/-- A connection that is asked for at one address may go to an address. -/
def Reaches (addr : List Char) (ip : IP) : Prop :=
  ∃ target, net.safeDialContext addr = .ok target ∧ ip ∈ net.dialAddresses target

end Network

/-! ## Reserved addresses -/

/-- A reserved IPv4 address: 127.0.0.0 to 127.255.255.255, 10.0.0.0 to 10.255.255.255, 172.16.0.0
to 172.31.255.255, 192.168.0.0 to 192.168.255.255, and 169.254.0.0 to 169.254.255.255. -/
def ReservedIPv4 (v4 : ℕ) : Prop :=
  (0x7f000000 ≤ v4 ∧ v4 ≤ 0x7fffffff) ∨ (0x0a000000 ≤ v4 ∧ v4 ≤ 0x0affffff) ∨
    (0xac100000 ≤ v4 ∧ v4 ≤ 0xac1fffff) ∨ (0xc0a80000 ≤ v4 ∧ v4 ≤ 0xc0a8ffff) ∨
      (0xa9fe0000 ≤ v4 ∧ v4 ≤ 0xa9feffff)

/-- A reserved IPv6 address: the loopback address, one that begins with {lit}`fc` or {lit}`fd`, or
one between {lit}`fe80::` and {lit}`febf:ffff:..`. -/
def ReservedIPv6 (v6 : ℕ) : Prop :=
  v6 = 1 ∨ (0xfc00 * 2 ^ 112 ≤ v6 ∧ v6 < 0xfe00 * 2 ^ 112) ∨
    (0xfe80 * 2 ^ 112 ≤ v6 ∧ v6 < 0xfec0 * 2 ^ 112)

/-- An address in one of the reserved ranges, also when it is an IPv4 address in IPv6 form. -/
def Reserved (ip : IP) : Prop :=
  if ip.toNat / 2 ^ 32 = 0xffff then ReservedIPv4 (ip.toNat % 2 ^ 32) else ReservedIPv6 ip.toNat

/-- The ranges as intervals. -/
theorem isReservedIP_iff (AllowPrivateIPs : Bool) (ip : IP) :
    isReservedIP AllowPrivateIPs ip = true ↔ AllowPrivateIPs = false ∧ Reserved ip := by
  unfold isReservedIP
  cases AllowPrivateIPs with
  | true => simp
  | false =>
      rw [if_neg (by decide), reservedNetworks_eq, Reserved]
      by_cases hmapped : ip.toNat / 2 ^ 32 = 0xffff
      · have hfour : To4 ip = some (ip.toNat % 2 ^ 32) := if_pos hmapped
        simp only [List.any_cons, List.any_nil, IPNet.Contains, hfour, if_pos hmapped,
          Bool.true_and, Bool.false_and, Bool.or_false, Bool.or_eq_true, beq_iff_eq, ReservedIPv4,
          true_and]
        omega
      · have hfour : To4 ip = none := if_neg hmapped
        simp only [List.any_cons, List.any_nil, IPNet.Contains, hfour, if_neg hmapped,
          Bool.not_true, Bool.not_false, Bool.false_and, Bool.true_and, Bool.false_or,
          Bool.or_false, Bool.or_eq_true, beq_iff_eq, ReservedIPv6, true_and]
        have hlt := ip.isLt
        omega

namespace Network

variable (net : Network)

/-- No connection that is asked for at the address goes to a reserved address. -/
def NeverReserved (addr : List Char) : Prop :=
  ∀ ip, net.Reaches addr ip → ¬ Reserved ip

/-- The lookup of a host is rejected: it fails, or it answers with a reserved address. -/
def Rejected (host : List Char) : Prop :=
  (∃ err, net.LookupHost host = .error err) ∨
    ∃ ips answer ip, net.LookupHost host = .ok ips ∧ answer ∈ ips ∧ ParseIP answer = some ip ∧
      Reserved ip

/-- A host is no way to a reserved address: it is a literal without a zone, or one that is not
reserved, or a name whose lookup is rejected, or one that the dialer finds no reserved address
for. -/
def SafeHost (host : List Char) : Prop :=
  match ParseAddr host with
  | some literal => literal.zone = [] ∨ ¬ Reserved literal.ip
  | none => net.Rejected host ∨ ∀ ip ∈ net.dialLookup host, ¬ Reserved ip

variable {net}

theorem isReservedAnswer_iff (hprivate : net.AllowPrivateIPs = false) (answer : List Char) :
    net.isReservedAnswer answer = true ↔ ∃ ip, ParseIP answer = some ip ∧ Reserved ip := by
  unfold isReservedAnswer
  cases hparse : ParseIP answer with
  | none => simp
  | some ip => simp [isReservedIP_iff, hprivate]

/-- The lookups that are rejected. -/
theorem safeDialContext_ok_iff (hprivate : net.AllowPrivateIPs = false) {addr host port : List Char}
    (hsplit : SplitHostPort addr = some (host, port)) (target : List Char) :
    net.safeDialContext addr = .ok target ↔
      ¬ net.Rejected host ∧ target = JoinHostPort host port := by
  unfold safeDialContext Rejected
  rw [hsplit]
  dsimp only
  cases hlookup : net.LookupHost host with
  | error err =>
      dsimp only
      constructor
      · intro h
        cases h
      · intro h
        exact absurd (Or.inl ⟨err, rfl⟩) h.1
  | ok ips =>
      dsimp only
      have hany : ips.any net.isReservedAnswer = true ↔
          ∃ ips' answer ip, (Except.ok ips : Except String _) = .ok ips' ∧ answer ∈ ips' ∧
            ParseIP answer = some ip ∧ Reserved ip := by
        rw [List.any_eq_true]
        constructor
        · intro h
          rcases h with ⟨answer, hanswer, hreserved⟩
          rcases (isReservedAnswer_iff hprivate answer).mp hreserved with ⟨ip, hparse, hip⟩
          exact ⟨ips, answer, ip, rfl, hanswer, hparse, hip⟩
        · intro h
          rcases h with ⟨ips', answer, ip, heq, hanswer, hparse, hip⟩
          cases heq
          exact ⟨answer, hanswer, (isReservedAnswer_iff hprivate answer).mpr ⟨ip, hparse, hip⟩⟩
      by_cases hreserved : ips.any net.isReservedAnswer = true
      · rw [if_pos hreserved]
        constructor
        · intro h
          cases h
        · intro h
          exact absurd (Or.inr (hany.mp hreserved)) h.1
      · rw [if_neg hreserved]
        constructor
        · intro h
          cases h
          refine ⟨?_, rfl⟩
          intro hrejected
          rcases hrejected with ⟨err, herr⟩ | hanswer
          · cases herr
          · exact hreserved (hany.mpr hanswer)
        · intro h
          rw [h.2]
          rfl

/-- The addresses that a connection may go to. -/
theorem reaches_iff (hprivate : net.AllowPrivateIPs = false) {addr host port : List Char}
    (hsplit : SplitHostPort addr = some (host, port)) (ip : IP) :
    net.Reaches addr ip ↔ ¬ net.Rejected host ∧
      (match ParseAddr host with
      | some literal => ip = literal.ip
      | none => ip ∈ net.dialLookup host) := by
  have hdial : ip ∈ net.dialAddresses (JoinHostPort host port) ↔
      (match ParseAddr host with
      | some literal => ip = literal.ip
      | none => ip ∈ net.dialLookup host) := by
    unfold dialAddresses
    rw [splitHostPort_joinHostPort hsplit]
    dsimp only
    cases ParseAddr host with
    | some literal => simp
    | none => exact Iff.rfl
  unfold Reaches
  constructor
  · intro h
    rcases h with ⟨target, hok, hmem⟩
    rcases (safeDialContext_ok_iff hprivate hsplit target).mp hok with ⟨hnot, rfl⟩
    exact ⟨hnot, hdial.mp hmem⟩
  · intro h
    exact ⟨_, (safeDialContext_ok_iff hprivate hsplit _).mpr ⟨h.1, rfl⟩, hdial.mpr h.2⟩

/-- The lookup of a literal is rejected when the literal has no zone and is reserved. -/
theorem rejected_literal_iff {host : List Char} {literal : Addr}
    (hparse : ParseAddr host = some literal) :
    net.Rejected host ↔ literal.zone = [] ∧ Reserved literal.ip := by
  have hne : host ≠ [] := by
    rintro rfl
    cases hparse
  have hlookup : net.LookupHost host = .ok [host] := by
    simp [LookupHost, hne, hparse]
  have hip : ParseIP host = if literal.zone = [] then some literal.ip else none := by
    simp [ParseIP, hparse]
  unfold Rejected
  rw [hlookup]
  constructor
  · intro h
    rcases h with ⟨err, herr⟩ | ⟨ips, answer, ip, heq, hanswer, hanswerIP, hreserved⟩
    · cases herr
    · cases heq
      rw [List.mem_singleton.mp hanswer, hip] at hanswerIP
      split_ifs at hanswerIP with hzone
      cases hanswerIP
      exact ⟨hzone, hreserved⟩
  · intro h
    exact Or.inr ⟨[host], host, literal.ip, rfl, by simp, by rw [hip, if_pos h.1], h.2⟩

/-- Connections never go to a reserved address exactly when the host is safe, unless private
addresses are allowed. -/
theorem never_reserved_iff (net : Network) (addr : List Char)
    (hprivate : net.AllowPrivateIPs = false) :
    net.NeverReserved addr ↔
      ∀ host port, SplitHostPort addr = some (host, port) → net.SafeHost host := by
  unfold NeverReserved
  cases hsplit : SplitHostPort addr with
  | none =>
      constructor
      · intro _ host port h
        cases h
      · intro _ ip h
        rcases h with ⟨target, hok, -⟩
        unfold safeDialContext at hok
        rw [hsplit] at hok
        cases hok
  | some parts =>
      rcases parts with ⟨host, port⟩
      have hsafe : (∀ host' port', some (host, port) = some (host', port') →
          net.SafeHost host') ↔ net.SafeHost host := by
        constructor
        · intro h
          exact h host port rfl
        · intro h host' port' heq
          cases heq
          exact h
      rw [hsafe]
      simp only [reaches_iff hprivate hsplit]
      unfold SafeHost
      cases hparse : ParseAddr host with
      | some literal =>
          dsimp only
          rw [rejected_literal_iff hparse]
          constructor
          · intro h
            by_cases hzone : literal.zone = []
            · exact Or.inl hzone
            · exact Or.inr (h literal.ip ⟨fun hrejected => hzone hrejected.1, rfl⟩)
          · intro h ip hip hreserved
            rcases hip with ⟨hnot, rfl⟩
            rcases h with hzone | hok
            · exact hnot ⟨hzone, hreserved⟩
            · exact hok hreserved
      | none =>
          dsimp only
          constructor
          · intro h
            by_cases hrejected : net.Rejected host
            · exact Or.inl hrejected
            · exact Or.inr fun ip hmem => h ip ⟨hrejected, hmem⟩
          · intro h ip hip
            rcases h with hrejected | hok
            · exact absurd hrejected hip.1
            · exact hok ip hip.2

end Network

/-! ## Examples -/

/-- A resolver that answers with a public address first and with the loopback address later. -/
def rebinding : Network where
  AllowPrivateIPs := false
  lookup _ := .ok ["93.184.216.34".toList]
  dialLookup _ := [ofIPv4 0x7f000001]
  quote text := "\"" ++ String.ofList text ++ "\""

theorem never_reserved_example :
    rebinding.NeverReserved "[::ffff:127.0.0.1]:80".toList ↔
      ∀ host port, SplitHostPort "[::ffff:127.0.0.1]:80".toList = some (host, port) →
        rebinding.SafeHost host :=
  Network.never_reserved_iff rebinding "[::ffff:127.0.0.1]:80".toList rfl

/-- A name whose answers change leads to the loopback address, and a literal with a zone leads to
a link-local one. -/
theorem reaches_reserved :
    (rebinding.Reaches "rebind.example:80".toList (ofIPv4 0x7f000001) ∧
        Reserved (ofIPv4 0x7f000001)) ∧
      (rebinding.Reaches "[fe80::1%eth0]:80".toList (BitVec.ofNat 128 (0xfe80 * 2 ^ 112 + 1)) ∧
        Reserved (BitVec.ofNat 128 (0xfe80 * 2 ^ 112 + 1))) := by
  refine ⟨⟨⟨"rebind.example:80".toList, ?_, ?_⟩, ?_⟩, ⟨"[fe80::1%eth0]:80".toList, ?_, ?_⟩, ?_⟩
  · decide +kernel
  · decide +kernel
  · exact ((isReservedIP_iff false _).mp (by decide +kernel)).2
  · decide +kernel
  · decide +kernel
  · exact ((isReservedIP_iff false _).mp (by decide +kernel)).2

end Webhook
end MemosNote
