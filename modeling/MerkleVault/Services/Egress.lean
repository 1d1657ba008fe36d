import MerkleVault.App.Context
import MerkleVault.Lib.Blocks

/-! # The Destination Policy of the HTTP Bridge

Before a credential is attached to a request, every address that the request can reach is screened
by `is_forbidden_ip`.  The ranges that it denies are listed here as blocks of numbers, and its tests
of octets and segments are membership in these blocks.  An IPv6 address that embeds an IPv4 address
is screened by the embedded one in two of the four standard forms.

* `isForbiddenV4_iff`, `isForbiddenV6_iff`: the tests are the listed ranges;
* `validate_ok`: what an accepted destination reaches;
* `covered_iff`: the IPv6 addresses for which the guard does what it is for. -/

namespace MerkleVault.Services.Egress

open MerkleVault.App.Context MerkleVault.Lib.Blocks

/-! ### Addresses -/

/-- An IPv4 address by its octets. -/
structure Ipv4Addr where
  a : UInt8
  b : UInt8
  c : UInt8
  d : UInt8
deriving DecidableEq

/-- `segments`: the eight groups of sixteen bits. -/
structure Ipv6Addr where
  s0 : UInt16
  s1 : UInt16
  s2 : UInt16
  s3 : UInt16
  s4 : UInt16
  s5 : UInt16
  s6 : UInt16
  s7 : UInt16
deriving DecidableEq

/-- An address of either family. -/
inductive IpAddr
  | v4 (ip : Ipv4Addr)
  | v6 (ip : Ipv6Addr)
deriving DecidableEq

/-- The 32-bit number of an address. -/
def Ipv4Addr.toNat (ip : Ipv4Addr) : ℕ :=
  ((ip.a.toNat * 256 + ip.b.toNat) * 256 + ip.c.toNat) * 256 + ip.d.toNat

/-- The segments after the first, as one number. -/
def Ipv6Addr.low (ip : Ipv6Addr) : ℕ :=
  (((((ip.s1.toNat * 65536 + ip.s2.toNat) * 65536 + ip.s3.toNat) * 65536 + ip.s4.toNat) * 65536 +
    ip.s5.toNat) * 65536 + ip.s6.toNat) * 65536 + ip.s7.toNat

/-- The 128-bit number of an address. -/
def Ipv6Addr.toNat (ip : Ipv6Addr) : ℕ := ip.s0.toNat * 2 ^ 112 + ip.low

namespace Ipv4Addr

variable (ip : Ipv4Addr)

/-- 127.0.0.0/8. -/
def isLoopback : Bool := ip.a = 127

/-- The three private ranges. -/
def isPrivate : Bool :=
  ip.a = 10 || (ip.a = 172 && (16 ≤ ip.b && ip.b ≤ 31)) || (ip.a = 192 && ip.b = 168)

/-- 169.254.0.0/16. -/
def isLinkLocal : Bool := ip.a = 169 && ip.b = 254

/-- 224.0.0.0/4. -/
def isMulticast : Bool := 224 ≤ ip.a && ip.a ≤ 239

/-- 255.255.255.255. -/
def isBroadcast : Bool := ip = ⟨255, 255, 255, 255⟩

/-- 0.0.0.0. -/
def isUnspecified : Bool := ip = ⟨0, 0, 0, 0⟩

/-- The three documentation ranges. -/
def isDocumentation : Bool :=
  (ip.a = 192 && ip.b = 0 && ip.c = 2) || (ip.a = 198 && ip.b = 51 && ip.c = 100) ||
    (ip.a = 203 && ip.b = 0 && ip.c = 113)

end Ipv4Addr

namespace Ipv6Addr

variable (ip : Ipv6Addr)

/-- `::1`. -/
def isLoopback : Bool := ip = ⟨0, 0, 0, 0, 0, 0, 0, 1⟩

/-- `::`. -/
def isUnspecified : Bool := ip = ⟨0, 0, 0, 0, 0, 0, 0, 0⟩

/-- ff00::/8. -/
def isMulticast : Bool := ip.s0 &&& 0xff00 = 0xff00

/-- The address in the octets of the last two segments. -/
def lastOctets : Ipv4Addr :=
  ⟨(ip.s6 >>> 8).toUInt8, ip.s6.toUInt8, (ip.s7 >>> 8).toUInt8, ip.s7.toUInt8⟩

/-- The IPv4 address inside one of ::ffff:0:0/96. -/
def toIpv4Mapped : Option Ipv4Addr :=
  if ip.s0 = 0 ∧ ip.s1 = 0 ∧ ip.s2 = 0 ∧ ip.s3 = 0 ∧ ip.s4 = 0 ∧ ip.s5 = 0xffff then
    some ip.lastOctets
  else none

end Ipv6Addr

/-! ### The screen -/

/-- 100.64.0.0/10, carrier-grade NAT. -/
def isSharedV4 (ip : Ipv4Addr) : Bool := ip.a = 100 && (64 ≤ ip.b && ip.b ≤ 127)

/-- 0.0.0.0/8, "this network". -/
def isThisNetworkV4 (ip : Ipv4Addr) : Bool := ip.a = 0

/-- 192.0.0.0/24. -/
def isIetfProtocolV4 (ip : Ipv4Addr) : Bool := ip.a = 192 && ip.b = 0 && ip.c = 0

/-- 198.18.0.0/15. -/
def isBenchmarkingV4 (ip : Ipv4Addr) : Bool := ip.a = 198 && (ip.b = 18 || ip.b = 19)

/-- 240.0.0.0/4. -/
def isReservedClassE (ip : Ipv4Addr) : Bool := 240 ≤ ip.a

/-- `is_forbidden_v4`. -/
def isForbiddenV4 (ip : Ipv4Addr) : Bool :=
  ip.isLoopback || ip.isPrivate || ip.isLinkLocal || ip.isMulticast || ip.isBroadcast ||
    ip.isUnspecified || ip.isDocumentation || isSharedV4 ip || isThisNetworkV4 ip ||
    isIetfProtocolV4 ip || isBenchmarkingV4 ip || isReservedClassE ip

/-- The address under the NAT64 prefix `64:ff9b::/96`. -/
def nat64EmbeddedV4 (ip : Ipv6Addr) : Option Ipv4Addr :=
  if ip.s0 = 0x0064 ∧ ip.s1 = 0xff9b ∧ ip.s2 = 0 ∧ ip.s3 = 0 ∧ ip.s4 = 0 ∧ ip.s5 = 0 then
    some ip.lastOctets
  else none

/-- `is_ula_v6`: fc00::/7. -/
def isUlaV6 (ip : Ipv6Addr) : Bool := ip.s0 &&& 0xfe00 = 0xfc00

/-- `is_link_local_v6`: fe80::/10. -/
def isLinkLocalV6 (ip : Ipv6Addr) : Bool := ip.s0 &&& 0xffc0 = 0xfe80

/-- The forbidden IPv6 addresses, apart from the mapped ones. -/
def isForbiddenV6 (ip : Ipv6Addr) : Bool :=
  ip.isLoopback || ip.isMulticast || ip.isUnspecified || isUlaV6 ip || isLinkLocalV6 ip

/-- `is_forbidden_ip`: a mapped address is judged as its IPv4 address. -/
def isForbiddenIp : IpAddr → Bool
  | .v4 v4 => isForbiddenV4 v4
  | .v6 v6 =>
    match v6.toIpv4Mapped with
    | some v4 => isForbiddenV4 v4
    | none =>
      match nat64EmbeddedV4 v6 with
      | some v4 => isForbiddenV4 v4
      | none => isForbiddenV6 v6

/-! ### The policy -/

/-- The parts of a parsed URL that the policy reads. -/
structure Url where
  scheme : String
  hostStr : Option String
  portOrKnownDefault : Option UInt16

/-- Why a name could not be looked up. -/
inductive LookupError
  | join (e : String)
  | lookup (e : String)

/-- URL parsing, address parsing and printing, and name resolution. -/
structure Net where
  parseUrl : String → Except String Url
  parseIp : String → Option IpAddr
  showIp : IpAddr → String
  debug : String → String
  toSocketAddrs : String → UInt16 → Except LookupError (List IpAddr)

/-- Whether destinations are checked at all. -/
structure DestinationPolicy where
  enforce : Bool

/-- Every destination is checked. -/
def strict : DestinationPolicy := ⟨true⟩

/-- No destination is checked. -/
def permissive : DestinationPolicy := ⟨false⟩

/-- `trim_start_matches('[')`, `trim_end_matches(']')`. -/
def bareHost (host : String) : String :=
  String.ofList ((host.toList.dropWhile (· = '[')).reverse.dropWhile (· = ']')).reverse

section Policy

variable (N : Net)

/-- Only `https` is permitted. -/
def checkScheme (url : Url) : Except ExternalError Unit :=
  if url.scheme ≠ "https" then
    .error (.operationFailed
      s!"scheme {N.debug url.scheme} rejected: only https destinations are permitted")
  else .ok ()

/-- One address of the destination. -/
def rejectIfForbidden (ip : IpAddr) : Except ExternalError Unit :=
  if isForbiddenIp ip then
    .error (.operationFailed s!"destination address {N.showIp ip} is not a permitted public host")
  else .ok ()

/-- The addresses of a host, or why there are none. -/
def resolve (host : String) (port : UInt16) : Except ExternalError (List IpAddr) :=
  match N.toSocketAddrs host port with
  | .error (.join e) => .error (.backend s!"DNS resolution task failed: {e}")
  | .error (.lookup e) => .error (.connectFailed s!"could not resolve host {N.debug host}: {e}")
  | .ok [] => .error (.connectFailed s!"host {N.debug host} resolved to no addresses")
  | .ok (ip :: ips) => .ok (ip :: ips)

/-- A literal address is judged itself, a name by each address that it resolves to. -/
def checkHost (url : Url) : Except ExternalError Unit :=
  match url.hostStr with
  | none => .error (.operationFailed "request URL has no host")
  | some host =>
    match N.parseIp (bareHost host) with
    | some ip => rejectIfForbidden N ip
    | none => do
      let ips ← resolve N (bareHost host) (url.portOrKnownDefault.getD 443)
      ips.forM (rejectIfForbidden N)

/-- `validate`: the URL parses, its scheme is permitted and so is its host. -/
def DestinationPolicy.validate (policy : DestinationPolicy) (url : String) :
    Except ExternalError Unit :=
  if policy.enforce then
    match N.parseUrl url with
    | .error e => .error (.operationFailed s!"invalid request URL: {e}")
    | .ok parsed => do
      checkScheme N parsed
      checkHost N parsed
  else .ok ()

/-- The addresses that a request to the URL can be sent to. -/
inductive Targets (url : Url) : IpAddr → Prop
  | literal {host : String} {ip : IpAddr} (hhost : url.hostStr = some host)
      (hip : N.parseIp (bareHost host) = some ip) : Targets url ip
  | resolved {host : String} {ip : IpAddr} {ips : List IpAddr} (hhost : url.hostStr = some host)
      (hname : N.parseIp (bareHost host) = none)
      (hips : resolve N (bareHost host) (url.portOrKnownDefault.getD 443) = .ok ips) (hip : ip ∈ ips) :
      Targets url ip

theorem rejectIfForbidden_ok {ip : IpAddr} :
    rejectIfForbidden N ip = .ok () ↔ isForbiddenIp ip = false := by
  unfold rejectIfForbidden
  by_cases h : isForbiddenIp ip = true
  · simp [h]
  · simp [h]

theorem forM_reject_ok {ips : List IpAddr} :
    ips.forM (rejectIfForbidden N) = .ok () ↔ ∀ ip ∈ ips, isForbiddenIp ip = false := by
  induction ips with
  | nil => simp [List.forM, pure, Except.pure]
  | cons ip ips ih =>
    rw [List.forall_mem_cons, ← ih, ← rejectIfForbidden_ok N]
    cases hip : rejectIfForbidden N ip with
    | error e => simp [List.forM, bind, Except.bind, hip]
    | ok u => simp [List.forM, bind, Except.bind, hip]

theorem resolve_nonempty {host : String} {port : UInt16} {ips : List IpAddr}
    (h : resolve N host port = .ok ips) : ∃ ip, ip ∈ ips := by
  unfold resolve at h
  split at h <;> cases h
  exact ⟨_, List.mem_cons_self⟩

/-- A literal address is the only target. -/
theorem targets_literal {url : Url} {host : String} {ip ip' : IpAddr} (hhost : url.hostStr = some host)
    (hip : N.parseIp (bareHost host) = some ip) : Targets N url ip' ↔ ip' = ip := by
  constructor
  · rintro (⟨hhost', hip'⟩ | ⟨hhost', hname, -, -⟩)
    · obtain rfl := Option.some.inj (hhost.symm.trans hhost')
      exact Option.some.inj (hip'.symm.trans hip)
    · obtain rfl := Option.some.inj (hhost.symm.trans hhost')
      cases hname.symm.trans hip
  · rintro rfl
    exact .literal hhost hip

/-- The targets of a name are what it resolves to. -/
theorem targets_name {url : Url} {host : String} {ip : IpAddr} (hhost : url.hostStr = some host)
    (hname : N.parseIp (bareHost host) = none) : Targets N url ip ↔
      ∃ ips, resolve N (bareHost host) (url.portOrKnownDefault.getD 443) = .ok ips ∧ ip ∈ ips := by
  constructor
  · rintro (⟨hhost', hip'⟩ | ⟨hhost', -, hips, hip⟩)
    · obtain rfl := Option.some.inj (hhost.symm.trans hhost')
      cases hname.symm.trans hip'
    · obtain rfl := Option.some.inj (hhost.symm.trans hhost')
      exact ⟨_, hips, hip⟩
  · rintro ⟨ips, hips, hip⟩
    exact .resolved hhost hname hips hip

/-- A host passes when it has addresses and none of them is forbidden. -/
theorem checkHost_ok {url : Url} : checkHost N url = .ok () ↔
    (∃ ip, Targets N url ip) ∧ ∀ ip, Targets N url ip → isForbiddenIp ip = false := by
  unfold checkHost
  cases hhost : url.hostStr with
  | none =>
    refine iff_of_false (fun h => nomatch h) ?_
    rintro ⟨⟨ip, ⟨hhost', -⟩ | ⟨hhost', -, -, -⟩⟩, -⟩ <;> cases hhost.symm.trans hhost'
  | some host =>
    cases hip : N.parseIp (bareHost host) with
    | some ip => simp [targets_literal N hhost hip, rejectIfForbidden_ok, hip]
    | none =>
      simp only [targets_name N hhost hip, hip]
      cases hips : resolve N (bareHost host) (url.portOrKnownDefault.getD 443) with
      | error e => simp [bind, Except.bind]
      | ok ips =>
        have hok : (Except.ok ips >>= fun ips => ips.forM (rejectIfForbidden N)) = .ok () ↔
            ∀ ip ∈ ips, isForbiddenIp ip = false := forM_reject_ok N
        obtain ⟨ip, hmem⟩ := resolve_nonempty N hips
        rw [hok]
        constructor
        · refine fun h => ⟨⟨ip, ips, rfl, hmem⟩, ?_⟩
          rintro ip' ⟨ips', hips', hmem'⟩
          obtain rfl := Except.ok.inj hips'
          exact h ip' hmem'
        · exact fun h ip' hmem' => h.2 ip' ⟨ips, rfl, hmem'⟩

/-- **What the strict policy accepts**: an https URL with a host whose addresses all pass. -/
theorem validate_ok {url : String} : strict.validate N url = .ok () ↔
    ∃ parsed, N.parseUrl url = .ok parsed ∧ parsed.scheme = "https" ∧ (∃ ip, Targets N parsed ip) ∧
      ∀ ip, Targets N parsed ip → isForbiddenIp ip = false := by
  unfold DestinationPolicy.validate strict
  cases hurl : N.parseUrl url with
  | error e => simp
  | ok parsed =>
    by_cases hscheme : parsed.scheme = "https"
    · simp [checkScheme, hscheme, bind, Except.bind, checkHost_ok]
    · simp [checkScheme, hscheme, bind, Except.bind]

end Policy

/-! ### The denied ranges -/

/-- The block of an IPv4 address and a prefix length. -/
def cidr (a b c d length : ℕ) : Block :=
  ⟨(((a * 256 + b) * 256 + c) * 256 + d) / 2 ^ (32 - length), 32 - length⟩

/-- The IPv4 ranges that the code denies. -/
def deniedRanges : List Block :=
  [cidr 127 0 0 0 8, cidr 10 0 0 0 8, cidr 172 16 0 0 12, cidr 192 168 0 0 16, cidr 169 254 0 0 16,
    cidr 224 0 0 0 4, cidr 255 255 255 255 32, cidr 0 0 0 0 32, cidr 192 0 2 0 24,
    cidr 198 51 100 0 24, cidr 203 0 113 0 24, cidr 100 64 0 0 10, cidr 0 0 0 0 8, cidr 192 0 0 0 24,
    cidr 198 18 0 0 15, cidr 240 0 0 0 4]

/-- The address is in a denied range. -/
def Denied (ip : Ipv4Addr) : Prop := ∃ range ∈ deniedRanges, ip.toNat ∈ range

section V4

variable (ip : Ipv4Addr)

theorem octets_lt : ip.a.toNat < 256 ∧ ip.b.toNat < 256 ∧ ip.c.toNat < 256 ∧ ip.d.toNat < 256 :=
  ⟨ip.a.toNat_lt, ip.b.toNat_lt, ip.c.toNat_lt, ip.d.toNat_lt⟩

/-- Membership in the block of an address by its octets. -/
theorem mem_cidr {p q r t length : ℕ} : ip.toNat ∈ cidr p q r t length ↔
    ((((ip.a.toNat * 256 + ip.b.toNat) * 256 + ip.c.toNat) * 256 + ip.d.toNat) / 2 ^ (32 - length) =
      (((p * 256 + q) * 256 + r) * 256 + t) / 2 ^ (32 - length)) := Iff.rfl

theorem eq_iff {ip' : Ipv4Addr} : ip = ip' ↔ ip.a.toNat = ip'.a.toNat ∧ ip.b.toNat = ip'.b.toNat ∧
    ip.c.toNat = ip'.c.toNat ∧ ip.d.toNat = ip'.d.toNat := by
  cases ip
  cases ip'
  simp [UInt8.toNat_inj]

/-- The range that each test is for. -/
theorem tests_iff :
    (ip.isLoopback = true ↔ ip.toNat ∈ cidr 127 0 0 0 8) ∧
    (ip.isPrivate = true ↔ ip.toNat ∈ cidr 10 0 0 0 8 ∨ ip.toNat ∈ cidr 172 16 0 0 12 ∨
      ip.toNat ∈ cidr 192 168 0 0 16) ∧
    (ip.isLinkLocal = true ↔ ip.toNat ∈ cidr 169 254 0 0 16) ∧
    (ip.isMulticast = true ↔ ip.toNat ∈ cidr 224 0 0 0 4) ∧
    (ip.isBroadcast = true ↔ ip.toNat ∈ cidr 255 255 255 255 32) ∧
    (ip.isUnspecified = true ↔ ip.toNat ∈ cidr 0 0 0 0 32) ∧
    (ip.isDocumentation = true ↔ ip.toNat ∈ cidr 192 0 2 0 24 ∨ ip.toNat ∈ cidr 198 51 100 0 24 ∨
      ip.toNat ∈ cidr 203 0 113 0 24) ∧
    (isSharedV4 ip = true ↔ ip.toNat ∈ cidr 100 64 0 0 10) ∧
    (isThisNetworkV4 ip = true ↔ ip.toNat ∈ cidr 0 0 0 0 8) ∧
    (isIetfProtocolV4 ip = true ↔ ip.toNat ∈ cidr 192 0 0 0 24) ∧
    (isBenchmarkingV4 ip = true ↔ ip.toNat ∈ cidr 198 18 0 0 15) ∧
    (isReservedClassE ip = true ↔ ip.toNat ∈ cidr 240 0 0 0 4) := by
  obtain ⟨ha, hb, hc, hd⟩ := octets_lt ip
  simp only [Ipv4Addr.isLoopback, Ipv4Addr.isPrivate, Ipv4Addr.isLinkLocal, Ipv4Addr.isMulticast,
    Ipv4Addr.isBroadcast, Ipv4Addr.isUnspecified, Ipv4Addr.isDocumentation, isSharedV4,
    isThisNetworkV4, isIetfProtocolV4, isBenchmarkingV4, isReservedClassE, mem_cidr, eq_iff,
    Bool.or_eq_true, Bool.and_eq_true, decide_eq_true_eq, ← UInt8.toNat_inj, UInt8.le_iff_toNat_le,
    UInt8.reduceToNat]
  refine ⟨?_, ?_, ?_, ?_, ?_, ?_, ?_, ?_, ?_, ?_, ?_, ?_⟩ <;> omega

/-- **The tests of an IPv4 address are the denied ranges.** -/
theorem isForbiddenV4_iff : isForbiddenV4 ip = true ↔ Denied ip := by
  obtain ⟨h₁, h₂, h₃, h₄, h₅, h₆, h₇, h₈, h₉, h₁₀, h₁₁, h₁₂⟩ := tests_iff ip
  simp only [isForbiddenV4, Denied, deniedRanges, Bool.or_eq_true, h₁, h₂, h₃, h₄, h₅, h₆, h₇, h₈, h₉,
    h₁₀, h₁₁, h₁₂, List.exists_mem_cons_iff, List.not_mem_nil, false_and, exists_false, or_false,
    or_assoc]

end V4

/-- The block of an IPv6 address with only its first and last segments set. -/
def cidrV6 (first last length : ℕ) : Block :=
  ⟨(first * 2 ^ 112 + last) / 2 ^ (128 - length), 128 - length⟩

/-- Loopback, multicast, unspecified, unique-local and link-local. -/
def specialRanges : List Block :=
  [cidrV6 0 1 128, cidrV6 0xff00 0 8, cidrV6 0 0 128, cidrV6 0xfc00 0 7, cidrV6 0xfe80 0 10]

/-- An address of one of the special ranges. -/
def Special (ip : Ipv6Addr) : Prop := ∃ range ∈ specialRanges, ip.toNat ∈ range

/-- The first six segments, as one number. -/
def Ipv6Addr.high (ip : Ipv6Addr) : ℕ :=
  ((((ip.s0.toNat * 65536 + ip.s1.toNat) * 65536 + ip.s2.toNat) * 65536 + ip.s3.toNat) * 65536 +
    ip.s4.toNat) * 65536 + ip.s5.toNat

section V6

variable (ip : Ipv6Addr)

theorem low_lt : ip.low < 2 ^ 112 := by
  have h₁ := ip.s1.toNat_lt
  have h₂ := ip.s2.toNat_lt
  have h₃ := ip.s3.toNat_lt
  have h₄ := ip.s4.toNat_lt
  have h₅ := ip.s5.toNat_lt
  have h₆ := ip.s6.toNat_lt
  have h₇ := ip.s7.toNat_lt
  unfold Ipv6Addr.low
  omega

/-- A block that frees all but the first segment. -/
theorem mem_segment {p k : ℕ} : ip.toNat ∈ (⟨p, 112 + k⟩ : Block) ↔ ip.s0.toNat ∈ (⟨p, k⟩ : Block) :=
  mem_append (low_lt ip)

/-- A mask of the first segment. -/
theorem masked_segment {p k : ℕ} (hk : k ≤ 16) : ip.s0.toNat &&& (2 ^ 16 - 2 ^ k) = p * 2 ^ k ↔
    ip.toNat ∈ (⟨p, 112 + k⟩ : Block) :=
  (mask_eq_iff hk ip.s0.toNat_lt).trans (mem_segment ip).symm

theorem lastOctets_toNat : ip.lastOctets.toNat = ip.s6.toNat * 65536 + ip.s7.toNat := by
  have h₆ := ip.s6.toNat_lt
  have h₇ := ip.s7.toNat_lt
  have hhigh : ∀ s : UInt16, (s >>> 8).toUInt8.toNat = s.toNat / 256 % 256 := by
    intro s
    simp [Nat.shiftRight_eq_div_pow]
  simp only [Ipv4Addr.toNat, Ipv6Addr.lastOctets, hhigh, UInt16.toNat_toUInt8]
  omega

/-- An address is its first six segments over its last octets. -/
theorem toNat_split : ip.toNat = ip.high * 2 ^ 32 + ip.lastOctets.toNat := by
  rw [lastOctets_toNat]
  unfold Ipv6Addr.toNat Ipv6Addr.low Ipv6Addr.high
  omega

/-- The addresses with only the last segment set are the small numbers. -/
theorem eq_small {n : UInt16} : ip = ⟨0, 0, 0, 0, 0, 0, 0, n⟩ ↔ ip.toNat = n.toNat := by
  have h₇ := ip.s7.toNat_lt
  have hn := n.toNat_lt
  cases ip
  simp only [Ipv6Addr.mk.injEq, ← UInt16.toNat_inj, Ipv6Addr.toNat, Ipv6Addr.low, UInt16.reduceToNat]
  omega

/-- **The tests of an IPv6 address that embeds nothing are the special ranges.** -/
theorem isForbiddenV6_iff : isForbiddenV6 ip = true ↔ Special ip := by
  have hloopback : ip.isLoopback = true ↔ ip.toNat ∈ cidrV6 0 1 128 := by
    rw [Ipv6Addr.isLoopback, decide_eq_true_eq, eq_small ip (n := 1)]
    exact mem_single.symm
  have hmulticast : ip.isMulticast = true ↔ ip.toNat ∈ cidrV6 0xff00 0 8 := by
    rw [Ipv6Addr.isMulticast, decide_eq_true_eq, ← UInt16.toNat_inj, UInt16.toNat_and]
    exact masked_segment ip (p := 0xff) (k := 8) (by decide)
  have hunspecified : ip.isUnspecified = true ↔ ip.toNat ∈ cidrV6 0 0 128 := by
    rw [Ipv6Addr.isUnspecified, decide_eq_true_eq, eq_small ip (n := 0)]
    exact mem_single.symm
  have hula : isUlaV6 ip = true ↔ ip.toNat ∈ cidrV6 0xfc00 0 7 := by
    rw [isUlaV6, decide_eq_true_eq, ← UInt16.toNat_inj, UInt16.toNat_and]
    exact masked_segment ip (p := 0x7e) (k := 9) (by decide)
  have hlinkLocal : isLinkLocalV6 ip = true ↔ ip.toNat ∈ cidrV6 0xfe80 0 10 := by
    rw [isLinkLocalV6, decide_eq_true_eq, ← UInt16.toNat_inj, UInt16.toNat_and]
    exact masked_segment ip (p := 0x3fa) (k := 6) (by decide)
  simp only [isForbiddenV6, Special, specialRanges, Bool.or_eq_true, hloopback, hmulticast,
    hunspecified, hula, hlinkLocal, List.exists_mem_cons_iff, List.not_mem_nil, false_and,
    exists_false, or_false, or_assoc]

end V6

/-! ### Embedded addresses -/

/-- The standard forms of an IPv4 address in an IPv6 address: `::ffff:a`, `64:ff9b::a`, `::a` and
`2002:a::/48`. -/
inductive Form
  | mapped
  | nat64
  | compatible
  | sixToFour
deriving DecidableEq

/-- The IPv6 address carries the IPv4 address in the form. -/
def Form.Carries (v : Ipv6Addr) (ip : Ipv4Addr) : Form → Prop
  | mapped => v.toNat = 0xffff * 2 ^ 32 + ip.toNat
  | nat64 => v.toNat = 0x64ff9b * 2 ^ 96 + ip.toNat
  | compatible => v.toNat = ip.toNat
  | sixToFour => v.toNat / 2 ^ 80 = 0x2002 * 2 ^ 32 + ip.toNat

/-- What the guard is for, at one IPv6 address. -/
structure Covered (v : Ipv6Addr) : Prop where
  embedded : ∀ form ip, Denied ip → Form.Carries v ip form → isForbiddenIp (.v6 v) = true
  special : Special v → isForbiddenIp (.v6 v) = true
  allowed : ∀ ip, ¬Denied ip → Form.mapped.Carries v ip ∨ Form.nat64.Carries v ip →
    isForbiddenIp (.v6 v) = false

section Embedded

variable {v : Ipv6Addr} {ip : Ipv4Addr}

theorem toNat_lt : ip.toNat < 2 ^ 32 := by
  obtain ⟨ha, hb, hc, hd⟩ := octets_lt ip
  unfold Ipv4Addr.toNat
  omega

theorem toNat_inj {ip' : Ipv4Addr} : ip.toNat = ip'.toNat ↔ ip = ip' := by
  obtain ⟨ha, hb, hc, hd⟩ := octets_lt ip
  obtain ⟨ha', hb', hc', hd'⟩ := octets_lt ip'
  rw [eq_iff]
  unfold Ipv4Addr.toNat
  omega

/-- An embedding in the last octets, by the segments before them. -/
theorem embeds_iff {h : ℕ} : v.toNat = h * 2 ^ 32 + ip.toNat ↔ v.high = h ∧ v.lastOctets = ip := by
  have hlast : v.lastOctets.toNat < 2 ^ 32 := toNat_lt
  have hip : ip.toNat < 2 ^ 32 := toNat_lt
  rw [toNat_split, ← toNat_inj]
  omega

theorem high_mapped : v.high = 0xffff ↔
    v.s0 = 0 ∧ v.s1 = 0 ∧ v.s2 = 0 ∧ v.s3 = 0 ∧ v.s4 = 0 ∧ v.s5 = 0xffff := by
  have h₅ := v.s5.toNat_lt
  simp only [Ipv6Addr.high, ← UInt16.toNat_inj, UInt16.reduceToNat]
  omega

theorem high_nat64 : v.high = 0x64ff9b * 2 ^ 64 ↔
    v.s0 = 0x0064 ∧ v.s1 = 0xff9b ∧ v.s2 = 0 ∧ v.s3 = 0 ∧ v.s4 = 0 ∧ v.s5 = 0 := by
  have h₁ := v.s1.toNat_lt
  have h₂ := v.s2.toNat_lt
  have h₃ := v.s3.toNat_lt
  have h₄ := v.s4.toNat_lt
  have h₅ := v.s5.toNat_lt
  simp only [Ipv6Addr.high, ← UInt16.toNat_inj, UInt16.reduceToNat]
  omega

theorem toIpv4Mapped_iff : v.toIpv4Mapped = some ip ↔ Form.mapped.Carries v ip := by
  rw [Form.Carries, embeds_iff, high_mapped, Ipv6Addr.toIpv4Mapped]
  split_ifs with h <;> simp [h]

theorem nat64EmbeddedV4_iff : nat64EmbeddedV4 v = some ip ↔ Form.nat64.Carries v ip := by
  have hshift : 0x64ff9b * 2 ^ 96 + ip.toNat = 0x64ff9b * 2 ^ 64 * 2 ^ 32 + ip.toNat := by omega
  rw [Form.Carries, hshift, embeds_iff, high_nat64, nat64EmbeddedV4]
  split_ifs with h <;> simp [h]

/-- An address that carries another in one of the first two forms is screened by what it carries. -/
theorem screen_carried (h : Form.mapped.Carries v ip ∨ Form.nat64.Carries v ip) :
    isForbiddenIp (.v6 v) = true ↔ Denied ip := by
  rw [← isForbiddenV4_iff, isForbiddenIp]
  rcases h with h | h
  · rw [toIpv4Mapped_iff.mpr h]
  · have hnone : v.toIpv4Mapped = none := by
      rw [Option.eq_none_iff_forall_ne_some]
      intro ip' hmapped
      have hother := toIpv4Mapped_iff.mp hmapped
      have hlt : ip'.toNat < 2 ^ 32 := toNat_lt
      simp only [Form.Carries] at h hother
      omega
    rw [hnone, nat64EmbeddedV4_iff.mpr h]

/-- Any other address is screened by itself. -/
theorem screen_plain (h : ∀ ip, ¬(Form.mapped.Carries v ip ∨ Form.nat64.Carries v ip)) :
    isForbiddenIp (.v6 v) = true ↔ Special v := by
  have hmapped : v.toIpv4Mapped = none :=
    Option.eq_none_iff_forall_ne_some.mpr fun ip hip => h ip (.inl (toIpv4Mapped_iff.mp hip))
  have hnat64 : nat64EmbeddedV4 v = none :=
    Option.eq_none_iff_forall_ne_some.mpr fun ip hip => h ip (.inr (nat64EmbeddedV4_iff.mp hip))
  rw [← isForbiddenV6_iff, isForbiddenIp, hmapped, hnat64]

theorem special_iff : Special v ↔ v.toNat = 1 ∨ v.toNat / 2 ^ 120 = 0xff ∨ v.toNat = 0 ∨
    v.toNat / 2 ^ 121 = 0x7e ∨ v.toNat / 2 ^ 118 = 0x3fa := by
  simp only [Special, specialRanges, List.exists_mem_cons_iff, List.not_mem_nil, false_and,
    exists_false, or_false]
  simp only [mem_def, cidrV6, Nat.reducePow, Nat.reduceMul, Nat.reduceAdd, Nat.reduceSub,
    Nat.reduceDiv, Nat.div_one, Nat.zero_mul]

/-- Neither form reaches the special ranges. -/
theorem special_plain (h : Special v) (ip : Ipv4Addr) :
    ¬(Form.mapped.Carries v ip ∨ Form.nat64.Carries v ip) := by
  have hlt : ip.toNat < 2 ^ 32 := toNat_lt
  rw [special_iff] at h
  simp only [Form.Carries]
  omega

/-- The last two forms are neither of the first two. -/
theorem unscreened_plain (h : Form.compatible.Carries v ip ∨ Form.sixToFour.Carries v ip)
    (ip' : Ipv4Addr) : ¬(Form.mapped.Carries v ip' ∨ Form.nat64.Carries v ip') := by
  have hlt : ip.toNat < 2 ^ 32 := toNat_lt
  have hlt' : ip'.toNat < 2 ^ 32 := toNat_lt
  simp only [Form.Carries] at h ⊢
  omega

/-- A compatible address is special when it is `::` or `::1`. -/
theorem special_compatible (h : Form.compatible.Carries v ip) : Special v ↔ v.toNat ≤ 1 := by
  have hlt : ip.toNat < 2 ^ 32 := toNat_lt
  rw [special_iff]
  simp only [Form.Carries] at h
  omega

theorem special_sixToFour (h : Form.sixToFour.Carries v ip) : ¬Special v := by
  have hlt : ip.toNat < 2 ^ 32 := toNat_lt
  rw [special_iff]
  simp only [Form.Carries] at h
  omega

/-- **When the guard covers an IPv6 address**: it carries no denied address in 6to4 form, and in
compatible form only as `::` or `::1`.  IPv4 addresses are screened as listed. -/
theorem covered_iff (v : Ipv6Addr) : (∀ ip, isForbiddenIp (.v4 ip) = true ↔ Denied ip) ∧
    (Covered v ↔ ∀ ip, Denied ip →
      (Form.compatible.Carries v ip → v.toNat ≤ 1) ∧ ¬Form.sixToFour.Carries v ip) := by
  refine ⟨isForbiddenV4_iff, fun h ip hip => ⟨fun hform => ?_, fun hform => ?_⟩, fun h => ?_⟩
  · have hforbidden := h.embedded .compatible ip hip hform
    exact (special_compatible hform).mp
      ((screen_plain (unscreened_plain (.inl hform))).mp hforbidden)
  · have hforbidden := h.embedded .sixToFour ip hip hform
    exact special_sixToFour hform ((screen_plain (unscreened_plain (.inr hform))).mp hforbidden)
  · refine ⟨fun form ip hip hform => ?_, fun hspecial => ?_, fun ip hip hform => ?_⟩
    · cases form with
      | mapped => exact (screen_carried (.inl hform)).mpr hip
      | nat64 => exact (screen_carried (.inr hform)).mpr hip
      | compatible =>
        have hspecial := (special_compatible hform).mpr ((h ip hip).1 hform)
        exact (screen_plain (special_plain hspecial)).mpr hspecial
      | sixToFour => exact absurd hform (h ip hip).2
    · exact (screen_plain (special_plain hspecial)).mpr hspecial
    · exact Bool.eq_false_iff.mpr fun hforbidden => hip ((screen_carried hform).mp hforbidden)

/-- The metadata service in 6to4 form. -/
def sampleSixToFour : Ipv6Addr := ⟨0x2002, 0xa9fe, 0xa9fe, 0, 0, 0, 0, 0⟩

/-- The metadata service is denied, and its 6to4 form is let through. -/
theorem sixToFour_passes : isForbiddenIp (.v4 ⟨169, 254, 169, 254⟩) = true ∧
    Form.sixToFour.Carries sampleSixToFour ⟨169, 254, 169, 254⟩ ∧
    isForbiddenIp (.v6 sampleSixToFour) = false ∧ ¬Covered sampleSixToFour := by
  have hdenied : Denied ⟨169, 254, 169, 254⟩ := (isForbiddenV4_iff _).mp (by decide)
  have hcarries : Form.sixToFour.Carries sampleSixToFour ⟨169, 254, 169, 254⟩ := by
    simp only [Form.Carries]
    decide
  have hpasses : isForbiddenIp (.v6 sampleSixToFour) = false := by decide
  refine ⟨by decide, hcarries, hpasses, fun h => ?_⟩
  rw [h.embedded .sixToFour _ hdenied hcarries] at hpasses
  cases hpasses

end Embedded

end MerkleVault.Services.Egress
