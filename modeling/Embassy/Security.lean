import Embassy.IpAddress
import Embassy.Lib.Regex
import Embassy.PyString

/-!
# Domain validation and the SSRF guard (`verify/security.py`)

`validateDomain` and `resolvePublicIp`. `Lower` is what is relied on of `str.lower`, `IpProperties` what is
relied on of the properties of an `ipaddress` object.
-/

namespace Embassy
open Lib

namespace Security

/-! ### `validate_domain` -/

/-- `str.lower`: on ASCII letter by letter, and the result has no capital of ASCII. -/
structure Lower where
  lower : String → String
  ascii : ∀ s, (∀ c ∈ s.toList, c.toNat < 128) → lower s = String.ofList (s.toList.map Char.toLower)
  noUpper : ∀ s, ∀ c ∈ (lower s).toList, c.isUpper = false

/-- `str.rstrip(".")` -/
def rstripDots (s : String) : String := String.ofList (s.toList.rdropWhile (· = '.'))

/-- `str.lstrip(".")` -/
def lstripDots (s : String) : String := String.ofList (s.toList.dropWhile (· = '.'))

/-- `str.endswith` -/
def endsWith (s suffix : String) : Bool := suffix.toList <:+ s.toList

/-- The class `[A-Za-z0-9-]`. -/
def isLabelChar (c : Char) : Bool := c.isAlphanum || c = '-'

/-- `_LABEL` -/
def labelRe : Regex :=
  .seq (.notAhead (· = '-')) (.seq (.rep 1 (some 63) (.set isLabelChar)) (.notBehind (· = '-')))

def hostnameRe : Regex :=
  .seq .start (.seq (.rep 1 none (.seq labelRe (.set (· = '.'))))
    (.seq (.rep 2 (some 63) (.set Char.isAlpha)) .end_))

def reservedSuffixes : List String :=
  ["localhost", ".local", ".test", ".example", ".invalid", ".internal"]

def sharedHostingSuffixes : List String :=
  ["github.io", "gitlab.io", "netlify.app", "vercel.app", "pages.dev", "herokuapp.com", "s3.amazonaws.com",
    "web.app", "firebaseapp.com", "azurewebsites.net", "azureedge.net", "cloudfront.net", "blogspot.com",
    "wordpress.com"]

/-- What is raised in `validate_domain`. -/
inductive DomainExc
  /-- `InvalidDomain`, a `ValueError`. -/
  | invalidDomain (detail : String)
  /-- Another `ValueError`. -/
  | valueError
  deriving DecidableEq, Repr

/-- `except ValueError` catches it. -/
def DomainExc.isValueError : DomainExc → Bool
  | invalidDomain _ | valueError => true

/-- The `try` block: `ip_address` raises, or what follows it does. -/
def rejectIpLiteral (domain : String) : Except DomainExc Unit :=
  match ipAddress domain with
  | none => .error .valueError
  | some _ => .error (.invalidDomain "IP literals are not accepted as a domain")

/-- `domain` is a reserved name, or below one. -/
def isReserved (domain : String) : Bool :=
  domain = "localhost" || reservedSuffixes.any fun s => domain = lstripDots s || endsWith domain s

/-- `domain` is a shared-hosting platform, or below one. -/
def isSharedHosting (domain : String) : Bool :=
  sharedHostingSuffixes.any fun s => domain = s || endsWith domain ("." ++ s)

/-- The rest of `validate_domain`, after the `try` block. -/
def checkHostname (domain : String) : Except DomainExc String :=
  if !hostnameRe.isMatch domain then .error (.invalidDomain "not a well-formed hostname")
  else if isReserved domain then .error (.invalidDomain "reserved/special-use domain")
  else if isSharedHosting domain then
    .error (.invalidDomain ("bare subdomains of shared-hosting platforms are not accepted " ++
      "(subdomain-takeover risk)"))
  else .ok domain

def validateDomain (str : Lower) (domain : String) : Except DomainExc String :=
  let domain := rstripDots (str.lower (strip domain))
  if 253 < domain.length ∨ domain = "" then .error (.invalidDomain "domain too long or empty")
  else
    match rejectIpLiteral domain with
    | .ok () => checkHostname domain
    | .error e => if e.isValueError then checkHostname domain else .error e

/-! ### `resolve_public_ip` -/

/-- `IPv6Address.ipv4_mapped` -/
def ipv4Mapped (a : BitVec 128) : Option (BitVec 32) :=
  if a >>> 32 = 0xFFFF#128 then some (a.setWidth 32) else none

/-- The properties of an address that `resolve_public_ip` asks for. -/
structure Flags where
  isPrivate : Bool
  isLoopback : Bool
  isLinkLocal : Bool
  isMulticast : Bool
  isReserved : Bool
  isUnspecified : Bool
  deriving DecidableEq, Repr

/-- One of them is set. -/
def Flags.any (f : Flags) : Bool :=
  f.isPrivate || f.isLoopback || f.isLinkLocal || f.isMulticast || f.isReserved || f.isUnspecified

/-- The properties of every address; those of an IPv4-mapped one are those of the address in it. -/
structure IpProperties where
  flags : IpAddress → Flags
  mapped : ∀ a scope m, ipv4Mapped a = some m → flags (.v6 a scope) = flags (.v4 m)

structure Network where
  address : BitVec 32
  prefixLength : ℕ
  deriving DecidableEq, Repr

/-- `addr in net`, false for an IPv6 address. -/
def Network.contains (net : Network) : IpAddress → Bool
  | .v4 a => a >>> (32 - net.prefixLength) = net.address >>> (32 - net.prefixLength)
  | .v6 _ _ => false

/-- `_EXTRA_BLOCKED_NETWORKS`: 100.64.0.0/10. -/
def extraBlockedNetworks : List Network := [⟨0x64400000#32, 10⟩]

/-- The condition to skip an address. -/
def isBlocked (props : IpProperties) (addr : IpAddress) : Bool :=
  (props.flags addr).any || extraBlockedNetworks.any fun net => net.contains addr

/-- `resolve_public_ip`, on the hosts of what `getaddrinfo` returned; an error is the text of a
`ValueError`. -/
def resolvePublicIp (props : IpProperties) (hostname : String) : List String → Except String String
  | [] => .error s!"{hostname} did not resolve to any publicly routable address"
  | ip :: infos =>
    match ipAddress ip with
    | none => .error s!"'{ip}' does not appear to be an IPv4 or IPv6 address"
    | some addr => if isBlocked props addr then resolvePublicIp props hostname infos else .ok ip

end Security

end Embassy
