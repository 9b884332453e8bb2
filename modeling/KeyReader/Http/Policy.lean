import KeyReader.Ascii
import Mathlib.Data.List.Basic

/-! Internet addresses, their text as the standard library reads and writes it, and the addresses
and names that a request may reach. -/

namespace KeyReader.Http

open Ascii

structure Ipv4Addr where
  first : UInt8
  second : UInt8
  third : UInt8
  fourth : UInt8
deriving DecidableEq

structure Ipv6Addr where
  segments : Vector UInt16 8
deriving DecidableEq

inductive IpAddr
  | v4 (address : Ipv4Addr)
  | v6 (address : Ipv6Addr)
deriving DecidableEq

def digitValue (character : Char) : Nat :=
  if character.isDigit then character.toNat - '0'.toNat
  else character.toLower.toNat - 'a'.toNat + 10

def isRadixDigit (radix : Nat) (character : Char) : Bool :=
  character.isHexDigit && digitValue character < radix

/-- `Parser::read_number` with a bound on the digits, for numbers up to `limit`. -/
def readNumber (radix maxDigits limit : Nat) (allowZeroPrefix : Bool) (text : List Char) :
    Option (Nat × List Char) :=
  let digits := text.takeWhile (isRadixDigit radix)
  let value := digits.foldl (fun value character => value * radix + digitValue character) 0
  if digits = [] ∨ maxDigits < digits.length ∨ limit < value then none
  else if !allowZeroPrefix ∧ text.head? = some '0' ∧ 1 < digits.length then none
  else some (value, text.drop digits.length)

/-- `Parser::read_separator`: a separator stands before each part but the first. -/
def readSeparator {α : Type} (separator : Char) (index : Nat)
    (inner : List Char → Option (α × List Char)) (text : List Char) : Option (α × List Char) :=
  if index = 0 then inner text
  else if text.head? = some separator then inner (text.drop 1)
  else none

def readOctet (index : Nat) : List Char → Option (Nat × List Char) :=
  readSeparator '.' index (readNumber 10 3 255 false)

def readIpv4Addr (text : List Char) : Option (Ipv4Addr × List Char) := do
  let first ← readOctet 0 text
  let second ← readOctet 1 first.2
  let third ← readOctet 2 second.2
  let fourth ← readOctet 3 third.2
  return (⟨UInt8.ofNat first.1, UInt8.ofNat second.1, UInt8.ofNat third.1,
    UInt8.ofNat fourth.1⟩, fourth.2)

/-- The groups of sixteen bits of an address written inside a longer one. -/
def Ipv4Addr.groups (address : Ipv4Addr) : List Nat :=
  [address.first.toNat * 256 + address.second.toNat, address.third.toNat * 256 + address.fourth.toNat]

/-- What `read_groups` found: the groups, whether the last two were written as an IPv4 address,
and the rest of the text. -/
structure Groups where
  groups : List Nat
  embedded : Bool
  rest : List Char

/-- `read_groups`, with room for `remaining` more groups. -/
def readGroups : Nat → List Nat → List Char → Groups
  | 0, groups, text => ⟨groups, false, text⟩
  | remaining + 1, groups, text =>
    let embedded := if 0 < remaining then readSeparator ':' groups.length readIpv4Addr text else none
    match embedded with
    | some (address, rest) => ⟨groups ++ address.groups, true, rest⟩
    | none =>
      match readSeparator ':' groups.length (readNumber 16 4 65535 true) text with
      | some (group, rest) => readGroups remaining (groups ++ [group]) rest
      | none => ⟨groups, false, text⟩

def Ipv6Addr.ofGroups (groups : List Nat) : Ipv6Addr :=
  ⟨Vector.ofFn fun i => UInt16.ofNat (groups.getD i 0)⟩

def readIpv6Addr (text : List Char) : Option (Ipv6Addr × List Char) :=
  let head := readGroups 8 [] text
  if head.groups.length = 8 then some (.ofGroups head.groups, head.rest)
  else if head.embedded then none
  else match head.rest with
    | ':' :: ':' :: rest =>
      -- the double colon stands for at least one group of zeros
      let tail := readGroups (7 - head.groups.length) [] rest
      let zeros := List.replicate (8 - head.groups.length - tail.groups.length) 0
      some (.ofGroups (head.groups ++ zeros ++ tail.groups), tail.rest)
    | _ => none

def readIpAddr (text : List Char) : Option (IpAddr × List Char) :=
  match readIpv4Addr text with
  | some (address, rest) => some (.v4 address, rest)
  | none =>
    match readIpv6Addr text with
    | some (address, rest) => some (.v6 address, rest)
    | none => none

/-- `IpAddr::from_str`: the whole text is the address. -/
def IpAddr.parse (text : String) : Option IpAddr :=
  match readIpAddr text.toList with
  | some (address, []) => some address
  | _ => none

def Ipv4Addr.toText (address : Ipv4Addr) : String :=
  toString address.first.toNat ++ "." ++ toString address.second.toNat ++ "." ++
    toString address.third.toNat ++ "." ++ toString address.fourth.toNat

/-- `Ipv6Addr::to_ipv4_mapped`. -/
def Ipv6Addr.toIpv4Mapped (address : Ipv6Addr) : Option Ipv4Addr :=
  if address.segments.toList.take 6 = [0, 0, 0, 0, 0, 0xffff] then
    let high := address.segments[6]
    let low := address.segments[7]
    some ⟨(high >>> 8).toUInt8, high.toUInt8, (low >>> 8).toUInt8, low.toUInt8⟩
  else none

/-- A run of groups. -/
structure Span where
  start : Nat
  length : Nat

/-- The first longest run of zero groups. -/
def longestZeros : Nat → Span → Span → List UInt16 → Span
  | _, _, longest, [] => longest
  | index, current, longest, segment :: segments =>
    if segment = 0 then
      let current : Span :=
        if current.length = 0 then ⟨index, 1⟩ else { current with length := current.length + 1 }
      longestZeros (index + 1) current
        (if longest.length < current.length then current else longest) segments
    else longestZeros (index + 1) ⟨0, 0⟩ longest segments

def hexGroups (segments : List UInt16) : String :=
  ":".intercalate (segments.map fun segment => String.ofList (Nat.toDigits 16 segment.toNat))

def Ipv6Addr.toText (address : Ipv6Addr) : String :=
  match address.toIpv4Mapped with
  | some mapped => "::ffff:" ++ mapped.toText
  | none =>
    let segments := address.segments.toList
    let zeros := longestZeros 0 ⟨0, 0⟩ ⟨0, 0⟩ segments
    if 1 < zeros.length then
      hexGroups (segments.take zeros.start) ++ "::" ++
        hexGroups (segments.drop (zeros.start + zeros.length))
    else hexGroups segments

def IpAddr.toText : IpAddr → String
  | .v4 address => address.toText
  | .v6 address => address.toText

/-- The order of addresses: by the version and then by the octets or segments. -/
def IpAddr.key : IpAddr → List Nat
  | .v4 address =>
    [4, address.first.toNat, address.second.toNat, address.third.toNat, address.fourth.toNat]
  | .v6 address => 6 :: address.segments.toList.map UInt16.toNat

def isPublicIpv4 (address : Ipv4Addr) : Bool :=
  let first := address.first
  let second := address.second
  let third := address.third
  !(first = 0
    || first = 10
    || first = 127
    || (first = 100 && (64 ≤ second && second ≤ 127))
    || (first = 169 && second = 254)
    || (first = 172 && (16 ≤ second && second ≤ 31))
    || (first = 192 && second = 0 && third = 0)
    || (first = 192 && second = 0 && third = 2)
    || (first = 192 && second = 88 && third = 99)
    || (first = 192 && second = 168)
    || (first = 198 && (second = 18 || second = 19))
    || (first = 198 && second = 51 && third = 100)
    || (first = 203 && second = 0 && third = 113)
    || 224 ≤ first)

def isPublicIpv6 (address : Ipv6Addr) : Bool :=
  match address.toIpv4Mapped with
  | some mapped => isPublicIpv4 mapped
  | none =>
    let first := address.segments[0]
    let second := address.segments[1]
    let globalUnicast := first &&& 0xe000 = 0x2000
    let protocolAssignments := first = 0x2001 && second < 0x0200
    let documentation := (first = 0x2001 && second = 0x0db8) ||
      (first = 0x3fff && second &&& 0xf000 = 0)
    let deprecatedSixToFour := first = 0x2002
    globalUnicast && !protocolAssignments && !documentation && !deprecatedSixToFour

def isPublicIp : IpAddr → Bool
  | .v4 address => isPublicIpv4 address
  | .v6 address => isPublicIpv6 address

def isLocalhostName (host : String) : Bool :=
  let host := trimEnd '.' host
  eqIgnoreCase host "localhost" || endsWith ".localhost" (lower host)

theorem isLocalhostName_canonical (host : String) :
    isLocalhostName (lower (trimEnd '.' host)) = isLocalhostName host := by
  simp only [isLocalhostName, trimEnd_dot_lower, trimEnd_idem, eqIgnoreCase_lower, lower_idem]

end KeyReader.Http

/-! The policy of an HTTP capability.  Reading URLs is left to a parser that the capability is
given. -/

namespace KeyReader.Http

open Ascii

/-- A time span, in nanoseconds. -/
abbrev Duration := Nat

def Duration.fromSecs (seconds : Nat) : Duration := seconds * 1000000000

inductive TimeoutStage
  | resolve
  | connect
  | request
deriving DecidableEq

/-- The failures of a request.  Those of the document cache play no part here. -/
inductive HttpError
  | invalidPolicy (message : String)
  | invalidRequest (message : String)
  | invalidUrl (message : String)
  | schemeDenied (scheme : String)
  | hostDenied (host : String)
  | localhostDenied (host : String)
  | addressDenied (address : IpAddr)
  | resolve (message : String)
  | timeout (stage : TimeoutStage)
  | cancelled
  | requestTooLarge (limit : Nat)
  | responseHeadersTooLarge (limit : Nat)
  | responseTooLarge (limit : Nat)
  | contentTypeMissing
  | contentTypeDenied (mediaType : String)
  | contentEncodingDenied (encoding : String)
  | redirect (message : String)
  | concurrencyLimit (limit : Nat)
  | rateLimited (retryAfter : Duration)
  | transport (message : String)
deriving DecidableEq

inductive Host
  | domain (name : String)
  | ipv4 (address : Ipv4Addr)
  | ipv6 (address : Ipv6Addr)
deriving DecidableEq

structure Url where
  scheme : String
  username : String
  password : Option String
  host : Option Host
  /-- The port, unless it is the default of the scheme. -/
  port : Option UInt16
  path : String
  query : Option String
  fragment : Option String
deriving DecidableEq

/-- The address of a host in a URL.  The longest run of two or more zero groups is left out. -/
def Ipv6Addr.serialize (address : Ipv6Addr) : String :=
  let segments := address.segments.toList
  let zeros := longestZeros 0 ⟨0, 0⟩ ⟨0, 0⟩ segments
  if 1 < zeros.length then
    hexGroups (segments.take zeros.start) ++ "::" ++
      hexGroups (segments.drop (zeros.start + zeros.length))
  else hexGroups segments

/-- `Url::host_str`. -/
def Host.hostStr : Host → String
  | .domain name => name
  | .ipv4 address => address.toText
  | .ipv6 address => "[" ++ address.serialize ++ "]"

def knownDefaultPort (scheme : String) : Option UInt16 :=
  if scheme = "http" ∨ scheme = "ws" then some 80
  else if scheme = "https" ∨ scheme = "wss" then some 443
  else if scheme = "ftp" then some 21
  else none

def Url.portOrKnownDefault (url : Url) : Option UInt16 := url.port.or (knownDefaultPort url.scheme)

def Url.credentials (url : Url) : String :=
  match url.password with
  | some password => url.username ++ ":" ++ password ++ "@"
  | none => if url.username = "" then "" else url.username ++ "@"

/-- `Url::as_str`. -/
def Url.asStr (url : Url) : String :=
  let authority := match url.host with
    | some host =>
      let port := match url.port with
        | some port => ":" ++ toString port.toNat
        | none => ""
      "//" ++ url.credentials ++ host.hostStr ++ port
    | none => if startsWith "//" url.path then "/." else ""
  let query := match url.query with
    | some query => "?" ++ query
    | none => ""
  let fragment := match url.fragment with
    | some fragment => "#" ++ fragment
    | none => ""
  url.scheme ++ ":" ++ authority ++ url.path ++ query ++ fragment

def Url.withoutFragment (url : Url) : Url := { url with fragment := none }

/-- The parser of the `url` crate.  A failure is the text of the error. -/
structure UrlParser where
  parse : String → Except String Url
  join : Url → String → Except String Url
  parseHost : String → Except String Host

inductive UrlParser.Parsed (parser : UrlParser) : Url → Prop
  | parse {text : String} {url : Url} : parser.parse text = .ok url → parser.Parsed url
  | join {base url : Url} {location : String} :
      parser.join base location = .ok url → parser.Parsed url

/-- What the specification of URLs says of a domain in an HTTP URL: it has no blanks, is not
written as an address, and as a host it is itself. -/
structure UrlParser.Specified (parser : UrlParser) : Prop where
  trimmed : ∀ url, parser.Parsed url → url.scheme = "http" ∨ url.scheme = "https" →
    ∀ name, url.host = some (.domain name) → trim name = name
  notAddress : ∀ url, parser.Parsed url → url.scheme = "http" ∨ url.scheme = "https" →
    ∀ name, url.host = some (.domain name) → IpAddr.parse name = none
  sameHost : ∀ url, parser.Parsed url → url.scheme = "http" ∨ url.scheme = "https" →
    ∀ name, url.host = some (.domain name) → parser.parseHost name = .ok (.domain name)

section Hosts

variable (parser : UrlParser)

def isAsciiWhitespace (character : Char) : Bool :=
  character = ' ' || character = '\t' || character = '\n' || character = '\x0c' || character = '\r'

def canonicalHost (value : String) : Except HttpError String :=
  let value := trim value
  if value = "" ∨ value.toList.any isAsciiWhitespace ∨
      value.toList.any (fun character => ['/', '@', '?', '#'].contains character) then
    .error (.invalidPolicy ("invalid exact host `" ++ value ++ "`"))
  else match IpAddr.parse value with
    | some address => .ok address.toText
    | none =>
      match parser.parseHost value with
      | .error error => .error (.invalidPolicy ("invalid exact host: " ++ error))
      | .ok host =>
        let canonical := match host with
          | .domain domain => lower (trimEnd '.' domain)
          | .ipv4 address => address.toText
          | .ipv6 address => address.toText
        if canonical = "" then .error (.invalidPolicy "host cannot be empty")
        else .ok canonical

structure GrantedHost where
  name : String
  notLocal : isLocalhostName name = false
  isPublic : ∀ address, IpAddr.parse name = some address → isPublicIp address = true

structure ExactHostAllowlist where
  hosts : List GrantedHost
  nonempty : hosts ≠ []

def ExactHostAllowlist.allows (allowlist : ExactHostAllowlist) (host : String) : Bool :=
  match canonicalHost parser host with
  | .ok host => (allowlist.hosts.map GrantedHost.name).contains host
  | .error _ => false

end Hosts

inductive SchemePolicy
  | httpsOnly
  | httpAndHttps
deriving DecidableEq

def SchemePolicy.allows (policy : SchemePolicy) (scheme : String) : Bool :=
  scheme = "https" || (policy = .httpAndHttps && scheme = "http")

def isMediaToken (value : String) : Bool :=
  value ≠ "" && value.toList.all fun character =>
    character.isAlphanum || ['!', '#', '$', '&', '^', '_', '.', '+', '-'].contains character

def canonicalMediaType (value : String) : Except HttpError String :=
  let value := lower (trim value)
  let invalid := HttpError.invalidPolicy ("invalid media type `" ++ value ++ "`")
  match splitOnce '/' value with
  | none => .error invalid
  | some (category, subtype) =>
    if !isMediaToken category ∨ !isMediaToken subtype ∨ subtype.toList.contains '/' then
      .error invalid
    else .ok value

inductive ContentTypeRule
  | exact (value : String)
  | type (category : String)
  | structuredSuffix (ending : String)

def ContentTypeRule.matches (rule : ContentTypeRule) (mediaType : String) : Bool :=
  match rule, splitOnce '/' mediaType with
  | .exact expected, _ => mediaType = expected
  | .type expected, some (category, _) => category = expected
  | .structuredSuffix expected, some (_, subtype) => endsWith ("+" ++ expected) subtype
  | _, none => false

structure ContentTypePolicy where
  rules : List ContentTypeRule
  allowMissing : Bool
  nonempty : rules ≠ []

def ContentTypePolicy.json : ContentTypePolicy :=
  ⟨[.exact "application/json", .structuredSuffix "json"], false, by simp⟩

def ContentTypePolicy.validate (policy : ContentTypePolicy) (value : Option String) :
    Except HttpError (Option String) :=
  match value with
  | none => if policy.allowMissing then .ok none else .error .contentTypeMissing
  | some value => do
    let mediaType ← canonicalMediaType (String.ofList (value.toList.takeWhile (· ≠ ';')))
    if policy.rules.any (·.matches mediaType) then return some mediaType
    else throw (.contentTypeDenied mediaType)

/-- What a policy says of the media type of a response. -/
def ContentTypePolicy.Accepts (policy : ContentTypePolicy) : Option String → Prop
  | none => policy.allowMissing = true
  | some mediaType => ∃ rule ∈ policy.rules, rule.matches mediaType = true

theorem ContentTypePolicy.accepts_of_validate {policy : ContentTypePolicy} {value : Option String}
    {mediaType : Option String} (h : policy.validate value = .ok mediaType) :
    policy.Accepts mediaType := by
  unfold ContentTypePolicy.validate at h
  cases value with
  | none =>
    dsimp only at h
    split at h
    · rename_i hmissing
      cases h
      exact hmissing
    · cases h
  | some value =>
    dsimp only at h
    cases hcanonical : canonicalMediaType (String.ofList (value.toList.takeWhile (· ≠ ';'))) with
    | error error =>
      rw [hcanonical] at h
      cases h
    | ok canonical =>
      rw [hcanonical] at h
      change (if policy.rules.any (·.matches canonical) then _ else _) = _ at h
      split at h
      · rename_i hany
        cases h
        exact List.any_eq_true.mp hany
      · cases h

def hardMaxRedirects : Nat := 10
def hardMaxRequestBytes : Nat := 8 * 1024 * 1024
def hardMaxResponseBytes : Nat := 64 * 1024 * 1024
def hardMaxHeaderBytes : Nat := 128 * 1024
def hardMaxConcurrency : Nat := 32
def hardMaxRequestsPerWindow : Nat := 10000
def hardMaxTimeout : Duration := .fromSecs 120
def hardMaxRateWindow : Duration := .fromSecs (24 * 60 * 60)

structure RateLimit where
  requests : Nat
  window : Duration

def RateLimit.new (requests : Nat) (window : Duration) : Except HttpError RateLimit := do
  if requests = 0 ∨ hardMaxRequestsPerWindow < requests then
    throw (.invalidPolicy "rate limit must be between 1 and 10000")
  if window = 0 ∨ hardMaxRateWindow < window then
    throw (.invalidPolicy "rate window must be greater than zero and at most 86400s")
  return ⟨requests, window⟩

structure HttpLimits where
  maxRequestBytes : Nat
  maxResponseHeaderBytes : Nat
  maxResponseBytes : Nat
  maxRedirects : Nat
  maxConcurrent : Nat
  resolveTimeout : Duration
  connectTimeout : Duration
  requestTimeout : Duration
  rate : RateLimit

def HttpLimits.default : HttpLimits where
  maxRequestBytes := 256 * 1024
  maxResponseHeaderBytes := 32 * 1024
  maxResponseBytes := 4 * 1024 * 1024
  maxRedirects := 5
  maxConcurrent := 4
  resolveTimeout := .fromSecs 4
  connectTimeout := .fromSecs 4
  requestTimeout := .fromSecs 10
  rate := ⟨30, .fromSecs 60⟩

def validateSize (name : String) (value maximum : Nat) : Except HttpError Unit :=
  if value = 0 ∨ maximum < value then
    .error (.invalidPolicy (name ++ " must be between 1 and " ++ toString maximum))
  else .ok ()

def validateDuration (name : String) (value : Duration) : Except HttpError Unit :=
  if value = 0 ∨ hardMaxTimeout < value then
    .error (.invalidPolicy (name ++ " must be greater than zero and at most 120s"))
  else .ok ()

def HttpLimits.validate (limits : HttpLimits) : Except HttpError Unit := do
  validateSize "request byte limit" limits.maxRequestBytes hardMaxRequestBytes
  validateSize "response header byte limit" limits.maxResponseHeaderBytes hardMaxHeaderBytes
  validateSize "response byte limit" limits.maxResponseBytes hardMaxResponseBytes
  if hardMaxRedirects < limits.maxRedirects then
    throw (.invalidPolicy "redirect limit cannot exceed 10")
  if limits.maxConcurrent = 0 ∨ hardMaxConcurrency < limits.maxConcurrent then
    throw (.invalidPolicy "concurrency must be between 1 and 32")
  validateDuration "resolve timeout" limits.resolveTimeout
  validateDuration "connect timeout" limits.connectTimeout
  validateDuration "request timeout" limits.requestTimeout
  let _ ← RateLimit.new limits.rate.requests limits.rate.window

theorem validateSize_eq_ok {name : String} {value maximum : Nat}
    (h : validateSize name value maximum = .ok ()) : 0 < value ∧ value ≤ maximum := by
  unfold validateSize at h
  split at h
  · cases h
  · omega

theorem HttpLimits.maxResponseBytes_le {limits : HttpLimits} (h : limits.validate = .ok ()) :
    limits.maxResponseBytes ≤ hardMaxResponseBytes := by
  unfold HttpLimits.validate at h
  cases hrequest : validateSize "request byte limit" limits.maxRequestBytes hardMaxRequestBytes with
  | error error => rw [hrequest] at h; cases h
  | ok _ =>
    cases hheader : validateSize "response header byte limit" limits.maxResponseHeaderBytes
      hardMaxHeaderBytes with
    | error error => rw [hrequest, hheader] at h; cases h
    | ok _ =>
      cases hresponse : validateSize "response byte limit" limits.maxResponseBytes
        hardMaxResponseBytes with
      | error error => rw [hrequest, hheader, hresponse] at h; cases h
      | ok _ => exact (validateSize_eq_ok hresponse).2

theorem HttpLimits.default_validate : HttpLimits.default.validate = .ok () := by decide

structure HttpPolicy where
  hosts : ExactHostAllowlist
  schemes : SchemePolicy
  contentTypes : ContentTypePolicy
  limits : HttpLimits
  allowHttpsDowngrade : Bool
  valid : limits.validate = .ok ()

namespace HttpPolicy

def new (hosts : ExactHostAllowlist) (contentTypes : ContentTypePolicy) : HttpPolicy where
  hosts
  schemes := .httpsOnly
  contentTypes
  limits := .default
  allowHttpsDowngrade := false
  valid := HttpLimits.default_validate

end HttpPolicy

end KeyReader.Http
