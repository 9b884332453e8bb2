import KeyReader.Attempt
import KeyReader.Http.Policy
import KeyReader.Machine
import Mathlib.Data.List.Destutter

/-! The HTTP client: one request, and the redirects that its responses ask for.  The clock, the
resolver, the transport, the cancellation of the call and the other users of the client belong to
a world that each step may ask and change. -/

namespace KeyReader.Http

open Ascii Machine

inductive HttpMethod
  | get
  | head
  | post
deriving DecidableEq

def isHeaderName (value : String) : Bool :=
  value ≠ "" && value.toList.all fun character =>
    character.isAlphanum || ['!', '#', '$', '%', '&', '\'', '*', '+', '-', '.', '^', '_', '\x60',
      '|', '~'].contains character

def isTransportHeader (name : String) : Bool :=
  ["accept-encoding", "connection", "content-length", "host", "keep-alive", "proxy-authenticate",
    "proxy-authorization", "te", "trailer", "transfer-encoding", "upgrade"].contains name ||
    startsWith "proxy-" name

/-- A character with a byte that a header value may not have. -/
def isForbiddenInHeader (character : Char) : Bool :=
  let code := character.toNat
  ((128 ≤ code || code < 32) && code ≠ 9) || code = 127

def checkHeader (name value : String) : Except HttpError Unit :=
  if !isHeaderName name then .error (.invalidRequest ("invalid header name `" ++ name ++ "`"))
  else if value.toList.any isForbiddenInHeader then
    .error (.invalidRequest ("header `" ++ name ++ "` contains a forbidden control character"))
  else if isTransportHeader name then
    .error (.invalidRequest ("header `" ++ name ++ "` is controlled by the HTTP host"))
  else .ok ()

structure RequestHeader where
  name : String
  value : String
  valid : checkHeader name value = .ok ()

def RequestHeader.isSensitive (header : RequestHeader) : Bool :=
  header.name = "authorization" || header.name = "cookie"

structure HttpRequest (parser : UrlParser) where
  method : HttpMethod
  url : Url
  headers : List RequestHeader
  body : List UInt8
  parsed : parser.Parsed url
  bodyOnPost : method ≠ .post → body = []

namespace HttpRequest

variable {parser : UrlParser}

end HttpRequest

structure ResolveRequest where
  host : String
  port : UInt16
  timeout : Duration

structure SocketAddr where
  ip : IpAddr
  port : UInt16

structure ResolvedEndpoint where
  host : String
  port : UInt16
  addresses : List SocketAddr

structure TransportRequest where
  method : HttpMethod
  url : Url
  headers : List RequestHeader
  body : List UInt8
  endpoint : ResolvedEndpoint
  connectTimeout : Duration
  requestTimeout : Duration

structure TransportHeader where
  name : String
  value : List UInt8

/-- A response.  The body answers the reads one by one and is at its end after the last. -/
structure TransportResponse where
  status : Nat
  headers : List TransportHeader
  body : List (Except String (List UInt8))

structure HttpResponse where
  status : Nat
  finalUrl : Url
  contentType : Option String
  headers : List TransportHeader
  body : List UInt8

def HttpMethod.bytes : HttpMethod → Nat
  | .get => 3
  | .head => 4
  | .post => 4

def addHeaderBytes (bytes name value : Nat) : Option Nat := do
  let bytes ← checkedAdd bytes name
  let bytes ← checkedAdd bytes value
  checkedAdd bytes 4

def requestBytes : Nat → List RequestHeader → Option Nat
  | bytes, [] => some bytes
  | bytes, header :: headers => do
    let bytes ← addHeaderBytes bytes header.name.utf8ByteSize header.value.utf8ByteSize
    requestBytes bytes headers

def validateRequestSize (method : HttpMethod) (url : Url) (headers : List RequestHeader)
    (body : List UInt8) (limit : Nat) : Except HttpError Unit :=
  let bytes := do
    let bytes ← checkedAdd method.bytes url.asStr.utf8ByteSize
    let bytes ← checkedAdd bytes body.length
    requestBytes bytes headers
  match bytes with
  | none => .error (.requestTooLarge limit)
  | some bytes => if limit < bytes then .error (.requestTooLarge limit) else .ok ()

def validateResponseHeadersFrom (limit : Nat) : Nat → List TransportHeader → Except HttpError Unit
  | _, [] => .ok ()
  | bytes, header :: headers =>
    if header.name = "" ∨
        !header.name.toList.all (fun character => character.isAlphanum || character = '-') then
      .error (.transport "response contains an invalid header name")
    else match addHeaderBytes bytes header.name.utf8ByteSize header.value.length with
      | none => .error (.responseHeadersTooLarge limit)
      | some bytes =>
        if limit < bytes then .error (.responseHeadersTooLarge limit)
        else validateResponseHeadersFrom limit bytes headers

section

variable (headers : List TransportHeader)

def validateResponseHeaders (limit : Nat) : Except HttpError (List TransportHeader) :=
  (validateResponseHeadersFrom limit 0 headers).map fun _ => headers

def uniqueUtf8Header (name : String) : Except HttpError (Option String) :=
  match headers.filter fun header => eqIgnoreCase header.name name with
  | [] => .ok none
  | [header] =>
    match String.fromUTF8? ⟨header.value.toArray⟩ with
    | some value => .ok (some value)
    | none => .error (.transport ("response `" ++ name ++ "` header is not UTF-8"))
  | _ :: _ :: _ => .error (.transport ("response contains repeated `" ++ name ++ "` headers"))

/-- `str::parse::<u64>`. -/
def parseU64 (text : String) : Option Nat :=
  let digits := match text.toList with
    | '+' :: digits => digits
    | digits => digits
  if digits = [] ∨ !digits.all Char.isDigit then none
  else tryFrom (digits.foldl (fun value character => value * 10 + digitValue character) 0)

def contentLength : Except HttpError (Option Nat) := do
  match ← uniqueUtf8Header headers "content-length" with
  | none => return none
  | some value =>
    match parseU64 (trim value) with
    | some length => return some length
    | none => throw (.transport "invalid Content-Length header")

def validateContentEncoding : Except HttpError Unit := do
  match ← uniqueUtf8Header headers "content-encoding" with
  | none => return ()
  | some value =>
    let value := trim value
    if value ≠ "" ∧ !eqIgnoreCase value "identity" then throw (.contentEncodingDenied value)

end

def canonicalUrlHost (parser : UrlParser) : Host → Except HttpError String
  | .domain domain => canonicalHost parser domain
  | .ipv4 address => .ok address.toText
  | .ipv6 address => .ok address.toText

def redirectLoopKey (url : Url) : String := url.withoutFragment.asStr

def isRedirect (status : Nat) : Bool := [301, 302, 303, 307, 308].contains status

def sameOrigin (left right : Url) : Bool :=
  left.scheme = right.scheme && left.host = right.host &&
    left.portOrKnownDefault = right.portOrKnownDefault

/-- What the clones of a client share. -/
structure Shared where
  active : Nat
  rateHistory : List Duration

/-- What a call asks of everything around it. -/
structure World (σ : Type) where
  isCancelled : σ → Bool × σ
  now : σ → Duration × σ
  resolve : ResolveRequest → σ → Except HttpError (List IpAddr) × σ
  exchange : TransportRequest → σ → Except HttpError TransportResponse × σ
  /-- What the other calls have done to the shared state since this call last saw it. -/
  others : Shared → σ → Shared × σ

structure SafeHttpClient (σ : Type) where
  policy : HttpPolicy
  parser : UrlParser
  world : World σ

/-- A call under way, with the requests it has handed to the transport. -/
structure Session (σ : Type) where
  world : σ
  shared : Shared
  sent : List TransportRequest

abbrev Call (σ α : Type) := Attempt (Session σ) HttpError α

/-- The variables of the redirect loop. -/
structure Hop where
  method : HttpMethod
  url : Url
  headers : List RequestHeader
  body : List UInt8
  visited : List String

/-- `addresses.sort_unstable()` and `addresses.dedup()`. -/
def sortDedup (addresses : List IpAddr) : List IpAddr :=
  (addresses.mergeSort fun left right => decide (left.key ≤ right.key)).destutter (· ≠ ·)

namespace SafeHttpClient

variable {σ : Type} (client : SafeHttpClient σ)

def ask {α : Type} (question : σ → α × σ) : Call σ α :=
  modifyGet fun session =>
    ((question session.world).1, { session with world := (question session.world).2 })

/-- Takes the lock of the shared state and changes it. -/
def withShared {α : Type} (change : Shared → Except HttpError α × Shared) : Call σ α :=
  (modifyGet fun session =>
    let seen := client.world.others session.shared session.world
    ((change seen.1).1, { session with shared := (change seen.1).2, world := seen.2 })) >>=
      Attempt.ofExcept

def checkCancelled : Call σ Unit := do
  let cancelled ← ask client.world.isCancelled
  Attempt.ensure (cancelled = false) .cancelled

def acquireRateSlot : Call σ Unit := do
  let now ← ask client.world.now
  let rate := client.policy.limits.rate
  client.withShared fun shared =>
    let history := shared.rateHistory.dropWhile fun earlier => rate.window ≤ now - earlier
    if rate.requests ≤ history.length then
      let retryAfter := match history.head? with
        | some earlier => rate.window - (now - earlier)
        | none => rate.window
      (.error (.rateLimited retryAfter), { shared with rateHistory := history })
    else (.ok (), { shared with rateHistory := history ++ [now] })

/-- `ActiveRequest::acquire`. -/
def acquireActive : Call σ Unit :=
  let limit := client.policy.limits.maxConcurrent
  client.withShared fun shared =>
    if shared.active < limit then (.ok (), { shared with active := shared.active + 1 })
    else (.error (.concurrencyLimit limit), shared)

/-- Runs a call and then drops its `ActiveRequest`, however the call ends. -/
def releasing {α : Type} (call : Call σ α) : Call σ α := do
  let result ← call.caught
  client.withShared fun shared => (.ok (), { shared with active := shared.active - 1 })
  Attempt.ofExcept result

def resolveAddresses (canonical : String) (port : UInt16) : Host → Call σ (List IpAddr)
  | .domain _ => do
    let answer ← ask (client.world.resolve ⟨canonical, port, client.policy.limits.resolveTimeout⟩)
    Attempt.ofExcept answer
  | .ipv4 address => pure [.v4 address]
  | .ipv6 address => pure [.v6 address]

def resolveEndpoint (url : Url) : Call σ ResolvedEndpoint := do
  Attempt.ensure (client.policy.schemes.allows url.scheme = true) (.schemeDenied url.scheme)
  Attempt.ensure (url.username = "" ∧ url.password = none)
    (.invalidUrl "embedded credentials are not allowed")
  let host ← Attempt.okOr url.host (.invalidUrl "URL has no host")
  let canonical ← Attempt.ofExcept (canonicalUrlHost client.parser host)
  Attempt.ensure (isLocalhostName canonical = false) (.localhostDenied canonical)
  Attempt.ensure (client.policy.hosts.allows client.parser canonical = true) (.hostDenied canonical)
  let port ← Attempt.okOr (url.portOrKnownDefault.filter (· ≠ 0))
    (.invalidUrl "URL has no usable port")
  let addresses ← client.resolveAddresses canonical port host
  client.checkCancelled
  Attempt.ensure (addresses ≠ []) (.resolve "host resolved to no addresses")
  let addresses := sortDedup addresses
  Attempt.ofExcept (match addresses.find? (fun address => !isPublicIp address) with
    | some address => .error (.addressDenied address)
    | none => .ok ⟨host.hostStr, port, addresses.map fun address => ⟨address, port⟩⟩)

def exchange (request : TransportRequest) : Call σ TransportResponse :=
  (modifyGet fun session =>
    let answer := client.world.exchange request session.world
    (answer.1, { session with world := answer.2, sent := session.sent ++ [request] })) >>=
      Attempt.ofExcept

def attempt (hop : Hop) : Call σ TransportResponse := do
  let limits := client.policy.limits
  client.checkCancelled
  Attempt.ofExcept
    (validateRequestSize hop.method hop.url hop.headers hop.body limits.maxRequestBytes)
  Attempt.ensure (¬hop.visited.contains (redirectLoopKey hop.url))
    (.redirect "redirect loop detected")
  client.acquireRateSlot
  let endpoint ← client.resolveEndpoint hop.url
  let response ← client.exchange ⟨hop.method, hop.url, hop.headers, hop.body, endpoint,
    limits.connectTimeout, limits.requestTimeout⟩
  client.checkCancelled
  let headers ← Attempt.ofExcept
    (validateResponseHeaders response.headers limits.maxResponseHeaderBytes)
  return { response with headers }

def redirected (hop : Hop) (response : TransportResponse) : Except HttpError Hop :=
  match uniqueUtf8Header response.headers "location" with
  | .error error => .error error
  | .ok none => .error (.redirect "missing Location header")
  | .ok (some location) =>
    match client.parser.join hop.url location with
    | .error error => .error (.redirect error)
    | .ok next =>
      if hop.url.scheme = "https" ∧ next.scheme = "http" ∧ !client.policy.allowHttpsDowngrade then
        .error (.redirect "HTTPS-to-HTTP downgrade is disabled")
      else
        let visited := redirectLoopKey hop.url :: hop.visited
        let headers := if sameOrigin hop.url next then hop.headers
          else hop.headers.filter fun header => !header.isSensitive
        if response.status = 303 ∨
            ((response.status = 301 ∨ response.status = 302) ∧ hop.method = .post) then
          let headers := headers.filter fun header =>
            !(["content-type", "content-language", "content-location"].contains header.name)
          .ok ⟨.get, next, headers, [], visited⟩
        else .ok ⟨hop.method, next, headers, hop.body, visited⟩

/-- Reads the rest of a body after `output`. -/
def readBounded (limit : Nat) : List UInt8 → List (Except String (List UInt8)) → Call σ (List UInt8)
  | output, [] => do
    client.checkCancelled
    client.checkCancelled
    return output
  | _, .error error :: _ => do
    client.checkCancelled
    throw (.transport error)
  | output, .ok chunk :: reads => do
    client.checkCancelled
    if chunk = [] then
      client.checkCancelled
      return output
    else do
      Attempt.ensure (saturatingAdd output.length chunk.length ≤ limit) (.responseTooLarge limit)
      readBounded limit (output ++ chunk) reads

def responseBody (hop : Hop) (response : TransportResponse) : Call σ (List UInt8) :=
  if hop.method = .head then pure []
  else client.readBounded client.policy.limits.maxResponseBytes [] response.body

/-- A response that is no redirect. -/
def accept (hop : Hop) (response : TransportResponse) : Call σ HttpResponse := do
  let limits := client.policy.limits
  Attempt.ofExcept (validateContentEncoding response.headers)
  let length ← Attempt.ofExcept (contentLength response.headers)
  Attempt.ensure (∀ declared ∈ length, declared ≤ limits.maxResponseBytes)
    (.responseTooLarge limits.maxResponseBytes)
  let declared ← Attempt.ofExcept (uniqueUtf8Header response.headers "content-type")
  let contentType ← Attempt.ofExcept (client.policy.contentTypes.validate declared)
  let body ← client.responseBody hop response
  return ⟨response.status, hop.url, contentType, response.headers, body⟩

/-- The redirect loop, with `remaining` redirects left. -/
def follow : Nat → Hop → Call σ HttpResponse
  | 0, hop => do
    let response ← client.attempt hop
    if isRedirect response.status then
      throw (.redirect ("more than " ++ toString client.policy.limits.maxRedirects ++ " hops"))
    else client.accept hop response
  | remaining + 1, hop => do
    let response ← client.attempt hop
    if isRedirect response.status then do
      let next ← Attempt.ofExcept (client.redirected hop response)
      follow remaining next
    else client.accept hop response

def execute (request : HttpRequest client.parser) : Call σ HttpResponse := do
  client.checkCancelled
  client.acquireActive
  client.releasing (client.follow client.policy.limits.maxRedirects
    ⟨request.method, request.url, request.headers, request.body, []⟩)

/-- A call from the beginning: its result, and what it has handed to the transport. -/
def call (request : HttpRequest client.parser) (world : σ) (shared : Shared) :
    Except HttpError HttpResponse × Session σ :=
  (client.execute request).outcome ⟨world, shared, []⟩

end SafeHttpClient

end KeyReader.Http
