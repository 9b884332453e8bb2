import KeyReader.Http.Client
import Mathlib.Data.List.Chain

/-! What the client hands to its transport.  Each request is permitted by itself, and the requests
of one call are authorised together: every turn of the redirect loop extends an authorised list. -/

namespace KeyReader.Http

open Ascii Attempt Machine List Option Bool

/-- A request that the policy permits, whatever came before it. -/
structure Permitted (policy : HttpPolicy) (parser : UrlParser) (request : TransportRequest) :
    Prop where
  scheme : policy.schemes.allows request.url.scheme = true
  credentials : request.url.username = "" ∧ request.url.password = none
  host : ∃ host canonical, request.url.host = some host ∧
    canonicalUrlHost parser host = .ok canonical ∧
    policy.hosts.allows parser canonical = true ∧ isLocalhostName canonical = false
  notLocal : ∀ name, request.url.host = some (.domain name) → isLocalhostName name = false
  addresses : request.endpoint.addresses ≠ [] ∧
    ∀ address ∈ request.endpoint.addresses, isPublicIp address.ip = true
  bodyOnPost : request.method ≠ .post → request.body = []

/-- The requests of one call, in their order. -/
structure Authorised (policy : HttpPolicy) (parser : UrlParser) (sent : List TransportRequest) :
    Prop where
  permitted : ∀ request ∈ sent, Permitted policy parser request
  downgrade : sent.IsChain fun request next =>
    request.url.scheme = "https" → next.url.scheme = "http" → policy.allowHttpsDowngrade = true
  sensitive : sent.Pairwise fun earlier request =>
    request.headers.any RequestHeader.isSensitive = true → sameOrigin earlier.url request.url = true
  distinct : sent.Pairwise fun earlier request =>
    earlier.url.withoutFragment ≠ request.url.withoutFragment

/-- A response that a call may answer. -/
structure Accepted (policy : HttpPolicy) (response : HttpResponse) : Prop where
  contentType : policy.contentTypes.Accepts response.contentType
  body : response.body.length ≤ policy.limits.maxResponseBytes

theorem sameOrigin_trans {first second third : Url} (h : sameOrigin first second = true)
    (h' : sameOrigin second third = true) : sameOrigin first third = true := by
  simp only [sameOrigin, and_eq_true, decide_eq_true_eq] at h h' ⊢
  exact ⟨⟨h.1.1.trans h'.1.1, h.1.2.trans h'.1.2⟩, h.2.trans h'.2⟩

theorem SchemePolicy.http_of_allows {policy : SchemePolicy} {scheme : String}
    (h : policy.allows scheme = true) : scheme = "http" ∨ scheme = "https" := by
  simp only [SchemePolicy.allows, or_eq_true, and_eq_true, decide_eq_true_eq] at h
  rcases h with h | ⟨-, h⟩
  · exact .inr h
  · exact .inl h

theorem canonicalUrlHost_domain {parser : UrlParser} {name canonical : String}
    (htrim : trim name = name) (haddress : IpAddr.parse name = none)
    (hsame : parser.parseHost name = .ok (.domain name))
    (h : canonicalUrlHost parser (.domain name) = .ok canonical) :
    canonical = lower (trimEnd '.' name) := by
  simp only [canonicalUrlHost, canonicalHost, htrim, haddress, hsame] at h
  split at h
  · cases h
  split at h
  · cases h
  · exact (Except.ok.inj h).symm

theorem sortDedup_ne_nil {addresses : List IpAddr} (h : addresses ≠ []) :
    sortDedup addresses ≠ [] := by
  intro hnil
  rw [sortDedup, destutter_eq_nil] at hnil
  have hlength := congrArg List.length hnil
  rw [length_mergeSort, length_nil, length_eq_zero_iff] at hlength
  exact h hlength

namespace SafeHttpClient

variable {σ : Type} (client : SafeHttpClient σ) {α : Type}

theorem keeps_ask (question : σ → α × σ) : Keeps Session.sent (ask question) :=
  fun _ => rfl

theorem keeps_withShared (change : Shared → Except HttpError α × Shared) :
    Keeps Session.sent (client.withShared change) :=
  .bind (fun _ => rfl) fun _ => .ofExcept _

theorem keeps_checkCancelled : Keeps Session.sent client.checkCancelled :=
  .bind (keeps_ask _) fun _ => .ofExcept _

theorem keeps_acquireRateSlot : Keeps Session.sent client.acquireRateSlot :=
  .bind (keeps_ask _) fun _ => client.keeps_withShared _

theorem keeps_acquireActive : Keeps Session.sent client.acquireActive := client.keeps_withShared _

theorem keeps_resolveAddresses (canonical : String) (port : UInt16) (host : Host) :
    Keeps Session.sent (client.resolveAddresses canonical port host) := by
  cases host with
  | domain name => exact .bind (keeps_ask _) fun _ => .ofExcept _
  | ipv4 address | ipv6 address => exact .pure _

variable {client}

/-- A resolved endpoint makes every request to its URL permitted. -/
theorem ensures_resolveEndpoint (hparser : client.parser.Specified) {url : Url}
    (hparsed : client.parser.Parsed url) (known : List TransportRequest → Prop) :
    Ensures (fun session => known session.sent) (client.resolveEndpoint url)
      (fun endpoint session => known session.sent ∧ ∀ request : TransportRequest,
        request.url = url → request.endpoint = endpoint →
        (request.method ≠ .post → request.body = []) →
        Permitted client.policy client.parser request)
      fun session => known session.sent := by
  refine .ensure_bind (fun _ h => h) fun hscheme => ?_
  refine .ensure_bind (fun _ h => h) fun hcredentials => ?_
  refine .okOr_bind (fun _ h => h) fun host hhost => ?_
  refine .ofExcept_bind (fun _ h => h) fun canonical hcanonical => ?_
  refine .ensure_bind (fun _ h => h) fun hlocal => ?_
  refine .ensure_bind (fun _ h => h) fun hallows => ?_
  refine .okOr_bind (fun _ h => h) fun port _ => ?_
  refine (client.keeps_resolveAddresses canonical port host).ensures_bind known
    (fun _ h => h) fun addresses => ?_
  refine client.keeps_checkCancelled.ensures_bind known (fun _ h => h) fun _ => ?_
  refine .ensure_bind (fun _ h => h) fun hne => ?_
  have hhttp := client.policy.schemes.http_of_allows hscheme
  have hdomain : ∀ name, url.host = some (.domain name) → isLocalhostName name = false := by
    intro name hname
    have heq : host = .domain name := by
      rw [hhost] at hname
      exact some.inj hname
    subst heq
    have hform := canonicalUrlHost_domain (hparser.trimmed url hparsed hhttp name hhost)
      (hparser.notAddress url hparsed hhttp name hhost)
      (hparser.sameHost url hparsed hhttp name hhost) hcanonical
    rw [hform, isLocalhostName_canonical] at hlocal
    exact hlocal
  refine .ofExcept (fun _ h => h) fun endpoint hendpoint session hknown => ⟨hknown, ?_⟩
  split at hendpoint
  · cases hendpoint
  · rename_i hfind
    cases hendpoint
    intro request hurl hendpoint hbody
    subst hurl
    have hpublic := find?_eq_none.mp hfind
    refine ⟨hscheme, hcredentials, ⟨host, canonical, hhost, hcanonical, hallows, hlocal⟩, hdomain,
      ⟨?_, ?_⟩, hbody⟩
    · rw [hendpoint]
      simpa using sortDedup_ne_nil hne
    · intro address haddress
      rw [hendpoint] at haddress
      obtain ⟨ip, hip, rfl⟩ := mem_map.mp haddress
      simpa using hpublic ip hip

variable (client) in
/-- What holds at the beginning of a turn, after the requests `sent`. -/
structure Turn (hop : Hop) (sent : List TransportRequest) : Prop where
  authorised : Authorised client.policy client.parser sent
  parsed : client.parser.Parsed hop.url
  bodyOnPost : hop.method ≠ .post → hop.body = []
  downgrade : ∀ previous ∈ sent.getLast?, previous.url.scheme = "https" →
    hop.url.scheme = "http" → client.policy.allowHttpsDowngrade = true
  sensitive : hop.headers.any RequestHeader.isSensitive = true →
    ∀ earlier ∈ sent, sameOrigin earlier.url hop.url = true
  visited : ∀ earlier ∈ sent, redirectLoopKey earlier.url ∈ hop.visited

variable (client) in
/-- What holds once the turn has handed its request to the transport. -/
structure Handed (hop : Hop) (before sent : List TransportRequest) : Prop where
  handed : ∃ request, sent = before ++ [request] ∧ request.url = hop.url ∧
    request.headers = hop.headers ∧ Permitted client.policy client.parser request
  fresh : redirectLoopKey hop.url ∉ hop.visited

variable {before sent : List TransportRequest} {hop : Hop}

theorem Handed.authorised (h : Handed client hop before sent) (hturn : Turn client hop before) :
    Authorised client.policy client.parser sent := by
  obtain ⟨request, rfl, hurl, hheaders, hpermitted⟩ := h.handed
  refine ⟨?_, ?_, ?_, ?_⟩
  · intro other hother
    rcases mem_append.mp hother with hother | hother
    · exact hturn.authorised.permitted other hother
    · rw [mem_singleton.mp hother]
      exact hpermitted
  · refine isChain_append.mpr ⟨hturn.authorised.downgrade, .singleton _, ?_⟩
    intro previous hprevious other hother
    cases hother
    rw [hurl]
    exact hturn.downgrade previous hprevious
  · refine pairwise_append.mpr ⟨hturn.authorised.sensitive, pairwise_singleton .., ?_⟩
    intro earlier hearlier other hother
    rw [mem_singleton.mp hother, hurl, hheaders]
    exact fun hsensitive => hturn.sensitive hsensitive earlier hearlier
  · refine pairwise_append.mpr ⟨hturn.authorised.distinct, pairwise_singleton .., ?_⟩
    intro earlier hearlier other hother heq
    rw [mem_singleton.mp hother, hurl] at heq
    have hkey : redirectLoopKey earlier.url = redirectLoopKey hop.url := by
      unfold redirectLoopKey
      rw [heq]
    exact h.fresh (hkey ▸ hturn.visited earlier hearlier)

theorem ensures_exchange (before : List TransportRequest) (request : TransportRequest) :
    Ensures (fun session => session.sent = before) (client.exchange request)
      (fun _ session => session.sent = before ++ [request])
      fun session => session.sent = before ++ [request] := by
  have houtcome : ∀ session : Session σ, ((client.exchange request).outcome session).2.sent =
      session.sent ++ [request] := by
    intro session
    unfold exchange
    rw [outcome_bind]
    rfl
  constructor
  · rintro session rfl response ended heq
    rw [← houtcome session, heq]
  · rintro session rfl error ended heq
    rw [← houtcome session, heq]

theorem ensures_attempt (hparser : client.parser.Specified) (hturn : Turn client hop before) :
    Ensures (fun session => session.sent = before) (client.attempt hop)
      (fun _ session => Handed client hop before session.sent)
      fun session => session.sent = before ∨ Handed client hop before session.sent := by
  refine client.keeps_checkCancelled.ensures_bind (· = before) (fun _ h => .inl h) fun _ => ?_
  refine .ofExcept_bind (fun _ h => .inl h) fun _ _ => ?_
  refine .ensure_bind (fun _ h => .inl h) fun hfresh => ?_
  refine client.keeps_acquireRateSlot.ensures_bind (· = before) (fun _ h => .inl h) fun _ => ?_
  refine ((ensures_resolveEndpoint hparser hturn.parsed (· = before)).weaken (fun _ h => h)
    (fun _ _ h => h) fun _ h => .inl h).bind fun endpoint => ?_
  refine .of_pure fun hpermitted => ?_
  -- from here on the request is with the transport, whatever becomes of its response
  have hhanded : Handed client hop before (before ++ [⟨hop.method, hop.url, hop.headers, hop.body,
      endpoint, client.policy.limits.connectTimeout, client.policy.limits.requestTimeout⟩]) :=
    ⟨⟨_, rfl, rfl, rfl, hpermitted _ rfl rfl hturn.bodyOnPost⟩, by simpa using hfresh⟩
  refine ((ensures_exchange before _).weaken (fun _ h => h) (fun _ _ h => h)
    fun _ h => .inr (h ▸ hhanded)).bind fun response => ?_
  refine client.keeps_checkCancelled.ensures_bind (· = before ++ [_])
    (fun _ h => .inr (h ▸ hhanded)) fun _ => ?_
  exact .ofExcept_bind (fun _ h => .inr (h ▸ hhanded)) fun _ _ => .pure fun _ h => h ▸ hhanded

/-- What a redirect changes. -/
structure Redirected (client : SafeHttpClient σ) (hop next : Hop) : Prop where
  parsed : client.parser.Parsed next.url
  downgrade : hop.url.scheme = "https" → next.url.scheme = "http" →
    client.policy.allowHttpsDowngrade = true
  headers : next.headers ⊆ hop.headers
  sensitive : sameOrigin hop.url next.url = false →
    ∀ header ∈ next.headers, header.isSensitive = false
  body : next.body = [] ∨ (next.method = hop.method ∧ next.body = hop.body)
  visited : next.visited = redirectLoopKey hop.url :: hop.visited

theorem redirected_sound {next : Hop} {response : TransportResponse}
    (h : client.redirected hop response = .ok next) : Redirected client hop next := by
  unfold redirected at h
  split at h
  · cases h
  · cases h
  split at h
  · cases h
  rename_i url hjoin
  split at h
  · cases h
  rename_i hdowngrade
  have hallow : hop.url.scheme = "https" → url.scheme = "http" →
      client.policy.allowHttpsDowngrade = true := by
    intro hhttps hhttp
    by_contra hno
    exact hdowngrade ⟨hhttps, hhttp, by simpa using hno⟩
  have hkept : (if sameOrigin hop.url url then hop.headers
      else hop.headers.filter fun header => !header.isSensitive) ⊆ hop.headers := by
    split
    · exact fun _ h => h
    · exact filter_sublist.subset
  have hstripped : sameOrigin hop.url url = false →
      ∀ header ∈ (if sameOrigin hop.url url then hop.headers
        else hop.headers.filter fun header => !header.isSensitive), header.isSensitive = false := by
    intro horigin header hheader
    rw [if_neg (by simp [horigin])] at hheader
    simpa using (mem_filter.mp hheader).2
  dsimp only at h
  split at h
  · cases h
    exact ⟨.join hjoin, hallow, fun _ hheader => hkept (mem_filter.mp hheader).1,
      fun horigin _ hheader => hstripped horigin _ (mem_filter.mp hheader).1, .inl rfl, rfl⟩
  · cases h
    exact ⟨.join hjoin, hallow, hkept, hstripped, .inr ⟨rfl, rfl⟩, rfl⟩

theorem Redirected.turn {next : Hop} (hnext : Redirected client hop next)
    (hturn : Turn client hop before) (h : Handed client hop before sent) :
    Turn client next sent := by
  have hauthorised := h.authorised hturn
  obtain ⟨request, rfl, hurl, -, -⟩ := h.handed
  refine ⟨hauthorised, hnext.parsed, ?_, ?_, ?_, ?_⟩
  · intro hmethod
    rcases hnext.body with hbody | ⟨hsame, hbody⟩
    · exact hbody
    · rw [hbody]
      exact hturn.bodyOnPost (hsame ▸ hmethod)
  · intro previous hprevious
    rw [getLast?_concat, mem_some_iff] at hprevious
    rw [← hprevious, hurl]
    exact hnext.downgrade
  · intro hsensitive earlier hearlier
    obtain ⟨header, hheader, hheld⟩ := any_eq_true.mp hsensitive
    -- a sensitive header has survived, so the redirect kept the origin
    have horigin : sameOrigin hop.url next.url = true := by
      by_contra hother
      rw [hnext.sensitive (by simpa using hother) header hheader] at hheld
      cases hheld
    rcases mem_append.mp hearlier with hearlier | hearlier
    · exact sameOrigin_trans (hturn.sensitive
        (any_eq_true.mpr ⟨header, hnext.headers hheader, hheld⟩) earlier hearlier) horigin
    · rw [mem_singleton.mp hearlier, hurl]
      exact horigin
  · intro earlier hearlier
    rw [hnext.visited]
    rcases mem_append.mp hearlier with hearlier | hearlier
    · exact mem_cons_of_mem _ (hturn.visited earlier hearlier)
    · rw [mem_singleton.mp hearlier, hurl]
      exact mem_cons_self

theorem ensures_readBounded (limit : Nat) (hlimit : limit < u64Max) (output : List UInt8)
    (houtput : output.length ≤ limit) (reads : List (Except String (List UInt8)))
    (known : List TransportRequest → Prop) :
    Ensures (fun session => known session.sent) (client.readBounded limit output reads)
      (fun body session => known session.sent ∧ body.length ≤ limit)
      fun session => known session.sent := by
  induction reads generalizing output with
  | nil =>
    refine client.keeps_checkCancelled.ensures_bind known (fun _ h => h) fun _ => ?_
    refine client.keeps_checkCancelled.ensures_bind known (fun _ h => h) fun _ => ?_
    exact .pure fun _ h => ⟨h, houtput⟩
  | cons read reads ih =>
    cases read with
    | error error =>
      refine client.keeps_checkCancelled.ensures_bind known (fun _ h => h) fun _ => ?_
      exact .throw fun _ h => h
    | ok chunk =>
      refine client.keeps_checkCancelled.ensures_bind known (fun _ h => h) fun _ => ?_
      split
      · refine client.keeps_checkCancelled.ensures_bind known (fun _ h => h) fun _ => ?_
        exact .pure fun _ h => ⟨h, houtput⟩
      · refine .ensure_bind (fun _ h => h) fun hfits => ih _ ?_
        unfold Machine.saturatingAdd at hfits
        rw [length_append]
        omega

theorem ensures_accept (hop : Hop) (response : TransportResponse)
    (known : List TransportRequest → Prop) :
    Ensures (fun session => known session.sent) (client.accept hop response)
      (fun response session => known session.sent ∧ Accepted client.policy response)
      fun session => known session.sent := by
  have hlimit : client.policy.limits.maxResponseBytes < u64Max :=
    Nat.lt_of_le_of_lt (HttpLimits.maxResponseBytes_le client.policy.valid) (by decide)
  refine .ofExcept_bind (fun _ h => h) fun _ _ => ?_
  refine .ofExcept_bind (fun _ h => h) fun _ _ => ?_
  refine .ensure_bind (fun _ h => h) fun _ => ?_
  refine .ofExcept_bind (fun _ h => h) fun declared _ => ?_
  refine .ofExcept_bind (fun _ h => h) fun contentType hcontentType => ?_
  have hbody : Ensures (fun session : Session σ => known session.sent)
      (client.responseBody hop response)
      (fun body session =>
        known session.sent ∧ body.length ≤ client.policy.limits.maxResponseBytes)
      fun session => known session.sent := by
    unfold responseBody
    split
    · exact .pure fun _ h => ⟨h, Nat.zero_le _⟩
    · exact ensures_readBounded _ hlimit _ (Nat.zero_le _) _ known
  refine hbody.bind fun body => .of_pure fun hfits => .pure fun _ h => ⟨h, ?_⟩
  exact ⟨ContentTypePolicy.accepts_of_validate hcontentType, hfits⟩

variable (client) in
/-- The requests of a call that had handed over `before` and could follow `remaining` redirects. -/
def Followed (before : Nat) (remaining : Nat) (sent : List TransportRequest) : Prop :=
  Authorised client.policy client.parser sent ∧ sent.length ≤ before + remaining + 1

theorem Handed.followed (h : Handed client hop before sent) (hturn : Turn client hop before)
    (remaining : Nat) : Followed client before.length remaining sent := by
  refine ⟨h.authorised hturn, ?_⟩
  obtain ⟨request, rfl, -⟩ := h.handed
  rw [length_append, length_singleton]
  omega

theorem ensures_turn (hparser : client.parser.Specified) (hturn : Turn client hop before)
    (remaining : Nat) : Ensures (fun session => session.sent = before) (client.attempt hop)
      (fun _ session => Handed client hop before session.sent)
      fun session => Followed client before.length remaining session.sent := by
  refine (ensures_attempt hparser hturn).weaken (fun _ h => h) (fun _ _ h => h) ?_
  rintro session (rfl | h)
  · exact ⟨hturn.authorised, by omega⟩
  · exact h.followed hturn remaining

theorem ensures_last (hturn : Turn client hop before) (remaining : Nat)
    (response : TransportResponse) :
    Ensures (fun session => Handed client hop before session.sent) (client.accept hop response)
      (fun response session => Followed client before.length remaining session.sent ∧
        Accepted client.policy response)
      fun session => Followed client before.length remaining session.sent :=
  (ensures_accept hop response (Handed client hop before)).weaken (fun _ h => h)
    (fun _ _ h => ⟨h.1.followed hturn remaining, h.2⟩) fun _ h => h.followed hturn remaining

theorem ensures_follow (hparser : client.parser.Specified) (remaining : Nat)
    (hturn : Turn client hop before) :
    Ensures (fun session => session.sent = before) (client.follow remaining hop)
      (fun response session => Followed client before.length remaining session.sent ∧
        Accepted client.policy response)
      fun session => Followed client before.length remaining session.sent := by
  induction remaining generalizing hop before with
  | zero =>
    refine (ensures_turn hparser hturn 0).bind fun response => ?_
    split
    · exact .throw fun _ h => h.followed hturn 0
    · exact ensures_last hturn 0 response
  | succ remaining ih =>
    refine (ensures_turn hparser hturn (remaining + 1)).bind fun response => ?_
    split
    · refine .ofExcept_bind (fun _ h => h.followed hturn _) fun next hnext => ?_
      refine .of_part fun sent hsent => ?_
      have hlength : sent.length + remaining + 1 = before.length + (remaining + 1) + 1 := by
        obtain ⟨request, rfl, -⟩ := hsent.handed
        rw [length_append, length_singleton]
        omega
      unfold Followed
      rw [← hlength]
      exact ih ((redirected_sound hnext).turn hturn hsent)
    · exact ensures_last hturn (remaining + 1) response

variable (client) in
theorem ensures_releasing {known : List TransportRequest → Prop} {call : Call σ α}
    {before : Session σ → Prop} {fact : α → Prop}
    (h : Ensures before call (fun answer session => known session.sent ∧
      fact answer) fun session => known session.sent) :
    Ensures before (client.releasing call) (fun answer session => known session.sent ∧ fact answer)
      fun session => known session.sent := by
  have hcaught : Ensures before call.caught (fun result session => known session.sent ∧
      ∀ answer, result = .ok answer → fact answer) fun session => known session.sent := by
    refine h.caught.weaken (fun _ h => h) (fun result session hended => ?_) fun _ h => h
    cases result with
    | ok answer =>
      refine ⟨(hended.1 answer rfl).1, fun other hother => ?_⟩
      cases hother
      exact (hended.1 answer rfl).2
    | error error => exact ⟨hended.2 ⟨error, rfl⟩, fun other hother => by cases hother⟩
  refine hcaught.bind fun result => .of_pure fun hfact => ?_
  refine (client.keeps_withShared _).ensures_bind known (fun _ h => h) fun _ => ?_
  exact .ofExcept (fun _ h => h) fun answer hanswer _ hknown => ⟨hknown, hfact answer hanswer⟩

/-- Every request that a call hands to its transport is authorised, there are at most as many as
the redirects allow, and the response it answers is accepted. -/
theorem call_authorised (client : SafeHttpClient σ) (hparser : client.parser.Specified)
    (request : HttpRequest client.parser) (world : σ) (shared : Shared) :
    Authorised client.policy client.parser (client.call request world shared).2.sent ∧
      (client.call request world shared).2.sent.length ≤ client.policy.limits.maxRedirects + 1 ∧
      ∀ response, (client.call request world shared).1 = .ok response →
        Accepted client.policy response := by
  have hturn : Turn client ⟨request.method, request.url, request.headers, request.body, []⟩ [] :=
    ⟨⟨by simp, .nil, .nil, .nil⟩, request.parsed, request.bodyOnPost, by simp, by simp, by simp⟩
  have hempty : Followed client 0 client.policy.limits.maxRedirects [] :=
    ⟨hturn.authorised, Nat.zero_le _⟩
  have hfollow := ensures_releasing client (ensures_follow hparser client.policy.limits.maxRedirects hturn)
  have hcall : Ensures (fun session : Session σ => session.sent = []) (client.execute request)
      (fun response session => Followed client 0 client.policy.limits.maxRedirects session.sent ∧
        Accepted client.policy response)
      fun session => Followed client 0 client.policy.limits.maxRedirects session.sent := by
    have hstart : ∀ session : Session σ, session.sent = [] →
        Followed client 0 client.policy.limits.maxRedirects session.sent := by
      intro session h
      rw [h]
      exact hempty
    refine client.keeps_checkCancelled.ensures_bind (· = []) hstart fun _ => ?_
    exact client.keeps_acquireActive.ensures_bind (· = []) hstart fun _ => hfollow
  unfold call
  cases houtcome : (client.execute request).outcome ⟨world, shared, []⟩ with
  | mk result ended =>
    cases result with
    | ok response =>
      obtain ⟨⟨hauthorised, hbound⟩, haccepted⟩ := hcall.answers _ rfl response ended houtcome
      refine ⟨hauthorised, Nat.le_trans hbound (by omega), fun other hother => ?_⟩
      cases hother
      exact haccepted
    | error error =>
      obtain ⟨hauthorised, hbound⟩ := hcall.fails _ rfl error ended houtcome
      exact ⟨hauthorised, Nat.le_trans hbound (by omega), fun other hother => by cases hother⟩

end SafeHttpClient

namespace Redirect

def start : Url := ⟨"https", "", none, some (.domain "one.example"), none, "/start", none, none⟩

def final : Url := ⟨"https", "", none, some (.domain "two.example"), none, "/final", none, none⟩

def parser : UrlParser where
  parse text :=
    if text = start.asStr then .ok start else .error "relative URL without a base"
  join base location :=
    if base = start ∧ location = final.asStr then .ok final
    else .error "relative URL without a base"
  parseHost name := .ok (.domain name)

theorem parser_parsed {url : Url} (h : parser.Parsed url) : url = start ∨ url = final := by
  cases h with
  | parse hparse =>
    simp only [parser] at hparse
    split at hparse
    · exact .inl (Except.ok.inj hparse).symm
    · cases hparse
  | join hjoin =>
    simp only [parser] at hjoin
    split at hjoin
    · exact .inr (Except.ok.inj hjoin).symm
    · cases hjoin

theorem parser_specified : parser.Specified where
  trimmed := by
    intro url hparsed _ name hname
    rcases parser_parsed hparsed with rfl | rfl <;> cases hname <;> decide
  notAddress := by
    intro url hparsed _ name hname
    rcases parser_parsed hparsed with rfl | rfl <;> cases hname <;> decide
  sameHost := fun _ _ _ _ _ => rfl

theorem isPublic_of_parse {name : String} (h : IpAddr.parse name = none) (address : IpAddr) :
    IpAddr.parse name = some address → isPublicIp address = true := by
  intro haddress
  rw [h] at haddress
  cases haddress

def granted (name : String) (h : isLocalhostName name = false) (h' : IpAddr.parse name = none) :
    GrantedHost :=
  ⟨name, h, isPublic_of_parse h'⟩

/-- The first exchange redirects, the second answers. -/
def world : World Nat where
  isCancelled exchanges := (false, exchanges)
  now exchanges := (exchanges, exchanges)
  resolve _ exchanges := (.ok [.v4 ⟨93, 184, 216, 34⟩], exchanges)
  exchange _ exchanges :=
    if exchanges = 0 then
      (.ok ⟨302, [⟨"location", final.asStr.toUTF8.toList⟩], []⟩, exchanges + 1)
    else
      (.ok ⟨200, [⟨"content-type", "application/json".toUTF8.toList⟩], [.ok "{}".toUTF8.toList]⟩,
        exchanges + 1)
  others shared exchanges := (shared, exchanges)

def client : SafeHttpClient Nat where
  policy := .new ⟨[granted "one.example" (by decide) (by decide),
    granted "two.example" (by decide) (by decide)], by simp⟩ .json
  parser
  world

def request : HttpRequest client.parser :=
  ⟨.get, start, [⟨"authorization", "Bearer secret", by decide⟩], [], .parse (if_pos rfl),
    fun _ => rfl⟩

theorem call_authorised_redirected :
    Authorised client.policy client.parser (client.call request 0 ⟨0, []⟩).2.sent ∧
      (client.call request 0 ⟨0, []⟩).2.sent.length ≤ client.policy.limits.maxRedirects + 1 ∧
      ∀ response, (client.call request 0 ⟨0, []⟩).1 = .ok response →
        Accepted client.policy response :=
  client.call_authorised parser_specified request 0 ⟨0, []⟩

end Redirect

end KeyReader.Http
