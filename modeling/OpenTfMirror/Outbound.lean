import OpenTfMirror.PublicAddresses
import OpenTfMirror.TextOps

/-!
# The outbound client

URL policy, the vetting resolver and the bounded redirect loop. The URL crate
is a parameter: its parser, the parts of a parsed URL and relative resolution.
The HTTP client is modelled by what it may contact: the address of an IP-literal
host, or any address that its resolver returns. It follows no redirect itself.
-/

namespace OpenTfMirror.Outbound

open PublicAddresses TextOps

/-- The URL library. -/
class UrlCrate (Url : Type) where
  /-- `Url::parse`. -/
  parse : String → Option Url
  /-- `Url::scheme`. -/
  scheme : Url → String
  /-- `Url::host_str`. -/
  hostStr : Url → Option String
  /-- The address of an IP-literal host. -/
  hostIp : Url → Option IpAddr
  /-- `Url::join`. -/
  join : Url → String → Option Url

/-- One field of a dotted quad: no leading zero, at most 255. -/
def parseOctet (cs : List Char) : Option ℕ :=
  let value := cs.foldl (fun n c => 10 * n + (c.toNat - '0'.toNat)) 0
  if cs.all Char.isDigit && 1 ≤ cs.length && cs.length ≤ 3 &&
      (cs.length = 1 || cs.head? ≠ some '0') && value ≤ 255 then
    some value
  else none

/-- `Ipv4Addr::from_str`. -/
def parseIpv4 (cs : List Char) : Option Ipv4Addr :=
  match (cs.splitOn '.').map parseOctet with
  | [some a, some b, some c, some d] => some (Ipv4Addr.new a b c d)
  | _ => none

def hexValue (c : Char) : ℕ :=
  if c.isDigit then c.toNat - '0'.toNat else c.toLower.toNat - 'a'.toNat + 10

/-- One group of an IPv6 address: one to four hex digits. -/
def parseGroup (cs : List Char) : Option ℕ :=
  if cs.all isHexDigit && 1 ≤ cs.length && cs.length ≤ 4 then
    some (cs.foldl (fun n c => 16 * n + hexValue c) 0)
  else none

/-- Groups up to the end of the text; the last may be an IPv4 address. -/
def parseGroups : List (List Char) → Option (List ℕ)
  | [] => some []
  | [last] =>
    match parseGroup last with
    | some group => some [group]
    | none => (parseIpv4 last).map fun ip => [ip.toNat / 2 ^ 16, ip.toNat % 2 ^ 16]
  | part :: rest => do
    let group ← parseGroup part
    let groups ← parseGroups rest
    some (group :: groups)

/-- The text before and after the first `::`. -/
def splitDoubleColon : List Char → Option (List Char × List Char)
  | [] => none
  | ':' :: ':' :: rest => some ([], rest)
  | c :: rest => (splitDoubleColon rest).map fun parts => (c :: parts.1, parts.2)

def ipv6OfGroups (groups : List ℕ) : Ipv6Addr :=
  BitVec.ofNat 128 (groups.foldl (fun n group => n * 2 ^ 16 + group) 0)

/-- `Ipv6Addr::from_str`: eight groups, or fewer around one `::`. -/
def parseIpv6 (cs : List Char) : Option Ipv6Addr :=
  match splitDoubleColon cs with
  | none => do
    let groups ← parseGroups (cs.splitOn ':')
    if groups.length = 8 then some (ipv6OfGroups groups) else none
  | some (head, tail) => do
    let front ← if head = [] then some [] else (head.splitOn ':').mapM parseGroup
    let back ← if tail = [] then some [] else parseGroups (tail.splitOn ':')
    if front.length + back.length ≤ 7 then
      some (ipv6OfGroups (front ++ List.replicate (8 - (front.length + back.length)) 0 ++ back))
    else none

/-- `str::parse::<IpAddr>`. -/
def parseIpAddr (s : String) : Option IpAddr :=
  match parseIpv4 s.toList with
  | some ip => some (.v4 ip)
  | none => (parseIpv6 s.toList).map .v6

example : parseIpAddr "::ffff:127.0.0.1" = some (.v6 (BitVec.ofNat 128 0xffff7f000001)) := by decide

inductive OutboundMode where
  | direct
  | trustedProxy
  deriving DecidableEq, Repr

/-- A link of a request error's source chain. -/
inductive Cause where
  /-- `ResolvePolicyError`. -/
  | resolvePolicy (message : String)
  | other (message : String)
  deriving DecidableEq, Repr

/-- `reqwest::Error` with its chain of sources. -/
structure RequestError where
  sources : List Cause
  deriving DecidableEq, Repr

inductive OutboundError where
  | policy (message : String)
  | redirect (message : String)
  | request (error : RequestError)
  | dns (message : String)
  | proxyRequired
  | invalidCa (message : String)
  deriving DecidableEq, Repr

/-- What `get` reads of a response, and what its callers go on to read. -/
structure Response (Url : Type) where
  /-- The status code. -/
  status : ℕ
  /-- The bytes of the `Location` header. -/
  location : Option (List UInt8)
  /-- The URL that answered. -/
  url : Url
  /-- `Content-Length`. -/
  contentLength : Option ℕ
  /-- The body as it arrives. -/
  chunks : List (Except RequestError (List UInt8))

/-- What the network does with one request. -/
structure Answer (Url : Type) where
  /-- The addresses that the system resolver finds for the host. -/
  lookup : Except String (List IpAddr)
  /-- The result once an address was contacted. -/
  outcome : Except RequestError (Response Url)

/-- A request that was issued, with every address it may have contacted. -/
structure Sent (Url : Type) where
  url : Url
  contacted : List IpAddr

structure PublicOnlyResolver where
  allowNonPublicIps : Bool
  deriving DecidableEq, Repr

/-- `PublicOnlyResolver::resolve`, given what the system resolver found. -/
def PublicOnlyResolver.resolve (resolver : PublicOnlyResolver)
    (lookup : Except String (List IpAddr)) : Except Cause (List IpAddr) :=
  match lookup with
  | .error message => .error (.other message)
  | .ok addresses =>
    if addresses.isEmpty then .error (.resolvePolicy "URL host did not resolve")
    else if !resolver.allowNonPublicIps && addresses.any fun address => !isPublicIp address then
      .error (.resolvePolicy "URL resolves to a non-public address")
    else .ok addresses

/-- The configured HTTP client; without a resolver it asks the system. -/
structure Client where
  resolver : Option PublicOnlyResolver
  proxies : Bool
  deriving DecidableEq, Repr

structure OutboundClient where
  mode : OutboundMode
  client : Client
  allowHttp : Bool
  allowNonPublicIps : Bool
  deriving DecidableEq, Repr

/-- What `OutboundClient::new` reads from its surroundings. -/
structure Startup where
  /-- Values of the proxy variables that are set. -/
  proxyVariables : List String
  /-- `std::fs::read`. -/
  read : String → Except String (List UInt8)
  /-- `Certificate::from_pem_bundle`. -/
  fromPemBundle : List UInt8 → Except String (List (List UInt8))
  /-- `ClientBuilder::build` with these root certificates. -/
  build : List (List UInt8) → Except String Unit

/-- `proxy_configured`. -/
def proxyConfigured (startup : Startup) : Bool :=
  startup.proxyVariables.any fun value => trim value ≠ ""

/-- `OutboundClient::build`. -/
def OutboundClient.build (startup : Startup) (mode : OutboundMode)
    (certificates : List (List UInt8)) (allowHttp allowNonPublicIps : Bool) :
    Except OutboundError OutboundClient :=
  match startup.build certificates with
  | .error message => .error (.invalidCa message)
  | .ok _ => .ok {
      mode
      client := {
        resolver := if mode = .direct then some ⟨allowNonPublicIps⟩ else none
        proxies := mode ≠ .direct }
      allowHttp
      allowNonPublicIps }

/-- `OutboundClient::new`. -/
def OutboundClient.new (startup : Startup) (mode : OutboundMode) (caFile : Option String) :
    Except OutboundError OutboundClient :=
  if mode = .trustedProxy && !proxyConfigured startup then .error .proxyRequired
  else
    match caFile with
    | none => OutboundClient.build startup mode [] false false
    | some path =>
      match startup.read path with
      | .error message => .error (.invalidCa message)
      | .ok pem =>
        match startup.fromPemBundle pem with
        | .error message => .error (.invalidCa message)
        | .ok certificates =>
          if certificates.isEmpty then
            .error (.invalidCa "CA bundle does not contain a PEM certificate")
          else OutboundClient.build startup mode certificates false false

variable {Url : Type} [UrlCrate Url]

/-- One request of the HTTP client: it contacts the literal address of the URL,
or an address of its resolver. -/
def Client.send (client : Client) (url : Url) (answer : Answer Url) :
    Except RequestError (Response Url) × List IpAddr :=
  match UrlCrate.hostIp url with
  | some ip => (answer.outcome, [ip])
  | none =>
    match client.resolver with
    | none => (answer.outcome, answer.lookup.toOption.getD [])
    | some resolver =>
      match resolver.resolve answer.lookup with
      | .error cause => (.error ⟨[cause]⟩, [])
      | .ok addresses => (answer.outcome, addresses)

/-- `map_request_error`: a policy error anywhere in the source chain. -/
def mapRequestError (error : RequestError) : OutboundError :=
  match error.sources.findSome? fun | .resolvePolicy message => some message | .other _ => none with
  | some message => .policy message
  | none => .request error

/-- `is_redirect`. -/
def isRedirect (status : ℕ) : Bool :=
  status = 301 || status = 302 || status = 303 || status = 307 || status = 308

/-- `HeaderValue::to_str`: visible ASCII and tabs. -/
def headerToStr (bytes : List UInt8) : Option String :=
  if bytes.all fun b => (32 ≤ b && b < 127) || b = 9 then
    some (String.ofList (bytes.map fun b => Char.ofNat b.toNat))
  else none

/-- The host without the brackets of an IPv6 literal. -/
def trimBrackets (host : String) : String := trimEnd (· = ']') (trimStart (· = '[') host)

/-- `OutboundClient::validate_url`. -/
def OutboundClient.validateUrl (self : OutboundClient) (url : Url) : Except OutboundError Unit :=
  let scheme := UrlCrate.scheme url
  if scheme ≠ "https" && !(self.allowHttp && scheme = "http") then
    .error (.policy "HTTPS is required")
  else
    match UrlCrate.hostStr url with
    | none => .error (.policy "URL host is required")
    | some host =>
      let literalIp := parseIpAddr (trimBrackets host)
      if self.mode = .direct && !self.allowNonPublicIps &&
          literalIp.any fun ip => !isPublicIp ip then
        .error (.policy "URL targets a non-public address")
      else .ok ()

def maxRedirects : ℕ := 5

/-- How `get` ends; `unreachable` is its panic. -/
inductive Outcome (Url : Type) where
  | returned (result : Except OutboundError (Response Url))
  | unreachable

/-- The end of `get` together with the requests it issued. -/
structure Exchange (Url : Type) where
  outcome : Outcome Url
  sent : List (Sent Url)

/-- The next URL of a redirect response. -/
def nextUrl (url : Url) (response : Response Url) : Except OutboundError Url :=
  match response.location with
  | none => .error (.redirect "missing Location header")
  | some bytes =>
    match headerToStr bytes with
    | none => .error (.redirect "invalid Location header")
    | some location =>
      match UrlCrate.join url location with
      | none => .error (.redirect "invalid Location URL")
      | some next => .ok next

/-- The loop of `get` over the redirect counts that are left. -/
def OutboundClient.getLoop (self : OutboundClient) (answers : ℕ → Answer Url) :
    List ℕ → Url → Exchange Url
  | [], _ => ⟨.unreachable, []⟩
  | redirectCount :: rest, url =>
    match self.validateUrl url with
    | .error error => ⟨.returned (.error error), []⟩
    | .ok () =>
      let (result, contacted) := self.client.send url (answers redirectCount)
      match result with
      | .error error => ⟨.returned (.error (mapRequestError error)), [⟨url, contacted⟩]⟩
      | .ok response =>
        if !isRedirect response.status then ⟨.returned (.ok response), [⟨url, contacted⟩]⟩
        else if redirectCount = maxRedirects then
          ⟨.returned (.error (.redirect "maximum redirect count exceeded")), [⟨url, contacted⟩]⟩
        else
          match nextUrl url response with
          | .error error => ⟨.returned (.error error), [⟨url, contacted⟩]⟩
          | .ok next =>
            match self.validateUrl next with
            | .error error => ⟨.returned (.error error), [⟨url, contacted⟩]⟩
            | .ok () =>
              let tail := self.getLoop answers rest next
              ⟨tail.outcome, ⟨url, contacted⟩ :: tail.sent⟩

/-- `OutboundClient::get`, against any answers of the network. -/
def OutboundClient.get (self : OutboundClient) (answers : ℕ → Answer Url) (url : Url) :
    Exchange Url :=
  self.getLoop answers (List.range (maxRedirects + 1)) url

/-- The addresses of IP-literal hosts are written in a form that parses back:
what the URL library promises of canonical hosts. -/
def CanonicalHosts (Url : Type) [UrlCrate Url] : Prop :=
  ∀ (url : Url) (ip : IpAddr) (host : String), UrlCrate.hostIp url = some ip →
    UrlCrate.hostStr url = some host → parseIpAddr (trimBrackets host) = some ip

/-- URLs of the form `scheme://host/path`, enough to run the client on. -/
structure PlainUrl where
  scheme : String
  host : String
  path : String
  deriving DecidableEq, Repr

/-- The host up to the first slash, and the path from there. -/
def PlainUrl.ofParts (scheme rest : String) : Option PlainUrl :=
  let host := rest.toList.takeWhile (· ≠ '/')
  if host = [] then none
  else some ⟨scheme, String.ofList host, String.ofList (rest.toList.drop host.length)⟩

def PlainUrl.parse (s : String) : Option PlainUrl :=
  match stripPrefix "https://" s with
  | some rest => PlainUrl.ofParts "https" rest
  | none => (stripPrefix "http://" s).bind (PlainUrl.ofParts "http")

instance : UrlCrate PlainUrl where
  parse := PlainUrl.parse
  scheme url := url.scheme
  hostStr url := some url.host
  hostIp url := parseIpAddr (trimBrackets url.host)
  join url location :=
    match PlainUrl.parse location with
    | some next => some next
    | none => if location.toList.head? = some '/' then some { url with path := location } else none

theorem plainUrl_canonicalHosts : CanonicalHosts PlainUrl := by
  intro url ip host hip hhost
  cases hhost
  exact hip

/-- The policy of a direct client: HTTPS only and public addresses only. -/
structure OutboundClient.Strict (outbound : OutboundClient) : Prop where
  mode : outbound.mode = .direct
  https : outbound.allowHttp = false
  publicOnly : outbound.allowNonPublicIps = false
  resolver : outbound.client.resolver = some ⟨false⟩

/-- Every client that `new` builds in direct mode is strict. -/
theorem new_direct_strict {startup : Startup} {caFile : Option String} {client : OutboundClient}
    (h : OutboundClient.new startup .direct caFile = .ok client) : client.Strict := by
  have hbuild : ∀ certificates, OutboundClient.build startup .direct certificates false false =
      .ok client → client.Strict := by
    intro certificates hb
    unfold OutboundClient.build at hb
    split at hb
    · cases hb
    · cases hb
      exact ⟨rfl, rfl, rfl, rfl⟩
  unfold OutboundClient.new at h
  simp only [reduceCtorEq, decide_false, Bool.false_and, Bool.false_eq_true, if_false] at h
  split at h
  · exact hbuild _ h
  · split at h
    · cases h
    · split at h
      · cases h
      · split at h
        · cases h
        · exact hbuild _ h

/-- The resolver hands over public addresses only. -/
theorem resolve_public {resolver : PublicOnlyResolver} (hstrict : resolver.allowNonPublicIps = false)
    {lookup : Except String (List IpAddr)} {addresses : List IpAddr}
    (h : resolver.resolve lookup = .ok addresses) : ∀ ip ∈ addresses, isPublicIp ip = true := by
  unfold PublicOnlyResolver.resolve at h
  split at h
  · cases h
  · rename_i found
    split at h
    · cases h
    · split at h
      · cases h
      · rename_i hany
        cases h
        simp only [hstrict, Bool.not_false, Bool.true_and, List.any_eq_true, Bool.not_eq_true',
          not_exists, not_and, Bool.not_eq_false] at hany
        exact hany

/-- A URL that passes the policy is HTTPS, has a host, and is not a literal of
a non-public address. -/
theorem validateUrl_ok {self : OutboundClient} (hstrict : self.Strict) {url : Url}
    (h : self.validateUrl url = .ok ()) :
    UrlCrate.scheme url = "https" ∧ ∃ host, UrlCrate.hostStr url = some host ∧
      ∀ ip, parseIpAddr (trimBrackets host) = some ip → isPublicIp ip = true := by
  unfold OutboundClient.validateUrl at h
  simp only [hstrict.https, hstrict.mode, hstrict.publicOnly, Bool.false_and, Bool.not_false,
    Bool.and_true, decide_true, Bool.true_and] at h
  split at h
  · cases h
  · rename_i hscheme
    split at h
    · cases h
    · rename_i host hhost
      split at h
      · cases h
      · rename_i hpublic
        refine ⟨by simpa using hscheme, host, hhost, fun ip hip => ?_⟩
        simpa [hip] using hpublic

/-- A request for a validated URL contacts public addresses only. -/
theorem send_public (hcanonical : CanonicalHosts Url) {self : OutboundClient}
    (hstrict : self.Strict) {url : Url} (hvalid : self.validateUrl url = .ok ())
    (answer : Answer Url) : ∀ ip ∈ (self.client.send url answer).2, isPublicIp ip = true := by
  obtain ⟨-, host, hhost, hliteral⟩ := validateUrl_ok hstrict hvalid
  unfold Client.send
  split
  · rename_i ip hip
    intro ip' hmem
    rw [List.mem_singleton.mp hmem]
    exact hliteral ip (hcanonical url ip host hip hhost)
  · simp only [hstrict.resolver]
    split
    · intro ip hmem
      cases hmem
    · rename_i addresses hresolve
      exact resolve_public rfl hresolve

/-- What a request issued under the policy satisfies. -/
structure Sent.Permitted (sent : Sent Url) : Prop where
  https : UrlCrate.scheme sent.url = "https"
  publicOnly : ∀ ip ∈ sent.contacted, isPublicIp ip = true

/-- From any redirect count on, the loop returns, and issues one permitted
request for each count at most. -/
theorem getLoop_policy (hcanonical : CanonicalHosts Url) {self : OutboundClient}
    (hstrict : self.Strict) (answers : ℕ → Answer Url) (n k : ℕ) (hk : n + k = maxRedirects + 1)
    (hpos : 0 < k) (url : Url) :
    (∃ result, (self.getLoop answers (List.range' n k) url).outcome = .returned result) ∧
      (self.getLoop answers (List.range' n k) url).sent.length ≤ k ∧
      ∀ sent ∈ (self.getLoop answers (List.range' n k) url).sent, sent.Permitted := by
  induction k generalizing n url with
  | zero => exact absurd hpos (Nat.lt_irrefl 0)
  | succ k ih =>
    rw [List.range'_succ]
    unfold OutboundClient.getLoop
    cases hvalid : self.validateUrl url with
    | error error => exact ⟨⟨_, rfl⟩, Nat.zero_le _, fun _ h => by cases h⟩
    | ok _ =>
      have hsent : (⟨url, (self.client.send url (answers n)).2⟩ : Sent Url).Permitted :=
        ⟨(validateUrl_ok hstrict hvalid).1, send_public hcanonical hstrict hvalid (answers n)⟩
      have hone : ∀ sent ∈ [(⟨url, (self.client.send url (answers n)).2⟩ : Sent Url)],
          sent.Permitted := by
        intro sent hmem
        rw [List.mem_singleton.mp hmem]
        exact hsent
      dsimp only
      split
      · exact ⟨⟨_, rfl⟩, by simp, hone⟩
      · rename_i response hresponse
        split
        · exact ⟨⟨_, rfl⟩, by simp, hone⟩
        · split
          · exact ⟨⟨_, rfl⟩, by simp, hone⟩
          · rename_i hcount
            split
            · exact ⟨⟨_, rfl⟩, by simp, hone⟩
            · rename_i next hnext
              split
              · exact ⟨⟨_, rfl⟩, by simp, hone⟩
              · have hk' : 0 < k := by omega
                obtain ⟨hreturned, hlength, hall⟩ := ih (n + 1) (by omega) hk' next
                refine ⟨hreturned, ?_, ?_⟩
                · rw [List.length_cons]
                  omega
                · intro sent hmem
                  rcases List.mem_cons.mp hmem with rfl | hmem'
                  · exact hsent
                  · exact hall sent hmem'

/-- The egress policy of a direct client. Against any network, `get` returns
after at most six requests; each of them is HTTPS and contacts public addresses
only; and a public address lies in no special-purpose block, by itself or
through an embedded IPv4 address. -/
theorem direct_get_policy (hcanonical : CanonicalHosts Url) {startup : Startup}
    {caFile : Option String} {client : OutboundClient}
    (hnew : OutboundClient.new startup .direct caFile = .ok client) (answers : ℕ → Answer Url)
    (url : Url) :
    (∃ result, (client.get answers url).outcome = .returned result) ∧
      (client.get answers url).sent.length ≤ 6 ∧
      (∀ sent ∈ (client.get answers url).sent, UrlCrate.scheme sent.url = "https" ∧
        ∀ ip ∈ sent.contacted, isPublicIp ip = true) ∧
      ∀ ip, isPublicIp ip = true → ip.Routable := by
  have hstrict := new_direct_strict hnew
  obtain ⟨hreturned, hlength, hall⟩ :=
    getLoop_policy hcanonical hstrict answers 0 (maxRedirects + 1) (by simp) (by simp) url
  rw [← List.range_eq_range'] at hreturned hlength hall
  exact ⟨hreturned, hlength, fun sent hmem => ⟨(hall sent hmem).https, (hall sent hmem).publicOnly⟩,
    fun ip hip => isPublicIp_routable hip⟩

/-- A client without a CA bundle, redirected from a public name to the loopback
address. -/
theorem direct_get_policy_loopback_redirect :
    let startup : Startup := ⟨[], fun _ => .error "", fun _ => .error "", fun _ => .ok ()⟩
    let client : OutboundClient := ⟨.direct, ⟨some ⟨false⟩, false⟩, false, false⟩
    let url : PlainUrl := ⟨"https", "registry.example", "/v1"⟩
    let answers : ℕ → Answer PlainUrl := fun _ =>
      ⟨.ok [.v4 (Ipv4Addr.new 8 8 8 8)],
        .ok ⟨302, some "https://127.0.0.1/".toUTF8.toList, url, none, []⟩⟩
    OutboundClient.new startup .direct none = .ok client ∧
      (∃ result, (client.get answers url).outcome = .returned result) ∧
      (client.get answers url).sent.length ≤ 6 ∧
      (∀ sent ∈ (client.get answers url).sent, UrlCrate.scheme sent.url = "https" ∧
        ∀ ip ∈ sent.contacted, isPublicIp ip = true) ∧
      ∀ ip, isPublicIp ip = true → ip.Routable := by
  intro startup client url answers
  have hnew : OutboundClient.new startup .direct none = .ok client := rfl
  exact ⟨hnew, direct_get_policy plainUrl_canonicalHosts hnew answers url⟩

end OpenTfMirror.Outbound
