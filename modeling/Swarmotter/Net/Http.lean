import Swarmotter.Net.Addr

namespace swarmotter.net.http

def MAX_TRACKER_HTTP_BODY_BYTES : Nat := 2 * 1024 * 1024

def MAX_UPNP_SOAP_BODY_BYTES : Nat := 256 * 1024

def MAX_REDIRECTS : Nat := 5

def MAX_HTTP1_HEADER_BYTES : Nat := 64 * 1024

def MAX_HTTP1_HEADERS : Nat := 128

structure HttpResponse where
  status : Nat
  body : Bytes
  final_url : String
  content_range : Option String

inductive RequestPolicy where
  | Tracker
  | WebseedRange (start end_exclusive : Nat)
  | UpnpSoap

def range_length (start end_exclusive : Nat) : Result Nat := do
  let length ← ok_or ((checked_sub end_exclusive start).filter (0 < ·))
    (.InvalidArgument "HTTP byte range end must be greater than start")
  let _ ← reject_if (length > usize.MAX)
    (.InvalidArgument "HTTP byte range is too large for this platform")
  pure length

/-- `StatusCode::is_success`. -/
def is_success (status : Nat) : Bool := 200 ≤ status && status < 300

namespace RequestPolicy

def body_limit : RequestPolicy → Result Nat
  | Tracker => .ok MAX_TRACKER_HTTP_BODY_BYTES
  | WebseedRange start end_exclusive => range_length start end_exclusive
  | UpnpSoap => .ok MAX_UPNP_SOAP_BODY_BYTES

def range_header : RequestPolicy → Option String
  | Tracker => none
  | WebseedRange start end_exclusive => some s!"bytes={start}-{end_exclusive - 1}"
  | UpnpSoap => none

def accepts (policy : RequestPolicy) (status : Nat) : Bool :=
  match policy with
  | Tracker => is_success status
  | WebseedRange _ _ => status = 206
  | UpnpSoap => is_success status

end RequestPolicy

def is_followed_redirect (status : Nat) : Bool :=
  status = 301 || status = 302 || status = 303 || status = 307 || status = 308

/-- A URL the client may ask for. -/
def parse_http_url (crate : UrlCrate) (raw : String) : Result Url :=
  match crate.parse raw with
  | .error error => .error (.InvalidArgument s!"invalid HTTP URL: {error}")
  | .ok url => do
    let _ ← reject_if (¬ (url.scheme = "http" ∨ url.scheme = "https"))
      (.InvalidArgument s!"unsupported HTTP URL scheme: {url.scheme}")
    let _ ← reject_if (url.host.isNone = true) (.InvalidArgument s!"HTTP URL has no host: {crate.as_str url}")
    let _ ← reject_if (url.username ≠ "" ∨ url.password.isSome = true)
      (.InvalidArgument "HTTP URL user information is not permitted")
    pure { url with fragment := none }

def resolve_redirect (crate : UrlCrate) (current : Url) (location : String) : Result Url :=
  match crate.join current location with
  | .error error => .error (.HttpProtocol s!"invalid redirect Location from {crate.as_str current}: {error}")
  | .ok joined =>
    match parse_http_url crate (crate.as_str joined) with
    | .ok url => .ok url
    | .error error =>
      .error (.HttpProtocol s!"redirect from {crate.as_str current} is not a permitted HTTP URL: {error}")

def host_authority (crate : UrlCrate) (url : Url) : Result String := do
  let host ← ok_or url.host (.InvalidArgument s!"HTTP URL has no host: {crate.as_str url}")
  let host := match host with
    | .Domain domain => domain
    | .Ipv4 address => address.to_string
    | .Ipv6 address => "[" ++ address.to_string ++ "]"
  let default_port ←
    if url.scheme = "http" then .ok 80 else if url.scheme = "https" then .ok 443
    else .error (.InvalidArgument s!"unsupported HTTP URL scheme: {url.scheme}")
  match url.port with
  | some port => pure (if port ≠ default_port then s!"{host}:{port.toNat}" else host)
  | none => pure host

def connection_host (crate : UrlCrate) (url : Url) : Result String := do
  let host ← ok_or url.host (.InvalidArgument s!"HTTP URL has no host: {crate.as_str url}")
  match host with
  | .Domain domain => pure domain
  | .Ipv4 address => pure address.to_string
  | .Ipv6 address => pure address.to_string

/-- What the request of `build_request` carries besides its constant headers. -/
structure Request where
  target : String
  host : String
  range : Option String

def build_request (crate : UrlCrate) (url : Url) (policy : RequestPolicy) : Result Request := do
  let path := if url.path = "" then "/" else url.path
  let target := match url.query with
    | some query => s!"{path}?{query}"
    | none => path
  let authority ← host_authority crate url
  pure ⟨target, authority, policy.range_header⟩

/-- A response as it is read from a connection. The names of the headers are in lower case; a frame of
    the body is data or a trailer. -/
structure Response where
  status : Nat
  headers : Vec (String × Bytes)
  frames : Vec (Except String (Option Bytes))

structure RawResponse where
  status : Nat
  body : Bytes
  location : Option String
  content_range : Option String

/-- The network and the servers in it. What they answer may depend on every URL asked for so far, the
    last of which is that of the request; there is no answer if the time for the whole request is up. -/
abbrev Network := Vec Url → String → UInt16 → Request → Option (Result Response)

/-- `HeaderValue::to_str`. -/
def to_str (value : Bytes) : Option String :=
  if value.all fun byte => (32 ≤ byte && byte < 127) || byte = 9 then from_utf8 value else none

def one_header (crate : UrlCrate) (headers : Vec (String × Bytes)) (name display_name : String) (url : Url) :
    Result (Option String) :=
  match headers.filter fun header => header.1 = name with
  | [] => .ok none
  | [value] =>
    match to_str value.2 with
    | some value => .ok (some value)
    | none =>
      .error (.HttpProtocol
        s!"HTTP response from {crate.as_str url} has invalid {display_name}: failed to convert header to a str")
  | _ :: _ :: _ => .error (.HttpProtocol s!"HTTP response from {crate.as_str url} has multiple {display_name} headers")

def validate_header_bytes (crate : UrlCrate) (url : Url) : Nat → Vec (String × Bytes) → Result Unit
  | _, [] => .ok ()
  | encoded_bytes, (name, value) :: headers => do
    let encoded_bytes ← ok_or
      ((checked_add encoded_bytes (as_bytes name).length).bind fun total =>
        (checked_add total value.length).bind fun total => checked_add total 4)
      (.HttpProtocol s!"HTTP response header size from {crate.as_str url} overflowed")
    let _ ← reject_if (encoded_bytes > MAX_HTTP1_HEADER_BYTES)
      (.HttpProtocol s!"HTTP response headers from {crate.as_str url} exceeded {MAX_HTTP1_HEADER_BYTES} bytes")
    validate_header_bytes crate url encoded_bytes headers

def validate_response_headers (crate : UrlCrate) (headers : Vec (String × Bytes)) (url : Url) : Result Unit := do
  let _ ← reject_if (headers.length > MAX_HTTP1_HEADERS)
    (.HttpProtocol s!"HTTP response from {crate.as_str url} exceeded {MAX_HTTP1_HEADERS} headers")
  validate_header_bytes crate url 0 headers

def accumulate_body (crate : UrlCrate) (limit : Nat) (url : Url) :
    Bytes → Vec (Except String (Option Bytes)) →
    Result Bytes
  | decoded, [] => .ok decoded
  | _, .error error :: _ =>
    .error (.HttpProtocol s!"HTTP/1 response body from {crate.as_str url} is malformed or truncated: {error}")
  | decoded, .ok none :: frames => accumulate_body crate limit url decoded frames
  | decoded, .ok (some data) :: frames => do
    let remaining ← ok_or (checked_sub limit decoded.length)
      (.HttpProtocol s!"HTTP decoded body accumulator for {crate.as_str url} exceeded its limit")
    let _ ← reject_if (data.length > remaining)
      (.HttpProtocol s!"HTTP decoded body from {crate.as_str url} exceeded {limit} bytes")
    accumulate_body crate limit url (decoded ++ data) frames

/-- `request_over_stream` from the head of the response on. -/
def read_response (crate : UrlCrate) (policy : RequestPolicy) (body_limit : Nat) (url : Url) (response : Response) :
    Result RawResponse := do
  let _ ← validate_response_headers crate response.headers url
  if is_followed_redirect response.status then
    let location ← one_header crate response.headers "location" "Location" url
    pure ⟨response.status, [], location, none⟩
  else if policy.accepts response.status = false then pure ⟨response.status, [], none, none⟩
  else
    let content_range ← match policy with
      | .WebseedRange _ _ => one_header crate response.headers "content-range" "Content-Range" url
      | _ => .ok none
    let body ← accumulate_body crate body_limit url [] response.frames
    pure ⟨response.status, body, none, content_range⟩

/-- One request on a connection of its own, after those in `requested`. -/
def request_one (crate : UrlCrate) (net : Network) (requested : Vec Url) (url : Url) (policy : RequestPolicy)
    (body_limit : Nat) :
    Result RawResponse := do
  let request ← build_request crate url policy
  let host ← connection_host crate url
  let port ← ok_or (crate.port_or_known_default url)
    (.InvalidArgument s!"HTTP URL has no known port: {crate.as_str url}")
  match net requested host port request with
  | none => .error .Elapsed
  | some (.error error) => .error error
  | some (.ok response) => read_response crate policy body_limit url response

/-- The next URL after a redirect, when `followed` of them have been followed. -/
def follow (crate : UrlCrate) (current : Url) (followed : Nat) (response : RawResponse) : Result Url := do
  let location ← ok_or (response.location.filter fun location => trim location ≠ "")
    (.HttpProtocol s!"HTTP {response.status} from {crate.as_str current} omitted a single valid Location header")
  let _ ← reject_if (followed = MAX_REDIRECTS)
    (.HttpProtocol s!"HTTP redirect limit of {MAX_REDIRECTS} exceeded at {crate.as_str current}")
  let next ← resolve_redirect crate current location
  let _ ← reject_if (current.scheme = "https" ∧ next.scheme = "http")
    (.HttpProtocol s!"HTTPS downgrade redirect rejected: {crate.as_str current} -> {crate.as_str next}")
  pure next

/-- The loop over the hops, with the rounds that are left and the URLs that have been asked for. -/
def hops (crate : UrlCrate) (net : Network) (policy : RequestPolicy) (body_limit : Nat) :
    Nat → Vec Url → Url → Vec Url × Result HttpResponse
  | 0, requested, _ => (requested, .error (.HttpProtocol "HTTP redirect state exhausted unexpectedly"))
  | rounds + 1, requested, current =>
    if crate.as_str current ∈ requested.map crate.as_str then
      (requested, .error (.HttpProtocol s!"HTTP redirect loop detected before requesting {crate.as_str current}"))
    else
      let requested := requested ++ [current]
      match request_one crate net requested current policy body_limit with
      | .error error => (requested, .error error)
      | .ok response =>
        if is_followed_redirect response.status then
          match follow crate current (MAX_REDIRECTS - rounds) response with
          | .error error => (requested, .error error)
          | .ok next => hops crate net policy body_limit rounds requested next
        else (requested, .ok ⟨response.status, response.body, crate.as_str current, response.content_range⟩)

/-- The URLs that are asked for, in this order, and the result. -/
def request_with_redirects (crate : UrlCrate) (net : Network) (url : String) (policy : RequestPolicy) :
    Vec Url × Result HttpResponse :=
  match parse_http_url crate url with
  | .error error => ([], .error error)
  | .ok current =>
    match policy.body_limit with
    | .error error => ([], .error error)
    | .ok body_limit => hops crate net policy body_limit (MAX_REDIRECTS + 1) [] current

/-! What holds of the URLs that are asked for, whatever the servers answer. -/

/-- An `http` or `https` URL without user information. -/
structure Permitted (url : Url) : Prop where
  scheme : url.scheme = "http" ∨ url.scheme = "https"
  username : url.username = ""
  password : url.password = none

/-- After an `https` URL there are only `https` URLs. -/
def NoDowngrade (earlier later : Url) : Prop := earlier.scheme = "https" → later.scheme = "https"

/-- A chain of permitted hops without a loop and without a downgrade. -/
structure Chain (crate : UrlCrate) (requested : Vec Url) : Prop where
  distinct : (requested.map crate.as_str).Nodup
  permitted : ∀ url ∈ requested, Permitted url
  secure : requested.Pairwise NoDowngrade

theorem parse_http_url_permitted {crate : UrlCrate} {raw : String} {url : Url}
    (h : parse_http_url crate raw = .ok url) : Permitted url := by
  unfold parse_http_url at h
  cases hparse : crate.parse raw with
  | error error => simp [hparse] at h
  | ok parsed =>
    simp only [hparse, eq_ok_iff] at h
    obtain ⟨_, hscheme, _, _, _, huserinfo, rfl⟩ := h
    obtain ⟨husername, hpassword⟩ := not_or.mp huserinfo
    exact ⟨not_not.mp hscheme, not_not.mp husername, Option.not_isSome_iff_eq_none.mp hpassword⟩

theorem resolve_redirect_permitted {crate : UrlCrate} {current next : Url} {location : String}
    (h : resolve_redirect crate current location = .ok next) : Permitted next := by
  unfold resolve_redirect at h
  cases hjoin : crate.join current location with
  | error error => simp [hjoin] at h
  | ok joined =>
    cases hparse : parse_http_url crate (crate.as_str joined) with
    | error error => simp [hjoin, hparse] at h
    | ok url =>
      simp only [hjoin, hparse, Except.ok.injEq] at h
      exact h ▸ parse_http_url_permitted hparse

/-- A redirect that is followed leads to a permitted URL and not from `https` to `http`. -/
theorem follow_ok {crate : UrlCrate} {current next : Url} {followed : Nat} {response : RawResponse}
    (h : follow crate current followed response = .ok next) : Permitted next ∧ NoDowngrade current next := by
  simp only [follow, eq_ok_iff] at h
  obtain ⟨location, _, _, _, resolved, hresolve, _, hsecure, rfl⟩ := h
  have hpermitted := resolve_redirect_permitted hresolve
  refine ⟨hpermitted, fun hcurrent => ?_⟩
  rcases hpermitted.scheme with hhttp | hhttps
  · exact absurd ⟨hcurrent, hhttp⟩ hsecure
  · exact hhttps

section
variable {crate : UrlCrate} {requested : Vec Url} {current : Url}

theorem Chain.snoc (h : Chain crate requested) (hfresh : crate.as_str current ∉ requested.map crate.as_str)
    (hpermitted : Permitted current) (hsecure : ∀ url ∈ requested, NoDowngrade url current) :
    Chain crate (requested ++ [current]) := by
  refine ⟨?_, ?_, ?_⟩
  · rw [List.map_append, List.map_singleton]
    rw [List.nodup_append]
    refine ⟨h.distinct, List.pairwise_singleton _ _, fun asked hasked last hlast => ?_⟩
    rw [List.mem_singleton] at hlast
    exact fun heq => hfresh (hlast ▸ heq ▸ hasked)
  · intro url hurl
    rw [List.mem_append, List.mem_singleton] at hurl
    rcases hurl with hurl | rfl
    · exact h.permitted url hurl
    · exact hpermitted
  · rw [List.pairwise_append]
    refine ⟨h.secure, List.pairwise_singleton _ _, fun url hurl last hlast => ?_⟩
    rw [List.mem_singleton] at hlast
    exact hlast ▸ hsecure url hurl

/-- Each round asks for at most one more URL, and what is asked for stays a chain. -/
theorem hops_chain (crate : UrlCrate) (net : Network) (policy : RequestPolicy) (body_limit rounds : Nat)
    (h : Chain crate requested) (hpermitted : Permitted current)
    (hsecure : ∀ url ∈ requested, NoDowngrade url current) :
    Chain crate (hops crate net policy body_limit rounds requested current).1 ∧
      (hops crate net policy body_limit rounds requested current).1.length ≤ requested.length + rounds := by
  induction rounds generalizing requested current with
  | zero => exact ⟨h, Nat.le_refl _⟩
  | succ rounds ih =>
    rw [hops]
    split
    · exact ⟨h, Nat.le_add_right _ _⟩
    · rename_i hfresh
      have hchain := h.snoc hfresh hpermitted hsecure
      have hlength : (requested ++ [current]).length = requested.length + 1 := by simp
      cases hresponse : request_one crate net (requested ++ [current]) current policy body_limit with
      | error error =>
        simp only [hresponse]
        exact ⟨hchain, by omega⟩
      | ok response =>
        by_cases hredirect : is_followed_redirect response.status
        · cases hnext : follow crate current (MAX_REDIRECTS - rounds) response with
          | error error =>
            simp only [hresponse, hredirect, if_true, hnext]
            exact ⟨hchain, by omega⟩
          | ok next =>
            obtain ⟨hnext_permitted, hstep⟩ := follow_ok hnext
            have hall : ∀ url ∈ requested ++ [current], NoDowngrade url next := by
              intro url hurl
              rw [List.mem_append, List.mem_singleton] at hurl
              rcases hurl with hurl | rfl
              · exact fun hhttps => hstep (hsecure url hurl hhttps)
              · exact hstep
            obtain ⟨hrest, hbound⟩ := ih hchain hnext_permitted hall
            simp only [hresponse, hredirect, if_true, hnext]
            exact ⟨hrest, by omega⟩
        · simp only [hresponse, hredirect, Bool.false_eq_true, if_false]
          exact ⟨hchain, by omega⟩

end

/-- Whatever the servers answer, at most six requests are made, for distinct permitted URLs, and none
    of them for an `http` URL after an `https` one. -/
theorem redirects_contained (crate : UrlCrate) (net : Network) (url : String) (policy : RequestPolicy) :
    (request_with_redirects crate net url policy).1.length ≤ 6 ∧
      (request_with_redirects crate net url policy).1.Pairwise
        (fun first second => crate.as_str first ≠ crate.as_str second) ∧
      (∀ asked ∈ (request_with_redirects crate net url policy).1,
        (asked.scheme = "http" ∨ asked.scheme = "https") ∧ asked.username = "" ∧ asked.password = none) ∧
      (request_with_redirects crate net url policy).1.Pairwise
        (fun first second => first.scheme = "https" → second.scheme = "https") := by
  have hempty : Chain crate [] := ⟨List.nodup_nil, by simp, .nil⟩
  have hbounds : Chain crate (request_with_redirects crate net url policy).1 ∧
      (request_with_redirects crate net url policy).1.length ≤ MAX_REDIRECTS + 1 := by
    unfold request_with_redirects
    cases hparse : parse_http_url crate url with
    | error error => exact ⟨hempty, Nat.zero_le _⟩
    | ok current =>
      cases hlimit : policy.body_limit with
      | error error => exact ⟨hempty, Nat.zero_le _⟩
      | ok body_limit =>
        have hhops := hops_chain crate net policy body_limit (MAX_REDIRECTS + 1) hempty
          (parse_http_url_permitted hparse) (by simp)
        rwa [List.length_nil, Nat.zero_add] at hhops
  obtain ⟨hchain, hlength⟩ := hbounds
  refine ⟨hlength, List.pairwise_map.mp hchain.distinct, fun asked hasked => ?_, hchain.secure⟩
  have hpermitted := hchain.permitted asked hasked
  exact ⟨hpermitted.scheme, hpermitted.username, hpermitted.password⟩

end swarmotter.net.http
