import Swarmotter.Lib.Endian
import Swarmotter.Bytes
import Swarmotter.Lib.Form
import Mathlib.Data.List.TakeWhile

namespace swarmotter.net

structure Ipv4Addr where
  octets : Vector UInt8 4
  deriving DecidableEq, Repr

structure Ipv6Addr where
  segments : Vector UInt16 8
  deriving DecidableEq, Repr

inductive IpAddr where
  | V4 (ip : Ipv4Addr)
  | V6 (ip : Ipv6Addr)
  deriving DecidableEq, Repr

/-- An address with a port. The flow and scope of an IPv6 address are not read by the daemon. -/
structure SocketAddr where
  ip : IpAddr
  port : UInt16
  deriving DecidableEq, Repr

def Ipv4Addr.UNSPECIFIED : Ipv4Addr := ⟨Vector.replicate 4 0⟩

def Ipv6Addr.UNSPECIFIED : Ipv6Addr := ⟨Vector.replicate 8 0⟩

def Ipv4Addr.is_unspecified (ip : Ipv4Addr) : Bool := ip = Ipv4Addr.UNSPECIFIED

def Ipv6Addr.is_unspecified (ip : Ipv6Addr) : Bool := ip = Ipv6Addr.UNSPECIFIED

def IpAddr.octets : IpAddr → Bytes
  | V4 ip => ip.octets.toList
  | V6 ip => ip.segments.toList.flatMap fun segment => endian.to_be 2 segment.toNat

def IpAddr.is_ipv6 : IpAddr → Bool
  | V4 _ => false
  | V6 _ => true

def SocketAddr.is_ipv6 (addr : SocketAddr) : Bool := addr.ip.is_ipv6

def SocketAddr.is_ipv4 (addr : SocketAddr) : Bool := !addr.ip.is_ipv6

/-! The textual forms of the standard library. A reader takes the characters it understands and
returns the rest. -/

/-- `char::to_digit`. -/
def to_digit (radix : Nat) (c : Char) : Option Nat :=
  let digit :=
    if '0' ≤ c ∧ c ≤ '9' then some (c.toNat - '0'.toNat)
    else if 'a' ≤ c ∧ c ≤ 'z' then some (c.toNat - 'a'.toNat + 10)
    else if 'A' ≤ c ∧ c ≤ 'Z' then some (c.toNat - 'A'.toNat + 10)
    else none
  digit.filter (· < radix)

/-- A number of at most `max_digits` digits that does not exceed `limit`. -/
def read_number (radix max_digits limit : Nat) (allow_leading_zero : Bool) (text : List Char) :
    Option (Nat × List Char) :=
  let digits := text.takeWhile fun c => (to_digit radix c).isSome
  let value := digits.foldl (fun value c => value * radix + (to_digit radix c).getD 0) 0
  let zero_led := digits.head? = some '0' ∧ digits.length > 1
  if digits = [] ∨ digits.length > max_digits ∨ (allow_leading_zero = false ∧ zero_led) ∨ value > limit then none
  else some (value, text.drop digits.length)

def read_given_char (c : Char) : List Char → Option (List Char)
  | first :: text => if first = c then some text else none
  | [] => none

/-- A separator before every item but the first. -/
def read_separator {α : Type} (sep : Char) (index : Nat) (inner : List Char → Option (α × List Char))
    (text : List Char) : Option (α × List Char) :=
  if index > 0 then (read_given_char sep text).bind inner else inner text

/-- `read_ipv4_addr`, which has `count` of the four octets still to read. -/
def read_octets : Nat → Bytes → List Char → Option (Bytes × List Char)
  | 0, octets, text => some (octets, text)
  | count + 1, octets, text => do
    let (octet, text) ← read_separator '.' octets.length (read_number 10 3 255 false) text
    read_octets count (octets ++ [UInt8.ofNat octet]) text

def read_ipv4_addr (text : List Char) : Option (Ipv4Addr × List Char) := do
  let (octets, text) ← read_octets 4 [] text
  pure (⟨Vector.ofFn fun i => octets.getD i 0⟩, text)

/-- `read_groups` over `limit` groups, with the groups read so far. The flag says that the groups
    end with an embedded IPv4 address. -/
def read_groups (limit : Nat) : Nat → List UInt16 → List Char → List UInt16 × Bool × List Char
  | 0, groups, text => (groups, false, text)
  | left + 1, groups, text =>
    let ipv4 := if groups.length + 1 < limit then read_separator ':' groups.length read_ipv4_addr text else none
    match ipv4 with
    | some (v4_addr, text) =>
      let segment (i j : Fin 4) : UInt16 := v4_addr.octets[i].toUInt16 * 256 + v4_addr.octets[j].toUInt16
      (groups ++ [segment 0 1, segment 2 3], true, text)
    | none =>
      match read_separator ':' groups.length (read_number 16 4 65535 true) text with
      | some (group, text) => read_groups limit left (groups ++ [UInt16.ofNat group]) text
      | none => (groups, false, text)

def read_ipv6_addr (text : List Char) : Option (Ipv6Addr × List Char) :=
  let (head, head_ipv4, text) := read_groups 8 8 [] text
  if head.length = 8 then some (⟨Vector.ofFn fun i => head.getD i 0⟩, text)
  else if head_ipv4 then none
  else do
    let text ← read_given_char ':' text
    let text ← read_given_char ':' text
    let limit := 8 - (head.length + 1)
    let (tail, _, text) := read_groups limit limit [] text
    let groups := head ++ List.replicate (8 - head.length - tail.length) 0 ++ tail
    pure (⟨Vector.ofFn fun i => groups.getD i 0⟩, text)

/-- `parse_with`: the reader must take the whole text. -/
def parse_with {α : Type} (reader : List Char → Option (α × List Char)) (text : String) : Option α :=
  match reader text.toList with
  | some (value, []) => some value
  | _ => none

def Ipv4Addr.parse (text : String) : Option Ipv4Addr :=
  if text.utf8ByteSize > 15 then none else parse_with read_ipv4_addr text

def Ipv6Addr.parse (text : String) : Option Ipv6Addr := parse_with read_ipv6_addr text

def IpAddr.parse (text : String) : Option IpAddr :=
  match Ipv4Addr.parse text with
  | some ip => some (.V4 ip)
  | none => (Ipv6Addr.parse text).map .V6

def Ipv4Addr.to_string (ip : Ipv4Addr) : String :=
  ".".intercalate (ip.octets.toList.map fun octet => toString octet.toNat)

/-- The longest run of zero groups as its start and length, the first one among equals. -/
def longest_zeroes (segments : List UInt16) : Nat × Nat :=
  let runs := (List.range segments.length).map fun i =>
    (i, ((segments.drop i).takeWhile fun segment => segment = 0).length)
  runs.foldl (fun longest run => if run.2 > longest.2 then run else longest) (0, 0)

def hex (n : Nat) : String := String.ofList (Nat.toDigits 16 n)

def hex_groups (segments : List UInt16) : String :=
  ":".intercalate (segments.map fun segment => hex segment.toNat)

/-- The text of an IPv6 address in a URL, which has no dotted form. -/
def Ipv6Addr.compressed (ip : Ipv6Addr) : String :=
  let segments := ip.segments.toList
  let (start, length) := longest_zeroes segments
  if length > 1 then
    hex_groups (segments.take start) ++ "::" ++ hex_groups (segments.drop (start + length))
  else hex_groups segments

def Ipv6Addr.to_string (ip : Ipv6Addr) : String :=
  let segments := ip.segments.toList
  if segments.take 6 = [0, 0, 0, 0, 0, 0xffff] then
    let octet (i : Nat) (high : Bool) : String :=
      let segment := (segments.getD i 0).toNat
      toString (if high then segment / 256 else segment % 256)
    "::ffff:" ++ ".".intercalate [octet 6 true, octet 6 false, octet 7 true, octet 7 false]
  else ip.compressed

def SocketAddr.to_string (addr : SocketAddr) : String :=
  match addr.ip with
  | .V4 ip => ip.to_string ++ ":" ++ toString addr.port.toNat
  | .V6 ip => "[" ++ ip.to_string ++ "]:" ++ toString addr.port.toNat

instance : ToString SocketAddr := ⟨SocketAddr.to_string⟩

/-- A round trip through the text of an address with an elided run and one with an IPv4 tail. -/
example : (Ipv6Addr.parse "2606:4700:4700::1111").map Ipv6Addr.to_string = some "2606:4700:4700::1111" ∧
    (Ipv6Addr.parse "::ffff:10.8.0.2").map Ipv6Addr.to_string = some "::ffff:10.8.0.2" := by decide +kernel

/-- `char::is_whitespace`. -/
def is_whitespace (c : Char) : Bool :=
  let n := c.toNat
  (9 ≤ n ∧ n ≤ 13) || n = 0x20 || n = 0x85 || n = 0xa0 || n = 0x1680 || (0x2000 ≤ n ∧ n ≤ 0x200a) ||
    n = 0x2028 || n = 0x2029 || n = 0x202f || n = 0x205f || n = 0x3000

/-- `str::trim`. -/
def trim (text : String) : String :=
  String.ofList (((text.toList.dropWhile is_whitespace).reverse.dropWhile is_whitespace).reverse)

/-- What `url::Host::parse` recognises. -/
inductive Host where
  | Domain (domain : String)
  | Ipv4 (address : Ipv4Addr)
  | Ipv6 (address : Ipv6Addr)

/-- `url::Host::parse`, or the message of its error. The URL crate is not modelled. -/
abbrev HostParser := String → Except String Host

structure Socks5ProxyConfig where
  enabled : Bool
  host : Option String
  port : UInt16
  username : Option String
  password : Option String
  deriving DecidableEq

def DEFAULT_SOCKS5_PROXY_PORT : UInt16 := 1080

def Socks5ProxyConfig.default : Socks5ProxyConfig := ⟨false, none, DEFAULT_SOCKS5_PROXY_PORT, none, none⟩

def Socks5ProxyConfig.normalized_host (parse_host : HostParser) (self : Socks5ProxyConfig) :
    Result String := do
  let raw ← ok_or self.host (.InvalidConfig "network.socks5.host is required when enabled")
  let raw := trim raw
  let _ ← reject_if (raw = "") (.InvalidConfig "network.socks5.host must not be empty when set")
  match parse_host raw with
  | .error error => .error (.InvalidConfig s!"network.socks5.host is invalid: {error}")
  | .ok (.Domain domain) => pure domain
  | .ok (.Ipv4 address) => pure address.to_string
  | .ok (.Ipv6 address) => pure address.to_string

/-- One of the two credentials of RFC 1929. -/
def check_credential (field value : String) : Result Unit :=
  reject_if (value = "" ∨ value.utf8ByteSize > 255)
    (.InvalidConfig s!"network.socks5.{field} must contain 1 to 255 bytes")

def Socks5ProxyConfig.validate_host (parse_host : HostParser) (self : Socks5ProxyConfig) : Result Unit :=
  match self.host with
  | some _ => do
    let host ← self.normalized_host parse_host
    reject_if (host.utf8ByteSize > 255) (.InvalidConfig "network.socks5.host must be at most 255 bytes")
  | none => reject_if (self.enabled = true)
      (.InvalidConfig "network.socks5.host is required when network.socks5.enabled is true")

def Socks5ProxyConfig.validate (parse_host : HostParser) (self : Socks5ProxyConfig) : Result Unit := do
  let _ ← reject_if (self.port = 0) (.InvalidConfig "network.socks5.port must be greater than 0")
  let _ ← self.validate_host parse_host
  match self.username, self.password with
  | none, none => pure ()
  | some username, some password => do
    let _ ← check_credential "username" username
    check_credential "password" password
  | _, _ => .error (.InvalidConfig
      "network.socks5.username and network.socks5.password must be set together")

inductive NetworkContainmentMode where
  | Disabled
  | Preferred
  | Strict
  deriving DecidableEq, Repr

structure NetworkConfig where
  mode : NetworkContainmentMode
  required_interface : Option String
  required_source_ipv4 : Option String
  required_source_ipv6 : Option String
  required_network_namespace : Option String
  allow_ipv6 : Bool
  fail_closed : Bool
  validate_route : Bool
  validate_dns : Bool
  socks5 : Socks5ProxyConfig
  deriving DecidableEq

/-- Strict containment without a path, which validation refuses. -/
def NetworkConfig.default : NetworkConfig :=
  ⟨.Strict, none, none, none, none, true, true, false, false, .default⟩

/-- A configured path: an interface, a source address of either family, or a namespace. -/
def NetworkConfig.has_path (self : NetworkConfig) : Bool :=
  self.required_interface.isSome || self.required_source_ipv4.isSome || self.required_source_ipv6.isSome ||
    self.required_network_namespace.isSome

def NetworkConfig.validate_strict (self : NetworkConfig) : Result Unit :=
  if self.mode = .Strict then do
    let _ ← reject_if (self.has_path = false)
      (.InvalidConfig "strict network containment requires a configured network path")
    reject_if (self.allow_ipv6 = false ∧ self.required_source_ipv6.isSome = true)
      (.InvalidConfig "required_source_ipv6 set but allow_ipv6 is false")
  else pure ()

/-- A configured source address must be one of its family. -/
def check_source {α : Type} (parse : String → Option α) (message : String) : Option String → Result Unit
  | none => pure ()
  | some ip => reject_if ((parse ip).isNone = true) (.InvalidConfig s!"{message}: {ip}")

def NetworkConfig.validate (parse_host : HostParser) (self : NetworkConfig) : Result Unit := do
  let _ ← self.socks5.validate parse_host
  let _ ← self.validate_strict
  let _ ← check_source Ipv4Addr.parse "required_source_ipv4 is not a valid IPv4 address"
    self.required_source_ipv4
  check_source Ipv6Addr.parse "required_source_ipv6 is not a valid IPv6 address" self.required_source_ipv6

/-- What validation establishes for strict containment. -/
structure StrictPath (cfg : NetworkConfig) : Prop where
  has_path : cfg.has_path = true
  ipv6 : cfg.required_source_ipv6.isSome = true → cfg.allow_ipv6 = true
  source_ipv4 : ∀ ip ∈ cfg.required_source_ipv4, (Ipv4Addr.parse ip).isSome = true
  source_ipv6 : ∀ ip ∈ cfg.required_source_ipv6, (Ipv6Addr.parse ip).isSome = true

theorem check_source_eq_ok_iff {α : Type} {parse : String → Option α} {message : String} {source : Option String} :
    check_source parse message source = .ok () ↔ ∀ ip ∈ source, (parse ip).isSome = true := by
  cases source with
  | none => simp [check_source]
  | some ip => simp [check_source, reject_if_eq_ok_iff, Option.isSome_iff_ne_none]

theorem NetworkConfig.validate_strictPath {parse_host : HostParser} {self : NetworkConfig}
    (hmode : self.mode = .Strict) (h : self.validate parse_host = .ok ()) : StrictPath self := by
  simp only [validate, validate_strict, if_pos hmode, eq_ok_iff] at h
  obtain ⟨-, -, -, ⟨-, hpath, hipv6⟩, ⟨⟩, hv4, hv6⟩ := h
  refine ⟨by simpa using hpath, fun hsome => ?_, check_source_eq_ok_iff.mp hv4, check_source_eq_ok_iff.mp hv6⟩
  by_contra hallow
  exact hipv6 ⟨by simpa using hallow, hsome⟩

inductive InterfaceStatus where
  | Up
  | Down
  | Unknown
  deriving DecidableEq, Repr

/-- A C string. -/
def NoNul (text : String) : Prop := Char.ofNat 0 ∉ text.toList

instance (text : String) : Decidable (NoNul text) := inferInstanceAs (Decidable (_ ∉ _))

/-- An interface as the operating system lists it: its name is a C string and not empty. -/
structure InterfaceInfo where
  name : String
  status : InterfaceStatus
  addresses : List IpAddr
  name_ne : name ≠ ""
  no_nul : NoNul name
  deriving DecidableEq

/-- The host as `OsInterfaceProbe` sees it. The fields are what the operating system answers: the
    interfaces, whether a listener can be bound to an address, whether the routes and the resolver
    use the configured path, and whether the process runs in a namespace. -/
structure InterfaceProbe where
  list : List InterfaceInfo
  can_bind : IpAddr → Bool
  route_valid : NetworkConfig → Bool
  dns_constrained : NetworkConfig → Bool
  namespace_available : String → Bool

def InterfaceProbe.find (self : InterfaceProbe) (name : String) : Option InterfaceInfo :=
  self.list.find? fun iface => iface.name = name

def InterfaceProbe.source_assigned (self : InterfaceProbe) (addr : String) (iface : Option String) : Bool :=
  match IpAddr.parse addr with
  | none => false
  | some target =>
    match iface with
    | some iface =>
      match self.find iface with
      | some info => info.addresses.contains target
      | none => false
    | none => self.can_bind target

inductive NetworkContainmentStatus where
  | Healthy
  | Disabled
  | InterfaceMissing
  | InterfaceDown
  | NoInterfaceAddress
  | SourceAddressMissing
  | RouteInvalid
  | SocketBindFailed
  | DnsNotConstrained
  | NetworkNamespaceUnavailable
  | BlockedFailClosed
  deriving DecidableEq, Repr

namespace NetworkContainmentStatus

def as_str : NetworkContainmentStatus → String
  | Healthy => "healthy"
  | Disabled => "disabled"
  | InterfaceMissing => "interface_missing"
  | InterfaceDown => "interface_down"
  | NoInterfaceAddress => "no_interface_address"
  | SourceAddressMissing => "source_address_missing"
  | RouteInvalid => "route_invalid"
  | SocketBindFailed => "socket_bind_failed"
  | DnsNotConstrained => "dns_not_constrained"
  | NetworkNamespaceUnavailable => "network_namespace_unavailable"
  | BlockedFailClosed => "blocked_fail_closed"

def traffic_allowed : NetworkContainmentStatus → Bool
  | Healthy | Disabled => true
  | _ => false

end NetworkContainmentStatus

structure NetworkHealth where
  mode : NetworkContainmentMode
  status : NetworkContainmentStatus
  required_interface : Option String
  required_source_ipv4 : Option String
  required_source_ipv6 : Option String
  allow_ipv6 : Bool
  fail_closed : Bool
  detail : String
  traffic_allowed : Bool
  deriving DecidableEq

def has_usable_interface_address (addrs : List IpAddr) (allow_ipv6 : Bool) : Bool :=
  addrs.any fun
    | .V4 ip => !ip.is_unspecified
    | .V6 ip => allow_ipv6 && !ip.is_unspecified

/-- The required interface must exist, be up and have an address. -/
def interface_status (config : NetworkConfig) (probe : InterfaceProbe) : Option NetworkContainmentStatus :=
  match config.required_interface with
  | none => none
  | some iface =>
    match probe.find iface with
    | none => some .InterfaceMissing
    | some info =>
      if info.status ≠ .Up then some .InterfaceDown
      else if has_usable_interface_address info.addresses config.allow_ipv6 = false then some .NoInterfaceAddress
      else none

def namespace_status (config : NetworkConfig) (probe : InterfaceProbe) : Option NetworkContainmentStatus :=
  match config.required_network_namespace with
  | some ns => if probe.namespace_available ns then none else some .NetworkNamespaceUnavailable
  | none => none

/-- A source address must be assigned to the required interface, or to any if none is required. -/
def source_status (config : NetworkConfig) (probe : InterfaceProbe) (source : Option String) :
    Option NetworkContainmentStatus :=
  match source with
  | some src => if probe.source_assigned src config.required_interface then none else some .SourceAddressMissing
  | none => none

/-- The first check that fails decides the status. -/
def compute_status (config : NetworkConfig) (probe : InterfaceProbe) : NetworkContainmentStatus :=
  if config.mode = .Disabled then .Disabled
  else
    let ipv6_status :=
      if config.allow_ipv6 then source_status config probe config.required_source_ipv6 else none
    let route_status :=
      if config.validate_route && !probe.route_valid config then some .RouteInvalid else none
    let dns_status :=
      if config.validate_dns && !probe.dns_constrained config then some .DnsNotConstrained else none
    ((interface_status config probe).or <| (namespace_status config probe).or <|
      (source_status config probe config.required_source_ipv4).or <| ipv6_status.or <|
      route_status.or dns_status).getD .Healthy

def detail_for (config : NetworkConfig) (status : NetworkContainmentStatus) : String :=
  let iface := config.required_interface.getD "?"
  let ns := config.required_network_namespace.getD "?"
  match status with
  | .Healthy => "torrent data plane is healthy"
  | .Disabled => "network containment disabled"
  | .InterfaceMissing => s!"required torrent network interface {iface} is not available"
  | .InterfaceDown => s!"required torrent network interface {iface} is down"
  | .NoInterfaceAddress => s!"required torrent network interface {iface} has no usable address"
  | .SourceAddressMissing => "required source address is not assigned"
  | .RouteInvalid => "required route is missing or invalid"
  | .SocketBindFailed => "binding torrent sockets to the configured path failed"
  | .DnsNotConstrained => "DNS behavior is not constrained as configured"
  | .NetworkNamespaceUnavailable => s!"required network namespace {ns} is unavailable"
  | .BlockedFailClosed => "torrent networking blocked by fail-closed policy"

def evaluate (config : NetworkConfig) (probe : InterfaceProbe) : NetworkHealth :=
  let status := compute_status config probe
  { mode := config.mode
    status := status
    required_interface := config.required_interface
    required_source_ipv4 := config.required_source_ipv4
    required_source_ipv6 := config.required_source_ipv6
    allow_ipv6 := config.allow_ipv6
    fail_closed := config.fail_closed
    detail := detail_for config status
    traffic_allowed := status.traffic_allowed }

section
variable {config : NetworkConfig} {probe : InterfaceProbe}

theorem InterfaceProbe.find_name {name : String} {info : InterfaceInfo} (h : probe.find name = some info) :
    info.name = name := by
  simpa using List.find?_some h

/-- An interface through which traffic is allowed is one of the host. -/
theorem required_interface_of_allowed {iface : String} (hmode : config.mode ≠ .Disabled)
    (hallowed : (evaluate config probe).traffic_allowed = true) (hiface : config.required_interface = some iface) :
    iface ≠ "" ∧ NoNul iface := by
  cases hfind : probe.find iface with
  | none =>
    have hmissing : interface_status config probe = some .InterfaceMissing := by
      simp [interface_status, hiface, hfind]
    simp [evaluate, compute_status, hmode, hmissing, NetworkContainmentStatus.traffic_allowed] at hallowed
  | some info =>
    rw [← InterfaceProbe.find_name hfind]
    exact ⟨info.name_ne, info.no_nul⟩

end

def Host.to_string : Host → String
  | .Domain domain => domain
  | .Ipv4 address => address.to_string
  | .Ipv6 address => "[" ++ address.compressed ++ "]"

/-- The record of the URL standard. The port is there only if it is not that of the scheme. -/
structure Url where
  scheme : String
  username : String
  password : Option String
  host : Option Host
  port : Option UInt16
  path : String
  query : Option String
  fragment : Option String

/-- The URL crate, which is not modelled: its parsers, with their messages where they fail, and what it tells of a
    URL. `join` parses against a base; `push_segments` appends path segments to a URL that can be a base. -/
structure UrlCrate where
  parse : String → Except String Url
  join : Url → String → Except String Url
  push_segments : Url → Vec String → Option Url
  as_str : Url → String
  host_str : Url → Option String
  port_or_known_default : Url → Option UInt16
  query_pairs : Url → Vec (String × String)

/-- The texts of a name and its value, read as well as possible. -/
def text_pair (entry : Bytes × Bytes) : String × String :=
  (from_utf8_lossy entry.1, from_utf8_lossy entry.2)

/-- The form-decoded pairs of the query. -/
def Url.form_pairs (url : Url) : Vec (Bytes × Bytes) := form.pairs (as_bytes (url.query.getD ""))

/-- The query in the text of a URL: what stands between the first question mark and the first number sign. -/
def query_text (url : String) : String :=
  String.ofList (((url.toList.takeWhile fun c => c ≠ '#').dropWhile fun c => c ≠ '?').drop 1)

/-- `host_str` is the text of the host, with brackets around an IPv6 address. -/
abbrev UrlCrate.NamesHost (crate : UrlCrate) (url : Url) : Prop := crate.host_str url = url.host.map Host.to_string

/-- What is documented of a parsed URL: the marks of the query and the fragment do not occur before them, and
    `query_pairs` reads the decoded pairs as texts. -/
structure UrlCrate.ReadsQuery (crate : UrlCrate) (url : Url) : Prop where
  scheme : ∀ c ∈ url.scheme.toList, c ≠ '?' ∧ c ≠ '#'
  host : ∀ host ∈ crate.host_str url, ∀ c ∈ host.toList, c ≠ '?' ∧ c ≠ '#'
  path : ∀ c ∈ url.path.toList, c ≠ '?' ∧ c ≠ '#'
  query_pairs : crate.query_pairs url = url.form_pairs.map text_pair

theorem forall_mem_toList_append {p : Char → Prop} {s t : String} (hs : ∀ c ∈ s.toList, p c)
    (ht : ∀ c ∈ t.toList, p c) :
    ∀ c ∈ (s ++ t).toList, p c := by
  rw [String.toList_append, List.forall_mem_append]
  exact ⟨hs, ht⟩

/-- A URL is cut at its marks. -/
theorem query_text_eq {front query : String} (hfront : ∀ c ∈ front.toList, c ≠ '?' ∧ c ≠ '#')
    (hquery : '#' ∉ query.toList) : query_text (front ++ "?" ++ query) = query := by
  have hplain : ∀ c ∈ (front ++ "?" ++ query).toList, decide (c ≠ '#') = true := by
    refine forall_mem_toList_append (forall_mem_toList_append ?_ (by simp)) ?_
    · exact fun c hc => decide_eq_true (hfront c hc).2
    · exact fun c hc => decide_eq_true (ne_of_mem_of_not_mem hc hquery)
  have hname : ∀ c ∈ front.toList, decide (c ≠ '?') = true := fun c hc => decide_eq_true (hfront c hc).1
  rw [query_text, List.takeWhile_eq_self_iff.mpr hplain, String.toList_append, String.toList_append, List.append_assoc,
    List.dropWhile_append_of_pos hname]
  change String.ofList query.toList = query
  exact String.ofList_toList

/-- What is escaped is ASCII where all that is kept is. -/
theorem as_bytes_ascii_escape {safe : UInt8 → Bool} (hsafe : ∀ byte, safe byte = true → byte.toNat < 128)
    (bytes : Bytes) : as_bytes (ascii (percent.escape safe bytes)) = percent.escape safe bytes := by
  apply as_bytes_ascii
  intro byte hbyte
  rcases percent.mem_escape hbyte with ⟨hkept, -⟩ | rfl | hdigit
  · exact hsafe byte hkept
  · decide
  · exact UInt8.lt_iff_toNat_lt.mp (percent.lt_of_isSome_value hdigit)

end swarmotter.net
