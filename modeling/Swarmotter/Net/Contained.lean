import Swarmotter.Lib.Trial
import Swarmotter.Net.Gate

open swarmotter.net swarmotter.containment_gate

namespace swarmotter.netbinder

/-! The operating system. -/

inductive Family where
  | V4
  | V6
  deriving DecidableEq, Repr

inductive Transport where
  | Tcp
  | Udp
  deriving DecidableEq, Repr

/-- `Domain::for_address`. -/
def for_address (addr : SocketAddr) : Family := if addr.is_ipv6 then .V6 else .V4

/-- What the kernel knows of a socket. -/
structure Socket where
  family : Family
  transport : Transport
  device : Option String := none
  local_addr : Option SocketAddr := none
  only_v6 : Bool := false
  listening : Bool := false
  deriving DecidableEq

inductive Syscall where
  | create
  | set_reuse_address
  | set_only_v6
  | bind_to_device (iface : String)
  | bind (addr : SocketAddr)
  | listen (backlog : Nat)
  | set_nonblocking
  | register
  deriving DecidableEq

/-- What a successful call does to its socket. `SO_BINDTODEVICE` with an empty name takes the
    socket off its device. -/
def Syscall.apply : Syscall → Socket → Socket
  | bind_to_device iface, socket => { socket with device := if iface = "" then none else some iface }
  | bind addr, socket => { socket with local_addr := some addr }
  | set_only_v6, socket => { socket with only_v6 := true }
  | listen _, socket => { socket with listening := true }
  | _, socket => socket

inductive ConnectError where
  | timed_out
  | failed (message : String)

/-- The operating system: whether it is Linux, which calls fail and with what message, and how a
    connection attempt ends. -/
structure Os where
  linux : Bool
  error : Syscall → Socket → Option String
  connect : Socket → SocketAddr → Option ConnectError

/-- A call whose error is passed on as it is. -/
def Os.call (os : Os) (syscall : Syscall) (socket : Socket) : Result Socket :=
  match os.error syscall socket with
  | some message => .error (.Io message)
  | none => .ok (syscall.apply socket)

/-! The binder. -/

structure HealthReport where
  status : NetworkContainmentStatus
  detail : String
  deriving DecidableEq

/-- What the binder shares with the daemon, if it has been attached to it: the containment gate and
    the reports that wait in the health channel. -/
structure Shared where
  gate : Option ContainmentGate
  health_reports : Option (List HealthReport)
  deriving DecidableEq

/-- An operation of the binder: it fails or returns a value, and may change the shared state in
    both cases. -/
abbrev NetM (α : Type) := trial.Trial Shared CoreError α

/-- A computation that does not touch the shared state, with a report for its error. -/
def or_report {α : Type} (result : Result α) (report : CoreError → Shared → Shared) : NetM α :=
  fun shared =>
    match result with
    | .ok value => (.ok value, shared)
    | .error error => (.error error, report error shared)

def or_fail {α : Type} (result : Result α) : NetM α := or_report result fun _ shared => shared

structure ContainedBinder where
  config : NetworkConfig
  probe : InterfaceProbe

/-- Block the gate at once and tell the daemon, if containment is to fail closed. -/
def report_health_status (cfg : NetworkConfig) (status : NetworkContainmentStatus) (detail : String)
    (shared : Shared) : Shared :=
  if cfg.mode = .Strict ∧ cfg.fail_closed = true then
    { gate := shared.gate.map fun gate => gate.block status detail
      health_reports := shared.health_reports.map fun reports => reports ++ [⟨status, detail⟩] }
  else shared

def report_bind_failure (cfg : NetworkConfig) (detail : String) : Shared → Shared :=
  report_health_status cfg .SocketBindFailed detail

/-- The live gate, which denies traffic while it is blocked. -/
def enforce_gate : NetM Unit := fun shared =>
  match shared.gate with
  | some gate => (gate.enforce, shared)
  | none => (.ok (), shared)

/-- The check of the configured path that precedes every operation. -/
def check_path (self : ContainedBinder) : NetM Unit :=
  let cfg := self.config
  if cfg.mode = .Disabled then pure ()
  else if cfg.mode = .Strict ∧ cfg.fail_closed = true ∧ cfg.has_path = false then
    let detail := "torrent data plane blocked: strict containment requires an interface, " ++
      "source binding, or a current network namespace"
    or_report (.error (.NetworkBlocked detail)) fun _ => report_health_status cfg .BlockedFailClosed detail
  else
    let health := evaluate cfg self.probe
    or_fail (reject_if (cfg.fail_closed = true ∧ health.traffic_allowed = false)
      (.NetworkBlocked s!"torrent data plane blocked: {health.status.as_str}"))

def guard (self : ContainedBinder) : NetM Unit := do
  enforce_gate
  check_path self

/-- `bind_socket_to_interface`: only Linux can enforce an interface. -/
def bind_socket_to_interface (os : Os) (socket : Socket) (iface : Option String) : Result Socket :=
  match iface with
  | none => pure socket
  | some iface =>
    if os.linux then do
      let _ ← reject_if (¬ NoNul iface)
        (.InvalidConfig "network.required_interface must not contain NUL bytes")
      match os.error (.bind_to_device iface) socket with
      | some message => .error (.NetworkBlocked
        s!"torrent data plane blocked: failed to bind socket to interface: {message}")
      | none => pure ((Syscall.bind_to_device iface).apply socket)
    else .error (.NetworkBlocked
      "torrent data plane blocked: interface binding requires Linux SO_BINDTODEVICE")

def source_ipv4 (cfg : NetworkConfig) : Option Ipv4Addr := cfg.required_source_ipv4.bind Ipv4Addr.parse

def source_ipv6 (cfg : NetworkConfig) : Option Ipv6Addr := cfg.required_source_ipv6.bind Ipv6Addr.parse

def source_for_addr (cfg : NetworkConfig) (addr : SocketAddr) : Option IpAddr :=
  match addr.ip with
  | .V4 _ => (source_ipv4 cfg).map .V4
  | .V6 _ => (source_ipv6 cfg).map .V6

/-- Under strict containment every family in use needs a binding of its own. -/
def ensure_family_enforced (cfg : NetworkConfig) (addr : SocketAddr) : Result Unit := do
  let _ ← reject_if (addr.is_ipv6 = true ∧ cfg.allow_ipv6 = false)
    (.NetworkBlocked "torrent data plane blocked: IPv6 traffic is disabled")
  if cfg.mode ≠ .Strict ∨ cfg.fail_closed = false then pure ()
  else if cfg.required_interface.isSome = true ∨ cfg.required_network_namespace.isSome = true then pure ()
  else if (source_for_addr cfg addr).isSome = true then pure ()
  else
    let family := if addr.is_ipv6 then "IPv6" else "IPv4"
    .error (.NetworkBlocked
      s!"torrent data plane blocked: no {family} containment binding is configured")

/-- A denied address is reported like a lost path. -/
def enforce_family (cfg : NetworkConfig) (kind : String) (addr : SocketAddr) : NetM Unit :=
  or_report (ensure_family_enforced cfg addr) fun error =>
    if error.is_network_blocked then
      report_health_status cfg .BlockedFailClosed s!"{kind} address {addr} denied by containment policy: {error}"
    else id

/-- `socket.bind`, for an outbound peer socket whose family has a source address. -/
def bind_source (os : Os) (cfg : NetworkConfig) (addr : SocketAddr) (socket : Socket) : NetM Socket :=
  match source_for_addr cfg addr with
  | none => pure socket
  | some ip =>
    let bind : SocketAddr := ⟨ip, 0⟩
    or_report (os.call (.bind bind) socket) fun error =>
      let message := match error with
        | .Io message => message
        | error => error.to_string
      report_bind_failure cfg s!"bind outbound peer socket to source {bind} for {addr}: {message}"

/-- Connect within the timeout. -/
def connect (os : Os) (socket : Socket) (addr : SocketAddr) : Result Socket :=
  match os.connect socket addr with
  | none => pure socket
  | some .timed_out => .error (.Internal s!"tcp connect to {addr} timed out")
  | some (.failed message) => .error (.Io message)

def connect_peer (self : ContainedBinder) (os : Os) (addr : SocketAddr) : NetM Socket := do
  guard self
  let cfg := self.config
  enforce_family cfg "peer" addr
  let socket ← or_fail (os.call .create { family := for_address addr, transport := .Tcp })
  let socket ← or_report (bind_socket_to_interface os socket cfg.required_interface) fun error =>
    report_bind_failure cfg s!"bind outbound peer socket for {addr} to configured interface: {error}"
  let socket ← bind_source os cfg addr socket
  or_fail (connect os socket addr)

def udp_bind_addr (cfg : NetworkConfig) (remote : Option SocketAddr) : SocketAddr :=
  let use_ipv6 := match remote with
    | some addr => addr.is_ipv6
    | none => cfg.required_source_ipv6.isSome && cfg.required_source_ipv4.isNone
  if use_ipv6 then ⟨.V6 ((source_ipv6 cfg).getD Ipv6Addr.UNSPECIFIED), 0⟩
  else ⟨.V4 ((source_ipv4 cfg).getD Ipv4Addr.UNSPECIFIED), 0⟩

def create_udp_socket (os : Os) (bind : SocketAddr) (iface : Option String) : Result Socket := do
  let socket ← os.call .create { family := for_address bind, transport := .Udp }
  let socket ← bind_socket_to_interface os socket iface
  let socket ← os.call (.bind bind) socket
  let socket ← os.call .set_nonblocking socket
  os.call .register socket

def enforce_remote (cfg : NetworkConfig) (remote : Option SocketAddr) : NetM Unit :=
  match remote with
  | some remote => enforce_family cfg "UDP" remote
  | none => pure ()

/-- The two UDP operations, which differ in the local port. -/
def udp_socket_at (self : ContainedBinder) (os : Os) (remote : Option SocketAddr) (local_port : UInt16) :
    NetM Socket := do
  guard self
  let cfg := self.config
  enforce_remote cfg remote
  let bind := { udp_bind_addr cfg remote with port := local_port }
  or_report (create_udp_socket os bind cfg.required_interface) fun error =>
    report_bind_failure cfg s!"bind UDP socket on {bind}: {error}"

def udp_socket_for (self : ContainedBinder) (os : Os) (remote : Option SocketAddr) : NetM Socket :=
  udp_socket_at self os remote 0

def udp_socket_on (self : ContainedBinder) (os : Os) (remote : Option SocketAddr) (local_port : UInt16) :
    NetM Socket :=
  udp_socket_at self os remote local_port

/-- An IPv6 listener does not take IPv4 connections. -/
def set_only_v6 (os : Os) (bind : SocketAddr) (socket : Socket) : Result Socket :=
  if bind.is_ipv6 then os.call .set_only_v6 socket else pure socket

def create_tcp_listener (os : Os) (bind : SocketAddr) (iface : Option String) : Result Socket := do
  let socket ← os.call .create { family := for_address bind, transport := .Tcp }
  let socket ← os.call .set_reuse_address socket
  let socket ← set_only_v6 os bind socket
  let socket ← bind_socket_to_interface os socket iface
  let socket ← os.call (.bind bind) socket
  let socket ← os.call (.listen 1024) socket
  let socket ← os.call .set_nonblocking socket
  os.call .register socket

structure ContainedPeerListener where
  v4 : Option Socket
  v6 : Option Socket

/-- A socket of one family, if the configuration asks for one. -/
def bind_listener (self : ContainedBinder) (os : Os) (wanted : Bool) (bind : SocketAddr) (family : String)
    (report : Bool) : NetM (Option Socket) :=
  let cfg := self.config
  if wanted then do
    let socket ← or_report (create_tcp_listener os bind cfg.required_interface) fun error =>
      if report then
        report_bind_failure cfg s!"bind peer listener {family} on port {bind.port.toNat}: {error}"
      else id
    pure (some socket)
  else pure none

def namespace_only (cfg : NetworkConfig) : Bool :=
  cfg.required_network_namespace.isSome && cfg.required_interface.isNone &&
    cfg.required_source_ipv4.isNone && cfg.required_source_ipv6.isNone

def wants_v4_listener (cfg : NetworkConfig) : Bool :=
  !(cfg.required_source_ipv6.isSome && cfg.required_source_ipv4.isNone && !cfg.required_interface.isSome &&
    !namespace_only cfg)

def wants_v6_listener (cfg : NetworkConfig) : Bool :=
  cfg.allow_ipv6 && (cfg.required_interface.isSome || namespace_only cfg || cfg.required_source_ipv6.isSome)

def bind_peer_listener_inner (self : ContainedBinder) (os : Os) (port : UInt16) (report : Bool) :
    NetM ContainedPeerListener := do
  guard self
  let cfg := self.config
  let v4_addr := IpAddr.V4 ((source_ipv4 cfg).getD Ipv4Addr.UNSPECIFIED)
  let v6_addr := IpAddr.V6 ((source_ipv6 cfg).getD Ipv6Addr.UNSPECIFIED)
  let v4 ← bind_listener self os (wants_v4_listener cfg) ⟨v4_addr, port⟩ "v4" report
  let v6 ← bind_listener self os (wants_v6_listener cfg) ⟨v6_addr, port⟩ "v6" report
  pure ⟨v4, v6⟩

def bind_peer_listener (self : ContainedBinder) (os : Os) (port : UInt16) : NetM ContainedPeerListener :=
  bind_peer_listener_inner self os port true

section
variable {α : Type} {shared shared' : Shared}

theorem or_report_eq_ok_iff {result : Result α} {report : CoreError → Shared → Shared} {value : α} :
    or_report result report shared = (.ok value, shared') ↔ result = .ok value ∧ shared' = shared := by
  cases result <;> simp [or_report, eq_comm]

theorem or_fail_eq_ok_iff {result : Result α} {value : α} :
    or_fail result shared = (.ok value, shared') ↔ result = .ok value ∧ shared' = shared :=
  or_report_eq_ok_iff

end

section
variable {cfg : NetworkConfig} {self : ContainedBinder} {os : Os} {socket socket' : Socket} {addr : SocketAddr}
  {shared shared' : Shared}

/-- Behind the guard the configured path is there. -/
theorem traffic_allowed_of_guard {u : Unit} (h : guard self shared = (.ok u, shared'))
    (hmode : self.config.mode = .Strict) (hclosed : self.config.fail_closed = true) :
    (evaluate self.config self.probe).traffic_allowed = true := by
  rw [guard, trial.bind_eq_ok_iff] at h
  obtain ⟨-, middle, -, h⟩ := h
  have hstrict : self.config.mode ≠ .Disabled := by simp [hmode]
  rw [check_path, if_neg hstrict] at h
  split at h
  · rw [or_report_eq_ok_iff] at h
    cases h.1
  · rw [or_fail_eq_ok_iff, reject_if_eq_ok_iff] at h
    simpa [hclosed] using h.1

theorem call_eq_ok {syscall : Syscall} (h : os.call syscall socket = .ok socket') : socket' = syscall.apply socket := by
  unfold Os.call at h
  split at h
  · cases h
  · exact (Except.ok.inj h).symm

/-- A socket that was bound to an interface, unless no interface is required. -/
theorem bind_socket_to_interface_eq_ok {iface : Option String}
    (h : bind_socket_to_interface os socket iface = .ok socket') :
    socket'.family = socket.family ∧ socket'.local_addr = socket.local_addr ∧
      ∀ name ∈ iface, name ≠ "" → socket'.device = some name := by
  cases iface with
  | none =>
    cases h
    simp
  | some iface =>
    simp only [bind_socket_to_interface] at h
    split at h
    · simp only [bind_eq_ok_iff] at h
      obtain ⟨-, -, h⟩ := h
      split at h
      · cases h
      · cases h
        refine ⟨rfl, rfl, ?_⟩
        intro name hname hne
        obtain rfl : iface = name := Option.some.inj hname
        simp [Syscall.apply, hne]
    · cases h

/-- A socket bound to an address and, if one is required, to an interface. -/
structure Bound (cfg : NetworkConfig) (bind : SocketAddr) (socket : Socket) : Prop where
  family : socket.family = for_address bind
  local_addr : socket.local_addr = some bind
  device : ∀ iface ∈ cfg.required_interface, iface ≠ "" → socket.device = some iface

variable {bind : SocketAddr}

theorem create_udp_socket_bound (h : create_udp_socket os bind cfg.required_interface = .ok socket) :
    Bound cfg bind socket := by
  simp only [create_udp_socket, bind_eq_ok_iff] at h
  obtain ⟨created, hcreated, device, hdevice, bound, hbound, nonblocking, hnonblocking, hregistered⟩ := h
  obtain ⟨hfamily, -, hiface⟩ := bind_socket_to_interface_eq_ok hdevice
  rw [call_eq_ok hcreated] at hfamily
  rw [call_eq_ok hregistered, call_eq_ok hnonblocking, call_eq_ok hbound]
  exact ⟨hfamily, rfl, hiface⟩

theorem create_tcp_listener_bound (h : create_tcp_listener os bind cfg.required_interface = .ok socket) :
    Bound cfg bind socket := by
  simp only [create_tcp_listener, bind_eq_ok_iff] at h
  obtain ⟨created, hcreated, reuse, hreuse, only_v6, honly, device, hdevice, bound, hbound, listening,
    hlistening, nonblocking, hnonblocking, hregistered⟩ := h
  obtain ⟨hfamily, -, hiface⟩ := bind_socket_to_interface_eq_ok hdevice
  have hv6 : only_v6.family = reuse.family := by
    unfold set_only_v6 at honly
    split at honly
    · rw [call_eq_ok honly]
      rfl
    · rw [Except.ok.inj honly]
  rw [hv6, call_eq_ok hreuse, call_eq_ok hcreated] at hfamily
  rw [call_eq_ok hregistered, call_eq_ok hnonblocking, call_eq_ok hlistening, call_eq_ok hbound]
  exact ⟨hfamily, rfl, hiface⟩

/-- The configured source address of a family. -/
def source_of_family (cfg : NetworkConfig) : Family → Option IpAddr
  | .V4 => (source_ipv4 cfg).map .V4
  | .V6 => (source_ipv6 cfg).map .V6

/-- The ways in which a socket is kept on the configured path. -/
inductive OnPath (cfg : NetworkConfig) (socket : Socket) : Prop where
  | interface (iface : String) (hiface : cfg.required_interface = some iface)
      (hdevice : socket.device = some iface)
  | source (ip : IpAddr) (port : UInt16) (hsource : source_of_family cfg socket.family = some ip)
      (hbound : socket.local_addr = some ⟨ip, port⟩)
  | network_namespace (hns : cfg.required_network_namespace.isSome = true)

structure Contained (cfg : NetworkConfig) (socket : Socket) : Prop where
  path : OnPath cfg socket
  ipv6 : socket.family = .V6 → cfg.allow_ipv6 = true

theorem source_of_family_for_address (cfg : NetworkConfig) (addr : SocketAddr) :
    source_of_family cfg (for_address addr) = source_for_addr cfg addr := by
  obtain ⟨ip, port⟩ := addr
  cases ip <;> rfl

/-- With an interface or a namespace the address does not matter; otherwise it must be the source
    of its own family. -/
theorem Bound.onPath (h : Bound cfg bind socket) (hnamed : ∀ iface ∈ cfg.required_interface, iface ≠ "")
    (hsource : cfg.required_interface = none → cfg.required_network_namespace = none →
      source_for_addr cfg bind = some bind.ip) : OnPath cfg socket := by
  cases hiface : cfg.required_interface with
  | some iface => exact .interface iface hiface (h.device iface hiface (hnamed iface hiface))
  | none =>
    cases hns : cfg.required_network_namespace with
    | some ns => exact .network_namespace (by simp [hns])
    | none =>
      apply OnPath.source bind.ip bind.port
      · rw [h.family, source_of_family_for_address]
        exact hsource hiface hns
      · exact h.local_addr

theorem ensure_family_enforced_eq_ok_iff (hmode : cfg.mode = .Strict) (hclosed : cfg.fail_closed = true) :
    ensure_family_enforced cfg addr = .ok () ↔ (addr.is_ipv6 = true → cfg.allow_ipv6 = true) ∧
      (cfg.required_interface = none → cfg.required_network_namespace = none →
        (source_for_addr cfg addr).isSome = true) := by
  simp only [ensure_family_enforced, eq_ok_iff, hmode, hclosed]
  cases cfg.required_interface <;> cases cfg.required_network_namespace <;> cases source_for_addr cfg addr <;> simp

theorem enforce_family_eq_ok {kind : String} {u : Unit}
    (h : enforce_family cfg kind addr shared = (.ok u, shared')) : ensure_family_enforced cfg addr = .ok () := by
  rw [enforce_family, or_report_eq_ok_iff] at h
  exact h.1

/-- The interface that the guard has seen is a real one. -/
theorem required_interface_ne {u : Unit} (h : guard self shared = (.ok u, shared'))
    (hmode : self.config.mode = .Strict) (hclosed : self.config.fail_closed = true) :
    ∀ iface ∈ self.config.required_interface, iface ≠ "" := by
  intro iface hiface
  have hallowed := traffic_allowed_of_guard h hmode hclosed
  exact (required_interface_of_allowed (by simp [hmode]) hallowed hiface).1

theorem for_address_eq_v6_iff : for_address addr = .V6 ↔ addr.is_ipv6 = true := by
  unfold for_address
  cases addr.is_ipv6 <;> simp

theorem bind_source_eq_ok (h : bind_source os cfg addr socket shared = (.ok socket', shared')) :
    socket'.family = socket.family ∧ socket'.device = socket.device ∧
      ∀ ip ∈ source_for_addr cfg addr, socket'.local_addr = some ⟨ip, 0⟩ := by
  cases hsource : source_for_addr cfg addr with
  | none =>
    simp only [bind_source, hsource, trial.pure_eq_ok_iff] at h
    rw [h.1]
    exact ⟨rfl, rfl, by simp⟩
  | some ip =>
    simp only [bind_source, hsource, or_report_eq_ok_iff] at h
    rw [call_eq_ok h.1]
    refine ⟨rfl, rfl, ?_⟩
    intro ip' hip
    obtain rfl : ip = ip' := Option.some.inj hip
    rfl

theorem connect_peer_contained (hmode : self.config.mode = .Strict) (hclosed : self.config.fail_closed = true)
    (h : connect_peer self os addr shared = (.ok socket, shared')) : Contained self.config socket := by
  simp only [connect_peer, trial.bind_eq_ok_iff] at h
  obtain ⟨⟨⟩, _, hguard, ⟨⟩, _, hfamily, created, _, hcreated, device, _, hdevice, bound, _, hbound, hconnect⟩ := h
  have hnamed := required_interface_ne hguard hmode hclosed
  obtain ⟨hipv6, hsource⟩ := (ensure_family_enforced_eq_ok_iff hmode hclosed).mp (enforce_family_eq_ok hfamily)
  obtain ⟨hcreated, -⟩ := or_fail_eq_ok_iff.mp hcreated
  obtain ⟨hdevice, -⟩ := or_report_eq_ok_iff.mp hdevice
  obtain ⟨hsame, -, hiface⟩ := bind_socket_to_interface_eq_ok hdevice
  rw [call_eq_ok hcreated] at hsame
  have hsocket : socket = bound := by
    obtain ⟨hconnect, -⟩ := or_fail_eq_ok_iff.mp hconnect
    unfold connect at hconnect
    split at hconnect
    · exact (Except.ok.inj hconnect).symm
    · cases hconnect
    · cases hconnect
  obtain ⟨hkept, hdevice', hlocal⟩ := bind_source_eq_ok hbound
  have hfamily' : bound.family = for_address addr := hkept.trans hsame
  subst hsocket
  refine ⟨?_, fun hv6 => hipv6 (for_address_eq_v6_iff.mp (hfamily' ▸ hv6))⟩
  cases hname : self.config.required_interface with
  | some iface =>
    apply OnPath.interface iface hname
    rw [hdevice']
    exact hiface iface hname (hnamed iface hname)
  | none =>
    cases hns : self.config.required_network_namespace with
    | some ns => exact .network_namespace (by simp [hns])
    | none =>
      obtain ⟨ip, hip⟩ := Option.isSome_iff_exists.mp (hsource hname hns)
      apply OnPath.source ip 0
      · rw [hfamily', source_of_family_for_address]
        exact hip
      · exact hlocal ip hip

/-- A source address that passed validation is one of its family. -/
theorem isSome_bind_parse {α : Type} {parse : String → Option α} {source : Option String}
    (h : ∀ text, source = some text → (parse text).isSome = true) : (source.bind parse).isSome = source.isSome := by
  cases source with
  | none => rfl
  | some text => exact h text rfl

/-- Where there is a source address it is the one to bind to. -/
theorem map_eq_some_getD {α β : Type} {source : Option α} (h : source.isSome = true) (f : α → β) (other : α) :
    source.map f = some (f (source.getD other)) := by
  cases source with
  | none => cases h
  | some ip => rfl

/-- Without an interface or a namespace the path is a source address. -/
theorem source_of_strictPath (h : StrictPath cfg) (hiface : cfg.required_interface = none)
    (hns : cfg.required_network_namespace = none) :
    cfg.required_source_ipv4.isSome = true ∨ cfg.required_source_ipv6.isSome = true := by
  have hpath := h.has_path
  simpa [NetworkConfig.has_path, hiface, hns] using hpath

variable {remote : Option SocketAddr} {port : UInt16}

/-- The address a UDP socket is bound to, on a path that is a source address. -/
theorem udp_bind_addr_source (hstrict : StrictPath cfg) (hiface : cfg.required_interface = none)
    (hns : cfg.required_network_namespace = none)
    (hremote : ∀ addr ∈ remote, (source_for_addr cfg addr).isSome = true) :
    source_for_addr cfg { udp_bind_addr cfg remote with port := port } = some (udp_bind_addr cfg remote).ip := by
  cases remote with
  | some addr =>
    have hsource := hremote addr rfl
    obtain ⟨_ | _, remote_port⟩ := addr <;> exact map_eq_some_getD (Option.isSome_map.symm.trans hsource) _ _
  | none =>
    by_cases huse : (cfg.required_source_ipv6.isSome && cfg.required_source_ipv4.isNone) = true
    · rw [udp_bind_addr, if_pos huse]
      exact map_eq_some_getD ((isSome_bind_parse hstrict.source_ipv6).trans (by simp_all)) _ _
    · have hsome : cfg.required_source_ipv4.isSome = true := by
        rcases source_of_strictPath hstrict hiface hns with hsome | hsome
        · exact hsome
        · cases hnone : cfg.required_source_ipv4 <;> simp_all
      rw [udp_bind_addr, if_neg huse]
      exact map_eq_some_getD ((isSome_bind_parse hstrict.source_ipv4).trans hsome) _ _

/-- An IPv6 socket without a remote address is asked for by an IPv6 source only. -/
theorem udp_bind_addr_ipv6 (hstrict : StrictPath cfg)
    (hremote : ∀ addr ∈ remote, addr.is_ipv6 = true → cfg.allow_ipv6 = true)
    (hv6 : (udp_bind_addr cfg remote).is_ipv6 = true) : cfg.allow_ipv6 = true := by
  cases remote with
  | some addr =>
    apply hremote addr rfl
    by_contra hv4
    simp only [udp_bind_addr, if_neg hv4] at hv6
    cases hv6
  | none =>
    apply hstrict.ipv6
    by_contra hnone
    simp only [udp_bind_addr, Bool.and_eq_true, hnone, false_and, if_false] at hv6
    cases hv6

theorem udp_socket_at_contained (hstrict : StrictPath self.config) (hmode : self.config.mode = .Strict)
    (hclosed : self.config.fail_closed = true)
    (h : udp_socket_at self os remote port shared = (.ok socket, shared')) : Contained self.config socket := by
  simp only [udp_socket_at, trial.bind_eq_ok_iff] at h
  obtain ⟨⟨⟩, _, hguard, ⟨⟩, _, hremote, hcreated⟩ := h
  have hbound := create_udp_socket_bound (or_report_eq_ok_iff.mp hcreated).1
  have hfamily : ∀ addr ∈ remote, ensure_family_enforced self.config addr = .ok () := by
    intro addr haddr
    obtain rfl : remote = some addr := haddr
    exact enforce_family_eq_ok hremote
  constructor
  · apply hbound.onPath (required_interface_ne hguard hmode hclosed)
    intro hiface hns
    apply udp_bind_addr_source hstrict hiface hns
    intro addr haddr
    exact ((ensure_family_enforced_eq_ok_iff hmode hclosed).mp (hfamily addr haddr)).2 hiface hns
  · intro hv6
    rw [hbound.family, for_address_eq_v6_iff] at hv6
    apply udp_bind_addr_ipv6 hstrict _ hv6
    intro addr haddr
    exact ((ensure_family_enforced_eq_ok_iff hmode hclosed).mp (hfamily addr haddr)).1

theorem bind_listener_bound {wanted report : Bool} {family : String} {listener : Option Socket}
    (h : bind_listener self os wanted bind family report shared = (.ok listener, shared')) :
    ∀ socket ∈ listener, wanted = true ∧ Bound self.config bind socket := by
  intro socket hsocket
  cases wanted with
  | false =>
    obtain ⟨rfl, -⟩ := trial.pure_eq_ok_iff.mp h
    cases hsocket
  | true =>
    simp only [bind_listener, if_true, trial.bind_eq_ok_iff, trial.pure_eq_ok_iff, or_report_eq_ok_iff] at h
    obtain ⟨created, _, ⟨hcreated, -⟩, rfl, -⟩ := h
    obtain rfl : created = socket := Option.some.inj hsocket
    exact ⟨rfl, create_tcp_listener_bound hcreated⟩

/-- A listener has a socket of a family only if the path has that family. -/
theorem bind_peer_listener_contained (hstrict : StrictPath self.config) (hmode : self.config.mode = .Strict)
    (hclosed : self.config.fail_closed = true) {listener : ContainedPeerListener}
    (h : bind_peer_listener self os port shared = (.ok listener, shared')) :
    (∀ socket ∈ listener.v4, Contained self.config socket) ∧
      ∀ socket ∈ listener.v6, Contained self.config socket := by
  simp only [bind_peer_listener, bind_peer_listener_inner, trial.bind_eq_ok_iff, trial.pure_eq_ok_iff] at h
  obtain ⟨⟨⟩, _, hguard, v4, _, hv4, v6, _, hv6, rfl, -⟩ := h
  have hnamed := required_interface_ne hguard hmode hclosed
  constructor
  · intro socket hsocket
    obtain ⟨hwanted, hbound⟩ := bind_listener_bound hv4 socket hsocket
    refine ⟨hbound.onPath hnamed fun hiface hns => ?_, fun hfamily => ?_⟩
    · have hsome : self.config.required_source_ipv4.isSome = true := by
        rcases source_of_strictPath hstrict hiface hns with hsome | hsome
        · exact hsome
        · cases hnone : self.config.required_source_ipv4 <;>
            simp_all [wants_v4_listener, namespace_only]
      exact map_eq_some_getD ((isSome_bind_parse hstrict.source_ipv4).trans hsome) _ _
    · rw [hbound.family] at hfamily
      cases hfamily
  · intro socket hsocket
    obtain ⟨hwanted, hbound⟩ := bind_listener_bound hv6 socket hsocket
    simp only [wants_v6_listener, Bool.and_eq_true] at hwanted
    refine ⟨hbound.onPath hnamed fun hiface hns => ?_, fun _ => hwanted.1⟩
    have hsome : self.config.required_source_ipv6.isSome = true := by
      simpa [hiface, hns, namespace_only] using hwanted.2
    exact map_eq_some_getD ((isSome_bind_parse hstrict.source_ipv6).trans hsome) _ _

/-- Under strict containment every socket that the binder hands out is on the configured path,
    whatever the remote address, the port and the operating system. -/
theorem sockets_contained {parse_host : HostParser} (self : ContainedBinder) (os : Os) (shared : Shared)
    (hvalid : self.config.validate parse_host = .ok ()) (hmode : self.config.mode = .Strict)
    (hclosed : self.config.fail_closed = true) :
    (∀ addr socket shared', connect_peer self os addr shared = (.ok socket, shared') →
      Contained self.config socket) ∧
    (∀ remote socket shared', udp_socket_for self os remote shared = (.ok socket, shared') →
      Contained self.config socket) ∧
    (∀ remote port socket shared', udp_socket_on self os remote port shared = (.ok socket, shared') →
      Contained self.config socket) ∧
    (∀ port listener shared', bind_peer_listener self os port shared = (.ok listener, shared') →
      (∀ socket ∈ listener.v4, Contained self.config socket) ∧
        ∀ socket ∈ listener.v6, Contained self.config socket) := by
  have hstrict := NetworkConfig.validate_strictPath hmode hvalid
  refine ⟨?_, ?_, ?_, ?_⟩
  · intro addr socket shared' h
    exact connect_peer_contained hmode hclosed h
  · intro remote socket shared' h
    exact udp_socket_at_contained hstrict hmode hclosed h
  · intro remote port socket shared' h
    exact udp_socket_at_contained hstrict hmode hclosed h
  · intro port listener shared' h
    exact bind_peer_listener_contained hstrict hmode hclosed h

end

/-- Strict containment to one IPv4 source address. -/
def sample_config : NetworkConfig := { NetworkConfig.default with required_source_ipv4 := some "10.8.0.2" }

/-- A host with that address, on which every one can be bound. -/
def sample_probe : InterfaceProbe where
  list := [⟨"tun0", .Up, [.V4 ⟨#v[10, 8, 0, 2]⟩], by decide, by decide⟩]
  can_bind _ := true
  route_valid _ := true
  dns_constrained _ := true
  namespace_available _ := false

/-- A Linux host on which no call fails. -/
def sample_os : Os := ⟨true, fun _ _ => none, fun _ _ => none⟩

/-- A connection to an IPv4 peer through the interface of the address. -/
theorem sockets_contained_source :
    let config := { sample_config with required_interface := some "tun0" }
    ∃ socket shared, connect_peer ⟨config, sample_probe⟩ sample_os ⟨.V4 ⟨#v[1, 1, 1, 1]⟩, 6881⟩ ⟨none, none⟩
        = (.ok socket, shared) ∧ Contained config socket := by
  intro config
  have hsample : config.validate (fun _ => .error "no host") = .ok () ∧
      (connect_peer ⟨config, sample_probe⟩ sample_os ⟨.V4 ⟨#v[1, 1, 1, 1]⟩, 6881⟩ ⟨none, none⟩).1.isOk = true := by
    decide +kernel
  have hcontained := (sockets_contained ⟨config, sample_probe⟩ sample_os ⟨none, none⟩ hsample.1 rfl rfl).1
  rcases hrun : connect_peer ⟨config, sample_probe⟩ sample_os ⟨.V4 ⟨#v[1, 1, 1, 1]⟩, 6881⟩ ⟨none, none⟩
    with ⟨_ | socket, shared⟩
  · rw [hrun] at hsample
    cases hsample.2
  · exact ⟨socket, shared, rfl, hcontained _ _ _ hrun⟩

end swarmotter.netbinder
