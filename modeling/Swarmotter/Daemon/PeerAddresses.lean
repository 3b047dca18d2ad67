import Swarmotter.Net.Contained

open swarmotter.net swarmotter.netbinder swarmotter.containment_gate
open trial (Keeps)

namespace swarmotter.daemon

/-- The part of the daemon that watches over containment. -/
structure DaemonRuntime where
  config : NetworkConfig
  interface_probe : InterfaceProbe
  containment_gate : ContainmentGate
  health_reports : List HealthReport
  bind_failure_latched : Option HealthReport
  network_health : NetworkHealth

namespace DaemonRuntime

/-- Close the gate and show why. The teardown of the engines that follows is not modelled. -/
def transition_data_plane_to_blocked (self : DaemonRuntime) (status : NetworkContainmentStatus)
    (detail : String) : DaemonRuntime :=
  { self with
    containment_gate := self.containment_gate.block status detail
    network_health := { self.network_health with status := status, detail := detail, traffic_allowed := false } }

/-- Open the gate again. The restart of the engines that follows is not modelled. -/
def recover_containment_work (self : DaemonRuntime) (health : NetworkHealth) : DaemonRuntime :=
  { self with network_health := health, containment_gate := self.containment_gate.allow }

/-- A report from the binder: failures of the binder and denials are latched. -/
def take_report (self : DaemonRuntime) (report : HealthReport) : DaemonRuntime :=
  let latched :=
    if report.status = .SocketBindFailed ∨ report.status = .BlockedFailClosed then some report
    else self.bind_failure_latched
  { self with health_reports := [], bind_failure_latched := latched }.transition_data_plane_to_blocked
    report.status report.detail

/-- While a failure is latched no healthy probe reopens the gate. -/
def hold_latched (self : DaemonRuntime) (report : HealthReport) : DaemonRuntime :=
  let gate :=
    if self.containment_gate.traffic_allowed then self.containment_gate.block report.status report.detail
    else self.containment_gate
  { self with
    containment_gate := gate
    network_health := { self.network_health with
      status := report.status, detail := report.detail, traffic_allowed := false } }

/-- Follow the health of the configured path. -/
def follow_health (self : DaemonRuntime) (health : NetworkHealth) : DaemonRuntime :=
  let previous := self.network_health
  if health.traffic_allowed = false ∧ health.mode ≠ .Disabled then
    if previous.traffic_allowed = true ∨ previous.status ≠ health.status ∨ previous.detail ≠ health.detail ∨
        self.containment_gate.traffic_allowed = true then
      self.transition_data_plane_to_blocked health.status health.detail
    else self
  else if health.traffic_allowed = true ∧ previous.traffic_allowed = false then
    self.recover_containment_work health
  else
    { self with
      network_health := health
      containment_gate :=
        if health.traffic_allowed then self.containment_gate.allow else self.containment_gate }

def network_health_tick (self : DaemonRuntime) : DaemonRuntime :=
  match self.health_reports.getLast? with
  | some report => self.take_report report
  | none =>
    match self.bind_failure_latched with
    | some report => self.hold_latched report
    | none => self.follow_health (evaluate self.config self.interface_probe)

/-- The binder of the daemon, which shares the gate and the health channel with it. -/
def binder (self : DaemonRuntime) : ContainedBinder := ⟨self.config, self.interface_probe⟩

def shared (self : DaemonRuntime) : Shared := ⟨some self.containment_gate, some self.health_reports⟩

def with_shared (self : DaemonRuntime) (shared : Shared) : DaemonRuntime :=
  { self with
    containment_gate := shared.gate.getD self.containment_gate
    health_reports := shared.health_reports.getD self.health_reports }

end DaemonRuntime

/-- `peer_allowed_by_config` of the engine. -/
def peer_allowed_by_config (peer : SocketAddr) (allow_ipv6 : Bool) : Bool :=
  peer.port ≠ 0 && (allow_ipv6 || !peer.ip.is_ipv6)

/-- An address that is handed to the binder, over TCP or UDP. -/
structure Attempt where
  peer : SocketAddr
  transport : Transport

/-- One use of an address. The socket is the engine's business; what stays is the shared state. -/
def DaemonRuntime.attempt (os : Os) (self : DaemonRuntime) (attempt : Attempt) : DaemonRuntime :=
  self.with_shared <|
    match attempt.transport with
    | .Tcp => (connect_peer self.binder os attempt.peer self.shared).2
    | .Udp => (udp_socket_for self.binder os (some attempt.peer) self.shared).2

def DaemonRuntime.attempts (os : Os) (self : DaemonRuntime) (attempts : List Attempt) : DaemonRuntime :=
  attempts.foldl (DaemonRuntime.attempt os) self

section
variable {α : Type} {shared : Shared}

theorem keeps_or_fail (result : Result α) : Keeps (· = shared) (or_fail result) := by
  constructor
  rintro _ rfl
  cases result <;> rfl

theorem keeps_or_report {result : Result α} {report : CoreError → Shared → Shared} {value : α}
    (h : result = .ok value) : Keeps (· = shared) (or_report result report) := by
  constructor
  rintro _ rfl
  subst h
  rfl

end

variable {error : CoreError}

section
variable {self : ContainedBinder} {os : Os} {shared : Shared} {addr : SocketAddr}

/-- A system that is Linux and on which no call fails; connections may. -/
structure BindsSucceed (os : Os) : Prop where
  linux : os.linux = true
  no_error : ∀ syscall socket, os.error syscall socket = none

/-- A binder whose path is available. -/
structure Available (binder : ContainedBinder) : Prop where
  mode : binder.config.mode = .Strict
  fail_closed : binder.config.fail_closed = true
  has_path : binder.config.has_path = true
  allowed : (evaluate binder.config binder.probe).traffic_allowed = true

theorem BindsSucceed.call (hos : BindsSucceed os) (syscall : Syscall) (socket : Socket) :
    os.call syscall socket = .ok (syscall.apply socket) := by
  simp [Os.call, hos.no_error]

theorem BindsSucceed.interface (hos : BindsSucceed os) (hself : Available self) (socket : Socket) :
    ∃ bound, bind_socket_to_interface os socket self.config.required_interface = .ok bound := by
  cases hiface : self.config.required_interface with
  | none => exact ⟨socket, rfl⟩
  | some iface =>
    have hnul : NoNul iface := (required_interface_of_allowed (by simp [hself.mode]) hself.allowed hiface).2
    exact ⟨_, by simp [bind_socket_to_interface, hos.linux, hos.no_error, reject_if, hnul]; rfl⟩

theorem BindsSucceed.udp_socket (hos : BindsSucceed os) (hself : Available self) (bind : SocketAddr) :
    ∃ socket, create_udp_socket os bind self.config.required_interface = .ok socket := by
  obtain ⟨bound, hbound⟩ := hos.interface hself { family := for_address bind, transport := .Udp }
  have hcreated : (Syscall.create.apply { family := for_address bind, transport := .Udp }) =
      { family := for_address bind, transport := .Udp } := rfl
  exact ⟨_, by simp only [create_udp_socket, hos.call, bind_ok, hcreated, hbound]; rfl⟩

/-- A family that is not enforced is a containment failure. -/
theorem ensure_family_enforced_error {cfg : NetworkConfig} (h : ensure_family_enforced cfg addr = .error error) :
    error.is_network_blocked = true := by
  unfold ensure_family_enforced reject_if at h
  split at h
  · cases h
    rfl
  · simp only [bind_ok] at h
    split at h
    · cases h
    · split at h
      · cases h
      · split at h
        · cases h
        · cases h
          rfl

section
variable (hself : Available self) (hgate : ∀ gate ∈ shared.gate, gate.traffic_allowed = true)
include hself hgate

/-- While the gate is open the guard lets pass and reports nothing. -/
theorem guard_of_open : guard self shared = (.ok (), shared) := by
  have henforce : enforce_gate shared = (.ok (), shared) := by
    cases hshared : shared.gate with
    | none => simp [enforce_gate, hshared]
    | some gate =>
      have hopen := hgate gate hshared
      simp [enforce_gate, hshared, ContainmentGate.enforce_eq_ok_iff.mpr hopen]
  have hpath : check_path self shared = (.ok (), shared) := by
    unfold check_path
    rw [if_neg (by simp [hself.mode]), if_neg (by simp [hself.has_path]), or_fail_eq_ok_iff, reject_if_eq_ok_iff]
    simp [hself.allowed]
  unfold netbinder.guard
  rw [trial.bind_of_ok henforce, hpath]

theorem keeps_guard : Keeps (· = shared) (guard self) := by
  constructor
  rintro _ rfl
  rw [guard_of_open hself hgate]

/-- An address of an enforced family leaves no trace, also when the connection fails. -/
theorem keeps_connect_peer (hos : BindsSucceed os)
    (hfamily : ensure_family_enforced self.config addr = .ok ()) : Keeps (· = shared) (connect_peer self os addr) := by
  unfold connect_peer
  apply (keeps_guard hself hgate).bind
  intro _
  apply Keeps.bind (keeps_or_report hfamily)
  intro _
  apply Keeps.bind (keeps_or_fail _)
  intro socket
  obtain ⟨bound, hbound⟩ := hos.interface hself socket
  apply Keeps.bind (keeps_or_report hbound)
  intro device
  apply Keeps.bind
  · unfold bind_source
    cases source_for_addr self.config addr with
    | none => exact Keeps.pure device
    | some ip => exact keeps_or_report (hos.call _ device)
  · intro socket
    exact keeps_or_fail _

theorem keeps_udp_socket_for (hos : BindsSucceed os) (hfamily : ensure_family_enforced self.config addr = .ok ()) :
    Keeps (· = shared) (udp_socket_for self os (some addr)) := by
  unfold udp_socket_for udp_socket_at
  apply (keeps_guard hself hgate).bind
  intro _
  apply Keeps.bind (keeps_or_report hfamily)
  intro _
  obtain ⟨socket, hsocket⟩ := hos.udp_socket hself { udp_bind_addr self.config (some addr) with port := 0 }
  exact keeps_or_report hsocket

variable (hdenied : ensure_family_enforced self.config addr = .error error)
include hdenied

/-- A denied address is reported before anything else can happen. -/
theorem report_of_denied {γ : Type} {kind : String} (next : NetM γ) :
    ∃ detail, ((do guard self; enforce_family self.config kind addr; next : NetM γ) shared).2 =
      report_health_status self.config .BlockedFailClosed detail shared := by
  refine ⟨s!"{kind} address {addr} denied by containment policy: {error}", ?_⟩
  have hreport : enforce_family self.config kind addr shared = (.error error, report_health_status self.config
      .BlockedFailClosed s!"{kind} address {addr} denied by containment policy: {error}" shared) := by
    simp only [enforce_family, or_report, hdenied, ensure_family_enforced_error hdenied, if_true]
  rw [trial.bind_of_ok (guard_of_open hself hgate), trial.bind_of_error hreport]

theorem connect_peer_of_denied (os : Os) :
    ∃ detail, (connect_peer self os addr shared).2 =
      report_health_status self.config .BlockedFailClosed detail shared :=
  report_of_denied hself hgate hdenied _

theorem udp_socket_for_of_denied (os : Os) :
    ∃ detail, (udp_socket_for self os (some addr) shared).2 =
      report_health_status self.config .BlockedFailClosed detail shared :=
  report_of_denied hself hgate hdenied _

end

end

section
variable {os : Os} {self : DaemonRuntime} {attempt : Attempt}

/-- A running daemon on which nothing has gone wrong. -/
structure Running (runtime : DaemonRuntime) : Prop where
  gate : runtime.containment_gate.traffic_allowed = true
  no_report : runtime.health_reports = []
  unlatched : runtime.bind_failure_latched = none

theorem with_shared_shared (self : DaemonRuntime) : self.with_shared self.shared = self := rfl

theorem Running.shared_gate (hrunning : Running self) : ∀ gate ∈ self.shared.gate, gate.traffic_allowed = true := by
  intro gate hgate
  obtain rfl : self.containment_gate = gate := Option.some.inj hgate
  exact hrunning.gate

theorem attempt_of_enforced (hself : Available self.binder) (hos : BindsSucceed os) (hrunning : Running self)
    (hfamily : ensure_family_enforced self.config attempt.peer = .ok ()) : self.attempt os attempt = self := by
  unfold DaemonRuntime.attempt
  cases attempt.transport with
  | Tcp =>
    have hkeeps : (connect_peer self.binder os attempt.peer self.shared).2 = self.shared :=
      (keeps_connect_peer hself hrunning.shared_gate hos hfamily).final _ rfl
    rw [hkeeps, with_shared_shared]
  | Udp =>
    have hkeeps : (udp_socket_for self.binder os (some attempt.peer) self.shared).2 = self.shared :=
      (keeps_udp_socket_for hself hrunning.shared_gate hos hfamily).final _ rfl
    rw [hkeeps, with_shared_shared]

/-- One address of a family that is not enforced shuts the data plane down. -/
theorem attempt_of_denied (os : Os) (hself : Available self.binder) (hrunning : Running self)
    (hdenied : ensure_family_enforced self.config attempt.peer = .error error) :
    (self.attempt os attempt).containment_gate.traffic_allowed = false := by
  have hblocked : ∀ detail, (self.with_shared (report_health_status self.binder.config .BlockedFailClosed detail
      self.shared)).containment_gate.traffic_allowed = false := by
    intro detail
    rw [report_health_status, if_pos ⟨hself.mode, hself.fail_closed⟩]
    exact ContainmentGate.traffic_allowed_block _ _ _
  unfold DaemonRuntime.attempt
  cases attempt.transport with
  | Tcp =>
    obtain ⟨detail, hdetail⟩ := connect_peer_of_denied hself hrunning.shared_gate hdenied os
    simp only [hdetail, hblocked]
  | Udp =>
    obtain ⟨detail, hdetail⟩ := udp_socket_for_of_denied hself hrunning.shared_gate hdenied os
    simp only [hdetail, hblocked]

/-- The addresses that keep the gate open, one after the other. -/
theorem attempts_of_enforced {attempts : List Attempt} (hself : Available self.binder) (hos : BindsSucceed os)
    (hrunning : Running self)
    (hfamily : ∀ attempt ∈ attempts, ensure_family_enforced self.config attempt.peer = .ok ()) :
    self.attempts os attempts = self := by
  induction attempts with
  | nil => rfl
  | cons attempt attempts ih =>
    have hfirst : self.attempt os attempt = self :=
      attempt_of_enforced hself hos hrunning (hfamily attempt List.mem_cons_self)
    rw [DaemonRuntime.attempts, List.foldl_cons, hfirst]
    exact ih fun attempt hattempt => hfamily attempt (List.mem_cons_of_mem _ hattempt)

/-- A gate that stays open all along has seen enforced families only. -/
theorem enforced_of_attempts {attempts : List Attempt} (hself : Available self.binder) (hos : BindsSucceed os)
    (hrunning : Running self)
    (hopen : ∀ k, (self.attempts os (attempts.take k)).containment_gate.traffic_allowed = true) :
    ∀ attempt ∈ attempts, ensure_family_enforced self.config attempt.peer = .ok () := by
  induction attempts with
  | nil => simp
  | cons attempt attempts ih =>
    have hfirst : ensure_family_enforced self.config attempt.peer = .ok () := by
      cases hcase : ensure_family_enforced self.config attempt.peer with
      | ok => rfl
      | error error =>
        have hblocked := attempt_of_denied os hself hrunning hcase
        have hstill : (self.attempt os attempt).containment_gate.traffic_allowed = true := hopen 1
        rw [hblocked] at hstill
        cases hstill
    have hkept : self.attempt os attempt = self := attempt_of_enforced hself hos hrunning hfirst
    have hrest : ∀ k, (self.attempts os (attempts.take k)).containment_gate.traffic_allowed = true := by
      intro k
      have hnext := hopen (k + 1)
      rw [List.take_succ_cons, DaemonRuntime.attempts, List.foldl_cons, hkept] at hnext
      exact hnext
    exact List.forall_mem_cons.mpr ⟨hfirst, ih hrest⟩

/-- A health tick on a running daemon whose path is available changes nothing that matters. -/
theorem network_health_tick_of_running (hself : Available self.binder) (hrunning : Running self) :
    self.network_health_tick.containment_gate.traffic_allowed = true ∧
      self.network_health_tick.bind_failure_latched = none := by
  have hallowed : (evaluate self.config self.interface_probe).traffic_allowed = true := hself.allowed
  have hgate : self.containment_gate.allow.traffic_allowed = true := by
    rw [ContainmentGate.allow_of_traffic_allowed hrunning.gate]
    exact hrunning.gate
  have htick : self.network_health_tick = self.follow_health (evaluate self.config self.interface_probe) := by
    simp [DaemonRuntime.network_health_tick, hrunning.no_report, hrunning.unlatched]
  rw [htick]
  unfold DaemonRuntime.follow_health
  rw [if_neg (by simp [hallowed])]
  split
  · exact ⟨hgate, hrunning.unlatched⟩
  · exact ⟨hgate, hrunning.unlatched⟩

/-- For an address that the engine admits, the family check is about its binding. -/
theorem ensure_family_enforced_iff {cfg : NetworkConfig} {peer : SocketAddr} {torrent_allow_ipv6 : Bool}
    (hmode : cfg.mode = .Strict) (hclosed : cfg.fail_closed = true)
    (hpeer : peer_allowed_by_config peer (torrent_allow_ipv6 && cfg.allow_ipv6) = true) :
    ensure_family_enforced cfg peer = .ok () ↔
      cfg.required_interface.isSome = true ∨ cfg.required_network_namespace.isSome = true ∨
        (source_for_addr cfg peer).isSome = true := by
  have hipv6 : peer.is_ipv6 = true → cfg.allow_ipv6 = true := by
    intro hv6
    have hip : peer.ip.is_ipv6 = true := hv6
    by_contra hforbidden
    simp [peer_allowed_by_config, hforbidden, hip] at hpeer
  rw [ensure_family_enforced_eq_ok_iff hmode hclosed, and_iff_right hipv6]
  cases cfg.required_interface <;> cases cfg.required_network_namespace <;> simp

/-- Peer addresses keep the gate open, and leave no failure latched at the next health tick, exactly
    when the path is an interface or a namespace or has a source address for the family of every
    address. A peer of another family closes the gate for all torrents. -/
theorem peer_addresses_keep_gate_iff {parse_host : HostParser} (self : DaemonRuntime) (os : Os)
    (torrent_allow_ipv6 : Bool) (attempts : List Attempt) (hvalid : self.config.validate parse_host = .ok ())
    (hmode : self.config.mode = .Strict) (hclosed : self.config.fail_closed = true)
    (hallowed : (evaluate self.config self.interface_probe).traffic_allowed = true) (hrunning : Running self)
    (hos : BindsSucceed os)
    (hpeers : ∀ attempt ∈ attempts,
      peer_allowed_by_config attempt.peer (torrent_allow_ipv6 && self.config.allow_ipv6) = true) :
    ((∀ k, (self.attempts os (attempts.take k)).containment_gate.traffic_allowed = true) ∧
      (self.attempts os attempts).network_health_tick.containment_gate.traffic_allowed = true ∧
      (self.attempts os attempts).network_health_tick.bind_failure_latched = none) ↔
    self.config.required_interface.isSome = true ∨ self.config.required_network_namespace.isSome = true ∨
      ∀ attempt ∈ attempts, (source_for_addr self.config attempt.peer).isSome = true := by
  have hself : Available self.binder :=
    ⟨hmode, hclosed, (NetworkConfig.validate_strictPath hmode hvalid).has_path, hallowed⟩
  have hiff : (∀ attempt ∈ attempts, ensure_family_enforced self.config attempt.peer = .ok ()) ↔
      self.config.required_interface.isSome = true ∨ self.config.required_network_namespace.isSome = true ∨
        ∀ attempt ∈ attempts, (source_for_addr self.config attempt.peer).isSome = true := by
    rw [forall₂_congr fun attempt hattempt => ensure_family_enforced_iff hmode hclosed (hpeers attempt hattempt)]
    cases self.config.required_interface <;> cases self.config.required_network_namespace <;> simp
  rw [← hiff]
  constructor
  · rintro ⟨hopen, -, -⟩
    exact enforced_of_attempts hself hos hrunning hopen
  · intro hall
    refine ⟨fun k => ?_, ?_⟩
    · rw [attempts_of_enforced hself hos hrunning fun attempt hattempt => hall attempt (List.mem_of_mem_take hattempt)]
      exact hrunning.gate
    · rw [attempts_of_enforced hself hos hrunning hall]
      exact network_health_tick_of_running hself hrunning

end

/-- A daemon that has just started with strict containment to one IPv4 source address. -/
def sample_runtime : DaemonRuntime where
  config := sample_config
  interface_probe := sample_probe
  containment_gate := ContainmentGate.new true
  health_reports := []
  bind_failure_latched := none
  network_health := evaluate sample_config sample_probe

/-- One IPv6 address that the engine admits closes the gate, and the health tick latches it. -/
theorem peer_address_closes_gate :
    sample_config.validate (fun _ => .error "no host") = .ok () ∧
    (evaluate sample_config sample_probe).traffic_allowed = true ∧
    peer_allowed_by_config ⟨.V6 ⟨#v[0x2606, 0x4700, 0x4700, 0, 0, 0, 0, 0x1111]⟩, 6881⟩ sample_config.allow_ipv6
      = true ∧
    (let blocked := sample_runtime.attempts sample_os
      [⟨⟨.V6 ⟨#v[0x2606, 0x4700, 0x4700, 0, 0, 0, 0, 0x1111]⟩, 6881⟩, .Tcp⟩]
    blocked.containment_gate.traffic_allowed = false ∧
      blocked.network_health_tick.bind_failure_latched.isSome = true) := by decide +kernel

/-- IPv4 addresses keep the gate open. -/
theorem peer_addresses_keep_gate_iff_ipv4 :
    (∀ k, (sample_runtime.attempts sample_os
      ([⟨⟨.V4 ⟨#v[1, 1, 1, 1]⟩, 6881⟩, .Udp⟩].take k)).containment_gate.traffic_allowed
      = true) ∧
    (sample_runtime.attempts sample_os [⟨⟨.V4 ⟨#v[1, 1, 1, 1]⟩, 6881⟩, .Udp⟩]).network_health_tick.bind_failure_latched
      = none := by
  have hvalid : sample_runtime.config.validate (fun _ => .error "no host") = .ok () := by decide +kernel
  have hallowed : (evaluate sample_runtime.config sample_runtime.interface_probe).traffic_allowed = true := by
    decide +kernel
  have hkept := (peer_addresses_keep_gate_iff sample_runtime sample_os true
    [⟨⟨.V4 ⟨#v[1, 1, 1, 1]⟩, 6881⟩, .Udp⟩] hvalid rfl rfl hallowed ⟨rfl, rfl, rfl⟩ ⟨rfl, fun _ _ => rfl⟩
    (by decide)).mpr (Or.inr (Or.inr (by decide +kernel)))
  exact ⟨hkept.1, hkept.2.2⟩

end swarmotter.daemon
