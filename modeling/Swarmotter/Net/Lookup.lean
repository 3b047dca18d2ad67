import Swarmotter.Net.Contained

open swarmotter.net

namespace swarmotter.netbinder

/-- `to_socket_addrs`: the resolver of the operating system, which is not modelled. -/
abbrev Resolver := String → UInt16 → NetM (List SocketAddr)

/-- The first label of the name, in either case. -/
def hostname_prefers_ipv6 (host : String) : Bool :=
  (host.toList.takeWhile (· ≠ '.')).map Char.toLower = ['i', 'p', 'v', '6']

def prefer_ipv6 (cfg : NetworkConfig) (host : String) : Bool :=
  cfg.allow_ipv6 &&
    (cfg.required_source_ipv6.isSome && cfg.required_source_ipv4.isNone || hostname_prefers_ipv6 host)

def select_resolved_addr (cfg : NetworkConfig) (host : String) (addrs : List SocketAddr) : Option SocketAddr :=
  if prefer_ipv6 cfg host then (addrs.find? SocketAddr.is_ipv6).or (addrs.find? SocketAddr.is_ipv4)
  else (addrs.find? SocketAddr.is_ipv4).or (addrs.find? SocketAddr.is_ipv6)

/-- The resolved addresses of a family that may be used at all. -/
def usable_addrs (cfg : NetworkConfig) (addrs : List SocketAddr) : List SocketAddr :=
  addrs.filter fun addr => cfg.allow_ipv6 || addr.is_ipv4

def resolve_host (self : ContainedBinder) (to_socket_addrs : Resolver) (host : String) (port : UInt16) :
    NetM SocketAddr := do
  guard self
  match IpAddr.parse host with
  | some ip => pure ⟨ip, port⟩
  | none =>
    let cfg := self.config
    or_fail (reject_if (cfg.mode = .Strict ∧ cfg.fail_closed = true ∧
        cfg.required_network_namespace.isNone = true ∧ self.probe.dns_constrained cfg = false)
      (.NetworkBlocked ("torrent data plane blocked: hostname resolution requires DNS constrained to the " ++
        "configured network path or a current network namespace")))
    let addrs ← to_socket_addrs host port
    or_fail (ok_or (select_resolved_addr cfg host (usable_addrs cfg addrs))
      (.Internal s!"host {host} has no usable address"))

/-! The preference of a family against its enforcement. -/

section
variable {cfg : NetworkConfig} {host : String} {addrs : List SocketAddr} {addr other : SocketAddr}

/-- A search that falls back to the rest of a list. -/
theorem find?_or_find?_not {p : SocketAddr → Bool} (hmem : other ∈ addrs) :
    ∃ addr ∈ addrs, (addrs.find? p).or (addrs.find? fun addr => !p addr) = some addr ∧
      (p addr = true ∨ ∀ other ∈ addrs, p other = false) := by
  cases hfirst : addrs.find? p with
  | some addr => exact ⟨addr, List.mem_of_find?_eq_some hfirst, rfl, .inl (List.find?_some hfirst)⟩
  | none =>
    have hnone : ∀ other ∈ addrs, p other = false := by simpa using List.find?_eq_none.mp hfirst
    have hrest : (addrs.find? fun addr => !p addr).isSome = true :=
      List.find?_isSome.mpr ⟨other, hmem, by simp [hnone other hmem]⟩
    obtain ⟨addr, haddr⟩ := Option.isSome_iff_exists.mp hrest
    exact ⟨addr, List.mem_of_find?_eq_some haddr, haddr, .inr hnone⟩

/-- The preferred family is taken where the list has it. -/
theorem select_resolved_addr_spec (hmem : other ∈ addrs) :
    ∃ addr ∈ addrs, select_resolved_addr cfg host addrs = some addr ∧
      (addr.is_ipv6 = prefer_ipv6 cfg host ∨ ∀ other ∈ addrs, other.is_ipv6 = !prefer_ipv6 cfg host) := by
  unfold select_resolved_addr
  cases prefer_ipv6 cfg host with
  | true => exact find?_or_find?_not hmem
  | false =>
    have hv6 : SocketAddr.is_ipv6 = fun addr => !addr.is_ipv4 := by
      funext addr
      simp [SocketAddr.is_ipv4, SocketAddr.is_ipv6]
    simpa [hv6] using find?_or_find?_not hmem

/-- The source address that is required of the family of an address. -/
def required_source (cfg : NetworkConfig) (addr : SocketAddr) : Option String :=
  if addr.is_ipv6 then cfg.required_source_ipv6 else cfg.required_source_ipv4

theorem isSome_source_for_addr (hstrict : StrictPath cfg) :
    (source_for_addr cfg addr).isSome = (required_source cfg addr).isSome := by
  obtain ⟨ip | ip, port⟩ := addr
  · exact Option.isSome_map.trans (isSome_bind_parse hstrict.source_ipv4)
  · exact Option.isSome_map.trans (isSome_bind_parse hstrict.source_ipv6)

/-- Strict containment lets an address through by its family alone. -/
theorem ensure_family_enforced_iff_source (hstrict : StrictPath cfg) (hmode : cfg.mode = .Strict)
    (hclosed : cfg.fail_closed = true) :
    ensure_family_enforced cfg addr = .ok () ↔ (addr.is_ipv6 = true → cfg.allow_ipv6 = true) ∧
      (cfg.required_interface = none → cfg.required_network_namespace = none →
        (required_source cfg addr).isSome = true) := by
  rw [ensure_family_enforced_eq_ok_iff hmode hclosed, isSome_source_for_addr hstrict]

/-- The first label of the name asks for IPv6, which the configuration allows but does not bind. -/
def PrefersUnbound (cfg : NetworkConfig) (host : String) (addrs : List SocketAddr) : Prop :=
  cfg.required_interface = none ∧ cfg.required_network_namespace = none ∧ cfg.required_source_ipv6 = none ∧
    cfg.allow_ipv6 = true ∧ hostname_prefers_ipv6 host = true ∧ ∃ addr ∈ addrs, addr.is_ipv6 = true

/-- A selected address that is denied next to one that is not: it is of the preferred family, so it is
    the name that asks for it. -/
theorem prefersUnbound_of_denied {bound : SocketAddr} (hstrict : StrictPath cfg) (hmode : cfg.mode = .Strict)
    (hclosed : cfg.fail_closed = true) (henforced : ensure_family_enforced cfg bound = .ok ())
    (hmem : addr ∈ usable_addrs cfg addrs) (hfamily : addr.is_ipv6 = prefer_ipv6 cfg host)
    (hdenied : ¬ ensure_family_enforced cfg addr = .ok ()) : PrefersUnbound cfg host addrs := by
  rw [ensure_family_enforced_iff_source hstrict hmode hclosed] at henforced hdenied
  have hallow : addr.is_ipv6 = true → cfg.allow_ipv6 = true := fun hv6 => by
    simpa [SocketAddr.is_ipv4, show addr.ip.is_ipv6 = true from hv6] using (List.mem_filter.mp hmem).2
  have hunbound : cfg.required_interface = none ∧ cfg.required_network_namespace = none ∧
      required_source cfg addr = none := by
    simpa using not_and.mp hdenied hallow
  obtain ⟨hiface, hns, hsource⟩ := hunbound
  have hbound := henforced.2 hiface hns
  cases hv6 : addr.is_ipv6 with
  | true =>
    rw [required_source, if_pos hv6] at hsource
    refine ⟨hiface, hns, hsource, hallow hv6, ?_, addr, (List.mem_filter.mp hmem).1, hv6⟩
    simpa [prefer_ipv6, hv6, hsource, hallow hv6] using hfamily
  | false =>
    -- The source that is there is the one of IPv6, which the configuration then prefers.
    simp only [required_source, hv6, Bool.false_eq_true, if_false] at hsource
    cases hother : bound.is_ipv6 with
    | true =>
      rw [required_source, if_pos hother] at hbound
      simp [prefer_ipv6, hv6, hsource, hbound, henforced.1 hother] at hfamily
    | false => simp [required_source, hother, hsource] at hbound

/-- The selected address can be contained, unless the name asks for a family that is not bound. -/
theorem select_resolved_addr_enforced_iff {parse_host : HostParser} (hvalid : cfg.validate parse_host = .ok ())
    (hmode : cfg.mode = .Strict) (hclosed : cfg.fail_closed = true)
    (hsome : ∃ addr ∈ usable_addrs cfg addrs, ensure_family_enforced cfg addr = .ok ()) :
    (∃ addr, select_resolved_addr cfg host (usable_addrs cfg addrs) = some addr ∧
      ensure_family_enforced cfg addr = .ok ()) ↔ ¬ PrefersUnbound cfg host addrs := by
  have hstrict := NetworkConfig.validate_strictPath hmode hvalid
  obtain ⟨bound, hbound, henforced⟩ := hsome
  obtain ⟨addr, hmem, hselected, hfamily⟩ := @select_resolved_addr_spec cfg host _ _ hbound
  rw [hselected]
  constructor
  · rintro ⟨_, ⟨⟩, hok⟩ ⟨hiface, hns, hsource, hallow, hname, v6, hv6, hfamily6⟩
    have hprefer : prefer_ipv6 cfg host = true := by simp [prefer_ipv6, hallow, hname]
    have husable : v6 ∈ usable_addrs cfg addrs := List.mem_filter.mpr ⟨hv6, by simp [hallow]⟩
    -- The list has an IPv6 address, so one is selected, and there is no source for it.
    have haddr : addr.is_ipv6 = true :=
      hfamily.elim (fun h => h.trans hprefer) fun h => by simp [h v6 husable, hprefer] at hfamily6
    have henforced := ((ensure_family_enforced_iff_source hstrict hmode hclosed).mp hok).2 hiface hns
    simp [required_source, haddr, hsource] at henforced
  · intro hbound_name
    by_contra hdenied
    have hdenied : ¬ ensure_family_enforced cfg addr = .ok () := fun hok => hdenied ⟨addr, rfl, hok⟩
    rcases hfamily with hfamily | hother
    · exact hbound_name (prefersUnbound_of_denied hstrict hmode hclosed henforced hmem hfamily hdenied)
    · -- Only the other family is there, so the selected address is enforced like the given one.
      have hsame : addr.is_ipv6 = bound.is_ipv6 := (hother addr hmem).trans (hother bound hbound).symm
      rw [ensure_family_enforced_iff_source hstrict hmode hclosed] at henforced hdenied
      rw [required_source, hsame] at hdenied
      exact hdenied henforced

end

def sample_v4 : SocketAddr := ⟨.V4 ⟨#v[1, 1, 1, 1]⟩, 443⟩

def sample_v6 : SocketAddr := ⟨.V6 ⟨#v[0x2606, 0x4700, 0x4700, 0, 0, 0, 0, 0x1111]⟩, 443⟩

/-- Containment to an IPv4 source address, and a name whose first label is `ipv6`. -/
theorem select_resolved_addr_unbound :
    sample_config.validate (fun _ => .error "no host") = .ok () ∧ sample_config.mode = .Strict ∧
      sample_config.fail_closed = true ∧
      usable_addrs sample_config [sample_v4, sample_v6] = [sample_v4, sample_v6] ∧
      ensure_family_enforced sample_config sample_v4 = .ok () ∧
      select_resolved_addr sample_config "ipv6.tracker.example" [sample_v4, sample_v6] = some sample_v6 ∧
      ensure_family_enforced sample_config sample_v6 = .error (.NetworkBlocked
        "torrent data plane blocked: no IPv6 containment binding is configured") := by decide +kernel

/-- Another name with the same addresses. -/
theorem select_resolved_addr_bound :
    ∃ addr, select_resolved_addr sample_config "tracker.example"
        (usable_addrs sample_config [sample_v4, sample_v6]) = some addr ∧
      ensure_family_enforced sample_config addr = .ok () := by
  have hvalid : sample_config.validate (fun _ => .error "no host") = .ok () ∧
      ensure_family_enforced sample_config sample_v4 = .ok () := by decide +kernel
  refine (select_resolved_addr_enforced_iff hvalid.1 rfl rfl ⟨sample_v4, by decide, hvalid.2⟩).mpr ?_
  rintro ⟨-, -, -, -, hname, -⟩
  exact absurd hname (by decide)

end swarmotter.netbinder

namespace swarmotter.net

/-- The digits of an octet are read back. -/
theorem read_number_octet (octet : UInt8) {rest : List Char}
    (hrest : ∀ c ∈ rest.head?, (to_digit 10 c).isSome = false) :
    read_number 10 3 255 false (Nat.toDigits 10 octet.toNat ++ rest) = some (octet.toNat, rest) := by
  have hdigit : ∀ d < 10, to_digit 10 d.digitChar = some d := by decide
  have hzero : ∀ d < 10, d.digitChar = '0' → d = 0 := by decide
  have hoctet : let digits := Nat.toDigits 10 octet.toNat
      (∀ c ∈ digits, (to_digit 10 c).isSome = true) ∧ digits.foldl
        (fun value c => value * 10 + (to_digit 10 c).getD 0) 0 = octet.toNat ∧
      ¬ (digits = [] ∨ digits.length > 3 ∨ (True ∧ digits.head? = some '0' ∧ digits.length > 1) ∨
        octet.toNat > 255) := by
    have hlt := octet.toNat_lt
    generalize octet.toNat = n at hlt
    rcases Nat.lt_or_ge n 10 with hn | hn
    · simp [Nat.toDigits_of_lt_base hn, hdigit n hn]
      omega
    · have hlast := hdigit (n % 10) (by omega)
      rw [Nat.toDigits_of_base_le (by decide) hn]
      rcases Nat.lt_or_ge (n / 10) 10 with hm | hm
      · have := hzero (n / 10) hm
        simp [Nat.toDigits_of_lt_base hm, hdigit _ hm, hlast]
        omega
      · have := hzero (n / 10 / 10) (by omega)
        have hfirst := hdigit (n / 10 / 10) (by omega)
        have hsecond := hdigit (n / 10 % 10) (by omega)
        simp only [Nat.toDigits_of_base_le (by decide : 1 < 10) hm,
          Nat.toDigits_of_lt_base (by omega : n / 10 / 10 < 10)]
        simp [hfirst, hsecond, hlast]
        omega
  obtain ⟨hall, hvalue, hlimits⟩ := hoctet
  have htake : rest.takeWhile (fun c => (to_digit 10 c).isSome) = [] := by
    cases rest with
    | nil => rfl
    | cons c rest => simp [hrest c (by simp)]
  simp only [read_number, List.takeWhile_append_of_pos hall, htake, List.append_nil, hvalue]
  rw [if_neg hlimits, List.drop_left]

/-- An IPv4 address is read back from its text. -/
theorem Ipv4Addr.parse_to_string (ip : Ipv4Addr) : Ipv4Addr.parse ip.to_string = some ip := by
  obtain ⟨⟨⟨octets⟩, hlength⟩⟩ := ip
  match octets, hlength with
  | [a, b, c, d], _ =>
    have htext : (⟨#v[a, b, c, d]⟩ : Ipv4Addr).to_string = toString a.toNat ++ "." ++ toString b.toNat ++ "." ++
        toString c.toNat ++ "." ++ toString d.toNat := rfl
    have hsize : ∀ n < 256, (toString n).utf8ByteSize ≤ 3 := by decide +kernel
    have hshort : ¬ (⟨#v[a, b, c, d]⟩ : Ipv4Addr).to_string.utf8ByteSize > 15 := by
      have ha := hsize _ a.toNat_lt
      have hb := hsize _ b.toNat_lt
      have hc := hsize _ c.toNat_lt
      have hd := hsize _ d.toNat_lt
      simp only [htext, String.utf8ByteSize_append, show ".".utf8ByteSize = 1 from rfl]
      omega
    have hdot : ∀ octet : UInt8, ∀ rest, read_number 10 3 255 false
        (Nat.toDigits 10 octet.toNat ++ '.' :: rest) = some (octet.toNat, '.' :: rest) :=
      fun octet rest => read_number_octet octet (by simp; decide)
    have hend := @read_number_octet d [] (by simp)
    rw [List.append_nil] at hend
    have hread : read_octets 4 [] (⟨#v[a, b, c, d]⟩ : Ipv4Addr).to_string.toList = some ([a, b, c, d], []) := by
      simp [htext, read_octets, read_separator, read_given_char, hdot, hend]
    simp only [Ipv4Addr.parse, if_neg hshort, parse_with, read_ipv4_addr, hread]
    rfl

/-- No address starts with a bracket. -/
theorem IpAddr.parse_bracket (text : String) : IpAddr.parse ("[" ++ text ++ "]") = none := by
  have hlist : ("[" ++ text ++ "]").toList = '[' :: (text ++ "]").toList := by simp
  have hnumber : ∀ radix ∈ [10, 16], ∀ digits limit zero rest,
      read_number radix digits limit zero ('[' :: rest) = none := by
    intro radix hradix digits limit zero rest
    have hbracket : (to_digit radix '[').isSome = false := by
      revert radix
      decide
    simp [read_number, hbracket]
  have hv4 : ∀ rest, read_ipv4_addr ('[' :: rest) = none := by
    intro rest
    simp [read_ipv4_addr, read_octets, read_separator, hnumber]
  have hv6 : ∀ rest, read_ipv6_addr ('[' :: rest) = none := by
    intro rest
    simp [read_ipv6_addr, read_groups, read_separator, hv4, hnumber, read_given_char]
  simp [IpAddr.parse, Ipv4Addr.parse, Ipv6Addr.parse, parse_with, hlist, hv4, hv6]

/-- The address that a host stands for. A scheme like `udp` leaves an IPv4 address as it is written. -/
def Host.literal : Host → Option IpAddr
  | .Domain domain => (Ipv4Addr.parse domain).map .V4
  | .Ipv4 ip => some (.V4 ip)
  | .Ipv6 ip => some (.V6 ip)

/-- The standard library reads an IPv4 address from the text of its host, and no IPv6 address. -/
theorem IpAddr.parse_host {host : Host} {ip : IpAddr} (hliteral : host.literal = some ip) :
    IpAddr.parse host.to_string = if ip.is_ipv6 then none else some ip := by
  cases host with
  | Domain domain =>
    obtain ⟨v4, hv4, rfl⟩ := Option.map_eq_some_iff.mp hliteral
    simp [IpAddr.parse, Host.to_string, hv4, IpAddr.is_ipv6]
  | Ipv4 v4 =>
    cases hliteral
    simp [IpAddr.parse, Host.to_string, Ipv4Addr.parse_to_string, IpAddr.is_ipv6]
  | Ipv6 v6 =>
    cases hliteral
    exact parse_bracket v6.compressed

end swarmotter.net

open swarmotter.netbinder

namespace swarmotter.udp_tracker

def resolve_udp_tracker (crate : UrlCrate) (resolve_host : String → UInt16 → NetM SocketAddr) (url : String) :
    NetM SocketAddr := do
  let parsed ← or_fail ((crate.parse url).mapError fun e => .Internal s!"bad udp tracker url: {e}")
  or_fail (reject_if (parsed.scheme ≠ "udp") (.Internal s!"udp tracker url is not udp scheme: {url}"))
  let host ← or_fail (ok_or (crate.host_str parsed) (.Internal s!"udp tracker url missing host: {url}"))
  let port ← or_fail (ok_or parsed.port (.Internal s!"udp tracker url missing port: {url}"))
  resolve_host host port

section
variable {crate : UrlCrate} {self : ContainedBinder} {shared shared' : Shared} {text : String} {url : Url}
  {host : Host} {ip : IpAddr} {port : UInt16}

theorem resolve_udp_tracker_eq {resolve_host : String → UInt16 → NetM SocketAddr}
    (hparse : crate.parse text = .ok url) (hscheme : url.scheme = "udp") (hhost : url.host = some host)
    (hport : url.port = some port) (hnames : crate.NamesHost url) :
    resolve_udp_tracker crate resolve_host text shared = resolve_host host.to_string port shared := by
  have hname : crate.host_str url = some host.to_string := by rw [hnames, hhost, Option.map_some]
  have hurl : ∀ report : String → CoreError, (crate.parse text).mapError report = .ok url := fun report => by
    rw [hparse]
    rfl
  refine (trial.bind_of_ok (or_fail_eq_ok_iff.mpr ⟨hurl _, rfl⟩)).trans ?_
  have hudp : ∀ error, reject_if (url.scheme ≠ "udp") error = .ok () := fun _ =>
    reject_if_eq_ok_iff.mpr (not_not_intro hscheme)
  simp only [hname, hport, hudp]
  rfl

/-- A literal is returned as it is exactly if it is of IPv4: whatever the resolver would answer or do, it
    is not asked. An IPv6 literal keeps its brackets and goes the way of a name. -/
theorem resolve_udp_tracker_literal_iff (hparse : crate.parse text = .ok url) (hscheme : url.scheme = "udp")
    (hhost : url.host.bind Host.literal = some ip) (hport : url.port = some port) (hnames : crate.NamesHost url)
    (hguard : guard self shared = (.ok (), shared')) :
    (∀ to_socket_addrs : Resolver, resolve_udp_tracker crate (resolve_host self to_socket_addrs) text shared =
      (.ok ⟨ip, port⟩, shared')) ↔ ip.is_ipv6 = false := by
  obtain ⟨host, hsome, hliteral⟩ := Option.bind_eq_some_iff.mp hhost
  simp only [resolve_udp_tracker_eq hparse hscheme hsome hport hnames, resolve_host, trial.bind_of_ok hguard,
    IpAddr.parse_host hliteral]
  cases hfamily : ip.is_ipv6 with
  | false => simp [trial.pure_eq_ok_iff]
  | true =>
    simp only [if_true, Bool.true_eq_false, iff_false]
    intro hall
    -- A resolver that fails is asked.
    have hfailed := hall fun _ _ => or_fail (.error (.Io "no such host"))
    simp [trial.bind_eq_ok_iff, or_fail_eq_ok_iff] at hfailed

end

/-- A tracker at an address of each family, behind a parser of its URL. -/
def sample_url (host : Host) : Url := ⟨"udp", "", none, some host, some 6969, "", none, none⟩

def reads_url (host : Host) : UrlCrate where
  parse _ := .ok (sample_url host)
  join url _ := .ok url
  push_segments _ _ := none
  as_str _ := "udp://" ++ host.to_string ++ ":6969"
  host_str _ := some host.to_string
  port_or_known_default := Url.port
  query_pairs _ := []

/-- Containment to an IPv6 source address, on a host whose resolver is not bound to the path. -/
def sample_binder : ContainedBinder :=
  ⟨{ NetworkConfig.default with required_source_ipv6 := some "fd00::2" },
    { sample_probe with dns_constrained := fun _ => false }⟩

/-- An IPv6 literal is refused as a name that may not be looked up. -/
theorem resolve_udp_tracker_ipv6 :
    guard sample_binder ⟨none, none⟩ = (.ok (), ⟨none, none⟩) ∧
      ensure_family_enforced sample_binder.config ⟨.V6 ⟨#v[0xfd00, 0, 0, 0, 0, 0, 0, 1]⟩, 6969⟩ = .ok () ∧
      ∀ to_socket_addrs, resolve_udp_tracker (reads_url (.Ipv6 ⟨#v[0xfd00, 0, 0, 0, 0, 0, 0, 1]⟩))
          (resolve_host sample_binder to_socket_addrs) "udp://[fd00::1]:6969" ⟨none, none⟩ =
        (.error (.NetworkBlocked ("torrent data plane blocked: hostname resolution requires DNS constrained to " ++
          "the configured network path or a current network namespace")), ⟨none, none⟩) := by
  have hguard : guard sample_binder ⟨none, none⟩ = (.ok (), ⟨none, none⟩) ∧
      ensure_family_enforced sample_binder.config ⟨.V6 ⟨#v[0xfd00, 0, 0, 0, 0, 0, 0, 1]⟩, 6969⟩ = .ok () := by
    decide +kernel
  refine ⟨hguard.1, hguard.2, fun to_socket_addrs => ?_⟩
  rw [resolve_udp_tracker_eq rfl rfl rfl rfl rfl, resolve_host, trial.bind_of_ok hguard.1, IpAddr.parse_host rfl]
  rfl

/-- An IPv4 literal, with a resolver that fails. -/
theorem resolve_udp_tracker_ipv4 :
    resolve_udp_tracker (reads_url (.Domain "10.0.0.1")) (resolve_host ⟨sample_config, sample_probe⟩
      fun _ _ => or_fail (.error (.Io "no such host"))) "udp://10.0.0.1:6969" ⟨none, none⟩ =
        (.ok ⟨.V4 ⟨#v[10, 0, 0, 1]⟩, 6969⟩, ⟨none, none⟩) := by
  have hguard : guard ⟨sample_config, sample_probe⟩ ⟨none, none⟩ = (.ok (), ⟨none, none⟩) ∧
      (Host.Domain "10.0.0.1").literal = some (.V4 ⟨#v[10, 0, 0, 1]⟩) := by decide +kernel
  exact (@resolve_udp_tracker_literal_iff _ _ _ _ _ (sample_url (.Domain "10.0.0.1")) _ _ rfl rfl hguard.2 rfl rfl
    hguard.1).mpr rfl _

end swarmotter.udp_tracker
