import Swarmotter.Engine.Pex

open swarmotter.bencode swarmotter.meta swarmotter.net

namespace swarmotter.tracker

/-- An `i64` cast to an unsigned integer. -/
def cast (width : Nat) (n : Int64) : Nat := (n.toInt % 2 ^ width).toNat

def entry_port (entry : Value) : Option Int64 := (entry.get (as_bytes "port")).bind Value.as_int

def entry_ip (entry : Value) : Option IpAddr := ((entry.get (as_bytes "ip")).bind Value.as_str_utf8).bind IpAddr.parse

/-- The peer of a dictionary, if its address can be parsed. -/
def entry_peer (entry : Value) : Option PeerAddr := do
  let ip ← entry_ip entry
  let port ← entry_port entry
  pure ⟨ip, UInt16.ofNat (cast 16 port)⟩

/-- The address and the port that a dictionary states, if its address can be parsed. -/
def stated_peer (entry : Value) : Option (IpAddr × Int) := do
  let ip ← entry_ip entry
  let port ← entry_port entry
  pure (ip, port.toInt)

/-- The peers in dictionary form. -/
def peer_entries (dict : Dict) : Vec Value := ((lookup dict "peers").bind Value.as_list).getD []

/-- Parse a bencoded tracker announce response body. The compact peers are those of BEP 11, too. -/
def parse_announce_response (body : Bytes) : Result AnnounceResponse := do
  let root ← decode body
  let dict ← ok_or root.as_dict (.Parse "tracker response not a dict")
  match get_str dict "failure reason" with
  | some reason => pure { AnnounceResponse.default with failure_reason := some reason }
  | none =>
    pure {
      interval := ((get_int dict "interval").map (cast 64)).getD 0
      min_interval := (get_int dict "min interval").map (cast 64)
      seeders := ((get_int dict "complete").map (cast 64)).getD 0
      leechers := ((get_int dict "incomplete").map (cast 64)).getD 0
      peers := (match (lookup dict "peers").bind Value.as_str with
        | some bytes => extensions.parse_compact_ipv4 bytes
        | none => (peer_entries dict).filterMap entry_peer) ++
        (((lookup dict "peers6").bind Value.as_str).map extensions.parse_compact_ipv6).getD []
      failure_reason := none
      tracker_id := get_str dict "tracker id" }

/-- Every integer of a response is that of the body. The peers in dictionary form come first, with the addresses and
    ports that they state. -/
@[mk_iff] structure Exact (dict : Dict) (response : AnnounceResponse) : Prop where
  interval : ∀ n ∈ get_int dict "interval", (response.interval : Int) = n.toInt
  min_interval : ∀ n ∈ get_int dict "min interval", ∃ seconds ∈ response.min_interval, (seconds : Int) = n.toInt
  seeders : ∀ n ∈ get_int dict "complete", (response.seeders : Int) = n.toInt
  leechers : ∀ n ∈ get_int dict "incomplete", (response.leechers : Int) = n.toInt
  ports : (peer_entries dict).filterMap stated_peer <+:
    response.peers.map fun peer => (peer.ip, (peer.port.toNat : Int))

/-- The counts are not negative, and the ports of peers with an address are ports. -/
@[mk_iff] structure InRange (dict : Dict) : Prop where
  counts : ∀ key ∈ ["interval", "min interval", "complete", "incomplete"], ∀ n ∈ get_int dict key, 0 ≤ n.toInt
  ports : ∀ entry ∈ peer_entries dict, (entry_ip entry).isSome → ∀ port ∈ entry_port entry,
    0 ≤ port.toInt ∧ port.toInt < 65536

theorem cast_eq_iff {width : Nat} {n : Int64} : (cast width n : Int) = n.toInt ↔ 0 ≤ n.toInt ∧ n.toInt < 2 ^ width := by
  have hpos : (0 : Int) < 2 ^ width := by positivity
  rw [cast, Int.toNat_of_nonneg (Int.emod_nonneg _ hpos.ne')]
  exact ⟨fun h => h ▸ ⟨Int.emod_nonneg _ hpos.ne', Int.emod_lt_of_pos _ hpos⟩, fun h => Int.emod_eq_of_lt h.1 h.2⟩

theorem count_eq_iff {n : Int64} : (cast 64 n : Int) = n.toInt ↔ 0 ≤ n.toInt := by
  have hlt := n.toInt_lt
  rw [cast_eq_iff, and_iff_left (by omega)]

theorem port_eq_iff {n : Int64} : (cast 16 n : Int) % 65536 = n.toInt ↔ 0 ≤ n.toInt ∧ n.toInt < 65536 := by
  have hsmall : (cast 16 n : Int) % 65536 = cast 16 n := by
    rw [cast]
    omega
  rw [hsmall]
  exact cast_eq_iff

theorem count_exact_iff {count : Option Int64} :
    (∀ n ∈ count, (((count.map (cast 64)).getD 0 : Nat) : Int) = n.toInt) ↔ ∀ n ∈ count, 0 ≤ n.toInt := by
  cases count <;> simp [count_eq_iff]

theorem min_interval_exact_iff {count : Option Int64} :
    (∀ n ∈ count, ∃ seconds ∈ count.map (cast 64), (seconds : Int) = n.toInt) ↔ ∀ n ∈ count, 0 ≤ n.toInt := by
  cases count <;> simp [count_eq_iff]

/-- The peers of some dictionaries are as they are stated exactly if every port is one. -/
theorem stated_prefix_iff {entries : Vec Value} {peers : Vec PeerAddr} :
    entries.filterMap stated_peer <+:
        (entries.filterMap entry_peer ++ peers).map (fun peer => (peer.ip, (peer.port.toNat : Int))) ↔
      ∀ entry ∈ entries, (entry_ip entry).isSome → ∀ port ∈ entry_port entry, 0 ≤ port.toInt ∧ port.toInt < 65536 := by
  induction entries with
  | nil => simp
  | cons entry entries ih =>
    rw [List.forall_mem_cons, ← ih, List.filterMap_cons, List.filterMap_cons, stated_peer, entry_peer]
    cases entry_ip entry <;> cases entry_port entry <;> simp [← port_eq_iff, List.cons_prefix_cons, eq_comm]

/-- The same of a response: in compact form no dictionary states a peer. -/
theorem ports_exact_iff {dict : Dict} {peers : Vec PeerAddr} :
    (peer_entries dict).filterMap stated_peer <+: ((match (lookup dict "peers").bind Value.as_str with
        | some bytes => extensions.parse_compact_ipv4 bytes
        | none => (peer_entries dict).filterMap entry_peer) ++ peers).map
          (fun peer => (peer.ip, (peer.port.toNat : Int))) ↔
      ∀ entry ∈ peer_entries dict, (entry_ip entry).isSome → ∀ port ∈ entry_port entry,
        0 ≤ port.toInt ∧ port.toInt < 65536 := by
  cases hbytes : (lookup dict "peers").bind Value.as_str with
  | none => exact stated_prefix_iff
  | some bytes =>
    have hnone : peer_entries dict = [] := by
      obtain ⟨value, hvalue, hstr⟩ := Option.bind_eq_some_iff.mp hbytes
      rw [peer_entries, hvalue]
      cases value <;> first | rfl | cases hstr
    simp [hnone]

variable {body : Bytes} {response : AnnounceResponse}

/-- A response is exact exactly if no integer of the body is cast to another one. -/
theorem announce_response_exact_iff (h : parse_announce_response body = .ok response)
    (hreason : response.failure_reason = none) :
    ∃ dict, decode body = .ok (.Dict dict) ∧ (Exact dict response ↔ InRange dict) := by
  simp only [parse_announce_response, eq_ok_iff] at h
  obtain ⟨value, hvalue, dict, hdict, hresponse⟩ := h
  obtain rfl : value = .Dict dict := by
    cases value <;> cases hdict
    rfl
  refine ⟨dict, hvalue, ?_⟩
  split at hresponse
  · obtain rfl := pure_eq_ok_iff.mp hresponse
    cases hreason
  · obtain rfl := pure_eq_ok_iff.mp hresponse
    simp only [exact_iff, inRange_iff, List.forall_mem_cons, List.not_mem_nil, false_implies, implies_true, true_and,
      count_exact_iff, min_interval_exact_iff, ports_exact_iff, and_assoc]

/-- A negative interval becomes a huge one. -/
theorem announce_interval_cast :
    (parse_announce_response (as_bytes "d8:intervali-1ee")).map AnnounceResponse.interval =
      .ok 18446744073709551615 := by
  decide +kernel

/-- A response with one peer in dictionary form. -/
def sample_dict : Dict :=
  [(as_bytes "peers", .List [.Dict [(as_bytes "ip", .Str (as_bytes "1.2.3.4")), (as_bytes "port", .Int 80)]])]

/-- The peer is returned with the port that it states. -/
theorem announce_response_exact_iff_dictionary :
    ∃ response, parse_announce_response (as_bytes "d5:peersld2:ip7:1.2.3.44:porti80eeee") = .ok response ∧
      response.peers.map PeerAddr.port = [80] ∧ Exact sample_dict response := by
  have hrun : (parse_announce_response (as_bytes "d5:peersld2:ip7:1.2.3.44:porti80eeee") >>= fun response =>
        .ok (response.failure_reason, response.peers.map PeerAddr.port)) = .ok (none, [80]) ∧
      decode (as_bytes "d5:peersld2:ip7:1.2.3.44:porti80eeee") = .ok (.Dict sample_dict) ∧
      (∀ key ∈ ["interval", "min interval", "complete", "incomplete"], get_int sample_dict key = none) ∧
      ∀ entry ∈ peer_entries sample_dict, entry_port entry = some 80 := by
    decide +kernel
  obtain ⟨hparse, hdecode, hcounts, hport⟩ := hrun
  have hrange : InRange sample_dict := by
    refine ⟨fun key hkey n hn => ?_, fun entry hentry _ port hmem => ?_⟩
    · cases hn.symm.trans (hcounts key hkey)
    · cases hmem.symm.trans (hport entry hentry)
      decide
  obtain ⟨response, hresponse, hfields⟩ := bind_eq_ok_iff.mp hparse
  obtain ⟨hreason, hports⟩ := Prod.mk.inj (Except.ok.inj hfields)
  obtain ⟨dict, hdict, hexact⟩ := announce_response_exact_iff hresponse hreason
  obtain rfl := Value.Dict.inj (Except.ok.inj (hdict.symm.trans hdecode))
  exact ⟨response, hresponse, hports, hexact.mpr hrange⟩

end swarmotter.tracker
