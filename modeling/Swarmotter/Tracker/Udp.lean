import Swarmotter.Lib.Slices
import Swarmotter.Tracker.Announce

open swarmotter.net swarmotter.tracker endian

namespace swarmotter.udp_tracker

def CONNECT_MAGIC : Nat := 0x041727101980

def ACTION_CONNECT : Nat := 0

def ACTION_ANNOUNCE : Nat := 1

def ACTION_ERROR : Nat := 3

/-- The buffer of `send_recv`. -/
def MAX_READ : Nat := 2048

/-- A datagram that has arrived. -/
structure Datagram where
  source : SocketAddr
  payload : Bytes

/-- `u32::from_be_bytes` of the four bytes at an offset. -/
def read_u32 (buf : Bytes) (offset : Nat) : Nat := from_be ((buf.drop offset).take 4)

def encode_connect (txn : UInt32) : Bytes :=
  to_be 8 CONNECT_MAGIC ++ to_be 4 ACTION_CONNECT ++ to_be 4 txn.toNat

def decode_connect (buf : Bytes) (expected_txn : UInt32) : Result Nat := do
  let _ ← reject_if (buf.length < 16) (.Parse "udp connect response too short")
  let action := read_u32 buf 0
  let _ ← reject_if (read_u32 buf 4 ≠ expected_txn.toNat) (.Parse "udp connect response transaction id mismatch")
  let _ ← reject_if (action = ACTION_ERROR)
    (.Internal s!"udp tracker connect error: {from_utf8_lossy (buf.drop 8)}")
  let _ ← reject_if (action ≠ ACTION_CONNECT) (.Parse s!"udp connect response unexpected action {action}")
  pure (from_be ((buf.drop 8).take 8))

def event_code : AnnounceEvent → Nat
  | .Empty => 0
  | .Completed => 1
  | .Started => 2
  | .Stopped => 3

def encode_announce (req : AnnounceRequest) (connection_id : Nat) (txn key : UInt32) : Bytes :=
  -- `-1` asks for the default number of peers
  let numwant := match req.numwant with
    | some n => n.toNat
    | none => 0xFFFFFFFF
  to_be 8 connection_id ++ to_be 4 ACTION_ANNOUNCE ++ to_be 4 txn.toNat ++
    req.info_hash.bytes.toList ++ req.peer_id.toList ++ to_be 8 req.downloaded.toNat ++
    to_be 8 req.left.toNat ++ to_be 8 req.uploaded.toNat ++ to_be 4 (event_code req.event) ++
    to_be 4 0 ++ to_be 4 key.toNat ++ to_be 4 numwant ++ to_be 2 req.port.toNat

/-- `as_chunks`: the runs of `n` bytes, without a shorter rest. -/
def as_chunks (n : Nat) (bytes : Bytes) : Vec Bytes :=
  (List.range (bytes.length / n)).map fun i => (bytes.drop (i * n)).take n

def parse_compact_ipv4_udp (bytes : Bytes) : Vec PeerAddr :=
  (as_chunks 6 bytes).map fun chunk =>
    ⟨.V4 ⟨Vector.ofFn fun i => chunk.getD i 0⟩, UInt16.ofNat (from_be (chunk.drop 4))⟩

def decode_announce (buf : Bytes) (expected_txn : UInt32) : Result AnnounceResponse := do
  let _ ← reject_if (buf.length < 8) (.Parse "udp announce response too short")
  let action := read_u32 buf 0
  let _ ← reject_if (read_u32 buf 4 ≠ expected_txn.toNat)
    (.Parse "udp announce response transaction id mismatch")
  if action = ACTION_ERROR then
    pure { AnnounceResponse.default with failure_reason := some (from_utf8_lossy (buf.drop 8)) }
  else do
    let _ ← reject_if (action ≠ ACTION_ANNOUNCE) (.Parse s!"udp announce response unexpected action {action}")
    let _ ← reject_if (buf.length < 20) (.Parse "udp announce response missing fixed fields")
    pure {
      interval := read_u32 buf 8
      min_interval := none
      seeders := read_u32 buf 16
      leechers := read_u32 buf 12
      peers := parse_compact_ipv4_udp (buf.drop 20)
      failure_reason := none
      tracker_id := none }

/-- The loop of `send_recv`, with what arrives before its deadline: datagrams, which are cut to the
    buffer, and errors of the socket. What has not been received stays for the next call. -/
def receive (addr : SocketAddr) (expected_action : Nat) (expected_txn : UInt32) (max_read : Nat) :
    Vec (Result Datagram) → Result Bytes × Vec (Result Datagram)
  | [] => (.error (.Internal "udp tracker response timed out"), [])
  | .error error :: rest => (.error error, rest)
  | .ok datagram :: rest =>
    let buf := datagram.payload.take max_read
    if datagram.source ≠ addr ∨ buf.length < 8 then receive addr expected_action expected_txn max_read rest
    else
      let action := read_u32 buf 0
      if read_u32 buf 4 ≠ expected_txn.toNat then receive addr expected_action expected_txn max_read rest
      else if action ≠ expected_action ∧ action ≠ ACTION_ERROR then
        (.error (.Parse s!"udp tracker response unexpected action {action}"), rest)
      else (.ok buf, rest)

/-- What arrives after a datagram has been sent, or why it could not be sent. -/
abbrev Remote := Bytes → Result (Vec (Result Datagram))

def send_recv (remote : Remote) (inbox : Vec (Result Datagram)) (addr : SocketAddr) (payload : Bytes)
    (expected_action : Nat) (expected_txn : UInt32) (max_read : Nat) :
    Result Bytes × Vec (Result Datagram) :=
  match remote payload with
  | .error error => (.error error, inbox)
  | .ok arrivals => receive addr expected_action expected_txn max_read (inbox ++ arrivals)

/-- The random numbers of a transaction. -/
structure Random where
  connect_txn : UInt32
  announce_txn : UInt32
  key : UInt32

/-- One connect and announce on a socket with the given unread datagrams, and what is left unread. -/
def run_one_transaction (remote : Remote) (random : Random) (inbox : Vec (Result Datagram)) (addr : SocketAddr)
    (req : AnnounceRequest) : Result AnnounceResponse × Vec (Result Datagram) :=
  match send_recv remote inbox addr (encode_connect random.connect_txn) ACTION_CONNECT random.connect_txn MAX_READ with
  | (.error error, inbox) => (.error error, inbox)
  | (.ok buf, inbox) =>
    if to_be 4 ACTION_ERROR <+: buf then (decode_announce buf random.connect_txn, inbox)
    else
      match decode_connect buf random.connect_txn with
      | .error error => (.error error, inbox)
      | .ok conn_id =>
        match send_recv remote inbox addr (encode_announce req conn_id random.announce_txn random.key)
            ACTION_ANNOUNCE random.announce_txn MAX_READ with
        | (.error error, inbox) => (.error error, inbox)
        | (.ok buf, inbox) => (decode_announce buf random.announce_txn, inbox)

/-! What a tracker sends. -/

def connect_response (txn : UInt32) (conn_id : UInt64) : Bytes :=
  to_be 4 ACTION_CONNECT ++ (to_be 4 txn.toNat ++ to_be 8 conn_id.toNat)

/-- A peer in six bytes, or in eighteen. -/
def compact_peer (peer : PeerAddr) : Bytes :=
  match peer.ip with
  | .V4 ip => ip.octets.toList ++ to_be 2 peer.port.toNat
  | .V6 ip => ip.segments.toList.flatMap (fun segment => to_be 2 segment.toNat) ++
      to_be 2 peer.port.toNat

/-- The counts of an announce response. -/
structure Counts where
  interval : UInt32
  leechers : UInt32
  seeders : UInt32

def announce_response (txn : UInt32) (counts : Counts) (peers : Vec PeerAddr) : Bytes :=
  to_be 4 ACTION_ANNOUNCE ++ (to_be 4 txn.toNat ++ (to_be 4 counts.interval.toNat ++
    (to_be 4 counts.leechers.toNat ++ (to_be 4 counts.seeders.toNat ++ peers.flatMap compact_peer))))

/-- A datagram that `send_recv` passes over: from elsewhere, too short or for another transaction. -/
def Stray (addr : SocketAddr) (txn : UInt32) (arrival : Result Datagram) : Prop :=
  ∃ datagram, arrival = .ok datagram ∧ (datagram.source ≠ addr ∨ (datagram.payload.take MAX_READ).length < 8 ∨
    read_u32 (datagram.payload.take MAX_READ) 4 ≠ txn.toNat)

section
variable {addr : SocketAddr} {action : Nat} {txn : UInt32} {rest : Vec (Result Datagram)}

theorem receive_strays {strays : Vec (Result Datagram)} (h : ∀ arrival ∈ strays, Stray addr txn arrival) :
    receive addr action txn MAX_READ (strays ++ rest) = receive addr action txn MAX_READ rest := by
  induction strays with
  | nil => rfl
  | cons arrival strays ih =>
    obtain ⟨⟨datagram, rfl, hstray⟩, hrest⟩ := List.forall_mem_cons.mp h
    rw [List.cons_append, receive]
    dsimp only
    by_cases hshort : datagram.source ≠ addr ∨ (datagram.payload.take MAX_READ).length < 8
    · rw [if_pos hshort, ih hrest]
    · have hother : read_u32 (datagram.payload.take MAX_READ) 4 ≠ txn.toNat := by
        rw [← or_assoc] at hstray
        exact hstray.resolve_left hshort
      rw [if_neg hshort, if_pos hother, ih hrest]

/-- Reading a number that stands behind other bytes. -/
theorem read_u32_append {front : Bytes} {offset n : Nat} (hfront : front.length = offset) (hn : n < 2 ^ 32)
    (rest : Bytes) : read_u32 (front ++ (to_be 4 n ++ rest)) offset = n := by
  have htake : (to_be 4 n ++ rest).take 4 = to_be 4 n := List.take_left' (length_to_be _ _)
  rw [read_u32, ← hfront, List.drop_left, htake, from_be_to_be]
  exact Nat.mod_eq_of_lt hn

theorem read_u32_zero {n : Nat} (hn : n < 2 ^ 32) (rest : Bytes) : read_u32 (to_be 4 n ++ rest) 0 = n :=
  read_u32_append (by rfl : ([] : Bytes).length = 0) hn rest

theorem read_u32_skip (n offset : Nat) (rest : Bytes) :
    read_u32 (to_be 4 n ++ rest) (offset + 4) = read_u32 rest offset := by
  have hdrop : (to_be 4 n ++ rest).drop (4 + offset) = rest.drop offset := by
    rw [← List.drop_drop, List.drop_left' (length_to_be _ _)]
  rw [read_u32, Nat.add_comm, hdrop, read_u32]

/-- The head of a message: its action and its transaction. -/
theorem read_head {action : Nat} (haction : action < 2 ^ 32) (txn : UInt32) (body : Bytes) :
    read_u32 (to_be 4 action ++ (to_be 4 txn.toNat ++ body)) 0 = action ∧
      read_u32 (to_be 4 action ++ (to_be 4 txn.toNat ++ body)) 4 = txn.toNat ∧
      ¬ (to_be 4 action ++ (to_be 4 txn.toNat ++ body)).length < 8 := by
  refine ⟨read_u32_zero haction _, read_u32_append (length_to_be _ _) txn.toNat_lt _, ?_⟩
  simp only [List.length_append, length_to_be]
  omega

/-- The answer that is waited for is taken, up to the size of the buffer. -/
theorem receive_answer (body : Bytes) (haction : action < 2 ^ 32) :
    receive addr action txn MAX_READ
        (.ok ⟨addr, to_be 4 action ++ (to_be 4 txn.toNat ++ body)⟩ :: rest) =
      (.ok (to_be 4 action ++ (to_be 4 txn.toNat ++ body.take (MAX_READ - 8))), rest) := by
  have htake : (to_be 4 action ++ (to_be 4 txn.toNat ++ body)).take MAX_READ =
      to_be 4 action ++ (to_be 4 txn.toNat ++ body.take (MAX_READ - 8)) := by
    simp [List.take_append, MAX_READ, List.take_of_length_le]
  obtain ⟨hread, htxn, hlong⟩ := read_head haction txn (body.take (MAX_READ - 8))
  rw [receive]
  simp only [htake, ne_eq, not_true_eq_false, hlong, or_self, if_false, htxn, hread, false_and]

end

theorem decode_connect_response (txn : UInt32) (conn_id : UInt64) :
    decode_connect (connect_response txn conn_id) txn = .ok conn_id.toNat := by
  obtain ⟨haction, htxn, -⟩ := read_head (by decide : ACTION_CONNECT < 2 ^ 32) txn (to_be 8 conn_id.toNat)
  have hlength : ¬ (connect_response txn conn_id).length < 16 := by
    simp only [connect_response, List.length_append, length_to_be]
    omega
  have hid : ((connect_response txn conn_id).drop 8).take 8 = to_be 8 conn_id.toNat := by
    have hdrop : (connect_response txn conn_id).drop 8 = to_be 8 conn_id.toNat := by
      rw [connect_response, ← List.append_assoc]
      exact List.drop_left' (by simp)
    rw [hdrop]
    exact List.take_of_length_le (by simp)
  have hvalue : from_be (to_be 8 conn_id.toNat) = conn_id.toNat := by
    rw [from_be_to_be]
    exact Nat.mod_eq_of_lt conn_id.toNat_lt
  have hother : ACTION_CONNECT ≠ ACTION_ERROR := by decide
  rw [connect_response] at hlength hid ⊢
  simp only [decode_connect, reject_if, hlength, if_false, bind_ok, haction, htxn, hid, hvalue, hother, ne_eq,
    not_true_eq_false, pure_eq_ok]

/-- The peers of an announce response are what stands behind its twenty bytes, read as IPv4 peers. -/
theorem decode_announce_response (txn : UInt32) (counts : Counts) (body : Bytes) :
    decode_announce (to_be 4 ACTION_ANNOUNCE ++ (to_be 4 txn.toNat ++
        (to_be 4 counts.interval.toNat ++ (to_be 4 counts.leechers.toNat ++
          (to_be 4 counts.seeders.toNat ++ body))))) txn =
      .ok ⟨counts.interval.toNat, none, counts.seeders.toNat, counts.leechers.toNat, parse_compact_ipv4_udp body,
        none, none⟩ := by
  generalize hbuf : to_be 4 ACTION_ANNOUNCE ++ (to_be 4 txn.toNat ++
    (to_be 4 counts.interval.toNat ++ (to_be 4 counts.leechers.toNat ++
      (to_be 4 counts.seeders.toNat ++ body)))) = buf
  have hhead : read_u32 buf 0 = ACTION_ANNOUNCE ∧ read_u32 buf 4 = txn.toNat := by
    rw [← hbuf, read_u32_skip _ 0]
    exact ⟨read_u32_zero (by decide) _, read_u32_zero txn.toNat_lt _⟩
  have hcounts : read_u32 buf 8 = counts.interval.toNat ∧ read_u32 buf 12 = counts.leechers.toNat ∧
      read_u32 buf 16 = counts.seeders.toNat := by
    simp only [← hbuf, read_u32_skip _ 12, read_u32_skip _ 8, read_u32_skip _ 4, read_u32_skip _ 0]
    exact ⟨read_u32_zero (UInt32.toNat_lt _) _, read_u32_zero (UInt32.toNat_lt _) _,
      read_u32_zero (UInt32.toNat_lt _) _⟩
  have hlength : buf.length = 20 + body.length := by
    rw [← hbuf]
    simp only [List.length_append, length_to_be]
    omega
  have hbody : buf.drop 20 = body := by
    rw [← hbuf]
    simp only [← List.append_assoc]
    exact List.drop_left' (by simp)
  have hother : ACTION_ANNOUNCE ≠ ACTION_ERROR := by decide
  simp only [decode_announce, reject_if, hhead, hcounts, hbody, hother, hlength,
    Nat.not_lt.mpr (Nat.le_add_right 20 body.length), show ¬ 20 + body.length < 8 by omega, if_false, bind_ok, ne_eq,
    not_true_eq_false, pure_eq_ok]

theorem as_chunks_of_dvd {n : Nat} (hn : 0 < n) {bytes : Bytes} (hdvd : n ∣ bytes.length) :
    as_chunks n bytes = slices.chunks n bytes := by
  obtain ⟨m, hm⟩ := hdvd
  rw [as_chunks, slices.chunks, hm, Nat.mul_div_cancel_left _ hn, Nat.add_sub_assoc hn, Nat.mul_add_div hn,
    Nat.div_eq_of_lt (by omega), Nat.add_zero]

theorem length_parse_compact_ipv4_udp (bytes : Bytes) : (parse_compact_ipv4_udp bytes).length = bytes.length / 6 := by
  rw [parse_compact_ipv4_udp, List.length_map, as_chunks, List.length_map, List.length_range]

variable {peer : PeerAddr}

theorem is_ipv4_of_mem_parse_compact {bytes : Bytes} (h : peer ∈ parse_compact_ipv4_udp bytes) :
    peer.ip.is_ipv6 = false := by
  obtain ⟨chunk, -, rfl⟩ := List.mem_map.mp h
  rfl

theorem length_compact_peer (h : peer.ip.is_ipv6 = false) : (compact_peer peer).length = 6 := by
  obtain ⟨ip | ip, port⟩ := peer
  · simp [compact_peer]
  · cases h

variable {peers : Vec PeerAddr}

theorem length_flatMap_compact_peer (h : ∀ peer ∈ peers, peer.ip.is_ipv6 = false) :
    (peers.flatMap compact_peer).length = 6 * peers.length := by
  have hlengths := List.map_congr_left fun peer hpeer => length_compact_peer (h peer hpeer)
  rw [List.length_flatMap, hlengths, List.map_const', List.sum_replicate_nat, Nat.mul_comm]

/-- Six bytes of an IPv4 peer read back. -/
theorem parse_compact_peer (h : peer.ip.is_ipv6 = false) :
    PeerAddr.mk (.V4 ⟨Vector.ofFn fun i => (compact_peer peer).getD i 0⟩)
      (UInt16.ofNat (from_be ((compact_peer peer).drop 4))) = peer := by
  obtain ⟨ip | ip, port⟩ := peer
  · have hport : (ip.octets.toList ++ to_be 2 port.toNat).drop 4 = to_be 2 port.toNat :=
      List.drop_left' ip.octets.length_toList
    have hip : (Vector.ofFn fun i : Fin 4 => (ip.octets.toList ++ to_be 2 port.toNat).getD i 0) = ip.octets := by
      ext i hi
      have hfront : i < ip.octets.toList.length := by simpa using hi
      rw [Vector.getElem_ofFn, List.getD_append _ _ _ _ hfront, List.getD_eq_getElem _ _ hfront, Vector.getElem_toList]
    rw [compact_peer]
    simp only [hport, hip, u16_of_be]
  · cases h

theorem parse_compact_peers (h : ∀ peer ∈ peers, peer.ip.is_ipv6 = false) :
    parse_compact_ipv4_udp (peers.flatMap compact_peer) = peers := by
  have hdvd : 6 ∣ (peers.flatMap compact_peer).length := ⟨_, length_flatMap_compact_peer h⟩
  rw [parse_compact_ipv4_udp, as_chunks_of_dvd (by decide) hdvd,
    slices.chunks_flatMap_of_mem (by decide) _ fun peer hpeer => length_compact_peer (h peer hpeer), List.map_map]
  exact (List.map_congr_left fun peer hpeer => parse_compact_peer (h peer hpeer)).trans (List.map_id _)

/-- Parsing what the buffer holds of a list of peers of one family gives the list only when they are
    IPv4 peers that fit. -/
theorem parse_taken_peers_iff {ipv6 : Bool} (h : ∀ peer ∈ peers, peer.ip.is_ipv6 = ipv6) :
    parse_compact_ipv4_udp ((peers.flatMap compact_peer).take (MAX_READ - 20)) = peers ↔
      peers = [] ∨ (ipv6 = false ∧ peers.length ≤ 338) := by
  constructor
  · intro hparsed
    cases peers with
    | nil => exact .inl rfl
    | cons peer peers =>
      have hfamily : ipv6 = false := by
        rw [← h peer List.mem_cons_self]
        exact is_ipv4_of_mem_parse_compact (hparsed ▸ List.mem_cons_self)
      have hlength := congrArg List.length hparsed
      rw [length_parse_compact_ipv4_udp, List.length_take] at hlength
      exact .inr ⟨hfamily, by rw [← hlength, MAX_READ]; omega⟩
  · rintro (rfl | ⟨rfl, hfits⟩)
    · rfl
    · have hall : (peers.flatMap compact_peer).length ≤ MAX_READ - 20 := by
        rw [length_flatMap_compact_peer h, MAX_READ]
        omega
      rw [List.take_of_length_le hall, parse_compact_peers h]

/-- The tracker grants the connection and answers the announce with its peers, among any datagrams
    that belong to something else. -/
def Answered (remote : Remote) (random : Random) (inbox : Vec (Result Datagram)) (addr : SocketAddr)
    (req : AnnounceRequest) (conn_id : UInt64) (counts : Counts) (peers : Vec PeerAddr)
    (rest : Vec (Result Datagram)) : Prop :=
  ∃ first second strays strays' later,
    remote (encode_connect random.connect_txn) = .ok first ∧
    inbox ++ first = strays ++ .ok ⟨addr, connect_response random.connect_txn conn_id⟩ :: later ∧
    (∀ arrival ∈ strays, Stray addr random.connect_txn arrival) ∧
    remote (encode_announce req conn_id.toNat random.announce_txn random.key) = .ok second ∧
    later ++ second = strays' ++ .ok ⟨addr, announce_response random.announce_txn counts peers⟩ :: rest ∧
    ∀ arrival ∈ strays', Stray addr random.announce_txn arrival

section
variable {remote : Remote} {random : Random} {inbox rest : Vec (Result Datagram)} {addr : SocketAddr}
  {req : AnnounceRequest} {conn_id : UInt64} {counts : Counts} {peers : Vec PeerAddr}

theorem run_one_transaction_answered (h : Answered remote random inbox addr req conn_id counts peers rest) :
    run_one_transaction remote random inbox addr req =
      (.ok ⟨counts.interval.toNat, none, counts.seeders.toNat, counts.leechers.toNat,
        parse_compact_ipv4_udp ((peers.flatMap compact_peer).take (MAX_READ - 20)), none, none⟩, rest) := by
  obtain ⟨first, second, strays, strays', later, hconnect, hgranted, hstrays, hannounce, hanswered, hstrays'⟩ := h
  have hgrant : send_recv remote inbox addr (encode_connect random.connect_txn) ACTION_CONNECT random.connect_txn
      MAX_READ = (.ok (connect_response random.connect_txn conn_id), later) := by
    simp only [send_recv, hconnect, hgranted, receive_strays hstrays]
    exact receive_answer _ (by decide)
  have hanswer : send_recv remote later addr (encode_announce req conn_id.toNat random.announce_txn random.key)
      ACTION_ANNOUNCE random.announce_txn MAX_READ =
        (.ok (to_be 4 ACTION_ANNOUNCE ++ (to_be 4 random.announce_txn.toNat ++
          (to_be 4 counts.interval.toNat ++ (to_be 4 counts.leechers.toNat ++
            (to_be 4 counts.seeders.toNat ++ (peers.flatMap compact_peer).take (MAX_READ - 20)))))), rest) := by
    simp only [send_recv, hannounce, hanswered, receive_strays hstrays']
    rw [announce_response, receive_answer _ (by decide)]
    simp [List.take_append, MAX_READ, List.take_of_length_le]
  have hgood : ¬ to_be 4 ACTION_ERROR <+: connect_response random.connect_txn conn_id := by
    intro herror
    have hactions : to_be 4 ACTION_ERROR <+: to_be 4 ACTION_CONNECT :=
      List.prefix_of_prefix_length_le herror (List.prefix_append _ _) (by simp)
    exact absurd hactions (by decide)
  simp only [run_one_transaction, hgrant, hgood, if_false, decode_connect_response, hanswer, decode_announce_response]

/-- The peers arrive exactly if there are none, or if they are IPv4 peers that fit into the buffer: the
    bytes of IPv6 peers are read as IPv4 peers, and what is beyond the buffer is lost. -/
theorem run_one_transaction_peers_iff (hfamily : ∀ peer ∈ peers, peer.ip.is_ipv6 = addr.is_ipv6)
    (hanswered : Answered remote random inbox addr req conn_id counts peers rest) :
    (∃ response, (run_one_transaction remote random inbox addr req).1 = .ok response ∧ response.peers = peers) ↔
      peers = [] ∨ (addr.is_ipv4 = true ∧ peers.length ≤ 338) := by
  have hfour : addr.is_ipv4 = true ↔ addr.is_ipv6 = false := by simp [SocketAddr.is_ipv4, SocketAddr.is_ipv6]
  rw [run_one_transaction_answered hanswered, hfour, ← parse_taken_peers_iff hfamily]
  constructor
  · rintro ⟨response, hresponse, hpeers⟩
    cases hresponse
    exact hpeers
  · intro hpeers
    exact ⟨_, rfl, hpeers⟩

end

/-- A tracker that answers the sixteen bytes of a connect request and any other request in order, each
    after a datagram of its own that is too short. -/
def sample_remote (addr : SocketAddr) (peers : Vec PeerAddr) : Remote := fun payload =>
  .ok [.ok ⟨addr, [0]⟩, .ok ⟨addr, if payload.length = 16 then connect_response 5 9
    else announce_response 6 ⟨1800, 2, 3⟩ peers⟩]

def sample_request : AnnounceRequest where
  tracker_url := "udp://tracker.example:6969"
  info_hash := ⟨Vector.replicate 20 7⟩
  peer_id := Vector.replicate 20 8
  port := 6881
  uploaded := 0
  downloaded := 0
  left := 1000
  event := .Started
  numwant := none
  compact := true

theorem sample_answered (addr : SocketAddr) (peers : Vec PeerAddr) :
    Answered (sample_remote addr peers) ⟨5, 6, 1⟩ [] addr sample_request 9 ⟨1800, 2, 3⟩ peers [] := by
  have hshort : ∀ txn, ∀ arrival ∈ [Except.ok (Datagram.mk addr [0])], Stray addr txn arrival := by
    intro txn arrival harrival
    exact ⟨_, List.mem_singleton.mp harrival, .inr (.inl (by simp))⟩
  exact ⟨_, _, [.ok ⟨addr, [0]⟩], [.ok ⟨addr, [0]⟩], [], rfl, rfl, hshort 5, rfl, rfl, hshort 6⟩

def sample_ipv4 : SocketAddr := ⟨.V4 ⟨#v[10, 0, 0, 1]⟩, 6969⟩

def sample_ipv6 : SocketAddr := ⟨.V6 ⟨#v[0x2001, 0xdb8, 0, 0, 0, 0, 0, 1]⟩, 6969⟩

theorem run_one_transaction_peers_iff_ipv4 :
    (∃ response, (run_one_transaction (sample_remote sample_ipv4 [⟨.V4 ⟨#v[10, 0, 0, 2]⟩, 6881⟩]) ⟨5, 6, 1⟩ []
      sample_ipv4 sample_request).1 = .ok response ∧ response.peers = [⟨.V4 ⟨#v[10, 0, 0, 2]⟩, 6881⟩]) :=
  (run_one_transaction_peers_iff (by decide) (sample_answered _ _)).mpr (by decide)

/-- One IPv6 peer is read as three IPv4 peers. -/
theorem ipv6_peer_misread :
    Answered (sample_remote sample_ipv6 [⟨.V6 ⟨#v[0x2001, 0xdb8, 0, 0, 0, 0, 0, 2]⟩, 6881⟩]) ⟨5, 6, 1⟩ [] sample_ipv6
        sample_request 9 ⟨1800, 2, 3⟩ [⟨.V6 ⟨#v[0x2001, 0xdb8, 0, 0, 0, 0, 0, 2]⟩, 6881⟩] [] ∧
      ∃ response, (run_one_transaction (sample_remote sample_ipv6 [⟨.V6 ⟨#v[0x2001, 0xdb8, 0, 0, 0, 0, 0, 2]⟩, 6881⟩])
          ⟨5, 6, 1⟩ [] sample_ipv6 sample_request).1 = .ok response ∧
        response.peers = [⟨.V4 ⟨#v[32, 1, 13, 184]⟩, 0⟩, ⟨.V4 ⟨#v[0, 0, 0, 0]⟩, 0⟩, ⟨.V4 ⟨#v[0, 0, 0, 2]⟩, 6881⟩] :=
  ⟨sample_answered _ _, _, rfl, by decide⟩

end swarmotter.udp_tracker
