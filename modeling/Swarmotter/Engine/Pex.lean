import Swarmotter.Peer.Extensions
import Swarmotter.Tracker.Udp

open swarmotter.bencode swarmotter.meta swarmotter.net swarmotter.tracker

namespace swarmotter.extensions

def UT_PEX_NAME : String := "ut_pex"

/-- How many outstanding requests the daemon tells its peers to keep. -/
def LOCAL_EXTENSION_REQQ : Nat := 250

def encode_extension_handshake_with_reqq (extensions : Vec (String × UInt8)) (client_version : String)
    (metadata_size : Option Nat) : Bytes :=
  encode_extension_handshake_payload extensions client_version metadata_size (some LOCAL_EXTENSION_REQQ)

structure PexMessage where
  added : Vec PeerAddr
  dropped : Vec PeerAddr
  added6 : Vec PeerAddr
  dropped6 : Vec PeerAddr
  deriving DecidableEq

/-- Addresses of `size` bytes with their ports; a shorter rest is left out. -/
def parse_compact (size : Nat) (address : Bytes → IpAddr) (bytes : Bytes) : Vec PeerAddr :=
  (udp_tracker.as_chunks (size + 2) bytes).map fun chunk =>
    ⟨address (chunk.take size), UInt16.ofNat (endian.from_be (chunk.drop size))⟩

def parse_compact_ipv4 : Bytes → Vec PeerAddr :=
  parse_compact 4 fun octets => .V4 ⟨Vector.ofFn fun i => octets.getD i 0⟩

def parse_compact_ipv6 : Bytes → Vec PeerAddr :=
  parse_compact 16 fun octets =>
    .V6 ⟨Vector.ofFn fun i => UInt16.ofNat (endian.from_be ((octets.drop (2 * i)).take 2))⟩

/-- Parse a PEX message payload (BEP 11). -/
def parse_pex (payload : Bytes) : Result PexMessage := do
  let root ← decode payload
  let dict ← ok_or root.as_dict (.Parse "pex message not a dict")
  let peers (key : String) (parse : Bytes → Vec PeerAddr) :=
    (((lookup dict key).bind Value.as_str).map parse).getD []
  pure ⟨peers "added" parse_compact_ipv4, peers "dropped" parse_compact_ipv4, peers "added6" parse_compact_ipv6,
    peers "dropped6" parse_compact_ipv6⟩

end swarmotter.extensions

open swarmotter.extensions

namespace swarmotter.engine

namespace Pex

/-- What a session reads of its torrent and of the configuration. -/
structure Config where
  pex_enabled : Bool
  is_private : Bool
  allow_ipv6 : Bool
  /-- Whether the peer filter admits an address. -/
  admit_ip : IpAddr → Bool
  pex_max_peers : Nat

/-- PEX is honoured only for torrents that are not private. -/
def Config.active (config : Config) : Bool := config.pex_enabled && !config.is_private

def peer_allowed_by_config (peer : PeerAddr) (allow_ipv6 : Bool) : Bool :=
  peer.port ≠ 0 ∧ (allow_ipv6 ∨ peer.ip.is_ipv6 = false)

/-- The loop over the peers of a message; it ends when the pool is full. -/
def add_pex_peers (config : Config) (discovered : Vec PeerAddr) : Vec PeerAddr → Vec PeerAddr
  | [] => discovered
  | peer :: peers =>
    if peer_allowed_by_config peer config.allow_ipv6 = false then add_pex_peers config discovered peers
    else if config.admit_ip peer.ip = false then add_pex_peers config discovered peers
    else if config.pex_max_peers > 0 ∧ discovered.length ≥ config.pex_max_peers then discovered
    else if peer ∈ discovered then add_pex_peers config discovered peers
    else add_pex_peers config (discovered ++ [peer]) peers

/-- The part of a session that extended messages change. `read` records the messages that were read as PEX, with
    their ids. -/
structure Session where
  remote_pex_id : Option UInt8
  /-- The cap of the request window. -/
  cap : Nat
  discovered : Vec PeerAddr
  pex_discovery_ok : Bool
  read : Vec (UInt8 × Bytes)

def NORMAL_REQUEST_FALLBACK_CAP : Nat := 2000

def NORMAL_REQUEST_LOCAL_CAP : Nat := 4000

def Session.start : Session := ⟨none, NORMAL_REQUEST_FALLBACK_CAP, [], false, []⟩

def set_remote_reqq (cap : Nat) (remote_reqq : Option Nat) : Nat :=
  match remote_reqq.filter (0 < ·) with
  | none => cap
  | some remote_reqq => max 1 (min remote_reqq NORMAL_REQUEST_LOCAL_CAP)

/-- What both downloading sessions do with a PEX message. -/
def Session.read_pex (config : Config) (session : Session) (id : UInt8) (payload : Bytes) : Session :=
  let session := { session with read := session.read ++ [(id, payload)] }
  match parse_pex payload with
  | .error _ => session
  | .ok pex =>
    let discovered := add_pex_peers config session.discovered (pex.added ++ pex.added6)
    { session with
      discovered := discovered
      pex_discovery_ok := session.pex_discovery_ok || decide (discovered.length > session.discovered.length) }

/-- A parallel session calls it in both of its waits. -/
def handle_parallel_pex_message (config : Config) (session : Session) (id : UInt8) (payload : Bytes) : Session :=
  if id = EXTENSION_HANDSHAKE_ID then
    match parse_extension_handshake payload with
    | .error _ => session
    | .ok hs =>
      { session with
        remote_pex_id := if config.active then hs.id_for UT_PEX_NAME else session.remote_pex_id
        cap := set_remote_reqq session.cap hs.reqq }
  else if config.active = false then session
  else if some id ≠ session.remote_pex_id then session
  else session.read_pex config id payload

/-- The branch of `download_from_peer` for an extended message that it reads while it waits for the peer's state. -/
def handle_serial_extended (config : Config) (session : Session) (id : UInt8) (payload : Bytes) : Session :=
  if id = EXTENSION_HANDSHAKE_ID then
    match parse_extension_handshake payload with
    | .error _ => session
    | .ok hs => if config.active then { session with remote_pex_id := hs.id_for UT_PEX_NAME } else session
  else if config.pex_enabled ∧ some id = session.remote_pex_id ∧ config.is_private = false then
    session.read_pex config id payload
  else session

/-- The branch of `serve_peer_session`, which learns the id of the peer for updates that it does not send yet. -/
def handle_seeding_extended (session : Session) (id : UInt8) (payload : Bytes) : Session :=
  if id = EXTENSION_HANDSHAKE_ID then
    match parse_extension_handshake payload with
    | .error _ => session
    | .ok hs => { session with remote_pex_id := hs.id_for UT_PEX_NAME }
  else session

/-- The sessions that advertise `ut_pex`. -/
inductive Kind where
  | Serial
  | Parallel
  | Seeding
  deriving DecidableEq

/-- An extended message that a session reads, and whether it reads it while it assembles a piece. -/
structure Incoming where
  assembling : Bool
  id : UInt8
  payload : Bytes

/-- While it assembles a piece a serial session passes over extended messages. -/
def skips (kind : Kind) (assembling : Bool) : Bool := kind = .Serial ∧ assembling

def step (kind : Kind) (config : Config) (session : Session) (message : Incoming) : Session :=
  if skips kind message.assembling then session
  else
    match kind with
    | .Serial => handle_serial_extended config session message.id message.payload
    | .Parallel => handle_parallel_pex_message config session message.id message.payload
    | .Seeding => handle_seeding_extended session message.id message.payload

/-- The session behind the extended messages it has read. -/
def run (kind : Kind) (config : Config) (messages : Vec Incoming) : Session :=
  messages.foldl (step kind config) .start

/-- The extensions a session names in its own handshake. -/
def extensions (kind : Kind) (pex_active : Bool) : Vec (String × UInt8) :=
  match kind with
  | .Serial => (UT_METADATA_NAME, 2) :: if pex_active then [(UT_PEX_NAME, 1)] else []
  | .Parallel => if pex_active then [(UT_PEX_NAME, 1)] else []
  | .Seeding => [(UT_PEX_NAME, 1)]

/-- The payload of the handshake that a session sends. -/
def own_handshake (kind : Kind) (config : Config) : Bytes :=
  match kind with
  | .Seeding => encode_extension_handshake (extensions kind config.active) "SwarmOtter/0.1" none
  | _ => encode_extension_handshake_with_reqq (extensions kind config.active) "SwarmOtter/0.1" none

/-- The id under which a peer that reads the handshake sends its PEX messages (BEP 10). -/
def advertised_pex_id (kind : Kind) (config : Config) : Option UInt8 :=
  (parse_extension_handshake (own_handshake kind config)).toOption.bind fun hs => hs.id_for UT_PEX_NAME

/-- The handshake in a message, if the session does not pass over it and it can be read. -/
def handshake_in (kind : Kind) (message : Incoming) : Option ExtensionHandshake :=
  if skips kind message.assembling = false ∧ message.id = EXTENSION_HANDSHAKE_ID
  then (parse_extension_handshake message.payload).toOption else none

/-- The last handshake that a session has read. -/
def last_handshake (kind : Kind) (messages : Vec Incoming) : Option ExtensionHandshake :=
  (messages.filterMap (handshake_in kind)).getLast?

/-- The session takes the message for a PEX message. -/
def ReadsAsPex (kind : Kind) (config : Config) (session : Session) (message : Incoming) : Prop :=
  (step kind config session message).read = session.read ++ [(message.id, message.payload)]

theorem read_read_pex (config : Config) (session : Session) (id : UInt8) (payload : Bytes) :
    (session.read_pex config id payload).read = session.read ++ [(id, payload)] := by
  unfold Session.read_pex
  cases parse_pex payload <;> rfl

section
variable {kind : Kind} {config : Config} {session : Session}

theorem not_read_self {id : UInt8} {payload : Bytes} : session.read ≠ session.read ++ [(id, payload)] := by
  simp

/-- A message other than a handshake is read as PEX by the id that the peer has advertised. -/
theorem readsAsPex_iff {message : Incoming} (hid : message.id ≠ EXTENSION_HANDSHAKE_ID) :
    ReadsAsPex kind config session message ↔
      skips kind message.assembling = false ∧ kind ≠ .Seeding ∧ config.active = true ∧
        session.remote_pex_id = some message.id := by
  unfold ReadsAsPex step
  by_cases hskips : skips kind message.assembling = true
  · simp [hskips]
  have hactive : config.active = true ↔ config.pex_enabled = true ∧ config.is_private = false := by
    simp [Config.active]
  cases kind with
  | Serial =>
    simp only [if_neg hskips, handle_serial_extended, if_neg hid]
    by_cases hread : config.pex_enabled = true ∧ some message.id = session.remote_pex_id ∧ config.is_private = false
    · rw [if_pos hread, read_read_pex]
      simp_all
    · rw [if_neg hread]
      simp only [not_read_self, false_iff]
      rintro ⟨-, -, hon, hremote⟩
      exact hread ⟨(hactive.mp hon).1, hremote.symm, (hactive.mp hon).2⟩
  | Parallel =>
    simp only [if_neg hskips, handle_parallel_pex_message, if_neg hid]
    by_cases hoff : config.active = false
    · simp [hoff]
    rw [if_neg hoff]
    by_cases hremote : some message.id ≠ session.remote_pex_id
    · rw [if_pos hremote]
      simp only [not_read_self, false_iff]
      rintro ⟨-, -, -, hsame⟩
      exact hremote hsame.symm
    · rw [if_neg hremote, read_read_pex]
      simp_all
  | Seeding => simp [hskips, handle_seeding_extended, hid]

theorem read_pex_remote_pex_id (config : Config) (session : Session) (id : UInt8) (payload : Bytes) :
    (session.read_pex config id payload).remote_pex_id = session.remote_pex_id := by
  unfold Session.read_pex
  cases parse_pex payload <;> rfl

/-- Only a handshake changes the id that a session has learned. -/
theorem step_remote_pex_id (hkind : kind ≠ .Seeding) (hactive : config.active = true) (message : Incoming) :
    (step kind config session message).remote_pex_id =
      match handshake_in kind message with
      | some hs => hs.id_for UT_PEX_NAME
      | none => session.remote_pex_id := by
  unfold step handshake_in
  by_cases hskips : skips kind message.assembling = true
  · simp [hskips]
  by_cases hid : message.id = EXTENSION_HANDSHAKE_ID
  · cases hparsed : parse_extension_handshake message.payload with
    | error error =>
      cases kind <;>
        simp_all [handle_serial_extended, handle_parallel_pex_message, Except.toOption]
    | ok hs =>
      cases kind <;>
        simp_all [handle_serial_extended, handle_parallel_pex_message, Except.toOption]
  · cases kind with
    | Serial =>
      simp only [if_neg hskips, handle_serial_extended, hid, if_false, and_false]
      split <;> simp [read_pex_remote_pex_id]
    | Parallel =>
      simp only [if_neg hskips, handle_parallel_pex_message, hid, if_false, and_false]
      split
      · rfl
      · split <;> simp [read_pex_remote_pex_id]
    | Seeding => exact absurd rfl hkind

/-- The id a session has learned is that of the last handshake. -/
theorem run_remote_pex_id (hkind : kind ≠ .Seeding) (hactive : config.active = true) (messages : Vec Incoming) :
    (run kind config messages).remote_pex_id = (last_handshake kind messages).bind fun hs => hs.id_for UT_PEX_NAME := by
  induction messages using List.reverseRecOn with
  | nil => rfl
  | append_singleton messages message ih =>
    have hrun : run kind config (messages ++ [message]) = step kind config (run kind config messages) message := by
      simp [run]
    rw [hrun, step_remote_pex_id hkind hactive, last_handshake, List.filterMap_append, List.getLast?_append]
    cases hhandshake : handshake_in kind message with
    | some hs => simp [hhandshake]
    | none => simpa [hhandshake, last_handshake] using ih

end

section
variable (kind : Kind) (pex_active : Bool)

theorem by_name_extensions : by_name (extensions kind pex_active) = extensions kind pex_active := by
  apply List.mergeSort_of_pairwise
  cases kind <;> cases pex_active <;> decide +kernel

/-- A session's handshake is read back with the extensions it names. -/
theorem parse_own_handshake {reqq : Option Nat} (hreqq : reqq = none ∨ reqq = some LOCAL_EXTENSION_REQQ) :
    parse_extension_handshake
        (encode_extension_handshake_payload (extensions kind pex_active) "SwarmOtter/0.1" none reqq) =
      .ok ⟨extensions kind pex_active, some "SwarmOtter/0.1", none, reqq.filter (0 < ·)⟩ := by
  have hlength : (encode_extension_handshake_payload (extensions kind pex_active) "SwarmOtter/0.1" none reqq).length ≤
      MAX_TORRENT_METADATA_BYTES := by
    simp only [encode_extension_handshake_payload, by_name_extensions]
    rcases hreqq with rfl | rfl <;> cases kind <;> cases pex_active <;> decide +kernel
  have hfits : ∀ n ∈ reqq, n < 2 ^ 63 := by
    rcases hreqq with rfl | rfl <;> decide
  have hnames : ((extensions kind pex_active).map Prod.fst).Nodup := by
    cases kind <;> cases pex_active <;> decide
  have hcount : 2 * (extensions kind pex_active).length + 9 ≤ MAX_BENCODE_NODES := by
    cases kind <;> cases pex_active <;> decide
  rw [parse_extension_handshake_encode hnames (by simp) hfits ((nodes_handshake_dict_le _).trans hcount) hlength,
    by_name_extensions]

end

/-- What a peer reads in the handshake of a session. -/
theorem advertised_pex_id_eq (kind : Kind) (config : Config) :
    advertised_pex_id kind config = if kind = .Seeding ∨ config.active = true then some 1 else none := by
  have hid (reqq : Option Nat) (hreqq : reqq = none ∨ reqq = some LOCAL_EXTENSION_REQQ) :
      ((parse_extension_handshake (encode_extension_handshake_payload (extensions kind config.active) "SwarmOtter/0.1"
        none reqq)).toOption.bind fun hs => hs.id_for UT_PEX_NAME) =
        if kind = .Seeding ∨ config.active = true then some 1 else none := by
    rw [parse_own_handshake kind config.active hreqq]
    cases kind <;> cases config.active <;> rfl
  unfold advertised_pex_id own_handshake
  split
  · exact hid none (Or.inl rfl)
  · exact hid (some LOCAL_EXTENSION_REQQ) (Or.inr rfl)

/-- A session reads PEX by the id that it has advertised, whatever id a message has, exactly if PEX is off or the peer
    has advertised the same id; a serial session only between two pieces, and a seeding session never. -/
theorem reads_as_advertised_iff (kind : Kind) (config : Config) (before : Vec Incoming) (assembling : Bool) :
    (∀ id payload, id ≠ EXTENSION_HANDSHAKE_ID →
      (ReadsAsPex kind config (run kind config before) ⟨assembling, id, payload⟩ ↔
        advertised_pex_id kind config = some id)) ↔
    kind ≠ .Seeding ∧ (config.active = false ∨
      skips kind assembling = false ∧
        ((last_handshake kind before).bind fun hs => hs.id_for UT_PEX_NAME) = some 1) := by
  rw [advertised_pex_id_eq]
  constructor
  · intro h
    have hone := h 1 [] (by decide)
    rw [readsAsPex_iff (show (1 : UInt8) ≠ EXTENSION_HANDSHAKE_ID by decide)] at hone
    by_cases hkind : kind = .Seeding
    · simp [hkind] at hone
    refine ⟨hkind, ?_⟩
    by_cases hactive : config.active = true
    · simp only [hkind, hactive, or_true, if_true, iff_true] at hone
      rw [run_remote_pex_id hkind hactive] at hone
      exact Or.inr ⟨hone.1, hone.2.2.2⟩
    · exact Or.inl (Bool.not_eq_true _ ▸ hactive)
  · rintro ⟨hkind, hoff | ⟨hskips, hlast⟩⟩ id payload hid
    · rw [readsAsPex_iff hid]
      simp [hkind, hoff]
    · rw [readsAsPex_iff hid]
      by_cases hactive : config.active = true
      · rw [run_remote_pex_id hkind hactive, hlast]
        simp [hkind, hactive, hskips]
      · simp [hkind, hactive]

/-- PEX is on and every address is admitted. -/
def open_config : Config := ⟨true, false, true, fun _ => true, 0⟩

/-- A peer that has its own `ut_pex` at 2 sends its peers under 1, as BEP 10 asks, and they are not read. What it sends
    under 2, an id that this side has given to no extension, is read as PEX. -/
theorem renumbered_pex_misread :
    let session := run .Parallel open_config [⟨false, 0, as_bytes "d1:md6:ut_pexi2eee"⟩]
    let payload := as_bytes "d5:added6:abcdxye"
    advertised_pex_id .Parallel open_config = some 1 ∧
    ¬ ReadsAsPex .Parallel open_config session ⟨false, 1, payload⟩ ∧
    (step .Parallel open_config session ⟨false, 1, payload⟩).discovered = [] ∧
    ReadsAsPex .Parallel open_config session ⟨false, 2, payload⟩ ∧
    (step .Parallel open_config session ⟨false, 2, payload⟩).discovered = [⟨.V4 ⟨#v[97, 98, 99, 100]⟩, 30841⟩] := by
  refine ⟨advertised_pex_id_eq .Parallel open_config, ?_⟩
  unfold ReadsAsPex
  decide +kernel

end Pex

end swarmotter.engine
