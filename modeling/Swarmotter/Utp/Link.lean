import Swarmotter.Utp.Connection

open swarmotter.net

namespace swarmotter.utp

/-! Sending. -/

def UtpConnection.ack_extensions (self : UtpConnection) : Vec UtpExtension :=
  let sack := Sack.from_held (serial.wrap self.ack_number) self.ooo
  if sack.is_empty then [] else [⟨EXT_SACK, sack.encode_data⟩]

/-- The header every packet of the connection carries. -/
def UtpConnection.header (self : UtpConnection) (typ : UtpType) (now_ts : UInt32) (seq : Nat) : UtpHeader where
  typ
  version := UTP_VERSION
  extension := 0
  connection_id := self.send_conn_id
  timestamp_micros := now_ts
  timestamp_delta_micros := self.cwnd.last_echo_delta
  window_size := UInt32.ofNat self.recv_window
  seq_number := serial.wrap seq
  ack_number := serial.wrap self.ack_number

/-- A packet with the selective acknowledgement of what is held. -/
def send_packet (io : Io) (typ : UtpType) (seq : Nat) (payload : Bytes) : UtpM Unit := do
  let now_ts ← now_micros io
  let conn ← connection
  let packet ← trial.lift ((conn.header typ now_ts seq).encode_with_extensions conn.ack_extensions payload)
  send_to io seq packet

/-- The bytes for a new packet and the next sequence number are taken. -/
def UtpConnection.take_payload (self : UtpConnection) (n : Nat) : UtpConnection :=
  { self with send_buf := self.send_buf.drop n, seq_next := self.seq_next + 1 }

/-- One new packet of `n` bytes. -/
def send_new (io : Io) (n : Nat) : UtpM Unit := do
  let conn ← connection
  let payload := conn.send_buf.take n
  let seq := conn.seq_next
  update fun conn => conn.take_payload n
  send_packet io .Data seq payload
  let sent_at ← now io
  update fun conn => { conn with in_flight := conn.in_flight ++ [⟨seq, payload, sent_at⟩] }

/-- The loop of `try_send`. Each round takes a byte at least, so that the length of the send buffer is
    fuel enough. -/
def send_loop (io : Io) (send_window : Nat) : Nat → Nat → UtpM Unit
  | 0, _ => pure ()
  | fuel + 1, in_flight_bytes => do
    let conn ← connection
    let allowed := send_window - in_flight_bytes
    let n := min (min MAX_PAYLOAD conn.send_buf.length) allowed
    if n = 0 then pure ()
    else do
      send_new io n
      send_loop io send_window fuel (in_flight_bytes + n)

def try_send (io : Io) : UtpM Unit := do
  let conn ← connection
  if conn.local_fin_sent ∧ conn.send_buf = [] ∧ conn.in_flight = [] then pure ()
  else
    let send_window := min conn.cwnd.window_bytes conn.peer_window
    send_loop io send_window conn.send_buf.length conn.queued_in_flight_bytes

/-- One packet of the loop of `retransmit`, if its timer has expired. -/
def retransmit_one (io : Io) (rto instant : Nat) (index : Nat) : UtpM Unit := do
  let conn ← connection
  match conn.in_flight[index]? with
  | some p =>
    if rto ≤ instant - p.sent_at then do
      let now_ts ← now_micros io
      send_to io p.seq ((conn.header .Data now_ts p.seq).encode p.payload)
      update fun conn => { conn with
        in_flight := conn.in_flight.set index { p with sent_at := instant }
        cwnd := conn.cwnd.on_loss }
    else pure ()
  | none => pure ()

def retransmit (io : Io) : UtpM Unit := do
  let conn ← connection
  let instant ← now io
  trial.for_each (retransmit_one io conn.cwnd.rto instant) (List.range conn.in_flight.length)

def send_state (io : Io) : UtpM Unit := do
  let conn ← connection
  send_packet io .State conn.seq_next []

/-- An acknowledgement every 200 milliseconds. -/
def maybe_send_ack (io : Io) : UtpM Unit := do
  let instant ← now io
  let conn ← connection
  if 200000 ≤ instant - conn.last_ack_sent then do
    send_state io
    update fun conn => { conn with last_ack_sent := instant }
  else pure ()

def send_fin (io : Io) : UtpM Unit := do
  let conn ← connection
  update fun conn => { conn with seq_next := conn.seq_next + 1 }
  send_packet io .Fin conn.seq_next []

/-! Receiving. -/

/-- The delay sample of a packet that echoes one. -/
def sample_delay (io : Io) (header : UtpHeader) : UtpM Unit := do
  let now_ts ← now_micros io
  if header.timestamp_delta_micros ≠ 0 then do
    let instant ← now io
    update fun conn => { conn with cwnd := conn.cwnd.on_sample instant (now_ts - header.timestamp_micros) }
  else pure ()

/-- The FIN is acknowledged. The maximum is that of the 16-bit integers. -/
def UtpConnection.ack_fin (self : UtpConnection) (seq : UInt16) : UtpConnection :=
  { self with
    ack_number :=
      if serial.wrap self.ack_number < seq then serial.advance_to self.ack_number seq else self.ack_number
    peer_fin := true }

def handle_typ (io : Io) (header : UtpHeader) (payload : Bytes) (sack : Option Sack) : UtpM RecvOutcome := do
  match header.typ with
  | .Data => do
    let conn ← connection
    let (outcome, conn) := (conn.ack_in_flight header.ack_number sack).handle_data header.seq_number payload
    update fun _ => { conn with cwnd := conn.cwnd.on_ack }
    pure outcome
  | .State => do
    update fun conn => conn.ack_in_flight header.ack_number sack
    update fun conn => { conn with cwnd := conn.cwnd.on_ack }
    pure .Delivered
  | .Fin => do
    update fun conn => conn.ack_fin header.seq_number
    send_state io
    pure .Closed
  | .Reset => do
    update fun conn => { conn with peer_fin := true, closed := true }
    pure .Closed
  | .Syn => do
    send_state io
    pure .Duplicate

def handle_packet (io : Io) (header : UtpHeader) (payload : Bytes) (sack : Option Sack) : UtpM RecvOutcome := do
  let conn ← connection
  if header.connection_id ≠ conn.recv_conn_id ∧ header.typ ≠ .Reset then pure .Duplicate
  else do
    update fun conn => { conn with peer_window := header.window_size.toNat }
    sample_delay io header
    handle_typ io header payload sack

/-- How the bounded wait for a datagram ends. -/
inductive Recv where
  | timed_out
  | failed (error : CoreError)
  | datagram (source : SocketAddr) (bytes : Bytes)

/-- What a datagram from the peer is understood as, if it is not malformed. The receive buffer holds
    2048 bytes. -/
def decode_datagram (bytes : Bytes) : Result (UtpHeader × Bytes × Option Sack) := do
  let (header, extensions, payload) ← UtpHeader.decode_with_extensions (bytes.take 2048)
  let sack ← sack_from_extensions extensions
  .ok (header, payload, sack)

def handle_datagram (io : Io) (bytes : Bytes) : UtpM Bool := do
  match decode_datagram bytes with
  | .error _ => pure true
  | .ok (header, payload, sack) => do
    let instant ← now io
    update fun conn => { conn with last_recv := instant }
    let outcome ← handle_packet io header payload sack
    let conn ← connection
    if outcome = .Closed ∧ conn.local_fin_sent ∧ conn.fin_transmitted then do
      update fun conn => { conn with closed := true }
      pure false
    else pure true

def receive (io : Io) : Recv → UtpM Bool
  | .timed_out => pure true
  | .failed error => trial.lift (.error error)
  | .datagram source bytes => do
    let conn ← connection
    if source ≠ conn.peer ∨ bytes = [] then pure true else handle_datagram io bytes

/-! The drive loop. -/

/-- The FIN follows the last byte of the send buffer, once. -/
def maybe_send_fin (io : Io) : UtpM Unit := do
  let conn ← connection
  if conn.local_fin_sent ∧ ¬conn.fin_transmitted ∧ conn.send_buf = [] then do
    send_fin io
    update fun conn => { conn with fin_transmitted := true }
  else pure ()

/-- What `drive` sends before it waits for a datagram. -/
def send_due (io : Io) : UtpM Unit := do
  try_send io
  retransmit io
  maybe_send_ack io
  maybe_send_fin io

/-- One call of `drive`, which tells whether the connection is still alive. -/
def drive (io : Io) (recv : Recv) : UtpM Bool := do
  let conn ← connection
  if conn.closed then pure false
  else do
    let instant ← now io
    if IDLE_TIMEOUT < instant - conn.last_recv then do
      update fun conn => { conn with closed := true }
      pure false
    else do
      send_due io
      let conn ← connection
      if conn.peer_fin ∧ conn.recv_buf = [] ∧ conn.local_fin_sent ∧ conn.fin_transmitted then do
        update fun conn => { conn with closed := true }
        pure false
      else receive io recv

/-- A connection after the handshake. Both sides have used the sequence number 1. -/
def UtpConnection.established (peer : SocketAddr) (send_conn_id recv_conn_id ack_number : UInt16) (peer_window : UInt32)
    (last_recv last_ack_sent : Nat) : UtpConnection where
  peer
  send_conn_id
  recv_conn_id
  seq_next := 2
  ack_number := ack_number.toNat
  recv_window := RECV_WINDOW_DEFAULT
  peer_window := peer_window.toNat
  recv_buf := []
  ooo := []
  send_buf := []
  in_flight := []
  cwnd := Ledbat.new
  peer_fin := false
  local_fin_sent := false
  fin_transmitted := false
  closed := false
  last_recv
  last_ack_sent

/-- The packet that opens a connection. -/
def syn_header (syn_conn_id : UInt16) (now_ts : UInt32) : UtpHeader where
  typ := .Syn
  version := UTP_VERSION
  extension := 0
  connection_id := syn_conn_id
  timestamp_micros := now_ts
  timestamp_delta_micros := 0
  window_size := UInt32.ofNat RECV_WINDOW_DEFAULT
  seq_number := 1
  ack_number := 0

/-- The `Debug` name of a packet type. -/
def UtpType.debug : UtpType → String
  | Data => "Data"
  | Fin => "Fin"
  | State => "State"
  | Reset => "Reset"
  | Syn => "Syn"

/-- The part of `connect` that follows the SYN: the wait for the reply of the peer. -/
def connect_reply (peer : SocketAddr) (syn_conn_id : UInt16) (reply : Recv) (last_recv last_ack_sent : Nat) :
    Result UtpConnection :=
  match reply with
  | .datagram source bytes => do
    reject_if (source ≠ peer) (.Internal "uTP connect: reply from wrong peer")
    let (state, _, _) ← UtpHeader.decode_with_extensions (bytes.take 2048)
    reject_if (state.typ ≠ .State) (.Internal s!"uTP connect: expected STATE, got {state.typ.debug}")
    reject_if (state.ack_number ≠ 1) (.Internal "uTP connect: SYN-ACK did not ack our SYN")
    reject_if (state.connection_id ≠ syn_conn_id) (.Internal "uTP connect: SYN-ACK connection id mismatch")
    .ok (UtpConnection.established peer (syn_conn_id + 1) syn_conn_id state.seq_number state.window_size
      last_recv last_ack_sent)
  | _ => .error (.Internal "uTP connect: no SYN-ACK from peer")

/-- The packet that answers a SYN. -/
def syn_ack_header (syn : UtpHeader) (now_ts : UInt32) : UtpHeader where
  typ := .State
  version := UTP_VERSION
  extension := 0
  connection_id := syn.connection_id
  timestamp_micros := now_ts
  timestamp_delta_micros := now_ts - syn.timestamp_micros
  window_size := UInt32.ofNat RECV_WINDOW_DEFAULT
  seq_number := 1
  ack_number := syn.seq_number

/-- The connection of the acceptor and the reply it has sent, if the send did not fail. -/
def accept_from_syn (peer : SocketAddr) (syn : UtpHeader) (now_ts : UInt32) (send_error : Option CoreError)
    (last_recv last_ack_sent : Nat) : Result (UtpConnection × Bytes) := do
  reject_if (syn.typ ≠ .Syn) (.Internal "accept_from_syn: not a SYN")
  match send_error with
  | some error => .error error
  | none =>
    .ok (UtpConnection.established peer syn.connection_id (syn.connection_id + 1) syn.seq_number syn.window_size
      last_recv last_ack_sent, (syn_ack_header syn now_ts).encode [])

/-! Two hosts that open a connection and use it, over a network that may deliver any datagram that was
ever sent to the other host, as often as it likes and in any order, or never. -/

inductive Side where
  | initiator
  | acceptor
  deriving DecidableEq

instance {p : Side → Prop} [DecidablePred p] : Decidable (∀ side, p side) :=
  decidable_of_iff (p .initiator ∧ p .acceptor) ⟨fun h side => Side.rec h.1 h.2 side, fun h => ⟨h _, h _⟩⟩

def Side.other : Side → Side
  | initiator => acceptor
  | acceptor => initiator

/-- A host, its connection once it has one, and what it has sent. `written` and `returned` are the bytes
    its user has had accepted by `write` and returned by `read`. -/
structure Host where
  conn : Option UtpConnection
  sent : List Datagram
  written : Bytes
  returned : Bytes

abbrev Link := Side → Host

/-- What the user of a connection, or the task that drives it, can do. -/
inductive Action where
  | write (buf : Bytes)
  | read (out_len : Nat)
  | close
  | drive (io : Io) (recv : Recv)

def Host.act (self : Host) (conn : UtpConnection) : Action → Host
  | .write buf =>
    let (n, conn) := conn.write buf
    { self with conn := some conn, written := self.written ++ buf.take n }
  | .read out_len =>
    let (bytes, conn) := conn.read out_len
    { self with conn := some conn, returned := self.returned ++ bytes }
  | .close => { self with conn := some conn.close }
  | .drive io recv =>
    let task := (utp.drive io recv { conn, calls := 0, sent := self.sent }).2
    { self with conn := some task.conn, sent := task.sent }

/-- Whether the datagram is understood as a packet of one of the types. -/
def Datagram.has_type (self : Datagram) (types : List UtpType) : Bool :=
  match decode_datagram self.bytes with
  | .ok (header, _, _) => types.contains header.typ
  | .error _ => false

/-- What the network can hand to a connection: nothing, a failure, a stray datagram, or one the other host
    has sent. A data packet comes before the acknowledgement number has gone `2 ^ 15` past it. -/
def Deliverable (conn : UtpConnection) (sent : List Datagram) : Recv → Prop
  | .datagram source bytes =>
    source = conn.peer → ∃ datagram ∈ sent, datagram.bytes = bytes ∧
      (datagram.has_type [.Data] = true → conn.ack_number < datagram.seq + 2 ^ 15)
  | _ => True

instance (conn : UtpConnection) (sent : List Datagram) : DecidablePred (Deliverable conn sent)
  | .datagram source _ => inferInstanceAs (Decidable (source = conn.peer → _))
  | .timed_out => inferInstanceAs (Decidable True)
  | .failed _ => inferInstanceAs (Decidable True)

def Action.Possible (conn : UtpConnection) (sent : List Datagram) : Action → Prop
  | .drive _ recv => Deliverable conn sent recv
  | _ => True

instance (conn : UtpConnection) (sent : List Datagram) : DecidablePred (Action.Possible conn sent)
  | .drive _ recv => inferInstanceAs (Decidable (Deliverable conn sent recv))
  | .write _ => inferInstanceAs (Decidable True)
  | .read _ => inferInstanceAs (Decidable True)
  | .close => inferInstanceAs (Decidable True)

section
-- The addresses of the two hosts, and the datagrams that may complete the handshake.
variable (addr : Side → SocketAddr) (syn_conn_id : UInt16) (completes : Datagram → Prop)

/-- The initiator has sent its SYN and waits for the reply. -/
def Link.start (now_ts : UInt32) : Link
  | .initiator => ⟨none, [⟨addr .acceptor, (syn_header syn_conn_id now_ts).encode [], 1⟩], [], []⟩
  | .acceptor => ⟨none, [], [], []⟩

inductive Link.Step (link : Link) : Link → Prop
  /-- A SYN reaches the acceptor. -/
  | accept (datagram : Datagram) (syn : UtpHeader) (extensions : Vec UtpExtension) (payload : Bytes)
      (conn : UtpConnection) (reply : Bytes) (now_ts : UInt32) (last_recv last_ack_sent : Nat)
      (hwaiting : (link .acceptor).conn = none) (hsent : datagram ∈ (link .initiator).sent)
      (hdecode : UtpHeader.decode_with_extensions (datagram.bytes.take 2048) = .ok (syn, extensions, payload))
      (haccept : accept_from_syn (addr .initiator) syn now_ts none last_recv last_ack_sent = .ok (conn, reply)) :
      Step link (Function.update link .acceptor { link .acceptor with
        conn := some conn, sent := (link .acceptor).sent ++ [⟨addr .initiator, reply, 1⟩] })
  /-- The first datagram that reaches the waiting initiator is one that `connect` accepts. -/
  | connect (datagram : Datagram) (conn : UtpConnection) (last_recv last_ack_sent : Nat)
      (hwaiting : (link .initiator).conn = none) (hsent : datagram ∈ (link .acceptor).sent)
      (hcompletes : completes datagram)
      (hconnect : connect_reply (addr .acceptor) syn_conn_id (.datagram (addr .acceptor) datagram.bytes) last_recv
        last_ack_sent = .ok conn) :
      Step link (Function.update link .initiator { link .initiator with conn := some conn })
  | act (side : Side) (conn : UtpConnection) (action : Action) (hconn : (link side).conn = some conn)
      (hpossible : action.Possible conn (link side.other).sent) :
      Step link (Function.update link side ((link side).act conn action))

/-- No FIN or RESET has been sent, and no sender is `2 ^ 15` or more ahead of its receiver. -/
structure Link.Valid (link : Link) : Prop where
  no_fin : ∀ side, ∀ datagram ∈ (link side).sent, datagram.has_type [.Fin, .Reset] = false
  close_enough : ∀ side, ∀ conn ∈ (link side).conn, ∀ conn' ∈ (link side.other).conn,
    conn.seq_next < conn'.ack_number + 2 ^ 15

instance (link : Link) : Decidable link.Valid :=
  decidable_of_iff _ ⟨fun h => ⟨h.1, h.2⟩, fun h => And.intro h.no_fin h.close_enough⟩

/-- The states that are reached through valid states. -/
inductive Link.Run : Link → Prop
  | start (now_ts : UInt32) : Run (Link.start addr syn_conn_id now_ts)
  | step {link link' : Link} (hrun : Run link) (hstep : Step addr syn_conn_id completes link link')
      (hvalid : link'.Valid) : Run link'

/-- No RESET has been sent, and no sender is `2 ^ 15` or more ahead of its receiver. -/
structure Link.Orderly (link : Link) : Prop where
  no_reset : ∀ side, ∀ datagram ∈ (link side).sent, datagram.has_type [.Reset] = false
  close_enough : ∀ side, ∀ conn ∈ (link side).conn, ∀ conn' ∈ (link side.other).conn,
    conn.seq_next < conn'.ack_number + 2 ^ 15

instance (link : Link) : Decidable link.Orderly :=
  decidable_of_iff _ ⟨fun h => ⟨h.1, h.2⟩, fun h => And.intro h.no_reset h.close_enough⟩

/-- A host that takes the FIN of the other one in this step has acknowledged every number before that of the
    FIN. -/
def Link.FinInOrder (link link' : Link) : Prop :=
  ∀ side, ∀ conn ∈ (link side).conn, ∀ conn' ∈ (link' side).conn, conn.peer_fin = false → conn'.peer_fin = true →
    ∀ sender ∈ (link side.other).conn, sender.seq_next = conn.ack_number + 2

instance (link link' : Link) : Decidable (link.FinInOrder link') :=
  inferInstanceAs (Decidable (∀ side, ∀ conn ∈ (link side).conn, _))

/-- The states that are reached by the steps that are allowed. -/
inductive Link.Reaches (allowed : Link → Link → Prop) : Link → Prop
  | start (now_ts : UInt32) : Reaches allowed (Link.start addr syn_conn_id now_ts)
  | step {link link' : Link} (hreaches : Reaches allowed link) (hstep : Step addr syn_conn_id completes link link')
      (hallowed : allowed link link') : Reaches allowed link'

end

/-! Runs that are computed. -/

/-- A host that has a connection acts. -/
def Link.does (link : Link) (side : Side) (action : Action) : Link :=
  match (link side).conn with
  | some conn => Function.update link side ((link side).act conn action)
  | none => link

/-- The acceptor takes the SYN. -/
def Link.hears_syn (addr : Side → SocketAddr) (link : Link) (datagram : Datagram) : Link :=
  match UtpHeader.decode_with_extensions (datagram.bytes.take 2048) with
  | .ok (syn, _, _) =>
    match accept_from_syn (addr .initiator) syn 0 none 0 0 with
    | .ok (conn, reply) => Function.update link .acceptor { link .acceptor with
        conn := some conn, sent := (link .acceptor).sent ++ [⟨addr .initiator, reply, 1⟩] }
    | .error _ => link
  | .error _ => link

/-- The initiator takes a reply. -/
def Link.hears_reply (addr : Side → SocketAddr) (syn_conn_id : UInt16) (link : Link) (datagram : Datagram) : Link :=
  match connect_reply (addr .acceptor) syn_conn_id (.datagram (addr .acceptor) datagram.bytes) 0 0 with
  | .ok conn => Function.update link .initiator { link .initiator with conn := some conn }
  | .error _ => link

inductive Link.Move where
  | hears_syn (datagram : Datagram)
  | hears_reply (datagram : Datagram)
  | does (side : Side) (action : Action)

section
variable {addr : Side → SocketAddr} {syn_conn_id : UInt16} {completes : Datagram → Prop} {allowed : Link → Link → Prop}
  {link : Link}

variable (addr syn_conn_id) in
def Link.moved (link : Link) : Move → Link
  | .hears_syn datagram => link.hears_syn addr datagram
  | .hears_reply datagram => link.hears_reply addr syn_conn_id datagram
  | .does side action => link.does side action

variable (completes) in
def Link.Move.Fits (link : Link) : Move → Prop
  | .hears_syn datagram => (link .acceptor).conn = none ∧ datagram ∈ (link .initiator).sent
  | .hears_reply datagram => (link .initiator).conn = none ∧ datagram ∈ (link .acceptor).sent ∧ completes datagram
  | .does side action => ∀ conn ∈ (link side).conn, action.Possible conn (link side.other).sent

instance [DecidablePred completes] (link : Link) : DecidablePred (Link.Move.Fits completes link)
  | .hears_syn _ | .hears_reply _ => inferInstanceAs (Decidable (_ ∧ _))
  | .does side _ => inferInstanceAs (Decidable (∀ conn ∈ (link side).conn, _))

variable (addr syn_conn_id completes allowed) in
/-- The moves fit one after the other, and each is allowed. -/
def Link.Plays (link : Link) : List Move → Prop
  | [] => True
  | move :: moves => move.Fits completes link ∧ allowed link (link.moved addr syn_conn_id move) ∧
    Plays (link.moved addr syn_conn_id move) moves

instance Link.decidablePlays [DecidablePred completes] [DecidableRel allowed] (link : Link) :
    DecidablePred (link.Plays addr syn_conn_id completes allowed)
  | [] => isTrue trivial
  | move :: moves =>
    have := decidablePlays (link.moved addr syn_conn_id move) moves
    inferInstanceAs (Decidable (_ ∧ _ ∧ _))

/-- A move is a step, unless nothing happens. -/
theorem Link.moved_step {move : Move} (hfits : move.Fits completes link) :
    link.moved addr syn_conn_id move = link ∨
      Link.Step addr syn_conn_id completes link (link.moved addr syn_conn_id move) := by
  cases move with
  | hears_syn datagram =>
    dsimp only [Link.moved, Link.hears_syn]
    split
    · rename_i syn extensions payload hdecode
      split
      · rename_i conn reply haccept
        exact .inr (.accept datagram syn extensions payload conn reply 0 0 0 hfits.1 hfits.2 hdecode haccept)
      · exact .inl rfl
    · exact .inl rfl
  | hears_reply datagram =>
    dsimp only [Link.moved, Link.hears_reply]
    split
    · rename_i conn hconnect
      exact .inr (.connect datagram conn 0 0 hfits.1 hfits.2.1 hfits.2.2 hconnect)
    · exact .inl rfl
  | does side action =>
    dsimp only [Link.moved, Link.does]
    split
    · rename_i conn hconn
      exact .inr (.act side conn action hconn (hfits conn hconn))
    · exact .inl rfl

theorem Link.Reaches.plays (hreaches : Link.Reaches addr syn_conn_id completes allowed link) {moves : List Move}
    (h : link.Plays addr syn_conn_id completes allowed moves) :
    Link.Reaches addr syn_conn_id completes allowed (moves.foldl (Link.moved addr syn_conn_id) link) := by
  induction moves generalizing link with
  | nil => exact hreaches
  | cons move moves ih =>
    obtain ⟨hfits, hallowed, hrest⟩ := h
    refine ih ?_ hrest
    rcases moved_step hfits with hsame | hstep
    · rw [hsame]
      exact hreaches
    · exact hreaches.step hstep hallowed

theorem Link.Reaches.run (h : Link.Reaches addr syn_conn_id completes (fun _ link' => link'.Valid) link) :
    Link.Run addr syn_conn_id completes link := by
  induction h with
  | start now_ts => exact .start now_ts
  | step _ hstep hvalid ih => exact ih.step hstep hvalid

end

namespace Link

def sample_addr : Side → SocketAddr
  | .initiator => ⟨.V4 ⟨#v[10, 0, 0, 3]⟩, 6881⟩
  | .acceptor => ⟨.V4 ⟨#v[10, 0, 0, 4]⟩, 6881⟩

/-- Clocks that stand still and a network that takes every datagram. -/
def io_at (instant : Nat) : Io where
  micros _ := 0
  instant _ := instant
  send_error _ := none

def sample_syn : Datagram := ⟨sample_addr .acceptor, (syn_header 7 0).encode [], 1⟩

/-- The datagram that a host has sent with the given index. -/
def nth_sent (host : Host) (index : Nat) : Datagram := host.sent.getD index sample_syn

end Link

end swarmotter.utp
