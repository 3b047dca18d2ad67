import Swarmotter.Utp.Ordered

open swarmotter.net

namespace swarmotter.utp

/-! The end of a stream. -/

/-- There is a way to cut what was written into the packets that were sent such that, once the receiver
    acknowledges a data packet, all bytes up to its last one have been delivered. -/
def AcksDelivered (sender receiver : Host) : Prop :=
  ∃ chunks : List Bytes, chunks.flatten <+: sender.written ∧
    ∀ datagram ∈ sender.sent, ∀ header payload sack, decode_datagram datagram.bytes = .ok (header, payload, sack) →
      header.typ = .Data → ∃ i, header.seq_number = serial.wrap (2 + i) ∧ chunks[i]? = some payload ∧
        ∀ conn ∈ receiver.conn, seq_at_or_before header.seq_number (serial.wrap conn.ack_number) = true →
          (chunks.take (i + 1)).flatten <+: receiver.returned ++ conn.recv_buf

/-- A number that is not `2 ^ 15` ahead is acknowledged only if it has been reached. -/
theorem le_of_seq_at_or_before {seq ack : Nat} (hnear : seq < ack + 2 ^ 15)
    (h : seq_at_or_before (serial.wrap seq) (serial.wrap ack) = true) : seq ≤ ack := by
  by_contra hahead
  exact hahead ((seq_at_or_before_iff ⟨by omega, by omega⟩).mp h)

variable {conn : UtpConnection}

section
variable {chunks : List Bytes} {sender receiver : Host}

theorem flatten_take_prefix_of_le {j k : Nat} (hle : j ≤ k) : (chunks.take j).flatten <+: (chunks.take k).flatten := by
  obtain ⟨rest, hrest⟩ : chunks.take j <+: chunks.take k := List.take_prefix_take_left hle
  rw [← hrest, List.flatten_append]
  exact List.prefix_append _ _

/-- The chunks whose numbers are acknowledged have been delivered. -/
theorem Hears.delivered {returned : Bytes} {i : Nat} (h : Hears chunks returned conn)
    (hack : 2 + i ≤ conn.ack_number) : (chunks.take (i + 1)).flatten <+: returned ++ conn.recv_buf := by
  rcases h with ⟨-, k, held, hdelivered⟩ | hfinished
  · rw [hdelivered.bytes]
    have := hdelivered.ack
    exact flatten_take_prefix_of_le (by omega)
  · rw [hfinished.bytes]
    nth_rewrite 2 [← List.take_append_drop (i + 1) chunks]
    rw [List.flatten_append]
    exact List.prefix_append _ _

theorem Flows.flatten_prefix_written (h : Flows chunks sender receiver) : chunks.flatten <+: sender.written := by
  cases hsender : sender.conn with
  | none =>
    obtain ⟨rfl, -, -⟩ := h.waiting hsender
    exact List.nil_prefix
  | some conn =>
    rw [(h.sends conn hsender).written_eq]
    exact List.prefix_append _ _

theorem Flows.acks_delivered (h : Flows chunks sender receiver)
    (hahead : ∀ conn ∈ receiver.conn, 1 + chunks.length < conn.ack_number + 2 ^ 15) :
    AcksDelivered sender receiver := by
  refine ⟨chunks, h.flatten_prefix_written, ?_⟩
  intro datagram hsent header payload sack hdecode htyp
  obtain ⟨extensions, hfull⟩ := decode_datagram_eq_ok hdecode
  obtain ⟨hseq, hcarries⟩ := h.speaks datagram hsent header extensions payload hfull
  obtain ⟨i, hi, hchunk⟩ := hcarries htyp
  have hlength : i < chunks.length := (List.getElem?_eq_some_iff.mp hchunk).1
  rw [hi] at hseq
  refine ⟨i, hseq, hchunk, ?_⟩
  intro conn hconn hacked
  rw [hseq] at hacked
  have hnear := hahead conn hconn
  exact (h.hears conn hconn).delivered (le_of_seq_at_or_before (by omega) hacked)

/-- A receiver at its end has returned everything. -/
theorem Flows.end_of_stream (h : Flows chunks sender receiver) (hconn : receiver.conn = some conn)
    (hfin : conn.peer_fin = true) (hempty : conn.recv_buf = []) : receiver.returned = sender.written := by
  have hout : FinOut sender receiver := Or.inl ⟨conn, hconn, hfin⟩
  rcases h.hears conn hconn with ⟨hopen, -⟩ | hfinished
  · rw [hfin] at hopen
    cases hopen
  · have hbytes := hfinished.bytes
    rw [hempty, List.append_nil] at hbytes
    rw [hbytes]
    cases hsender : sender.conn with
    | none => exact absurd hout (h.waiting hsender).2.2
    | some other => exact (h.written_of_fin hsender hout).1.symm

/-- A sender whose FIN is out has used one number more than it has cut chunks. If the receiver has
    acknowledged all but this one, it has everything. -/
theorem Flows.all_delivered {other : UtpConnection} (h : Flows chunks sender receiver)
    (hconn : receiver.conn = some conn) (hsender : sender.conn = some other) (hout : FinOut sender receiver)
    (hopen : conn.peer_fin = false) (hnext : other.seq_next = conn.ack_number + 2) :
    receiver.returned ++ conn.recv_buf = sender.written := by
  rcases h.hears conn hconn with ⟨-, k, held, hdelivered⟩ | hfinished
  · have hne := h.fin other hsender hout
    have hge := (h.sends other hsender).next_ge
    have hack := hdelivered.ack
    have hk : chunks.length ≤ k := by omega
    rw [hdelivered.bytes, (h.written_of_fin hsender hout).1, List.take_of_length_le hk]
  · rw [hfinished.peer_fin] at hopen
    cases hopen

end

namespace Link

section
variable {link : Link} {addr : Side → SocketAddr} {syn_conn_id : UInt16}

theorem Reaches.orderly {completes : Datagram → Prop} {side : Side}
    (hreaches : Reaches addr syn_conn_id completes (fun link link' => link'.Orderly ∧ link.FinInOrder link') link)
    (hconn : (link side).conn = some conn) : link.Orderly := by
  cases hreaches with
  | start now_ts => cases side <;> cases hconn
  | step hreaches hstep hallowed => exact hallowed.1

theorem Reaches.ordered (hreaches : Reaches addr syn_conn_id (fun reply => reply.seq = 1)
      (fun link link' => link'.Orderly ∧ link.FinInOrder link') link) : link.Ordered := by
  induction hreaches with
  | start now_ts => exact ordered_start now_ts
  | step hreaches hstep hallowed ih =>
    rename_i link link'
    refine ih.step hstep (fun side conn hconn => hreaches.orderly hconn) ?_
    intro side hout conn hconn conn' hconn' hopen htaken
    obtain ⟨chunks, hflows⟩ := ih.flows side.other
    rw [Side.other_other] at hflows
    cases hsender : (link side.other).conn with
    | none => exact absurd hout (hflows.waiting hsender).2.2
    | some sender =>
      have hnext := hallowed.2 side conn hconn conn' hconn' hopen htaken sender hsender
      exact hflows.all_delivered hconn hsender hout hopen hnext

end

/-- In every run in which the handshake is completed by the reply to the SYN and no FIN overtakes a data
    packet, a host that is told that the stream has ended has been given all of it, and acknowledges only
    what it has delivered. -/
theorem end_of_stream_complete (addr : Side → SocketAddr) (syn_conn_id : UInt16) (link : Link)
    (hreaches : Reaches addr syn_conn_id (fun reply => reply.seq = 1)
      (fun link link' => link'.Orderly ∧ link.FinInOrder link') link) (side : Side) :
    (∀ conn ∈ (link side).conn, conn.peer_fin = true → conn.recv_buf = [] →
      (link side).returned = (link side.other).written) ∧
    AcksDelivered (link side.other) (link side) := by
  obtain ⟨chunks, hflows⟩ := hreaches.ordered.flows side.other
  rw [Side.other_other] at hflows
  constructor
  · intro conn hconn hfin hempty
    exact hflows.end_of_stream hconn hfin hempty
  · apply hflows.acks_delivered
    intro conn hconn
    exact ahead_of_orderly (hreaches.orderly hconn) (fun hnone => (hflows.waiting hnone).1) hflows.sends hconn

/-! A run in which the acceptor writes a byte and closes. -/

def sample_accepted : Link := (Link.start sample_addr 7 0).hears_syn sample_addr sample_syn

def sample_connected : Link := sample_accepted.hears_reply sample_addr 7 (nth_sent (sample_accepted .acceptor) 0)

/-- The data packet and the FIN have been sent. -/
def sample_closing : Link :=
  (((sample_connected.does .acceptor (.write [1])).does .acceptor (.drive (io_at 0) .timed_out)).does .acceptor
    .close).does .acceptor (.drive (io_at 0) .timed_out)

/-- A datagram of the acceptor reaches the initiator. -/
def sample_arrives (link : Link) (index : Nat) : Link :=
  link.does .initiator (.drive (io_at 0) (.datagram (sample_addr .acceptor) (nth_sent (link .acceptor) index).bytes))

/-- The byte has been read. -/
def sample_delivered : Link := (sample_arrives sample_closing 1).does .initiator (.read 16)

/-- The moves up to the FIN. -/
def closing_moves : List Move :=
  [.hears_syn sample_syn, .hears_reply (nth_sent (sample_accepted .acceptor) 0), .does .acceptor (.write [1]),
    .does .acceptor (.drive (io_at 0) .timed_out), .does .acceptor .close,
    .does .acceptor (.drive (io_at 0) .timed_out)]

def sample_hears (link : Link) (index : Nat) : Move :=
  .does .initiator (.drive (io_at 0) (.datagram (sample_addr .acceptor) (nth_sent (link .acceptor) index).bytes))

theorem reaches_closing_moves {allowed : Link → Link → Prop} {moves : List Move}
    (h : (Link.start sample_addr 7 0).Plays sample_addr 7 (fun reply => reply.seq = 1) allowed
      (closing_moves ++ moves)) :
    Reaches sample_addr 7 (fun reply => reply.seq = 1) allowed (moves.foldl (moved sample_addr 7) sample_closing) := by
  have hclosing : closing_moves.foldl (moved sample_addr 7) (Link.start sample_addr 7 0) = sample_closing := by
    simp only [closing_moves, List.foldl_cons, List.foldl_nil, moved, sample_closing, sample_connected, sample_accepted]
  rw [← hclosing, ← List.foldl_append]
  exact (Reaches.start 0).plays h

theorem end_of_stream_complete_one_byte :
    (∃ conn ∈ (sample_arrives sample_delivered 2 .initiator).conn, conn.peer_fin = true ∧ conn.recv_buf = []) ∧
    (sample_arrives sample_delivered 2 .initiator).returned = [1] ∧
    (∀ conn ∈ (sample_arrives sample_delivered 2 .initiator).conn, conn.peer_fin = true → conn.recv_buf = [] →
      (sample_arrives sample_delivered 2 .initiator).returned =
        (sample_arrives sample_delivered 2 Side.initiator.other).written) ∧
    AcksDelivered (sample_arrives sample_delivered 2 Side.initiator.other)
      (sample_arrives sample_delivered 2 .initiator) := by
  have hplays : (Link.start sample_addr 7 0).Plays sample_addr 7 (fun reply => reply.seq = 1)
      (fun link link' => link'.Orderly ∧ link.FinInOrder link')
      (closing_moves ++
        [sample_hears sample_closing 1, .does .initiator (.read 16), sample_hears sample_delivered 2]) := by
    decide +kernel
  have hreaches := reaches_closing_moves hplays
  simp only [List.foldl_cons, List.foldl_nil, moved, sample_hears] at hreaches
  exact ⟨by decide +kernel, by decide +kernel,
    end_of_stream_complete sample_addr 7 (sample_arrives sample_delivered 2) hreaches .initiator⟩

/-- The FIN overtakes the data packet: it is acknowledged in the packet's place, and the initiator is at the
    end of a stream of which it has seen nothing. -/
theorem fin_overtakes_data :
    Reaches sample_addr 7 (fun reply => reply.seq = 1) (fun _ link' => link'.Orderly)
      (sample_arrives sample_closing 2) ∧
    (∃ conn ∈ (sample_arrives sample_closing 2 .initiator).conn, conn.peer_fin = true ∧ conn.recv_buf = [] ∧
      conn.ooo = [] ∧ seq_at_or_before (serial.wrap (nth_sent (sample_closing .acceptor) 1).seq)
        (serial.wrap conn.ack_number) = true) ∧
    (nth_sent (sample_closing .acceptor) 1).has_type [.Data] = true ∧
    (sample_arrives sample_closing 2 .initiator).returned = [] ∧
    (sample_arrives sample_closing 2 .acceptor).written = [1] := by
  have hplays :
      (Link.start sample_addr 7 0).Plays sample_addr 7 (fun reply => reply.seq = 1) (fun _ link' => link'.Orderly)
      (closing_moves ++ [sample_hears sample_closing 2]) := by decide +kernel
  exact ⟨reaches_closing_moves hplays, by decide +kernel, by decide +kernel, by decide +kernel, by decide +kernel⟩

end Link

end swarmotter.utp
