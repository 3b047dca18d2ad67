import Swarmotter.Utp.Sender
import Swarmotter.Utp.Window

open serial

open trial

namespace swarmotter.utp

/-! The sequence numbers in flight. They are told apart and compared by their low sixteen bits, which takes fewer than
`2 ^ 15` of them from the oldest to the next. -/

def UtpConnection.fin_due (self : UtpConnection) : Nat :=
  if self.local_fin_sent = true ∧ self.fin_transmitted = false then 1 else 0

/-- The numbers a call of `drive` can take: one for each packet the send buffer is cut into, and one for a FIN. -/
def UtpConnection.numbers_due (self : UtpConnection) : Nat :=
  (self.send_buf.length + MAX_PAYLOAD - 1) / MAX_PAYLOAD + self.fin_due

/-- A call of `drive` finds the oldest packet in flight so near that the numbers it can take are no problem. -/
def Task.HasRoom (task : Task) : ConnEvent → Prop
  | .act (.drive _ _) => ∀ p ∈ task.conn.in_flight, task.conn.seq_next + task.conn.numbers_due < p.seq + 2 ^ 15
  | _ => True

/-- The numbers in flight are ascending and less than `2 ^ 15` behind a limit, up to which `due` numbers are left. -/
structure Numbered (limit due : Nat) (conn : UtpConnection) : Prop where
  ascending : (conn.in_flight.map InFlight.seq).Pairwise (· < ·)
  behind : ∀ seq ∈ conn.in_flight.map InFlight.seq, seq < conn.seq_next ∧ limit < seq + 2 ^ 15
  room : limit < conn.seq_next + 2 ^ 15
  next : conn.seq_next + due ≤ limit
  buffered : conn.send_buf.length ≤ SEND_BUFFER_CAP

/-- One more number is left for a FIN that is due. -/
def NumberedFin (limit due : Nat) (conn : UtpConnection) : Prop := Numbered limit (due + conn.fin_due) conn

section
variable {limit due : Nat} {conn : UtpConnection}

theorem Numbered.weaken {due' : Nat} (h : Numbered limit due conn) (hle : due' ≤ due) : Numbered limit due' conn := by
  have hnext := h.next
  exact { h with next := by omega }

theorem NumberedFin.weaken {due' : Nat} (h : NumberedFin limit due conn) (hle : due' ≤ due) :
    NumberedFin limit due' conn :=
  Numbered.weaken h (Nat.add_le_add_right hle _)

theorem NumberedFin.numbered (h : NumberedFin limit due conn) : Numbered limit 0 conn :=
  Numbered.weaken h (Nat.zero_le _)

theorem Numbered.congr {conn' : UtpConnection} (h : Numbered limit due conn)
    (hflight : conn'.in_flight.map InFlight.seq = conn.in_flight.map InFlight.seq)
    (hnext : conn'.seq_next = conn.seq_next) (hbuf : conn'.send_buf = conn.send_buf) : Numbered limit due conn' :=
  ⟨hflight ▸ h.ascending, by rw [hflight, hnext]; exact h.behind, hnext ▸ h.room, hnext ▸ h.next, hbuf ▸ h.buffered⟩

/-- Acknowledging only takes packets away. -/
theorem Numbered.ack_in_flight (h : Numbered limit due conn) (ack : UInt16) (sack : Option Sack) :
    Numbered limit due (conn.ack_in_flight ack sack) := by
  have hsublist : ((conn.ack_in_flight ack sack).in_flight.map InFlight.seq).Sublist
      (conn.in_flight.map InFlight.seq) := (List.filter_sublist).map _
  exact ⟨h.ascending.sublist hsublist, fun seq hseq => h.behind seq (hsublist.subset hseq), h.room, h.next, h.buffered⟩

end

section
variable {limit due : Nat} {io : Io} {task : Task}

theorem tolerates_numbered : Tolerates (OnConn (Numbered limit due)) io :=
  .on_conn (fun _ _ _ _ _ h => h.congr rfl rfl rfl) fun _ ack sack h => h.ack_in_flight ack sack

theorem keeps_numbered_handle_typ (header : UtpHeader) (payload : Bytes) (sack : Option Sack) :
    Keeps (OnConn (Numbered limit due)) (handle_typ io header payload sack) := by
  apply tolerates_numbered.handle_typ
  · intro _
    apply keeps_update
    intro conn hconn
    have heq := unreceived_handle_data (conn.ack_in_flight header.ack_number sack) header.seq_number payload
    have hflight := (congrArg UtpConnection.in_flight heq :)
    exact (hconn.ack_in_flight header.ack_number sack).congr (congrArg (List.map InFlight.seq) hflight)
      (congrArg UtpConnection.seq_next heq :) (congrArg UtpConnection.send_buf heq :)
  · intro _
    exact keeps_update fun _ h => h.congr rfl rfl rfl
  · intro _
    exact keeps_update fun _ h => h.congr rfl rfl rfl

/-! What `drive` sends. -/

/-- The connection in between: the number has been taken, and is not in flight yet. -/
structure Taken (limit due seq len : Nat) (conn : UtpConnection) : Prop where
  numbered : NumberedFin limit due conn
  next : conn.seq_next = seq + 1
  before : ∀ other ∈ conn.in_flight.map InFlight.seq, other < seq
  room : limit < seq + 2 ^ 15
  len : conn.send_buf.length = len

/-- The connection after a packet, with what is left in the send buffer. -/
structure Left (limit due len : Nat) (conn : UtpConnection) : Prop where
  numbered : NumberedFin limit due conn
  len : conn.send_buf.length = len

theorem Taken.push {seq len : Nat} {conn : UtpConnection} (h : Taken limit due seq len conn) (payload : Bytes)
    (sent_at : Nat) : Left limit due len { conn with in_flight := conn.in_flight ++ [⟨seq, payload, sent_at⟩] } := by
  obtain ⟨hnumbered, hnext, hbefore, hroom, hlen⟩ := h
  refine ⟨⟨?_, ?_, hnumbered.room, hnumbered.next, hnumbered.buffered⟩, hlen⟩
  · rw [List.map_append, List.pairwise_append]
    refine ⟨hnumbered.ascending, List.pairwise_singleton _ _, ?_⟩
    intro other hother last hlast
    rw [List.mem_singleton.mp hlast]
    exact hbefore other hother
  · rw [List.map_append]
    refine List.forall_mem_append.mpr ⟨hnumbered.behind, List.forall_mem_singleton.mpr ⟨?_, hroom⟩⟩
    rw [hnext]
    exact Nat.lt_succ_self seq

theorem NumberedFin.take_payload {conn : UtpConnection} (h : NumberedFin limit (due + 1) conn) (n : Nat) :
    Taken limit due conn.seq_next (conn.send_buf.length - n) (conn.take_payload n) := by
  have hnext := h.next
  have hroom := h.room
  have hbuffered := h.buffered
  have hlen : (conn.send_buf.drop n).length = conn.send_buf.length - n := List.length_drop
  refine ⟨⟨h.ascending, ?_, ?_, ?_, ?_⟩, rfl, fun other hother => (h.behind other hother).1, hroom, hlen⟩
  · intro other hother
    obtain ⟨hlt, hlimit⟩ := h.behind other hother
    exact ⟨Nat.lt_succ_of_lt hlt, hlimit⟩
  · simp only [UtpConnection.take_payload]
    omega
  · change conn.seq_next + 1 + (due + conn.fin_due) ≤ limit
    omega
  · simp only [UtpConnection.take_payload, hlen]
    omega

theorem send_new_left (h : NumberedFin limit (due + 1) task.conn) (n : Nat) :
    EndsIn (OnConn (Left limit due (task.conn.send_buf.length - n))) task (send_new io n) := by
  have htaken := h.take_payload n
  have hleft : ∀ conn, Taken limit due task.conn.seq_next (task.conn.send_buf.length - n) conn →
      Left limit due (task.conn.send_buf.length - n) conn := fun conn h => ⟨h.numbered, h.len⟩
  apply EndsIn.get_bind
  apply EndsIn.modify_bind
  refine Leads.start ?_ (show OnConn (Taken limit due task.conn.seq_next (task.conn.send_buf.length - n))
    { task with conn := task.conn.take_payload n } from htaken)
  apply Keeps.leads (keeps_send_packet _ _ _) (fun task h => hleft task.conn h)
  intro _
  apply Keeps.leads keeps_now (fun task h => hleft task.conn h)
  intro sent_at
  exact ⟨fun task h => h.push _ sent_at⟩

/-- The loop cuts the send buffer into packets of the full length. A shorter one is cut from its end, or where the
window ends, and then it is the last. -/
theorem send_loop_numbered {send_window fuel in_flight_bytes : Nat}
    (h : NumberedFin limit ((task.conn.send_buf.length + MAX_PAYLOAD - 1) / MAX_PAYLOAD) task.conn) :
    EndsIn (OnConn (NumberedFin limit 0)) task (send_loop io send_window fuel in_flight_bytes) := by
  induction fuel generalizing task in_flight_bytes with
  | zero => exact ⟨h.weaken (Nat.zero_le _)⟩
  | succ fuel ih =>
    apply EndsIn.get_bind
    dsimp only
    generalize hn : min (min MAX_PAYLOAD task.conn.send_buf.length) (send_window - in_flight_bytes) = n
    split
    · exact ⟨h.weaken (Nat.zero_le _)⟩
    · rename_i hpos
      generalize hlen : task.conn.send_buf.length = len at h hn
      obtain ⟨due, hdue⟩ : ∃ due, (len + MAX_PAYLOAD - 1) / MAX_PAYLOAD = due + 1 := by
        apply Nat.exists_eq_succ_of_ne_zero
        unfold MAX_PAYLOAD at hn ⊢
        omega
      rw [hdue] at h
      have hnew : EndsIn (OnConn (Left limit due (task.conn.send_buf.length - n))) task (send_new io n) :=
        send_new_left h n
      rw [hlen] at hnew
      by_cases hcut : n = min MAX_PAYLOAD len
      · -- the rest of the buffer needs a number less
        have hrest : (len - n + MAX_PAYLOAD - 1) / MAX_PAYLOAD ≤ due := by
          unfold MAX_PAYLOAD at hdue hcut ⊢
          omega
        refine hnew.bind (fun task h => h.numbered.weaken (Nat.zero_le _)) ?_
        intro _
        constructor
        intro task' htask'
        refine (ih ?_).final
        rw [htask'.len]
        exact htask'.numbered.weaken hrest
      · -- the window is full
        refine hnew.bind (fun task h => h.numbered.weaken (Nat.zero_le _)) ?_
        intro _
        constructor
        intro task' htask'
        have hfull : min (min MAX_PAYLOAD task'.conn.send_buf.length) (send_window - (in_flight_bytes + n)) = 0 := by
          omega
        rw [send_loop_of_full hfull]
        exact htask'.numbered.weaken (Nat.zero_le _)

theorem keeps_numbered_fin_retransmit : Keeps (OnConn (NumberedFin limit due)) (retransmit io) := by
  apply keeps_retransmit keeps_now
  apply keeps_retransmit_one keeps_now_micros
  · exact fun _ _ _ _ _ => keeps_send_to _ _
  · intro task index instant p htask hp
    exact Numbered.congr htask (map_set_in_flight hp rfl) rfl rfl

theorem keeps_numbered_fin_maybe_send_ack : Keeps (OnConn (NumberedFin limit due)) (maybe_send_ack io) :=
  keeps_maybe_send_ack keeps_now keeps_send_state fun _ => keeps_update fun _ h => Numbered.congr h rfl rfl rfl

/-- The FIN takes the number that was left for it. -/
theorem leads_numbered_maybe_send_fin :
    Leads (OnConn (NumberedFin limit 0)) (OnConn (Numbered limit 0)) (maybe_send_fin io) := by
  apply Leads.get_bind
  intro task htask
  split
  · rename_i hpending
    have hfin : task.conn.fin_due = 1 := if_pos ⟨hpending.1, by simpa using hpending.2.1⟩
    have hroom := htask.room
    have hnext := htask.next
    have htaken : Numbered limit 0 { task.conn with seq_next := task.conn.seq_next + 1 } := by
      refine ⟨htask.ascending, ?_, ?_, ?_, htask.buffered⟩
      · intro other hother
        obtain ⟨hlt, hlimit⟩ := htask.behind other hother
        exact ⟨Nat.lt_succ_of_lt hlt, hlimit⟩
      · dsimp only
        omega
      · dsimp only
        omega
    refine EndsIn.bind ?_ (fun _ h => h) fun _ => keeps_update fun _ h => h.congr rfl rfl rfl
    apply EndsIn.get_bind
    apply EndsIn.modify_bind
    exact (keeps_send_packet _ _ _).start htaken
  · exact (Leads.pure (fun _ h => h.numbered) _).start htask

/-- Each packet that the send buffer is cut into has a number left, and so has the FIN. -/
def Spared (limit : Nat) (conn : UtpConnection) : Prop := Numbered limit conn.numbers_due conn

theorem leads_numbered_send_due : Leads (OnConn (Spared limit)) (OnConn (Numbered limit 0)) (send_due io) := by
  have hforget : ∀ other : Task, OnConn (NumberedFin limit 0) other → OnConn (Numbered limit 0) other :=
    fun _ h => h.numbered
  have htry : Leads (OnConn (Spared limit)) (OnConn (NumberedFin limit 0)) (try_send io) := by
    apply Leads.get_bind
    intro task htask
    split
    · exact ⟨NumberedFin.weaken htask (Nat.zero_le _)⟩
    · exact send_loop_numbered htask
  constructor
  intro task htask
  refine ((htry.start htask).bind hforget fun _ => ?_).final
  apply Keeps.leads keeps_numbered_fin_retransmit hforget
  intro _
  apply Keeps.leads keeps_numbered_fin_maybe_send_ack hforget
  intro _
  exact leads_numbered_maybe_send_fin

theorem leads_numbered_drive (recv : Recv) :
    Leads (OnConn (Spared limit)) (OnConn (Numbered limit 0)) (drive io recv) := by
  have hforget : ∀ task : Task, OnConn (Spared limit) task → OnConn (Numbered limit 0) task :=
    fun _ h => Numbered.weaken h (Nat.zero_le _)
  have hclose : Keeps (OnConn (Numbered limit 0)) (update fun conn => { conn with closed := true }) :=
    keeps_update fun _ h => h.congr rfl rfl rfl
  exact (tries_drive hforget (fun _ h => h) keeps_now ⟨fun task htask => hclose.final task (hforget task htask)⟩
    (leads_numbered_send_due.tries fun _ h => h) (fun _ h => h) hclose
    ((tolerates_numbered.receive keeps_numbered_handle_typ recv).tries fun _ h => h)).leads

end

/-! Runs. -/

/-- The states that are reached by the steps that are allowed. -/
inductive Task.Reaches (allowed : Task → ConnEvent → Prop) (start : Task) : Task → Prop
  | start : Reaches allowed start start
  | step {task : Task} (event : ConnEvent) (hreaches : Reaches allowed start task) (hallowed : allowed task event) :
      Reaches allowed start (task.step event)

/-- The numbers in flight, as far as the next one. -/
def Sequenced (conn : UtpConnection) : Prop := Numbered conn.seq_next 0 conn

section
variable {limit : Nat} {conn : UtpConnection} {task : Task}

theorem Numbered.sequenced (h : Numbered limit 0 conn) : Sequenced conn := by
  have hnext := h.next
  refine ⟨h.ascending, ?_, by omega, Nat.le_refl _, h.buffered⟩
  intro seq hseq
  obtain ⟨hlt, hlimit⟩ := h.behind seq hseq
  exact ⟨hlt, by omega⟩

theorem Sequenced.drive (h : Sequenced task.conn) (io : Io) (recv : Recv)
    (hroom : ∀ p ∈ task.conn.in_flight, task.conn.seq_next + task.conn.numbers_due < p.seq + 2 ^ 15) :
    Sequenced (drive io recv task).2.conn := by
  have hbuffered := h.buffered
  have hdue : task.conn.numbers_due < 2 ^ 15 := by
    unfold UtpConnection.numbers_due UtpConnection.fin_due
    unfold MAX_PAYLOAD SEND_BUFFER_CAP at *
    split <;> omega
  have hspared : Spared (task.conn.seq_next + task.conn.numbers_due) task.conn := by
    refine ⟨h.ascending, fun seq hseq => ?_, by omega, Nat.le_refl _, hbuffered⟩
    obtain ⟨p, hp, rfl⟩ := List.mem_map.mp hseq
    exact ⟨(h.behind _ hseq).1, hroom p hp⟩
  have hnumbered : Numbered (task.conn.seq_next + task.conn.numbers_due) 0 (utp.drive io recv task).2.conn :=
    (leads_numbered_drive recv).final task hspared
  exact hnumbered.sequenced

theorem Sequenced.step (h : Sequenced task.conn) {event : ConnEvent} (hroom : task.HasRoom event) :
    Sequenced (task.step event).conn := by
  cases event with
  | packet io header payload sack =>
    exact ((tolerates_numbered.handle_packet (fun _ h => h) (keeps_numbered_handle_typ header payload sack)).final task
      h).sequenced
  | act action =>
    cases action with
    | write buf =>
      have heq := write_eq task.conn buf
      have hbuffered := h.buffered
      have hwritten : (task.conn.write buf).2.send_buf.length ≤ SEND_BUFFER_CAP := by
        unfold UtpConnection.write
        split
        · exact hbuffered
        · split
          · exact hbuffered
          · simp only [List.length_append, List.length_take, UtpConnection.room]
            omega
      change Sequenced (task.conn.write buf).2
      rw [heq]
      exact { h with buffered := hwritten }
    | read out_len =>
      have heq := unreceived_read task.conn out_len
      have hflight : (task.conn.read out_len).2.in_flight = task.conn.in_flight :=
        (congrArg UtpConnection.in_flight heq :)
      have hread : Numbered task.conn.seq_next 0 (task.conn.read out_len).2 :=
        h.congr (congrArg (List.map InFlight.seq) hflight) (congrArg UtpConnection.seq_next heq :)
          (congrArg UtpConnection.send_buf heq :)
      exact hread.sequenced
    | close => exact h.congr rfl rfl rfl
    | drive io recv => exact h.drive io recv hroom

theorem Sequenced.reaches {start : Task} (h : Sequenced start.conn) (hreaches : Task.Reaches Task.HasRoom start task) :
    Sequenced task.conn := by
  induction hreaches with
  | start => exact h
  | step event _ hallowed ih => exact ih.step hallowed

theorem sequenced_established (peer : net.SocketAddr) (send_conn_id recv_conn_id ack_number : UInt16)
    (peer_window : UInt32) (last_recv last_ack_sent : Nat) :
    Sequenced (.established peer send_conn_id recv_conn_id ack_number peer_window last_recv last_ack_sent) where
  ascending := List.Pairwise.nil
  behind := nofun
  room := by omega
  next := Nat.le_refl _
  buffered := Nat.zero_le _

end

/-! What an acknowledgement covers. -/

/-- A mask that fits an extension of 255 bytes speaks of the next 2017 packets. -/
theorem Sack.offset_le {mask : Sack} {offset : UInt16} (hlen : mask.words.length ≤ 63) (h : offset ∈ mask.offsets) :
    2 ≤ offset.toNat ∧ offset.toNat ≤ 2017 := by
  unfold Sack.offsets at h
  obtain ⟨⟨word, index⟩, hword, hoffset⟩ := List.mem_flatMap.mp h
  obtain ⟨bit, hbit, rfl⟩ := List.mem_map.mp hoffset
  have hindex : index < mask.words.length := by
    have := List.snd_lt_of_mem_zipIdx hword
    omega
  have hrange := List.mem_range.mp (List.mem_filter.mp hbit).1
  rw [UInt16.toNat_ofNat']
  omega

theorem sack_acks_sequence_iff {seq ack : Nat} {sack : Option Sack} (h : Close ack seq)
    (hsack : ∀ mask ∈ sack, mask.words.length ≤ 63) :
    sack_acks_sequence sack (wrap ack) (wrap seq) = true ↔
      ∃ mask ∈ sack, ∃ offset ∈ mask.offsets, seq = ack + offset.toNat := by
  obtain ⟨hack, hseq⟩ := h
  cases sack with
  | none => simp [sack_acks_sequence]
  | some mask =>
    simp only [sack_acks_sequence, List.contains_iff_mem, Option.mem_some_iff, exists_eq_left']
    constructor
    · intro hmem
      refine ⟨_, hmem, ?_⟩
      obtain ⟨-, hle⟩ := Sack.offset_le (hsack mask rfl) hmem
      -- a distance of 2017 at most is that to a packet ahead
      have hahead : ack ≤ seq := by
        by_contra hbehind
        rw [toNat_wrap_sub_of_lt (by omega) (by omega)] at hle
        omega
      rw [toNat_wrap_sub hahead (by omega)]
      omega
    · rintro ⟨offset, hmem, rfl⟩
      have hoffset : wrap (ack + offset.toNat) - wrap ack = offset := by
        apply UInt16.toNat.inj
        rw [toNat_wrap_sub (by omega) (by omega)]
        omega
      rw [hoffset]
      exact hmem

/-- In every run whose calls of `drive` find room in the sequence space, the numbers in flight are distinct and less
than `2 ^ 15` behind the next one, as far as their low bits tell, and an acknowledgement that is not `2 ^ 15` old takes
away the packets it covers and no other. -/
theorem in_flight_told_apart (peer : net.SocketAddr) (send_conn_id recv_conn_id ack_number : UInt16)
    (peer_window : UInt32) (last_recv last_ack_sent : Nat) {task : Task}
    (hreaches : Task.Reaches Task.HasRoom ⟨.established peer send_conn_id recv_conn_id ack_number peer_window last_recv
      last_ack_sent, 0, []⟩ task) :
    (task.conn.in_flight.map fun p => wrap p.seq).Nodup ∧
      (∀ p ∈ task.conn.in_flight, 1 ≤ (wrap task.conn.seq_next - wrap p.seq).toNat ∧
        (wrap task.conn.seq_next - wrap p.seq).toNat ≤ 2 ^ 15 - 1) ∧
      ∀ ack sack, ack < task.conn.seq_next → task.conn.seq_next ≤ ack + 2 ^ 15 →
        (∀ mask ∈ sack, mask.words.length ≤ 63) → ∀ p ∈ task.conn.in_flight,
          (p ∉ (task.conn.ack_in_flight (wrap ack) sack).in_flight ↔
            p.seq ≤ ack ∨ ∃ mask ∈ sack, ∃ offset ∈ mask.offsets, p.seq = ack + offset.toNat) := by
  have hsequenced := (sequenced_established peer send_conn_id recv_conn_id ack_number peer_window last_recv
    last_ack_sent).reaches hreaches
  have hbehind : ∀ p ∈ task.conn.in_flight, p.seq < task.conn.seq_next ∧ task.conn.seq_next < p.seq + 2 ^ 15 :=
    fun p hp => hsequenced.behind p.seq (List.mem_map.mpr ⟨p, hp, rfl⟩)
  refine ⟨?_, ?_, ?_⟩
  · have hascending := List.pairwise_map.mp hsequenced.ascending
    rw [List.Nodup, List.pairwise_map]
    apply hascending.imp_of_mem
    intro left right hleft hright hlt heq
    have := hbehind left hleft
    have := hbehind right hright
    have := wrap_inj (by omega) (by omega) heq
    omega
  · intro p hp
    obtain ⟨hlt, hnear⟩ := hbehind p hp
    rw [toNat_wrap_sub (by omega) (by omega)]
    omega
  · intro ack sack hack hfresh hsack p hp
    obtain ⟨hlt, hnear⟩ := hbehind p hp
    have hclose : Close ack p.seq := ⟨by omega, by omega⟩
    rw [← seq_at_or_before_iff hclose, ← sack_acks_sequence_iff hclose hsack]
    simp only [UtpConnection.ack_in_flight, List.mem_filter, hp, true_and, Bool.and_eq_true, Bool.not_eq_true',
      Decidable.not_and_iff_or_not, Bool.not_eq_false]

def sample_open : Task := ⟨.established (Link.sample_addr .acceptor) 8 7 1 4194304 0 0, 0, []⟩

/-- A byte is written and sent. -/
def Task.sample_send (task : Task) (byte : UInt8) : Task :=
  (task.step (.act (.write [byte]))).step (.act (.drive (Link.io_at 0) .timed_out))

theorem in_flight_told_apart_sent :
    ((sample_open.sample_send 1).sample_send 2).conn.in_flight.map InFlight.seq = [2, 3] ∧
      (((sample_open.sample_send 1).sample_send 2).conn.in_flight.map fun p => wrap p.seq).Nodup := by
  have hsend : ∀ {task : Task}, Task.Reaches Task.HasRoom sample_open task → ∀ byte,
      (task.step (.act (.write [byte]))).HasRoom (.act (.drive (Link.io_at 0) .timed_out)) →
      Task.Reaches Task.HasRoom sample_open (task.sample_send byte) :=
    fun hreaches byte hroom => (hreaches.step (.act (.write [byte])) trivial).step _ hroom
  have hroom : ((sample_open.sample_send 1).step (.act (.write [2]))).HasRoom
      (.act (.drive (Link.io_at 0) .timed_out)) := by
    change ∀ p ∈ ((sample_open.sample_send 1).step (.act (.write [2]))).conn.in_flight, _
    decide +kernel
  have hreaches := hsend (hsend .start 1 nofun) 2 hroom
  exact ⟨by decide +kernel, (in_flight_told_apart (Link.sample_addr .acceptor) 8 7 1 4194304 0 0 hreaches).1⟩

/-! A run without that room. -/

theorem Task.Reaches.foldl (start : Task) (events : List ConnEvent) :
    Task.Reaches (fun _ _ => True) start (events.foldl Task.step start) := by
  induction events using List.reverseRecOn with
  | nil => exact .start
  | append_singleton events event ih =>
    rw [List.foldl_append]
    exact ih.step event trivial

/-- An acknowledgement of nothing that was sent, for a connection that receives under the id 7. -/
def sample_state : ConnEvent :=
  .packet (Link.io_at 0) { syn_header 7 0 with typ := .State, ack_number := 1 } [] none

/-- The connection once its window has grown, with `n` packets of one byte in flight. -/
def sample_crowded (n : Nat) (send_buf : Bytes) : UtpConnection :=
  { UtpConnection.established (Link.sample_addr .acceptor) 8 7 1 4194304 0 0 with
    cwnd := { Ledbat.new with cwnd := 35000 }
    send_buf
    seq_next := 2 + n
    in_flight := (List.range n).map fun i => ⟨2 + i, [0], 0⟩ }

section
variable {n calls : Nat} {sent : List Datagram}

theorem queued_sample_crowded (send_buf : Bytes) : (sample_crowded n send_buf).queued_in_flight_bytes = n := by
  simp [sample_crowded, UtpConnection.queued_in_flight_bytes, Function.comp_def]

theorem write_sample_crowded (h : n < 35000) : ((sample_crowded n []).write [0]).2 = sample_crowded n [0] := by
  have hroom : min 1 (sample_crowded n []).room = 1 := by
    rw [UtpConnection.room, queued_sample_crowded]
    unfold SEND_BUFFER_CAP
    simp [sample_crowded]
    omega
  unfold UtpConnection.write
  simp only [List.length_singleton, hroom]
  rfl

theorem mem_sample_crowded {i : Nat} (h : i < n) : ⟨2 + i, [0], 0⟩ ∈ (sample_crowded n []).in_flight :=
  List.mem_map.mpr ⟨i, List.mem_range.mpr h, rfl⟩

theorem sample_crowded_succ : sample_crowded (n + 1) [] = { sample_crowded n [] with
    seq_next := 2 + n + 1
    in_flight := (sample_crowded n []).in_flight ++ [⟨2 + n, [0], 0⟩] } := by
  rw [sample_crowded, List.range_succ, List.map_append]
  rfl

theorem try_send_sample_crowded (h : n < 35000) : ∃ sent', try_send (Link.io_at 0) ⟨sample_crowded n [0], calls, sent⟩ =
    (.ok (), ⟨sample_crowded (n + 1) [], calls + 3, sent'⟩) := by
  have hcount : min (min MAX_PAYLOAD 1) (35000 - (sample_crowded n [0]).queued_in_flight_bytes) = 1 := by
    rw [queued_sample_crowded]
    unfold MAX_PAYLOAD
    omega
  have hloop : try_send (Link.io_at 0) ⟨sample_crowded n [0], calls, sent⟩ =
      (if min (min MAX_PAYLOAD 1) (35000 - (sample_crowded n [0]).queued_in_flight_bytes) = 0 then pure ()
      else send_new (Link.io_at 0)
        (min (min MAX_PAYLOAD 1) (35000 - (sample_crowded n [0]).queued_in_flight_bytes)) >>= fun _ => pure () :
          UtpM Unit) ⟨sample_crowded n [0], calls, sent⟩ := rfl
  rw [hloop, hcount, sample_crowded_succ]
  exact ⟨_, rfl⟩

theorem retransmit_sample_crowded : retransmit (Link.io_at 0) ⟨sample_crowded n [], calls, sent⟩ =
    (.ok (), ⟨sample_crowded n [], calls + 1, sent⟩) := by
  refine (bind_of_ok rfl).trans ((bind_of_ok rfl).trans (for_each_eq_ok fun index _ => ?_))
  refine (bind_of_ok rfl).trans ?_
  cases hp : (sample_crowded n []).in_flight[index]? with
  | none => rfl
  | some p =>
    obtain ⟨i, -, rfl⟩ := List.mem_map.mp (List.mem_of_getElem? hp)
    rfl

theorem drive_sample_crowded (h : n < 35000) :
    (drive (Link.io_at 0) .timed_out ⟨sample_crowded n [0], calls, sent⟩).2.conn = sample_crowded (n + 1) [] := by
  obtain ⟨sent', htry⟩ := @try_send_sample_crowded n (calls + 1) sent h
  have hsend : send_due (Link.io_at 0) ⟨sample_crowded n [0], calls + 1, sent⟩ =
      (.ok (), ⟨sample_crowded (n + 1) [], calls + 6, sent'⟩) :=
    (bind_of_ok htry).trans ((bind_of_ok retransmit_sample_crowded).trans rfl)
  have hdrive : drive (Link.io_at 0) .timed_out ⟨sample_crowded n [0], calls, sent⟩ =
      (.ok true, ⟨sample_crowded (n + 1) [], calls + 6, sent'⟩) := by
    refine (bind_of_ok rfl).trans ((bind_of_ok rfl).trans ((bind_of_ok hsend).trans rfl))
  rw [hdrive]

end

theorem reaches_sample_crowded (n : Nat) (h : n ≤ 35000) :
    ∃ task : Task, Task.Reaches (fun _ _ => True) sample_open task ∧ task.conn = sample_crowded n [] := by
  induction n with
  | zero => exact ⟨_, .foldl _ (List.replicate 24 sample_state), by set_option maxRecDepth 4000 in rfl⟩
  | succ n ih =>
    obtain ⟨⟨_, calls, sent⟩, hreaches, rfl⟩ := ih (by omega)
    have hwritten := hreaches.step (.act (.write [0])) trivial
    rw [Task.step, write_sample_crowded h] at hwritten
    exact ⟨_, hwritten.step (.act (.drive (Link.io_at 0) .timed_out)) trivial, drive_sample_crowded h⟩

/-- The connection sends 32769 packets of one byte: the window is a bound on the bytes and none on the numbers. The
acknowledgement number 1 covers none of them, and takes the last one away. -/
theorem in_flight_not_told_apart : ∃ task : Task,
    Task.Reaches (fun _ _ => True) sample_open task ∧
      (∃ p ∈ task.conn.in_flight, (wrap task.conn.seq_next - wrap p.seq).toNat = 2 ^ 15 + 1) ∧
      ∃ p ∈ task.conn.in_flight, 1 < p.seq ∧ p ∉ (task.conn.ack_in_flight (wrap 1) none).in_flight := by
  obtain ⟨task, hreaches, hconn⟩ := reaches_sample_crowded 32769 (by decide)
  have hmem : ∀ i < 32769, ⟨2 + i, [0], 0⟩ ∈ task.conn.in_flight := fun i hi => hconn ▸ mem_sample_crowded hi
  refine ⟨task, hreaches, ⟨_, hmem 0 (by decide), ?_⟩, ⟨_, hmem 32768 (by decide), by decide, ?_⟩⟩
  · rw [show task.conn.seq_next = 2 + 32769 by rw [hconn]; rfl]
    decide
  · intro hleft
    have hkept := (List.mem_filter.mp hleft).2
    revert hkept
    decide

end swarmotter.utp
