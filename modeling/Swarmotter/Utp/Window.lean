import Swarmotter.Utp.Frame

open serial

open trial (Keeps Leads)

namespace swarmotter.utp

/-! The receive window. What is buffered and held never exceeds it, and what is held is in the order of its
distance from the acknowledgement number. -/

/-- The bytes of held packets. -/
def held_bytes (held : Vec (UInt16 × Bytes)) : Nat := (held.map fun (_, payload) => payload.length).sum

/-- The wrapping distance of a held packet from the acknowledgement number. -/
def distance (ack : UInt16) (entry : UInt16 × Bytes) : Nat := (entry.1 - ack).toNat

/-- Packets held from distance `low` on, each at a distance of its own and in that order. -/
structure InOrder (low : Nat) (ack : UInt16) (held : Vec (UInt16 × Bytes)) : Prop where
  ascending : held.Pairwise fun left right => distance ack left < distance ack right
  range : ∀ entry ∈ held, low ≤ distance ack entry ∧ distance ack entry < 2 ^ 15

structure Window (conn : UtpConnection) : Prop where
  bound : conn.recv_buf.length + held_bytes conn.ooo ≤ RECV_WINDOW_DEFAULT
  recv_window : conn.recv_window = RECV_WINDOW_DEFAULT - (conn.recv_buf.length + held_bytes conn.ooo)
  in_order : InOrder 2 (wrap conn.ack_number) conn.ooo

section
variable {ack : UInt16} {held : Vec (UInt16 × Bytes)}

theorem distance_succ {entry : UInt16 × Bytes} (h : 1 ≤ distance ack entry) :
    distance (ack + 1) entry = distance ack entry - 1 := by
  have hack := ack.toNat_lt
  have hseq := entry.1.toNat_lt
  rw [distance, UInt16.toNat_sub] at h
  rw [distance, distance, UInt16.toNat_sub, UInt16.toNat_sub, UInt16.toNat_add, UInt16.toNat_one]
  omega

theorem distance_eq_one_iff {entry : UInt16 × Bytes} : distance ack entry = 1 ↔ entry.1 = ack + 1 := by
  have hack := ack.toNat_lt
  have hseq := entry.1.toNat_lt
  rw [distance, ← UInt16.toNat_inj, UInt16.toNat_sub, UInt16.toNat_add, UInt16.toNat_one]
  omega

theorem eq_of_distance_eq {left right : UInt16 × Bytes} (h : distance ack left = distance ack right) :
    left.1 = right.1 := by
  have hack := ack.toNat_lt
  have hleft := left.1.toNat_lt
  have hright := right.1.toNat_lt
  rw [distance, distance, UInt16.toNat_sub, UInt16.toNat_sub] at h
  apply UInt16.toNat_inj.mp
  omega

theorem held_bytes_cons (entry : UInt16 × Bytes) (held : Vec (UInt16 × Bytes)) :
    held_bytes (entry :: held) = entry.2.length + held_bytes held := rfl

/-- One number on, every packet is nearer by one. -/
theorem InOrder.succ {low : Nat} (h : InOrder (low + 1) ack held) : InOrder low (ack + 1) held := by
  have hnear : ∀ entry ∈ held, distance (ack + 1) entry = distance ack entry - 1 := by
    intro entry hentry
    have := (h.range entry hentry).1
    exact distance_succ (by omega)
  refine ⟨?_, ?_⟩
  · apply h.ascending.imp_of_mem
    intro left right hleft hright hlt
    have := (h.range left hleft).1
    rw [hnear left hleft, hnear right hright]
    omega
  · intro entry hentry
    have := h.range entry hentry
    rw [hnear entry hentry]
    omega

/-- Draining moves bytes to the read buffer and leaves packets that are further on. -/
theorem drain_held_in_order {total : Nat} (recv_buf : Bytes) (h : InOrder 1 (wrap total) held) :
    let drained := drain_held total recv_buf held
    drained.2.1.length + held_bytes drained.2.2 = recv_buf.length + held_bytes held ∧
      InOrder 2 (wrap drained.1) drained.2.2 := by
  -- the induction is on what is held; a packet that is drained was the nearest, at distance one
  induction held generalizing total recv_buf with
  | nil => exact ⟨rfl, List.Pairwise.nil, nofun⟩
  | cons entry rest ih =>
    obtain ⟨seq, payload⟩ := entry
    obtain ⟨hfirst, hascending⟩ := List.pairwise_cons.mp h.ascending
    have hrest : ∀ low, (∀ entry ∈ rest, low ≤ distance (wrap total) entry) →
        InOrder low (wrap total) rest := fun low hlow =>
      ⟨hascending, fun entry hentry => ⟨hlow entry hentry, (h.range entry (List.mem_cons_of_mem _ hentry)).2⟩⟩
    rw [drain_held]
    by_cases hnext : seq = wrap total + 1
    · have hone : distance (wrap total) (seq, payload) = 1 := distance_eq_one_iff.mpr hnext
      have hlater : InOrder 1 (wrap (total + 1)) rest := by
        rw [wrap_succ]
        apply InOrder.succ
        apply hrest
        intro entry hentry
        have := hfirst entry hentry
        omega
      rw [if_pos hnext]
      obtain ⟨hbytes, horder⟩ := ih (recv_buf ++ payload) hlater
      refine ⟨hbytes.trans ?_, horder⟩
      rw [List.length_append, held_bytes_cons, Nat.add_assoc]
    · rw [if_neg hnext]
      have hne : distance (wrap total) (seq, payload) ≠ 1 := fun hone => hnext (distance_eq_one_iff.mp hone)
      have hlow := (h.range _ List.mem_cons_self).1
      refine ⟨rfl, h.ascending, ?_⟩
      dsimp only
      intro entry hentry
      refine ⟨?_, (h.range entry hentry).2⟩
      rcases List.mem_cons.mp hentry with rfl | hentry
      · omega
      · have := hfirst entry hentry
        omega

/-- A packet that is not held yet finds its place. -/
theorem InOrder.insert {entry : UInt16 × Bytes} (h : InOrder 2 ack held)
    (hnew : ∀ other ∈ held, other.1 ≠ entry.1) (hrange : 2 ≤ distance ack entry ∧ distance ack entry < 2 ^ 15) :
    InOrder 2 ack (sort_held ack (held ++ [entry])) := by
  have hperm : (sort_held ack (held ++ [entry])).Perm (held ++ [entry]) := List.perm_insertionSort _ _
  have hdistinct : (held ++ [entry]).Pairwise fun left right => distance ack left ≠ distance ack right := by
    rw [List.pairwise_append]
    refine ⟨h.ascending.imp fun hlt => Nat.ne_of_lt hlt, List.pairwise_singleton _ _, ?_⟩
    intro other hother last hlast heq
    rw [List.mem_singleton.mp hlast] at heq
    exact hnew other hother (eq_of_distance_eq heq)
  have hsorted : (sort_held ack (held ++ [entry])).Pairwise fun left right => left.1 - ack ≤ right.1 - ack := by
    have htotal : Std.Total fun left right : UInt16 × Bytes => left.1 - ack ≤ right.1 - ack :=
      ⟨fun left right => UInt16.le_total (left.1 - ack) (right.1 - ack)⟩
    have htrans : IsTrans (UInt16 × Bytes) fun left right => left.1 - ack ≤ right.1 - ack :=
      ⟨fun _ _ _ hab hbc => UInt16.le_trans hab hbc⟩
    exact List.pairwise_insertionSort _ _
  refine ⟨?_, ?_⟩
  · have hdistinct' := hperm.symm.pairwise hdistinct fun hne => hne.symm
    refine (hsorted.and hdistinct').imp ?_
    rintro left right ⟨hle, hne⟩
    exact Nat.lt_of_le_of_ne (UInt16.le_iff_toNat_le.mp hle) hne
  · intro other hother
    exact List.forall_mem_append.mpr ⟨h.range, List.forall_mem_singleton.mpr hrange⟩ other (hperm.mem_iff.mp hother)

theorem held_bytes_sort_held (entry : UInt16 × Bytes) :
    held_bytes (sort_held ack (held ++ [entry])) = held_bytes held + entry.2.length := by
  have hperm : (sort_held ack (held ++ [entry])).Perm (held ++ [entry]) := List.perm_insertionSort _ _
  rw [held_bytes, (hperm.map _).sum_nat, List.map_append, List.sum_append]
  rfl

end

section
variable {conn : UtpConnection}

/-- The window that is advertised is what is left, as long as it is not exceeded. -/
theorem window_update (hbound : conn.recv_buf.length + held_bytes conn.ooo ≤ RECV_WINDOW_DEFAULT)
    (horder : InOrder 2 (wrap conn.ack_number) conn.ooo) : Window conn.update_recv_window := by
  refine ⟨hbound, ?_, horder⟩
  have hfits : RECV_WINDOW_DEFAULT ≤ u32.MAX := by decide
  change RECV_WINDOW_DEFAULT - min (conn.recv_buf.length + held_bytes conn.ooo) u32.MAX = _
  rw [min_eq_left (hbound.trans hfits)]
  rfl

theorem Window.read (h : Window conn) (out_len : Nat) : Window (conn.read out_len).2 := by
  unfold UtpConnection.read
  split
  · exact h
  · apply window_update
    · have hdrop : (conn.recv_buf.drop (min conn.recv_buf.length out_len)).length ≤ conn.recv_buf.length := by
        rw [List.length_drop]
        omega
      exact (Nat.add_le_add_right hdrop _).trans h.bound
    · exact h.in_order

/-- Whatever its number and its size, a data packet is taken only into what is left of the window. -/
theorem Window.handle_data (h : Window conn) (seq : UInt16) (payload : Bytes) :
    Window (conn.handle_data seq payload).2 := by
  have hbound := h.bound
  have hwindow := h.recv_window
  unfold UtpConnection.handle_data
  dsimp only
  by_cases hnext : seq = wrap conn.ack_number + 1
  · rw [if_pos hnext]
    split
    · exact h
    · have hlater : InOrder 1 (wrap (conn.ack_number + 1)) conn.ooo := by
        rw [wrap_succ]
        exact h.in_order.succ
      obtain ⟨hbytes, horder⟩ := drain_held_in_order (conn.recv_buf ++ payload) hlater
      have hfits : (conn.recv_buf ++ payload).length + held_bytes conn.ooo ≤ RECV_WINDOW_DEFAULT := by
        rw [List.length_append]
        omega
      rw [← hbytes] at hfits
      exact window_update hfits horder
  · rw [if_neg hnext]
    split
    · rename_i hhold
      simp only [Bool.and_eq_true, Bool.not_eq_true', decide_eq_true_eq, List.any_eq_false, seq_is_ahead] at hhold
      obtain ⟨⟨hnew, hnonzero, hahead⟩, hsize⟩ := hhold
      have hone : distance (wrap conn.ack_number) (seq, payload) ≠ 1 := fun h => hnext (distance_eq_one_iff.mp h)
      have hzero : distance (wrap conn.ack_number) (seq, payload) ≠ 0 := fun h =>
        hnonzero (UInt16.toNat_inj.mp h)
      have hnear : distance (wrap conn.ack_number) (seq, payload) < 2 ^ 15 := UInt16.lt_iff_toNat_lt.mp hahead
      apply window_update
      · dsimp only
        rw [held_bytes_sort_held]
        dsimp only
        omega
      · apply h.in_order.insert
        · intro other hother heq
          exact hnew other hother (beq_iff_eq.mpr heq)
        · exact ⟨by omega, hnear⟩
    · exact h

end

/-! Runs of one connection, whatever it receives. -/

/-- A call by the user or the driver of the connection, or an inbound packet, whether or not it fits a datagram. -/
inductive ConnEvent where
  | act (action : Action)
  | packet (io : Io) (header : UtpHeader) (payload : Bytes) (sack : Option Sack)

def Task.step (task : Task) : ConnEvent → Task
  | .act (.write buf) => { task with conn := (task.conn.write buf).2 }
  | .act (.read out_len) => { task with conn := (task.conn.read out_len).2 }
  | .act .close => { task with conn := task.conn.close }
  | .act (.drive io recv) => (drive io recv task).2
  | .packet io header payload sack => (handle_packet io header payload sack task).2

/-- The window is kept until a FIN or a RESET has been received. -/
def WindowUnlessFin (conn : UtpConnection) : Prop := conn.peer_fin = false → Window conn

section
variable {io : Io}

theorem WindowUnlessFin.congr {conn conn' : UtpConnection} (h : WindowUnlessFin conn)
    (heq : conn'.received = conn.received) : WindowUnlessFin conn' := by
  simp only [UtpConnection.received, Prod.mk.injEq] at heq
  obtain ⟨-, hack, hwindow, hbuf, hooo, hfin⟩ := heq
  intro hopen
  obtain ⟨hbound, hleft, horder⟩ := h (hfin.symm.trans hopen)
  exact ⟨by rwa [hbuf, hooo], by rwa [hwindow, hbuf, hooo], by rwa [hack, hooo]⟩

theorem tolerates_window : Tolerates (OnConn WindowUnlessFin) io :=
  .on_conn (fun _ _ _ _ _ h => h.congr rfl) fun _ _ _ h => h.congr rfl

theorem keeps_window_handle_typ (header : UtpHeader) (payload : Bytes) (sack : Option Sack) :
    Keeps (OnConn WindowUnlessFin) (handle_typ io header payload sack) := by
  apply tolerates_window.handle_typ
  · intro _
    apply keeps_update
    intro conn hconn
    have hacked : WindowUnlessFin (conn.ack_in_flight header.ack_number sack) := hconn.congr rfl
    refine WindowUnlessFin.congr (fun hopen => Window.handle_data (hacked ?_) header.seq_number payload) rfl
    exact (congrArg UtpConnection.peer_fin
      (unreceived_handle_data (conn.ack_in_flight header.ack_number sack) header.seq_number payload) :).symm.trans hopen
  · intro _
    exact keeps_update fun _ _ hopen => absurd hopen (by simp [UtpConnection.ack_fin])
  · intro _
    exact keeps_update fun _ _ hopen => absurd hopen (by simp)

theorem keeps_window_drive (recv : Recv) : Keeps (OnConn WindowUnlessFin) (drive io recv) := by
  apply tolerates_window.drive (fun _ h => h)
  · constructor
    intro task htask
    exact htask.congr (congrArg UtpConnection.received (unsent_send_due io task) :)
  · exact tolerates_window.receive keeps_window_handle_typ recv

end

theorem WindowUnlessFin.step {task : Task} (h : WindowUnlessFin task.conn) (event : ConnEvent) :
    WindowUnlessFin (task.step event).conn := by
  cases event with
  | packet io header payload sack =>
    exact (tolerates_window.handle_packet (fun _ h => h) (keeps_window_handle_typ header payload sack)).final task h
  | act action =>
    cases action with
    | write buf => exact h.congr (congrArg UtpConnection.received (write_eq task.conn buf) :)
    | read out_len =>
      intro hopen
      have hbefore : task.conn.peer_fin = false :=
        ((congrArg UtpConnection.peer_fin (unreceived_read task.conn out_len) :)).symm.trans hopen
      exact (h hbefore).read out_len
    | close => exact h.congr rfl
    | drive io recv => exact (keeps_window_drive recv).final task h

theorem WindowUnlessFin.run (events : List ConnEvent) {task : Task} (h : WindowUnlessFin task.conn) :
    WindowUnlessFin (events.foldl Task.step task).conn := by
  induction events generalizing task with
  | nil => exact h
  | cons event events ih => exact ih (h.step event)

theorem window_established (peer : net.SocketAddr) (send_conn_id recv_conn_id ack_number : UInt16)
    (peer_window : UInt32)
    (last_recv last_ack_sent : Nat) :
    Window (.established peer send_conn_id recv_conn_id ack_number peer_window last_recv last_ack_sent) where
  bound := Nat.zero_le _
  recv_window := rfl
  in_order := ⟨List.Pairwise.nil, nofun⟩

/-- Whatever a new connection receives and whenever it is read, until a FIN or a RESET comes the window is what the
buffered and the held bytes leave of it, and the held packets are distinct, in the order of their distance and further
on than the next one. -/
theorem recv_window_bounded (peer : net.SocketAddr) (send_conn_id recv_conn_id ack_number : UInt16)
    (peer_window : UInt32) (last_recv last_ack_sent : Nat) (events : List ConnEvent) {conn : UtpConnection}
    (hconn : (events.foldl Task.step ⟨.established peer send_conn_id recv_conn_id ack_number peer_window last_recv
      last_ack_sent, 0, []⟩).conn = conn) (hopen : conn.peer_fin = false) :
    conn.recv_buf.length + held_bytes conn.ooo ≤ RECV_WINDOW_DEFAULT ∧
      conn.recv_window = RECV_WINDOW_DEFAULT - (conn.recv_buf.length + held_bytes conn.ooo) ∧
      (conn.ooo.map Prod.fst).Nodup ∧
      conn.ooo.Pairwise (fun left right =>
        distance (wrap conn.ack_number) left ≤ distance (wrap conn.ack_number) right) ∧
      ∀ entry ∈ conn.ooo,
        2 ≤ distance (wrap conn.ack_number) entry ∧ distance (wrap conn.ack_number) entry < 2 ^ 15 := by
  have hwindow : Window conn := by
    have hstart := window_established peer send_conn_id recv_conn_id ack_number peer_window last_recv last_ack_sent
    rw [← hconn] at hopen ⊢
    exact WindowUnlessFin.run events (fun _ => hstart) hopen
  refine ⟨hwindow.bound, hwindow.recv_window, ?_, hwindow.in_order.ascending.imp fun hlt => Nat.le_of_lt hlt,
    hwindow.in_order.range⟩
  rw [List.Nodup, List.pairwise_map]
  apply hwindow.in_order.ascending.imp
  intro left right hlt heq
  rw [distance, distance, heq] at hlt
  exact Nat.lt_irrefl _ hlt

/-- A data packet for a connection that receives under the id 7. -/
def sample_data (seq : UInt16) (payload : Bytes) : ConnEvent :=
  .packet (Link.io_at 0) { syn_header 7 0 with typ := .Data, seq_number := seq } payload none

/-- Packets 0, 65535 and 2 arrive before 65534, and one byte is read. -/
def sample_wrapping : Task :=
  [sample_data 0 [4, 5], sample_data 65535 [3], sample_data 2 [7], sample_data 65534 [1, 2],
    .act (.read 1)].foldl Task.step ⟨.established (Link.sample_addr .acceptor) 8 7 65533 4096 0 0, 0, []⟩

theorem recv_window_bounded_wrapping :
    (sample_wrapping.conn.peer_fin = false ∧ sample_wrapping.conn.recv_buf = [2, 3, 4, 5] ∧
      sample_wrapping.conn.ooo = [(2, [7])]) ∧
    sample_wrapping.conn.recv_window = RECV_WINDOW_DEFAULT - 5 := by
  have hrun : sample_wrapping.conn.peer_fin = false ∧ sample_wrapping.conn.recv_buf = [2, 3, 4, 5] ∧
      sample_wrapping.conn.ooo = [(2, [7])] := by decide +kernel
  have hbounded := recv_window_bounded (Link.sample_addr .acceptor) 8 7 65533 4096 0 0 _ rfl hrun.1
  refine ⟨hrun, ?_⟩
  have hwindow : sample_wrapping.conn.recv_window = _ := hbounded.2.1
  rw [hwindow]
  change RECV_WINDOW_DEFAULT - (sample_wrapping.conn.recv_buf.length + held_bytes sample_wrapping.conn.ooo) = _
  rw [hrun.2.1, hrun.2.2]
  rfl

end swarmotter.utp
