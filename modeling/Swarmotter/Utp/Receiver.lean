import Swarmotter.Utp.Sender

open serial

open trial (Keeps Leads EndsIn)

namespace swarmotter.utp

/-! The receiving side. The chunks up to some index have been delivered, and the held packets are chunks
further on. -/

/-- Chunk `i` as it is held. -/
def held_packet (chunks : List Bytes) (i : Nat) : UInt16 × Bytes :=
  (wrap (2 + i), chunks.getD i [])

/-- The indices of held chunks, from `low` on and in ascending order. -/
structure Holds (chunks : List Bytes) (low : Nat) (held : List Nat) : Prop where
  ascending : held.SortedLT
  bounds : ∀ i ∈ held, low ≤ i ∧ i < chunks.length ∧ i + 2 < low + 2 ^ 15

/-- The first `k` chunks have been delivered, and what is held comes after the one that is missing. -/
structure Delivered (chunks : List Bytes) (returned : Bytes) (k : Nat) (held : List Nat)
    (conn : UtpConnection) : Prop where
  ack : conn.ack_number = 1 + k
  k_le : k ≤ chunks.length
  bytes : returned ++ conn.recv_buf = (chunks.take k).flatten
  ooo : conn.ooo = held.map (held_packet chunks)
  holds : Holds chunks (k + 1) held

def Receives (chunks : List Bytes) (returned : Bytes) (conn : UtpConnection) : Prop :=
  ∃ k held, Delivered chunks returned k held conn

/-- Chunk `i` has been delivered or is held. -/
def Got (k : Nat) (held : List Nat) (i : Nat) : Prop := i < k ∨ i ∈ held

variable {i : Nat} {payload : Bytes}

section
variable {chunks : List Bytes} {returned : Bytes} {conn : UtpConnection} {k : Nat} {held : List Nat}

theorem flatten_take_succ {k : Nat} (hk : k < chunks.length) :
    (chunks.take (k + 1)).flatten = (chunks.take k).flatten ++ chunks.getD k [] := by
  rw [List.take_add_one, List.getElem?_eq_getElem hk, List.flatten_append, List.getD_eq_getElem _ _ hk]
  simp

/-- A held chunk is the next one exactly if its low bits say so. -/
theorem wrap_eq_next_iff {k : Nat} (hi : i < k + 2 ^ 16) (hk : k < i + 2 ^ 16) :
    wrap (2 + i) = wrap (1 + k) + 1 ↔ i = k := by
  rw [← wrap_succ, show 1 + k + 1 = 2 + k by omega]
  constructor
  · intro heq
    have := wrap_inj (by omega) (by omega) heq
    omega
  · rintro rfl
    rfl

/-- Draining delivers the held chunks that follow on what was delivered. -/
theorem drain_held_spec {recv_buf : Bytes} (hk : k ≤ chunks.length)
    (hbytes : returned ++ recv_buf = (chunks.take k).flatten) (hholds : Holds chunks k held) :
    ∃ k' held' recv_buf', drain_held (1 + k) recv_buf (held.map (held_packet chunks)) =
        (1 + k', recv_buf', held'.map (held_packet chunks)) ∧
      k' ≤ chunks.length ∧ returned ++ recv_buf' = (chunks.take k').flatten ∧ Holds chunks (k' + 1) held' ∧
      ∀ i, Got k' held' i ↔ Got k held i := by
  -- the induction is on what is held; every round moves the first index that may be held up by one
  induction held generalizing k recv_buf with
  | nil =>
    have hnone : Holds chunks (k + 1) [] := ⟨List.Pairwise.nil.sortedLT, nofun⟩
    exact ⟨k, [], recv_buf, rfl, hk, hbytes, hnone, fun _ => Iff.rfl⟩
  | cons i rest ih =>
    obtain ⟨hlow, hlength, hnear⟩ := hholds.bounds i (by simp)
    have hpairwise := List.pairwise_cons.mp hholds.ascending.pairwise
    have hnext := wrap_eq_next_iff (show i < k + 2 ^ 16 by omega) (show k < i + 2 ^ 16 by omega)
    have hcons : (i :: rest).map (held_packet chunks) =
        (wrap (2 + i), chunks.getD i []) :: rest.map (held_packet chunks) := by simp [held_packet]
    rw [hcons, drain_held]
    by_cases hi : i = k
    · subst hi
      rw [if_pos (hnext.mpr rfl)]
      have hrest : Holds chunks (i + 1) rest := by
        refine ⟨hpairwise.2.sortedLT, ?_⟩
        intro j hj
        have hafter := hpairwise.1 j hj
        obtain ⟨-, hjlength, hjnear⟩ := hholds.bounds j (List.mem_cons_of_mem _ hj)
        exact ⟨hafter, hjlength, by omega⟩
      have hdelivered : returned ++ (recv_buf ++ chunks.getD i []) = (chunks.take (i + 1)).flatten := by
        rw [flatten_take_succ hlength, ← hbytes, List.append_assoc]
      have hack : 1 + i + 1 = 1 + (i + 1) := by omega
      rw [hack]
      obtain ⟨k', held', recv_buf', hdrain, hk', hbytes', hholds', hgot⟩ := ih hlength hdelivered hrest
      refine ⟨k', held', recv_buf', hdrain, hk', hbytes', hholds', fun j => (hgot j).trans ?_⟩
      rw [Got, Got, List.mem_cons, Nat.lt_succ_iff_lt_or_eq, or_assoc]
    · rw [if_neg (fun heq => hi (hnext.mp heq))]
      refine ⟨k, i :: rest, recv_buf, by rw [hcons], hk, hbytes, ⟨hholds.ascending, ?_⟩, fun _ => Iff.rfl⟩
      intro j hj
      obtain ⟨hjlow, hjlength, hjnear⟩ := hholds.bounds j hj
      rcases List.mem_cons.mp hj with rfl | hrest
      · exact ⟨by omega, hjlength, by omega⟩
      · have hafter := hpairwise.1 j hrest
        exact ⟨by omega, hjlength, by omega⟩

/-- Sorting the held packets by their distance sorts the chunks by their index. -/
theorem sort_held_map {indices : List Nat} (hbounds : ∀ i ∈ indices, k ≤ i ∧ i + 1 < k + 2 ^ 16) :
    sort_held (wrap (1 + k)) (indices.map (held_packet chunks)) =
      (indices.insertionSort (· ≤ ·)).map (held_packet chunks) := by
  unfold sort_held
  symm
  apply List.map_insertionSort
  intro i hi j hj
  obtain ⟨hilow, hinear⟩ := hbounds i hi
  obtain ⟨hjlow, hjnear⟩ := hbounds j hj
  simp only [held_packet, UInt16.le_iff_toNat_le]
  rw [toNat_wrap_sub (by omega) (by omega), toNat_wrap_sub (by omega) (by omega)]
  omega

/-- A packet that is ahead and not the next one, as far as its low bits tell, is further on. -/
theorem lt_of_seq_is_ahead (hclose : Close (2 + i) (1 + k)) (hne : i ≠ k)
    (hahead : seq_is_ahead (wrap (2 + i)) (wrap (1 + k)) = true) : k + 1 ≤ i := by
  simp only [seq_is_ahead, Bool.and_eq_true, decide_eq_true_eq, UInt16.lt_iff_toNat_lt] at hahead
  obtain ⟨hnonzero, hsmall⟩ := hahead
  have hle : 1 + k ≤ 2 + i := hclose.wrap_sub_lt_iff.mp hsmall
  have hdiff : 2 + i ≠ 1 + k := by
    intro heq
    rw [heq] at hnonzero
    simp at hnonzero
  omega

/-- Holding one more chunk. -/
theorem Holds.insert {low : Nat} (h : Holds chunks low held) (hnew : i ∉ held)
    (hi : low ≤ i ∧ i < chunks.length ∧ i + 2 < low + 2 ^ 15) :
    Holds chunks low ((held ++ [i]).insertionSort (· ≤ ·)) := by
  refine ⟨?_, ?_⟩
  · apply (List.sortedLE_insertionSort).sortedLT_of_nodup
    rw [(List.perm_insertionSort _ _).nodup_iff, List.nodup_append]
    refine ⟨h.ascending.nodup, List.nodup_singleton i, ?_⟩
    intro j hj j' hj'
    rw [List.mem_singleton.mp hj']
    rintro rfl
    exact hnew hj
  · intro j hj
    rw [List.mem_insertionSort, List.mem_append, List.mem_singleton] at hj
    rcases hj with hold | rfl
    · exact h.bounds j hold
    · exact hi

theorem Delivered.update_recv_window (h : Delivered chunks returned k held conn) :
    Delivered chunks returned k held conn.update_recv_window :=
  ⟨h.ack, h.k_le, h.bytes, h.ooo, h.holds⟩

/-- The next chunk is delivered, and with it the held chunks that follow. -/
theorem Delivered.deliver (h : Delivered chunks returned k held conn) (hchunk : chunks[k]? = some payload) :
    ∃ k' held', Delivered chunks returned k' held'
        (({ conn with recv_buf := conn.recv_buf ++ payload, ack_number := conn.ack_number + 1 }.drain_ooo)
          |>.update_recv_window) ∧
      ∀ i, Got k' held' i ↔ Got (k + 1) held i := by
  obtain ⟨hk, hget⟩ := List.getElem?_eq_some_iff.mp hchunk
  have hbytes : returned ++ (conn.recv_buf ++ payload) = (chunks.take (k + 1)).flatten := by
    rw [flatten_take_succ hk, ← h.bytes, List.append_assoc, List.getD_eq_getElem _ _ hk, hget]
  obtain ⟨k', held', recv_buf', hdrain, hk', hbytes', hholds', hgot⟩ := drain_held_spec hk hbytes h.holds
  have hack : conn.ack_number + 1 = 1 + (k + 1) := by
    rw [h.ack]
    omega
  refine ⟨k', held', ?_, hgot⟩
  apply Delivered.update_recv_window
  simp only [UtpConnection.drain_ooo, h.ooo, hack, hdrain]
  apply Delivered.update_recv_window
  exact ⟨rfl, hk', hbytes', rfl, hholds'⟩

/-- A chunk that comes further on is held. -/
theorem Delivered.hold (h : Delivered chunks returned k held conn) (hnew : i ∉ held)
    (hi : k + 1 ≤ i ∧ i < chunks.length ∧ i + 2 < k + 1 + 2 ^ 15) :
    ∃ held', Delivered chunks returned k held'
        { conn with
          ooo := sort_held (wrap conn.ack_number) (conn.ooo ++ [held_packet chunks i]) }.update_recv_window ∧
      ∀ j, Got k held' j ↔ Got k held j ∨ j = i := by
  have hsort : sort_held (wrap conn.ack_number) (conn.ooo ++ [held_packet chunks i]) =
      ((held ++ [i]).insertionSort (· ≤ ·)).map (held_packet chunks) := by
    rw [h.ack, h.ooo, show [held_packet chunks i] = [i].map (held_packet chunks) from rfl, ← List.map_append]
    apply sort_held_map
    intro j hj
    have hbounds := List.forall_mem_append.mpr ⟨h.holds.bounds, List.forall_mem_singleton.mpr hi⟩ j hj
    omega
  refine ⟨(held ++ [i]).insertionSort (· ≤ ·), ?_, ?_⟩
  · apply Delivered.update_recv_window
    exact ⟨h.ack, h.k_le, h.bytes, hsort, h.holds.insert hnew hi⟩
  · intro j
    rw [Got, Got, List.mem_insertionSort, List.mem_append, List.mem_singleton, or_assoc]

/-- A chunk that arrives is delivered in its place, held for it, or dropped. -/
theorem Delivered.handle_data (hdelivered : Delivered chunks returned k held conn)
    (hchunk : chunks[i]? = some payload) (hclose : Close (2 + i) conn.ack_number) :
    ∃ k' held', Delivered chunks returned k' held' (conn.handle_data (wrap (2 + i)) payload).2 ∧
      (∀ j, Got k held j → Got k' held' j) ∧ ∀ j, Got k' held' j → Got k held j ∨ j = i := by
  have hsame : (∀ j, Got k held j → Got k held j) ∧ ∀ j, Got k held j → Got k held j ∨ j = i :=
    ⟨fun _ h => h, fun _ h => Or.inl h⟩
  rw [hdelivered.ack] at hclose
  have hnext := wrap_eq_next_iff (show i < k + 2 ^ 16 by have := hclose.1; omega)
    (show k < i + 2 ^ 16 by have := hclose.2; omega)
  obtain ⟨hlength, hget⟩ := List.getElem?_eq_some_iff.mp hchunk
  unfold UtpConnection.handle_data
  rw [hdelivered.ack]
  dsimp only
  split
  · rename_i hseq
    obtain rfl := hnext.mp hseq
    split
    · exact ⟨_, _, hdelivered, hsame⟩
    · rw [← hdelivered.ack]
      obtain ⟨k', held', hdelivered', hgot⟩ := hdelivered.deliver hchunk
      refine ⟨k', held', hdelivered', fun j hj => (hgot j).mpr ?_, fun j hj => ?_⟩
      · exact hj.imp_left Nat.lt_succ_of_lt
      · rcases (hgot j).mp hj with hlt | hmem
        · exact (Nat.lt_succ_iff_lt_or_eq.mp hlt).imp_left Or.inl
        · exact Or.inl (Or.inr hmem)
  · rename_i hseq
    split
    · rename_i hhold
      simp only [Bool.and_eq_true, Bool.not_eq_true', decide_eq_true_eq] at hhold
      obtain ⟨⟨hany, hahead⟩, -⟩ := hhold
      have hne : i ≠ k := fun heq => hseq (hnext.mpr heq)
      have hlow := lt_of_seq_is_ahead hclose hne hahead
      have hnear := hclose.1
      have hnew : i ∉ held := by
        intro hmem
        rw [hdelivered.ooo, List.any_map, List.any_eq_false] at hany
        exact hany i hmem (by simp [held_packet])
      have hpacket : (wrap (2 + i), payload) = held_packet chunks i := by
        rw [held_packet, List.getD_eq_getElem _ _ hlength, hget]
      rw [hpacket, ← hdelivered.ack]
      obtain ⟨held', hdelivered', hgot⟩ := hdelivered.hold hnew ⟨hlow, hlength, by omega⟩
      exact ⟨k, held', hdelivered', fun j hj => (hgot j).mpr (Or.inl hj), fun j hj => (hgot j).mp hj⟩
    · exact ⟨_, _, hdelivered, hsame⟩

theorem Receives.handle_data (h : Receives chunks returned conn) (hchunk : chunks[i]? = some payload)
    (hclose : Close (2 + i) conn.ack_number) :
    Receives chunks returned (conn.handle_data (wrap (2 + i)) payload).2 := by
  obtain ⟨k, held, hdelivered⟩ := h
  obtain ⟨k', held', hdelivered', -⟩ := hdelivered.handle_data hchunk hclose
  exact ⟨k', held', hdelivered'⟩

/-- Everything has been delivered, and the FIN has been taken. -/
structure Finished (chunks : List Bytes) (returned : Bytes) (conn : UtpConnection) : Prop where
  peer_fin : conn.peer_fin = true
  bytes : returned ++ conn.recv_buf = chunks.flatten
  ack : 1 + chunks.length ≤ conn.ack_number
  ooo : conn.ooo = []

/-- A chunk that arrives after the FIN is an old one. -/
theorem Finished.handle_data (h : Finished chunks returned conn) (hi : i < chunks.length)
    (hclose : Close (2 + i) conn.ack_number) (payload : Bytes) :
    (conn.handle_data (wrap (2 + i)) payload).2 = conn := by
  have hack := h.ack
  have hnext : wrap (2 + i) ≠ wrap conn.ack_number + 1 := by
    rw [← wrap_succ]
    intro heq
    have := wrap_inj (by have := hclose.1; omega) (by have := hclose.2; omega) heq
    omega
  have hbehind : seq_is_ahead (wrap (2 + i)) (wrap conn.ack_number) = false := by
    by_contra hahead
    rw [Bool.not_eq_false] at hahead
    simp only [seq_is_ahead, Bool.and_eq_true, decide_eq_true_eq, UInt16.lt_iff_toNat_lt] at hahead
    have hle : conn.ack_number ≤ 2 + i := hclose.wrap_sub_lt_iff.mp hahead.2
    have hsame : conn.ack_number = 2 + i := by omega
    rw [hsame] at hahead
    simp at hahead
  simp [UtpConnection.handle_data, hnext, hbehind]

/-- What has been delivered is everything only if no chunk is left. -/
theorem Delivered.all (h : Delivered chunks returned k held conn) (hnonempty : ∀ chunk ∈ chunks, chunk ≠ [])
    (hall : returned ++ conn.recv_buf = chunks.flatten) : k = chunks.length ∧ conn.ooo = [] := by
  have hdrop : chunks.drop k = [] := by
    have hflatten : (chunks.drop k).flatten = [] := by
      have hsplit : (chunks.take k).flatten ++ (chunks.drop k).flatten = (chunks.take k).flatten := by
        rw [← List.flatten_append, List.take_append_drop, ← hall, h.bytes]
      exact List.append_right_eq_self.mp hsplit
    apply List.eq_nil_iff_forall_not_mem.mpr
    intro chunk hchunk
    exact hnonempty chunk (List.mem_of_mem_drop hchunk) (List.flatten_eq_nil_iff.mp hflatten chunk hchunk)
  have hk : k = chunks.length := by
    have := List.drop_eq_nil_iff.mp hdrop
    have := h.k_le
    omega
  refine ⟨hk, ?_⟩
  have hheld : held = [] := by
    apply List.eq_nil_iff_forall_not_mem.mpr
    intro i hi
    have := h.holds.bounds i hi
    omega
  rw [h.ooo, hheld, List.map_nil]

/-- The receiver, before and after it has taken the FIN. -/
def Hears (chunks : List Bytes) (returned : Bytes) (conn : UtpConnection) : Prop :=
  (conn.peer_fin = false ∧ Receives chunks returned conn) ∨ Finished chunks returned conn

theorem le_ack_fin (conn : UtpConnection) (seq : UInt16) : conn.ack_number ≤ (conn.ack_fin seq).ack_number := by
  simp only [UtpConnection.ack_fin, advance_to]
  split <;> omega

/-- A FIN is taken when everything has been delivered. -/
theorem Hears.ack_fin (h : Hears chunks returned conn) (hnonempty : ∀ chunk ∈ chunks, chunk ≠ [])
    (hall : conn.peer_fin = false → returned ++ conn.recv_buf = chunks.flatten) (seq : UInt16) :
    Hears chunks returned (conn.ack_fin seq) := by
  have hack := le_ack_fin conn seq
  rcases h with ⟨hopen, k, held, hdelivered⟩ | hfinished
  · obtain ⟨hk, hooo⟩ := hdelivered.all hnonempty (hall hopen)
    have := hdelivered.ack
    exact Or.inr ⟨rfl, hall hopen, by omega, hooo⟩
  · have := hfinished.ack
    exact Or.inr ⟨rfl, hfinished.bytes, by omega, hfinished.ooo⟩

end

section
variable {chunks : List Bytes} {returned : Bytes} {conn conn' : UtpConnection} {io : Io}

theorem Hears.congr (h : Hears chunks returned conn) (heq : conn'.received = conn.received) :
    Hears chunks returned conn' := by
  simp only [UtpConnection.received, Prod.mk.injEq] at heq
  obtain ⟨-, hack, -, hbuf, hooo, hfin⟩ := heq
  rcases h with ⟨hopen, k, held, hdelivered⟩ | ⟨hpeer_fin, hbytes, hle, hheld⟩
  · exact Or.inl ⟨hfin.trans hopen, k, held, hack.trans hdelivered.ack, hdelivered.k_le, hbuf ▸ hdelivered.bytes,
      hooo.trans hdelivered.ooo, hdelivered.holds⟩
  · exact Or.inr ⟨hfin.trans hpeer_fin, by rw [hbuf, hbytes], by rw [hack]; exact hle, hooo.trans hheld⟩

/-- The receiver before the datagram of a call has been handled. -/
structure Expecting (chunks : List Bytes) (returned : Bytes) (before conn : UtpConnection) : Prop where
  hears : Hears chunks returned conn
  ack : conn.ack_number = before.ack_number
  peer : conn.peer = before.peer
  recv_buf : conn.recv_buf = before.recv_buf
  peer_fin : conn.peer_fin = before.peer_fin

/-- The receiver afterwards. A FIN that it has taken was sent, and keeps the order if everything had been
    delivered before. -/
structure Heard (chunks : List Bytes) (returned : Bytes) (sent : List Datagram) (before conn : UtpConnection) :
    Prop where
  fin : conn.peer_fin = true → before.peer_fin = true ∨ ∃ datagram ∈ sent, datagram.has_type [.Fin] = true
  hears : (before.peer_fin = false → conn.peer_fin = true → returned ++ before.recv_buf = chunks.flatten) →
    Hears chunks returned conn

variable {before : UtpConnection} {sent : List Datagram}

theorem Heard.congr (h : Heard chunks returned sent before conn) (heq : conn'.received = conn.received) :
    Heard chunks returned sent before conn' := by
  have hfin : conn'.peer_fin = conn.peer_fin := (congrArg (·.2.2.2.2.2) heq :)
  refine ⟨by rw [hfin]; exact h.fin, fun hall => ?_⟩
  rw [hfin] at hall
  exact (h.hears hall).congr heq

theorem Expecting.heard (h : Expecting chunks returned before conn) : Heard chunks returned sent before conn :=
  ⟨fun hfin => Or.inl (h.peer_fin.symm.trans hfin), fun _ => h.hears⟩

theorem Expecting.congr (h : Expecting chunks returned before conn) (heq : conn'.received = conn.received) :
    Expecting chunks returned before conn' := by
  have hhears := h.hears.congr heq
  simp only [UtpConnection.received, Prod.mk.injEq] at heq
  obtain ⟨hpeer, hack, -, hbuf, -, hfin⟩ := heq
  exact ⟨hhears, hack.trans h.ack, hpeer.trans h.peer, hbuf.trans h.recv_buf, hfin.trans h.peer_fin⟩

theorem tolerates_expecting : Tolerates (OnConn (Expecting chunks returned before)) io :=
  .on_conn (fun _ _ _ _ _ h => h.congr rfl) fun _ _ _ h => h.congr rfl

theorem keeps_expecting_send_due : Keeps (OnConn (Expecting chunks returned before)) (send_due io) :=
  ⟨fun task htask => htask.congr (congrArg UtpConnection.received (unsent_send_due io task) :)⟩

/-- A data packet carries its chunk. -/
theorem Expecting.handle_data (h : Expecting chunks returned before conn) (hchunk : chunks[i]? = some payload)
    (hclose : Close (2 + i) before.ack_number) :
    Heard chunks returned sent before (conn.handle_data (wrap (2 + i)) payload).2 := by
  rw [← h.ack] at hclose
  have hfin : (conn.handle_data (wrap (2 + i)) payload).2.peer_fin = conn.peer_fin :=
    (congrArg UtpConnection.peer_fin (unreceived_handle_data conn _ payload) :)
  refine ⟨fun htaken => Or.inl ((hfin.trans h.peer_fin).symm.trans htaken), fun _ => ?_⟩
  rcases h.hears with ⟨hopen, hreceives⟩ | hfinished
  · exact Or.inl ⟨hfin.trans hopen, hreceives.handle_data hchunk hclose⟩
  · rw [hfinished.handle_data (List.getElem?_eq_some_iff.mp hchunk).1 hclose]
    exact Or.inr hfinished

/-- A packet that is no RESET, and carries its chunk if it is a data packet. -/
theorem leads_handle_typ {header : UtpHeader} {sack : Option Sack} (hnonempty : ∀ chunk ∈ chunks, chunk ≠ [])
    (hreset : header.typ ≠ .Reset) (hfin : header.typ = .Fin → ∃ datagram ∈ sent, datagram.has_type [.Fin] = true)
    (hdata : header.typ = .Data → ∃ i, header.seq_number = wrap (2 + i) ∧ chunks[i]? = some payload ∧
      Close (2 + i) before.ack_number) :
    Leads (OnConn (Expecting chunks returned before)) (OnConn (Heard chunks returned sent before))
      (handle_typ io header payload sack) := by
  by_cases htyp : header.typ = .Data
  · obtain ⟨i, hseq, hchunk, hclose⟩ := hdata htyp
    constructor
    intro task htask
    have hacked : Expecting chunks returned before (task.conn.ack_in_flight header.ack_number sack) := htask.congr rfl
    rw [handle_typ_data htyp]
    exact (hacked.handle_data hchunk hclose).congr (by rw [← hseq]; rfl)
  · by_cases htyp' : header.typ = .Fin
    · unfold handle_typ
      rw [htyp']
      apply Leads.keep
      · constructor
        intro task htask
        refine ⟨fun _ => Or.inr (hfin htyp'), fun hall => htask.hears.ack_fin hnonempty ?_ header.seq_number⟩
        intro hopen
        rw [htask.recv_buf]
        exact hall (htask.peer_fin.symm.trans hopen) rfl
      · intro _
        apply keeps_send_state.bind
        intro _
        exact Keeps.pure _
    · have hkeeps : Keeps (OnConn (Expecting chunks returned before)) (handle_typ io header payload sack) := by
        apply tolerates_expecting.handle_typ
        · exact fun hdata => absurd hdata htyp
        · exact fun hfin => absurd hfin htyp'
        · exact fun hreset' => absurd hreset' hreset
      exact ⟨fun task htask => (hkeeps.final task htask).heard⟩

/-- Whatever of the other host's datagrams arrives, what is delivered stays in order. -/
theorem Hears.drive {recv : Recv} {task : Task} (h : Hears chunks returned task.conn) (io : Io)
    (hnonempty : ∀ chunk ∈ chunks, chunk ≠ []) (hspeaks : ∀ datagram ∈ sent, Speaks chunks datagram)
    (hno_reset : ∀ datagram ∈ sent, datagram.has_type [.Reset] = false)
    (hahead : 1 + chunks.length < task.conn.ack_number + 2 ^ 15) (hdeliverable : Deliverable task.conn sent recv) :
    Heard chunks returned sent task.conn (utp.drive io recv task).2.conn := by
  have hstart : OnConn (Expecting chunks returned task.conn) task := ⟨h, rfl, rfl, rfl, rfl⟩
  have hweaken : ∀ task', OnConn (Expecting chunks returned task.conn) task' →
      OnConn (Heard chunks returned sent task.conn) task' :=
    fun _ h => h.heard
  refine (tolerates_expecting.drive hweaken keeps_expecting_send_due ?_).final task hstart
  apply tolerates_expecting.receive_packet (keeps_update fun _ h => h.congr rfl) hweaken
  rintro task' source bytes htask' rfl hsource header payload sack hdecode
  obtain ⟨datagram, hsent, rfl, hfresh⟩ := hdeliverable (hsource.trans htask'.peer)
  obtain ⟨extensions, hfull⟩ := decode_datagram_eq_ok hdecode
  obtain ⟨hseq, hcarries⟩ := hspeaks datagram hsent header extensions payload hfull
  apply leads_handle_typ hnonempty
  · intro hreset
    have hno_reset := hno_reset datagram hsent
    simp [Datagram.has_type, hdecode, hreset] at hno_reset
  · intro hfin
    exact ⟨datagram, hsent, by simp [Datagram.has_type, hdecode, hfin]⟩
  · intro htyp
    obtain ⟨i, hi, hchunk⟩ := hcarries htyp
    have hlength : i < chunks.length := (List.getElem?_eq_some_iff.mp hchunk).1
    have hbehind := hfresh (by simp [Datagram.has_type, hdecode, htyp])
    rw [hi] at hseq hbehind
    exact ⟨i, hseq, hchunk, by omega, by omega⟩

end

end swarmotter.utp
