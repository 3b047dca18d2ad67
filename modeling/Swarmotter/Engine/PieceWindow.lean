import Swarmotter.Peer.Bitfield
import Swarmotter.Peer.Assembler
import Swarmotter.Peer.Extensions
import Swarmotter.Peer.Codec
import Mathlib.Data.Finset.Basic
import Mathlib.Data.List.AList
import Mathlib.Data.List.MinMax
import Mathlib.Data.Prod.Lex

open swarmotter.net swarmotter.peer swarmotter.storage swarmotter.meta

namespace swarmotter.engine

/-- The priority of each piece; a piece without one is not selected. -/
structure PieceSelection where
  priorities : Vec (Option Int)

def PieceSelection.includes (self : PieceSelection) (piece : Nat) : Bool :=
  match self.priorities[piece]? with
  | some priority => priority.isSome
  | none => false

def PieceSelection.priority (self : PieceSelection) (piece : Nat) : Int :=
  ((self.priorities[piece]?).join).getD (-2 ^ 31)

/-- One byte of an FNV-1a hash. -/
def hash_byte (hash : UInt64) (byte : UInt8) : UInt64 := (hash ^^^ byte.toUInt64) * 0x100000001b3

/-- `to_be_bytes` of a 16-bit integer. -/
def be_bytes (n : UInt16) : Bytes := [(n >>> 8).toUInt8, n.toUInt8]

/-- `octets` of an address. -/
def ip_octets : IpAddr → Bytes
  | .V4 ip => ip.octets.toList
  | .V6 ip => ip.segments.toList.flatMap be_bytes

/-- Where the search of a peer for a piece starts. -/
def piece_shard (peer_addr : SocketAddr) (piece_count : Nat) : Nat :=
  if piece_count = 0 then 0
  else
    let hash := (ip_octets peer_addr.ip ++ be_bytes peer_addr.port).foldl hash_byte 0xcbf29ce484222325
    hash.toNat % piece_count

/-- The pool of pieces that the sessions of a round share. The availability of a piece is a 16-bit integer of the
source. -/
structure ParallelPieceState where
  shared_have : PieceBitfield
  reserved : Finset Nat
  availability : Vec Nat
  peer_pieces : AList fun _ : SocketAddr => Bitfield
  selection : PieceSelection

/-- The loop over the pieces that changes the availability of those in the bitfield. -/
def each_piece (piece_count : Nat) (bitfield : Bitfield) (change : Nat → Nat) (availability : Vec Nat) : Vec Nat :=
  (List.range piece_count).foldl
    (fun availability i => if bitfield.has i then availability.modify i change else availability) availability

namespace ParallelPieceState

def new (shared_have : PieceBitfield) (piece_count : Nat) (selection : PieceSelection) : ParallelPieceState where
  shared_have
  reserved := ∅
  availability := List.replicate piece_count 0
  peer_pieces := ∅
  selection

/-- The availability without what is recorded for the peer. -/
def forget_peer (self : ParallelPieceState) (peer : SocketAddr) (piece_count : Nat) : Vec Nat :=
  match self.peer_pieces.lookup peer with
  | some previous => each_piece piece_count previous (· - 1) self.availability
  | none => self.availability

def note_peer_bitfield (self : ParallelPieceState) (peer : SocketAddr) (bitfield : Bitfield) (piece_count : Nat) :
    ParallelPieceState :=
  { self with
    peer_pieces := self.peer_pieces.insert peer bitfield
    availability := each_piece piece_count bitfield (u16.saturating_add · 1) (self.forget_peer peer piece_count) }

def note_peer_have (self : ParallelPieceState) (peer : SocketAddr) (piece : UInt32) (piece_count : Nat) :
    ParallelPieceState :=
  let piece := piece.toNat
  if piece ≥ piece_count then self
  else
    let entry := (self.peer_pieces.lookup peer).getD (Bitfield.new piece_count)
    if entry.has piece then { self with peer_pieces := self.peer_pieces.insert peer entry }
    else { self with
      peer_pieces := self.peer_pieces.insert peer (entry.set piece)
      availability := self.availability.modify piece (u16.saturating_add · 1) }

def remove_peer (self : ParallelPieceState) (peer : SocketAddr) (piece_count : Nat) : ParallelPieceState :=
  { self with
    peer_pieces := self.peer_pieces.erase peer
    availability := self.forget_peer peer piece_count }

/-- Whether the peer has the piece, it is selected and missing, and no session has reserved it. -/
def assignable (self : ParallelPieceState) (peer_bf : Bitfield) (i : Nat) : Bool :=
  self.selection.includes i && peer_bf.has i && !self.shared_have.has i && decide (i ∉ self.reserved)

/-- The order of the integers that computes. -/
local instance : Preorder Intᵒᵈ := @OrderDual.instPreorder Int Int.instLinearOrder.toPreorder

/-- The higher priority comes first, then the lower availability. -/
def reservation_key (self : ParallelPieceState) (i : Nat) : Lex (Intᵒᵈ × Nat) :=
  toLex (OrderDual.toDual (self.selection.priority i), max ((self.availability[i]?).getD 0) 1)

/-- The assignable pieces in the order of the search, and the first of those that come first. -/
def reserve_piece (self : ParallelPieceState) (peer_bf : Bitfield) (peer_addr : SocketAddr) (piece_count : Nat) :
    Option Nat × ParallelPieceState :=
  let shard := piece_shard peer_addr piece_count
  let pieces := ((List.range piece_count).map fun offset => (shard + offset) % piece_count).filter
    (self.assignable peer_bf)
  match pieces.argmin self.reservation_key with
  | some piece => (some piece, { self with reserved := insert piece self.reserved })
  | none => (none, self)

def release_piece (self : ParallelPieceState) (piece : Nat) : ParallelPieceState :=
  { self with reserved := self.reserved.erase piece }

end ParallelPieceState

theorem getElem?_each_piece (piece_count : Nat) (bitfield : Bitfield) (change : Nat → Nat) (availability : Vec Nat)
    (i : Nat) :
    (each_piece piece_count bitfield change availability)[i]? =
      if i < piece_count ∧ bitfield.has i = true then (availability[i]?).map change else availability[i]? := by
  induction piece_count with
  | zero => simp [each_piece]
  | succ n ih =>
    unfold each_piece at ih ⊢
    rw [List.range_succ, List.foldl_append, List.foldl_cons, List.foldl_nil]
    by_cases hn : bitfield.has n = true
    · rw [if_pos hn, List.getElem?_modify, ih]
      by_cases hi : n = i
      · subst hi
        rw [if_neg (by omega), if_pos ⟨Nat.lt_succ_self n, hn⟩]
        simp
      · have hiff : i < n + 1 ∧ bitfield.has i = true ↔ i < n ∧ bitfield.has i = true :=
          and_congr_left fun _ => by omega
        simp only [hiff, if_neg hi]
        simp
    · rw [if_neg hn, ih]
      have hiff : i < n + 1 ∧ bitfield.has i = true ↔ i < n ∧ bitfield.has i = true := by
        constructor
        · rintro ⟨hlt, hhas⟩
          have hne : i ≠ n := fun heq => hn (heq ▸ hhas)
          exact ⟨by omega, hhas⟩
        · exact fun h => ⟨by omega, h.2⟩
      simp only [hiff]

/-! The sessions of a round, each of which downloads the pieces it has reserved from the pool. -/

def NORMAL_REQUEST_FLOOR : Nat := 64

def NORMAL_REQUEST_FALLBACK_CAP : Nat := 2000

def NORMAL_REQUEST_LOCAL_CAP : Nat := 4000

def NORMAL_REQUEST_TARGET_BUFFER_SECS : Nat := 10

def NORMAL_PEER_PIECE_WINDOW : Nat := 32

/-! The pieces of a session. -/

structure ParallelPieceDownload where
  piece_index : Nat
  reqs : Vec (Nat × Nat)
  next_req : Nat
  in_flight : Nat
  outstanding_blocks : AList fun _ : Nat => Nat
  assembler : PieceAssembler

namespace ParallelPieceDownload

def new (piece_index piece_len : Nat) : ParallelPieceDownload where
  piece_index
  reqs := block_requests piece_len
  next_req := 0
  in_flight := 0
  outstanding_blocks := ∅
  assembler := .new piece_index piece_len

/-- The loop of `send_more`, over the download and the requests of the session in flight. A write fails when `writes`
have succeeded, if that is a number; the requests that are left are fuel enough. -/
def send_loop (request_budget : Nat) : Nat → Option Nat → ParallelPieceDownload → Nat →
    Bool × ParallelPieceDownload × Nat
  | 0, _, self, global_in_flight => (true, self, global_in_flight)
  | fuel + 1, writes, self, global_in_flight =>
    match self.reqs[self.next_req]? with
    | some (offset, length) =>
      if global_in_flight < request_budget then
        if writes = some 0 then (false, self, global_in_flight)
        else send_loop request_budget fuel (writes.map (· - 1))
          { self with
            next_req := self.next_req + 1
            in_flight := self.in_flight + 1
            outstanding_blocks := self.outstanding_blocks.insert offset length } (global_in_flight + 1)
      else (true, self, global_in_flight)
    | none => (true, self, global_in_flight)

def send_more (self : ParallelPieceDownload) (global_in_flight request_budget : Nat) (writes : Option Nat) :
    Bool × ParallelPieceDownload × Nat :=
  send_loop request_budget (self.reqs.length - self.next_req) writes self global_in_flight

/-- Whether the piece is complete now, if the block was asked for. -/
def record_block (self : ParallelPieceDownload) (offset : Nat) (block : Bytes) (global_in_flight : Nat) :
    Result (Option Bool × ParallelPieceDownload × Nat) :=
  match self.outstanding_blocks.lookup offset with
  | some expected_len =>
    if block.length ≠ expected_len then .ok (none, self, global_in_flight)
    else do
      let (complete, assembler) ← self.assembler.add_block offset block
      pure (some complete,
        { self with
          outstanding_blocks := self.outstanding_blocks.erase offset
          in_flight := self.in_flight - 1
          assembler }, global_in_flight - 1)
  | none => .ok (none, self, global_in_flight)

end ParallelPieceDownload

/-! The number of requests a session aims at. -/

structure PeerRequestWindow where
  cap : Nat
  smoothed_rate_bps : Nat

namespace PeerRequestWindow

/-- `clamp(1, NORMAL_REQUEST_LOCAL_CAP)`. -/
def clamp (cap : Nat) : Nat := min (max cap 1) NORMAL_REQUEST_LOCAL_CAP

def new (remote_reqq : Option Nat) : PeerRequestWindow where
  cap := clamp ((remote_reqq.filter (0 < ·)).getD NORMAL_REQUEST_FALLBACK_CAP)
  smoothed_rate_bps := 0

def set_remote_reqq (self : PeerRequestWindow) (remote_reqq : Option Nat) : PeerRequestWindow :=
  match remote_reqq.filter (0 < ·) with
  | some remote_reqq => { self with cap := clamp remote_reqq }
  | none => self

/-- The rate is measured anew every 500 milliseconds. -/
def record_block (self : PeerRequestWindow) (rate : Option Nat) : PeerRequestWindow :=
  { self with smoothed_rate_bps := rate.getD self.smoothed_rate_bps }

def desired_in_flight (self : PeerRequestWindow) : Nat :=
  let floor := min NORMAL_REQUEST_FLOOR self.cap
  let estimated := min (self.smoothed_rate_bps * NORMAL_REQUEST_TARGET_BUFFER_SECS) (2 ^ 64 - 1) / BLOCK_SIZE
  min (max estimated floor) self.cap

end PeerRequestWindow

/-! Sessions. -/

/-- The torrent of a round, which validation has passed, and the check of the hash of a piece. -/
structure Work where
  sha : Sha
  torrent : TorrentMeta
  valid : Valid sha torrent
  verify_piece : Nat → Bytes → Bool

/-- What a session has found out about a piece that it is about to release. -/
inductive PieceOutcome where
  | Stored
  | WriteFailed
  | HashMismatch
  /-- The requests could not be sent. -/
  | Unsent (first : Bool)

/-- Where a session is between two of its suspension points. A window is filled a first time when it is opened, and
again when a piece is complete. -/
inductive WindowPhase where
  /-- No window is open. -/
  | Idle
  /-- About to count the pieces that are left for the session. -/
  | Counting (first : Bool)
  /-- About to reserve a piece. -/
  | Filling (first : Bool) (max_for_this_session : Nat)
  /-- A piece is reserved, and its requests are about to be sent. -/
  | Requesting (first : Bool) (max_for_this_session : Nat) (download : ParallelPieceDownload)
  /-- Waiting for a message. -/
  | Receiving
  | Finishing (piece_index : Nat) (outcome : PieceOutcome)
  /-- The window is closed, and its pieces are about to be released. -/
  | Releasing
  | Ended

structure ParallelSession where
  peer_socket : SocketAddr
  candidate_count : Nat
  peer_bf : Option Bitfield
  peer_choking : Bool
  request_window : PeerRequestWindow
  downloads : AList fun _ : Nat => ParallelPieceDownload
  global_in_flight : Nat
  failed : Bool
  received_any : Bool
  phase : WindowPhase

/-- What a session meets at a suspension point. -/
inductive SessionInput where
  /-- It has the lock, or can write until `writes` writes have succeeded. -/
  | Proceed (writes : Option Nat)
  /-- A message of the peer, with the rate that is measured, the writes that succeed and whether a piece can be
  stored. -/
  | Hear (message : Message) (rate writes : Option Nat) (stored : Bool)
  /-- The end of the stream, a timeout, the deadline or, with `failed`, an error. -/
  | Stop (failed : Bool)

namespace ParallelSession

def new (peer_socket : SocketAddr) (candidate_count : Nat) : ParallelSession where
  peer_socket
  candidate_count
  peer_bf := none
  peer_choking := true
  request_window := .new none
  downloads := ∅
  global_in_flight := 0
  failed := false
  received_any := false
  phase := .Idle

/-- The pieces that are left for the session. -/
def remaining_pieces (pool : ParallelPieceState) (peer_bf : Bitfield) (piece_count : Nat) : Nat :=
  ((List.range piece_count).filter (pool.assignable peer_bf)).length

def max_for_session (self : ParallelSession) (pool : ParallelPieceState) (peer_bf : Bitfield)
    (piece_count : Nat) : Nat :=
  let candidates := max self.candidate_count 1
  min NORMAL_PEER_PIECE_WINDOW ((remaining_pieces pool peer_bf piece_count + candidates - 1) / candidates)

/-- The session has ended, and its peer is forgotten. -/
def finish (self : ParallelSession) (pool : ParallelPieceState) (piece_count : Nat) :
    ParallelPieceState × ParallelSession :=
  (pool.remove_peer self.peer_socket piece_count, { self with phase := .Ended })

/-- `fill_parallel_piece_window` has returned. -/
def filled (self : ParallelSession) (pool : ParallelPieceState) (piece_count : Nat) (first ok : Bool) :
    ParallelPieceState × ParallelSession :=
  let session := { self with failed := self.failed || !ok }
  if first then
    if session.downloads.entries.isEmpty then session.finish pool piece_count
    else (pool, { session with phase := .Receiving })
  else (pool, { session with phase := if ok then .Receiving else .Releasing })

/-- What is learnt from a message, in a window or outside of it. -/
def learn (self : ParallelSession) (pool : ParallelPieceState) (piece_count : Nat) :
    Message → ParallelPieceState × ParallelSession
  | .Choke => (pool, { self with peer_choking := true })
  | .Unchoke => (pool, { self with peer_choking := false })
  | .Have piece =>
    (pool.note_peer_have self.peer_socket piece piece_count,
      { self with peer_bf := some ((self.peer_bf.getD (.new piece_count)).set piece.toNat) })
  | .Bitfield bits =>
    let bf := Bitfield.from_bytes bits piece_count
    (pool.note_peer_bitfield self.peer_socket bf piece_count, { self with peer_bf := some bf })
  | .Extended id payload =>
    if id = extensions.EXTENSION_HANDSHAKE_ID then
      match extensions.parse_extension_handshake payload with
      | .ok handshake => (pool, { self with request_window := self.request_window.set_remote_reqq handshake.reqq })
      | .error _ => (pool, self)
    else (pool, self)
  | _ => (pool, self)

/-- A block of a piece of the window. -/
def receive_block (work : Work) (self : ParallelSession) (piece_index offset : Nat) (block : Bytes)
    (rate writes : Option Nat) (stored : Bool) : ParallelSession :=
  match self.downloads.lookup piece_index with
  | none => self
  | some download =>
    match download.record_block offset block self.global_in_flight with
    | .error _ => { self with failed := true, phase := .Releasing }
    | .ok (none, _, _) => self
    | .ok (some complete, download, global_in_flight) =>
      let session := { self with
        request_window := self.request_window.record_block rate
        received_any := true }
      if complete then
        let outcome :=
          if work.verify_piece piece_index download.assembler.data then
            if stored then PieceOutcome.Stored else .WriteFailed
          else .HashMismatch
        { session with
          downloads := session.downloads.erase piece_index
          global_in_flight
          phase := .Finishing piece_index outcome }
      else
        let (ok, download, global_in_flight) :=
          download.send_more global_in_flight session.request_window.desired_in_flight writes
        let session := { session with downloads := session.downloads.insert piece_index download, global_in_flight }
        if ok then session else { session with failed := true, phase := .Releasing }

/-- A piece that is held in the hand of the session is released. -/
def release_finished (self : ParallelSession) (pool : ParallelPieceState) (piece_count piece_index : Nat)
    (writes : Option Nat) : PieceOutcome → ParallelPieceState × ParallelSession
  | .Stored =>
    let shared_have := if pool.shared_have.has piece_index then pool.shared_have else pool.shared_have.set piece_index
    ({ pool with shared_have }.release_piece piece_index,
      if writes = some 0 then { self with failed := true, phase := .Releasing }
      else { self with phase := .Counting false })
  | .WriteFailed => (pool.release_piece piece_index, { self with failed := true, phase := .Releasing })
  | .HashMismatch => (pool.release_piece piece_index, { self with phase := .Receiving })
  | .Unsent first => self.filled (pool.release_piece piece_index) piece_count first false

/-- The session goes on. -/
def proceed (work : Work) (self : ParallelSession) (pool : ParallelPieceState) (writes : Option Nat) :
    ParallelPieceState × ParallelSession :=
  let piece_count := work.torrent.piece_count
  match self.phase, self.peer_bf with
  | .Idle, some _ =>
    if self.peer_choking then (pool, self)
    else (pool, { self with
      downloads := ∅
      global_in_flight := 0
      failed := false
      received_any := false
      phase := .Counting true })
  | .Counting first, some peer_bf =>
    (pool, { self with phase := .Filling first (self.max_for_session pool peer_bf piece_count) })
  | .Filling first max_for_this_session, some peer_bf =>
    if self.downloads.entries.length < max_for_this_session ∧
        self.global_in_flight < self.request_window.desired_in_flight then
      match pool.reserve_piece peer_bf self.peer_socket piece_count with
      | (some piece_index, pool) =>
        match work.torrent.piece_length_for_index_u32 piece_index with
        | .ok piece_len =>
          (pool, { self with phase := .Requesting first max_for_this_session (.new piece_index piece_len) })
        | .error _ => self.filled pool piece_count first false
      | (none, pool) => self.filled pool piece_count first true
    else self.filled pool piece_count first true
  | .Requesting first max_for_this_session download, _ =>
    match download.send_more self.global_in_flight self.request_window.desired_in_flight writes with
    | (true, download, global_in_flight) =>
      (pool, { self with
        downloads := self.downloads.insert download.piece_index download
        global_in_flight
        phase := .Filling first max_for_this_session })
    | (false, download, global_in_flight) =>
      (pool, { self with global_in_flight, phase := .Finishing download.piece_index (.Unsent first) })
  | .Receiving, _ => (pool, if self.downloads.entries.isEmpty then { self with phase := .Releasing } else self)
  | .Finishing piece_index outcome, _ => self.release_finished pool piece_count piece_index writes outcome
  | .Releasing, _ =>
    match self.downloads.entries with
    | ⟨piece_index, _⟩ :: _ =>
      (pool.release_piece piece_index, { self with downloads := self.downloads.erase piece_index })
    | [] =>
      if self.failed ∨ ¬self.received_any then self.finish pool piece_count
      else (pool, { self with phase := .Idle })
  | _, _ => (pool, self)

/-- A message outside of a window, or in one that has pieces left. -/
def hear (work : Work) (self : ParallelSession) (pool : ParallelPieceState) (message : Message)
    (rate writes : Option Nat) (stored : Bool) : ParallelPieceState × ParallelSession :=
  match self.phase with
  | .Idle =>
    if self.peer_choking ∨ self.peer_bf.isNone then self.learn pool work.torrent.piece_count message else (pool, self)
  | .Receiving =>
    if self.downloads.entries.isEmpty then (pool, self)
    else
      match message with
      | .Piece piece offset block =>
        (pool, self.receive_block work piece.toNat offset.toNat block rate writes stored)
      | .Choke => (pool, { self with peer_choking := true, phase := .Releasing })
      | message => self.learn pool work.torrent.piece_count message
  | _ => (pool, self)

def stop (work : Work) (self : ParallelSession) (pool : ParallelPieceState) (failed : Bool) :
    ParallelPieceState × ParallelSession :=
  match self.phase with
  | .Idle => self.finish pool work.torrent.piece_count
  | .Receiving => (pool, { self with failed := self.failed || failed, phase := .Releasing })
  | _ => (pool, self)

def step (work : Work) (self : ParallelSession) (pool : ParallelPieceState) :
    SessionInput → ParallelPieceState × ParallelSession
  | .Proceed writes => self.proceed work pool writes
  | .Hear message rate writes stored => self.hear work pool message rate writes stored
  | .Stop failed => self.stop work pool failed

end ParallelSession

/-! Rounds. -/

/-- The pool of a round and its sessions. -/
structure Round where
  pool : ParallelPieceState
  sessions : Vec ParallelSession

inductive RoundEvent where
  | Spawn (peer_socket : SocketAddr) (candidate_count : Nat)
  | Act (session : Nat) (input : SessionInput)

def Round.start (work : Work) (shared_have : PieceBitfield) (selection : PieceSelection) : Round :=
  ⟨.new shared_have work.torrent.piece_count selection, []⟩

def Round.step (work : Work) (self : Round) : RoundEvent → Round
  | .Spawn peer_socket candidate_count =>
    { self with sessions := self.sessions ++ [.new peer_socket candidate_count] }
  | .Act index input =>
    match self.sessions[index]? with
    | some session =>
      let (pool, session) := session.step work self.pool input
      ⟨pool, self.sessions.set index session⟩
    | none => self

/-- A round after some events. -/
def Round.run (work : Work) (shared_have : PieceBitfield) (selection : PieceSelection) (events : List RoundEvent) :
    Round :=
  events.foldl (Round.step work) (Round.start work shared_have selection)

/-- A request has been written. -/
def ParallelPieceDownload.requested (self : ParallelPieceDownload) (offset length : Nat) : ParallelPieceDownload :=
  { self with
    next_req := self.next_req + 1
    in_flight := self.in_flight + 1
    outstanding_blocks := self.outstanding_blocks.insert offset length }

/-- What every request that is written preserves. -/
theorem ParallelPieceDownload.send_loop_keeps {inv : ParallelPieceDownload → Nat → Prop}
    (hnext : ∀ {download global_in_flight offset length}, inv download global_in_flight →
      download.reqs[download.next_req]? = some (offset, length) →
        inv (download.requested offset length) (global_in_flight + 1))
    (request_budget fuel : Nat) (writes : Option Nat) {download : ParallelPieceDownload} {global_in_flight : Nat}
    (h : inv download global_in_flight) :
    let sent := send_loop request_budget fuel writes download global_in_flight
    inv sent.2.1 sent.2.2 := by
  induction fuel generalizing writes download global_in_flight with
  | zero => exact h
  | succ fuel ih =>
    unfold send_loop
    split
    · next hrequest =>
      split
      · split
        · exact h
        · exact ih _ (hnext h hrequest)
      · exact h
    · exact h

end swarmotter.engine
