import Swarmotter.Lib.Slices
import Swarmotter.Lib.Serial
import Swarmotter.Lib.Trial
import Swarmotter.Net.Addr
import Swarmotter.Utp.Codec
import Mathlib.Data.List.Sort
import Mathlib.Data.Nat.Bitwise

open swarmotter.net

namespace swarmotter.utp

-- Instants and durations are counted in microseconds.

def TARGET_DELAY : Nat := 100000

def MIN_CWND : Nat := 1400

def MAX_CWND : Nat := 8 * 1024 * 1024

def GAIN_FACTOR : Nat := 1

def CURRENT_HISTORY : Nat := 8

def BASE_HISTORY : Nat := 4

/-- The initial retransmission timeout, to which an acknowledgement returns. -/
def BASE_RTO : Nat := 500000

def MAX_RTO : Nat := 8000000

/-- The LEDBAT controller. The window is in bytes. -/
structure Ledbat where
  cwnd : Nat
  slow_start : Bool
  /-- The least delay of each period, with the start of the period. -/
  base_history : Vec (Nat × UInt32)
  current_samples : Vec UInt32
  last_echo_delta : UInt32
  rto : Nat
  deriving DecidableEq

def Ledbat.new : Ledbat where
  cwnd := MIN_CWND
  slow_start := true
  base_history := []
  current_samples := []
  last_echo_delta := 0
  rto := BASE_RTO

def Ledbat.window_bytes (self : Ledbat) : Nat := self.cwnd

/-- A sample taken into the last period, or into a new one if ten seconds have passed. -/
def add_base_sample (base_history : Vec (Nat × UInt32)) (now : Nat) (delay : UInt32) : Vec (Nat × UInt32) :=
  match base_history.getLast? with
  | some (start, least) =>
    if now - start > 10000000 then
      let history := base_history ++ [(now, delay)]
      if history.length > BASE_HISTORY then history.drop 1 else history
    else if delay < least then base_history.dropLast ++ [(start, delay)]
    else base_history
  | none => [(now, delay)]

/-- A one-way delay sample at the instant `now`. -/
def Ledbat.on_sample (self : Ledbat) (now : Nat) (delay : UInt32) : Ledbat :=
  let samples := self.current_samples ++ [delay]
  { self with
    last_echo_delta := delay
    current_samples := if samples.length > CURRENT_HISTORY then samples.drop 1 else samples
    base_history := add_base_sample self.base_history now delay }

def Ledbat.base_delay (self : Ledbat) : Nat := ((self.base_history.map fun (_, delay) => delay.toNat).min?).getD 0

def Ledbat.current_delay (self : Ledbat) : Nat := ((self.current_samples.map UInt32.toNat).min?).getD 0

def Ledbat.queuing_delay (self : Ledbat) : Nat := self.current_delay - self.base_delay

/-- The window before it is clamped: it grows below the target delay and shrinks above it. -/
def Ledbat.next_cwnd (self : Ledbat) : Nat :=
  let q := self.queuing_delay
  let target := TARGET_DELAY
  if self.slow_start then
    if target ≤ q then u32.saturating_add self.cwnd (GAIN_FACTOR * 1400)
    else u32.saturating_add self.cwnd 1400
  else if q < target then
    let headroom := target - q
    let gain := u32.saturating_mul 1400 headroom / max target 1
    u32.saturating_add self.cwnd (max gain 1)
  else
    let excess := q - target
    let ratio := min excess target
    let cut := (self.cwnd * ratio / max target 1) % 2 ^ 32
    self.cwnd - max cut 1400

def Ledbat.on_ack (self : Ledbat) : Ledbat :=
  { self with
    slow_start := self.slow_start && self.queuing_delay < TARGET_DELAY
    cwnd := min (max self.next_cwnd MIN_CWND) MAX_CWND
    rto := BASE_RTO }

def Ledbat.on_loss (self : Ledbat) : Ledbat :=
  { self with
    slow_start := false
    cwnd := max (self.cwnd / 2) MIN_CWND
    rto := min (self.rto * 2) MAX_RTO }

/-! The controller with every integer operation checked: none where the operation would overflow its type
or divide by zero. The saturating operations of the source cannot. -/

/-- A value that has to fit a `u32`. -/
def fits_u32 (n : Nat) : Option Nat := if n ≤ u32.MAX then some n else none

def checked_div (a b : Nat) : Option Nat := if b = 0 then none else some (a / b)

/-- The largest `Duration` in whole microseconds: its seconds are a `u64`. -/
def DURATION_MAX : Nat := 2 ^ 64 * 1000000 - 1

/-- `Duration * u32`. -/
def checked_mul_duration (duration n : Nat) : Option Nat :=
  if duration * n ≤ DURATION_MAX then some (duration * n) else none

/-- The window before it is clamped. -/
def Ledbat.checked_next_cwnd (self : Ledbat) : Option Nat := do
  let q := self.queuing_delay
  let target ← fits_u32 TARGET_DELAY
  if self.slow_start then
    if target ≤ q then do
      let gain ← fits_u32 (GAIN_FACTOR * 1400)
      some (u32.saturating_add self.cwnd gain)
    else some (u32.saturating_add self.cwnd 1400)
  else if q < target then do
    let headroom := target - q
    let gain ← checked_div (u32.saturating_mul 1400 headroom) (max target 1)
    some (u32.saturating_add self.cwnd (max gain 1))
  else do
    let excess := q - target
    let ratio := min excess target
    let product ← checked_mul self.cwnd ratio
    let cut ← checked_div product (max target 1)
    let cut ← fits_u32 cut
    some (self.cwnd - max cut 1400)

def Ledbat.checked_on_ack (self : Ledbat) : Option Ledbat := do
  let cwnd ← self.checked_next_cwnd
  some { self with
    slow_start := self.slow_start && self.queuing_delay < TARGET_DELAY
    cwnd := min (max cwnd MIN_CWND) MAX_CWND
    rto := BASE_RTO }

def Ledbat.checked_on_loss (self : Ledbat) : Option Ledbat := do
  let half ← checked_div self.cwnd 2
  let doubled ← checked_mul_duration self.rto 2
  some { self with
    slow_start := false
    cwnd := max half MIN_CWND
    rto := min doubled MAX_RTO }

/-- A call of the controller, with the instant a sample is taken at. -/
inductive LedbatCall where
  | on_sample (now : Nat) (delay : UInt32)
  | on_ack
  | on_loss

def Ledbat.call (self : Ledbat) : LedbatCall → Ledbat
  | .on_sample now delay => self.on_sample now delay
  | .on_ack => self.on_ack
  | .on_loss => self.on_loss

def Ledbat.checked_call (self : Ledbat) : LedbatCall → Option Ledbat
  | .on_sample now delay => some (self.on_sample now delay)
  | .on_ack => self.checked_on_ack
  | .on_loss => self.checked_on_loss

/-- What every sequence of calls keeps. -/
structure Ledbat.InRange (ledbat : Ledbat) : Prop where
  min_cwnd : MIN_CWND ≤ ledbat.cwnd
  max_cwnd : ledbat.cwnd ≤ MAX_CWND
  min_rto : BASE_RTO ≤ ledbat.rto
  max_rto : ledbat.rto ≤ MAX_RTO

theorem fits_u32_eq {n : Nat} (h : n ≤ u32.MAX) : fits_u32 n = some n := if_pos h

theorem checked_div_eq (a : Nat) {b : Nat} (h : b ≠ 0) : checked_div a b = some (a / b) := if_neg h

section
variable {self : Ledbat}

theorem Ledbat.inRange_new : Ledbat.new.InRange where
  min_cwnd := Nat.le_refl _
  max_cwnd := by decide
  min_rto := Nat.le_refl _
  max_rto := by decide

theorem Ledbat.InRange.on_sample (h : self.InRange) (now : Nat) (delay : UInt32) : (self.on_sample now delay).InRange :=
  ⟨h.min_cwnd, h.max_cwnd, h.min_rto, h.max_rto⟩

/-- Whatever the window was to become, it is clamped. -/
theorem Ledbat.inRange_on_ack (self : Ledbat) : self.on_ack.InRange where
  min_cwnd := le_min (le_max_right _ _) (by decide)
  max_cwnd := min_le_right _ _
  min_rto := Nat.le_refl _
  max_rto := (by decide : BASE_RTO ≤ MAX_RTO)

theorem Ledbat.InRange.on_loss (h : self.InRange) : self.on_loss.InRange where
  min_cwnd := le_max_right _ _
  max_cwnd := max_le ((Nat.div_le_self _ _).trans h.max_cwnd) (by decide)
  min_rto := by
    have hrto := h.min_rto
    exact le_min (by omega) (by decide)
  max_rto := min_le_right _ _

/-- The cut above the target is a part of the window, so that neither the product nor the cast loses anything. -/
theorem Ledbat.InRange.checked_next_cwnd (h : self.InRange) : self.checked_next_cwnd = some self.next_cwnd := by
  have htarget : max TARGET_DELAY 1 ≠ 0 := by decide
  have hcwnd := h.max_cwnd
  have hratio : min (self.queuing_delay - TARGET_DELAY) TARGET_DELAY ≤ TARGET_DELAY := min_le_right _ _
  have hproduct : self.cwnd * min (self.queuing_delay - TARGET_DELAY) TARGET_DELAY ≤ MAX_CWND * TARGET_DELAY :=
    Nat.mul_le_mul hcwnd hratio
  have hmul : checked_mul self.cwnd (min (self.queuing_delay - TARGET_DELAY) TARGET_DELAY) =
      some (self.cwnd * min (self.queuing_delay - TARGET_DELAY) TARGET_DELAY) :=
    if_pos (hproduct.trans (by decide))
  have hcut : self.cwnd * min (self.queuing_delay - TARGET_DELAY) TARGET_DELAY / max TARGET_DELAY 1 ≤ MAX_CWND :=
    (Nat.div_le_div_right hproduct).trans (by decide)
  have hfits := fits_u32_eq (hcut.trans (by decide))
  have hmod := Nat.mod_eq_of_lt (Nat.lt_of_le_of_lt hcut (show MAX_CWND < 2 ^ 32 by decide))
  have htarget_fits := fits_u32_eq (show TARGET_DELAY ≤ u32.MAX by decide)
  have hgain_fits := fits_u32_eq (show GAIN_FACTOR * 1400 ≤ u32.MAX by decide)
  unfold Ledbat.checked_next_cwnd Ledbat.next_cwnd
  dsimp only
  rw [htarget_fits, Option.bind_eq_bind, Option.bind_some]
  cases self.slow_start with
  | true =>
    rw [if_pos rfl, if_pos rfl]
    split
    · rw [hgain_fits, Option.bind_some]
    · rfl
  | false =>
    rw [if_neg Bool.false_ne_true, if_neg Bool.false_ne_true]
    split
    · rw [checked_div_eq _ htarget, Option.bind_some]
    · rw [hmul, Option.bind_some, checked_div_eq _ htarget, Option.bind_some, hfits, Option.bind_some, hmod]

theorem Ledbat.InRange.checked_call (h : self.InRange) (call : LedbatCall) :
    self.checked_call call = some (self.call call) ∧ (self.call call).InRange := by
  cases call with
  | on_sample now delay => exact ⟨rfl, h.on_sample now delay⟩
  | on_ack =>
    refine ⟨?_, self.inRange_on_ack⟩
    rw [Ledbat.checked_call, Ledbat.checked_on_ack, h.checked_next_cwnd]
    rfl
  | on_loss =>
    refine ⟨?_, h.on_loss⟩
    have hdouble : checked_mul_duration self.rto 2 = some (self.rto * 2) := by
      have hrto := h.max_rto
      exact if_pos ((Nat.mul_le_mul_right 2 hrto).trans (by decide))
    rw [Ledbat.checked_call, Ledbat.checked_on_loss, checked_div_eq _ (by decide), hdouble]
    rfl

end

/-- Whatever the controller is told, no operation overflows or divides by zero, and the window and the timeout stay in
their range. -/
theorem ledbat_calls_in_range (calls : List LedbatCall) :
    calls.foldlM Ledbat.checked_call Ledbat.new = some (calls.foldl Ledbat.call Ledbat.new) ∧
      1400 ≤ (calls.foldl Ledbat.call Ledbat.new).window_bytes ∧
      (calls.foldl Ledbat.call Ledbat.new).window_bytes ≤ 8 * 1024 * 1024 ∧
      500000 ≤ (calls.foldl Ledbat.call Ledbat.new).rto ∧ (calls.foldl Ledbat.call Ledbat.new).rto ≤ 8000000 := by
  -- the induction is on the calls from any controller in range
  have hrun : ∀ self : Ledbat, self.InRange →
      calls.foldlM Ledbat.checked_call self = some (calls.foldl Ledbat.call self) ∧
        (calls.foldl Ledbat.call self).InRange := by
    induction calls with
    | nil => exact fun self hself => ⟨rfl, hself⟩
    | cons call calls ih =>
      intro self hself
      obtain ⟨hcall, hnext⟩ := hself.checked_call call
      rw [List.foldlM_cons, hcall, List.foldl_cons]
      exact ih _ hnext
  obtain ⟨hchecked, hrange⟩ := hrun _ Ledbat.inRange_new
  exact ⟨hchecked, hrange.min_cwnd, hrange.max_cwnd, hrange.min_rto, hrange.max_rto⟩

/-- A selective acknowledgement: bit `i`, counted from the low bit of the first word, stands for the
    packet `ack + 2 + i`. -/
structure Sack where
  words : Vec UInt32
  deriving DecidableEq, Repr

/-- The words a mask has room for. -/
def max_words : Nat := 8

/-- The mask with one held packet added to it, and whether any packet has been added. -/
def Sack.add_held (ack : UInt16) (state : Vec UInt32 × Bool) (seq : UInt16) : Vec UInt32 × Bool :=
  let off := seq - ack
  if off < 2 ∨ UInt16.ofNat (max_words * 32 + 1) < off then state
  else
    let bit := off.toNat - 2
    if bit / 32 < state.1.length then
      (state.1.modify (bit / 32) (· ||| 1 <<< UInt32.ofNat (bit % 32)), true)
    else state

/-- The mask of the held packets it can represent, without trailing zero words. -/
def Sack.from_held (ack : UInt16) (held : Vec (UInt16 × Bytes)) : Sack :=
  let (words, any) := held.foldl (fun state entry => Sack.add_held ack state entry.1)
    (List.replicate max_words 0, false)
  if any then ⟨(words.reverse.dropWhile (· == 0)).reverse⟩ else ⟨[]⟩

def Sack.is_empty (self : Sack) : Bool := self.words.isEmpty

/-- The distances from the cumulative acknowledgement that are acknowledged. -/
def Sack.offsets (self : Sack) : Vec UInt16 :=
  self.words.zipIdx.flatMap fun (word, index) =>
    ((List.range 32).filter fun bit => word &&& 1 <<< UInt32.ofNat bit ≠ 0).map fun bit =>
      UInt16.ofNat (index * 32 + bit + 2)

def Sack.encode_data (self : Sack) : Bytes := self.words.flatMap fun word => endian.to_le 4 word.toNat

def Sack.parse_data (buf : Bytes) : Result Sack := do
  reject_if (buf = [] ∨ buf.length % 4 ≠ 0)
    (.Parse "uTP SACK extension length must be a non-zero multiple of 4")
  .ok ⟨(slices.chunks 4 buf).map fun chunk => UInt32.ofNat (endian.from_le chunk)⟩

def EXT_SACK : UInt8 := 1

def MAX_PAYLOAD : Nat := 1400

/-- Sixty seconds. -/
def IDLE_TIMEOUT : Nat := 60000000

def SEND_BUFFER_CAP : Nat := 4 * 1024 * 1024

def RECV_WINDOW_DEFAULT : Nat := 4 * 1024 * 1024

inductive RecvOutcome where
  | Delivered
  | Duplicate
  | Closed
  deriving DecidableEq

/-- A sent packet that awaits its acknowledgement. -/
structure InFlight where
  seq : Nat
  payload : Bytes
  sent_at : Nat
  deriving DecidableEq

/-- The connection. Its own sequence counters `seq_next`, `ack_number` and `InFlight.seq` are 16-bit
    integers of the source; here they are the totals these have been advanced to, and the code reads
    no more of them than `serial.wrap`. -/
structure UtpConnection where
  peer : SocketAddr
  send_conn_id : UInt16
  recv_conn_id : UInt16
  seq_next : Nat
  ack_number : Nat
  recv_window : Nat
  peer_window : Nat
  recv_buf : Bytes
  ooo : Vec (UInt16 × Bytes)
  send_buf : Bytes
  in_flight : Vec InFlight
  cwnd : Ledbat
  peer_fin : Bool
  local_fin_sent : Bool
  fin_transmitted : Bool
  closed : Bool
  last_recv : Nat
  last_ack_sent : Nat

/-! The byte stream. -/

def UtpConnection.queued_in_flight_bytes (self : UtpConnection) : Nat :=
  (self.in_flight.map fun p => p.payload.length).sum

/-- What the send buffer can still take. -/
def UtpConnection.room (self : UtpConnection) : Nat :=
  SEND_BUFFER_CAP - (self.send_buf.length + self.queued_in_flight_bytes)

/-- The number of bytes taken into the send buffer. -/
def UtpConnection.write (self : UtpConnection) (buf : Bytes) : Nat × UtpConnection :=
  if self.local_fin_sent ∨ self.closed then (0, self)
  else if buf = [] then (0, self)
  else
    let n := min buf.length self.room
    (n, { self with send_buf := self.send_buf ++ buf.take n })

def UtpConnection.update_recv_window (self : UtpConnection) : UtpConnection :=
  let buffered := self.recv_buf.length + (self.ooo.map fun (_, payload) => payload.length).sum
  { self with recv_window := RECV_WINDOW_DEFAULT - min buffered u32.MAX }

/-- The delivered bytes that fit into a buffer of the given length. -/
def UtpConnection.read (self : UtpConnection) (out_len : Nat) : Bytes × UtpConnection :=
  if self.recv_buf = [] ∧ self.peer_fin then ([], self)
  else
    let n := min self.recv_buf.length out_len
    (self.recv_buf.take n, { self with recv_buf := self.recv_buf.drop n }.update_recv_window)

def UtpConnection.close (self : UtpConnection) : UtpConnection := { self with local_fin_sent := true }

/-! Receiving. -/

def seq_is_ahead (sequence reference : UInt16) : Bool :=
  let distance := sequence - reference
  distance ≠ 0 && distance < 0x8000

/-- Whether `s` is at or before `ack` in sequence space. -/
def seq_at_or_before (s ack : UInt16) : Bool := ack - s < 0x8000 || s == ack

def sack_from_extensions (extensions : Vec UtpExtension) : Result (Option Sack) :=
  match extensions.find? fun extension => extension.kind == EXT_SACK with
  | some extension => do
    let sack ← Sack.parse_data extension.data
    .ok (some sack)
  | none => .ok none

def sack_acks_sequence (sack : Option Sack) (ack sequence : UInt16) : Bool :=
  match sack with
  | some sack => sack.offsets.contains (sequence - ack)
  | none => false

def UtpConnection.ack_in_flight (self : UtpConnection) (ack : UInt16) (sack : Option Sack) : UtpConnection :=
  { self with in_flight := self.in_flight.filter fun packet =>
      !seq_at_or_before (serial.wrap packet.seq) ack && !sack_acks_sequence sack ack (serial.wrap packet.seq) }

/-- The loop of `drain_ooo`, over the acknowledgement number, the read buffer and the held packets. -/
def drain_held (ack : Nat) (recv_buf : Bytes) :
    Vec (UInt16 × Bytes) → Nat × Bytes × Vec (UInt16 × Bytes)
  | [] => (ack, recv_buf, [])
  | (seq, payload) :: rest =>
    if seq = serial.wrap ack + 1 then drain_held (ack + 1) (recv_buf ++ payload) rest
    else (ack, recv_buf, (seq, payload) :: rest)

def UtpConnection.drain_ooo (self : UtpConnection) : UtpConnection :=
  let (ack_number, recv_buf, ooo) := drain_held self.ack_number self.recv_buf self.ooo
  { self with ack_number, recv_buf, ooo }.update_recv_window

/-- The held packets in the order of their distance from the acknowledgement number. -/
def sort_held (ack : UInt16) (held : Vec (UInt16 × Bytes)) : Vec (UInt16 × Bytes) :=
  held.insertionSort fun a b => a.1 - ack ≤ b.1 - ack

/-- A data packet is delivered if it is the next one, and held if it is ahead. -/
def UtpConnection.handle_data (self : UtpConnection) (seq : UInt16) (payload : Bytes) :
    RecvOutcome × UtpConnection :=
  let ack := serial.wrap self.ack_number
  if seq = ack + 1 then
    if self.recv_window < payload.length then (.Duplicate, self)
    else
      (.Delivered, ({ self with
        recv_buf := self.recv_buf ++ payload
        ack_number := self.ack_number + 1 }.drain_ooo).update_recv_window)
  else if !(self.ooo.any fun (s, _) => s == seq) && seq_is_ahead seq ack && payload.length ≤ self.recv_window then
    (.Duplicate, { self with ooo := sort_held ack (self.ooo ++ [(seq, payload)]) }.update_recv_window)
  else (.Duplicate, self)

/-! The task that drives a connection. -/

/-- The outside during one call of `drive`: what the clocks say and whether a datagram can be sent, each
    by the number of questions asked before. -/
structure Io where
  micros : Nat → UInt32
  instant : Nat → Nat
  send_error : Nat → Option CoreError

/-- A datagram that was sent. Its sequence number, of which `bytes` holds the low bits, is recorded
    for the statements about it. -/
structure Datagram where
  dest : SocketAddr
  bytes : Bytes
  seq : Nat
  deriving DecidableEq

structure Task where
  conn : UtpConnection
  calls : Nat
  sent : List Datagram

abbrev UtpM (α : Type) := trial.Trial Task CoreError α

def now_micros (io : Io) : UtpM UInt32 := fun task =>
  (.ok (io.micros task.calls), { task with calls := task.calls + 1 })

/-- `Instant::now`. -/
def now (io : Io) : UtpM Nat := fun task =>
  (.ok (io.instant task.calls), { task with calls := task.calls + 1 })

def send_to (io : Io) (seq : Nat) (bytes : Bytes) : UtpM Unit := fun task =>
  match io.send_error task.calls with
  | some error => (.error error, { task with calls := task.calls + 1 })
  | none => (.ok (), { task with calls := task.calls + 1, sent := task.sent ++ [⟨task.conn.peer, bytes, seq⟩] })

def connection : UtpM UtpConnection := trial.get Task.conn

def update (f : UtpConnection → UtpConnection) : UtpM Unit :=
  trial.modify fun task => { task with conn := f task.conn }

/-! The held packets are the ones that the peer finds in the mask. -/

/-- The bit at a position of a mask, past the end of which there are zeros. -/
def bit_at (words : Vec UInt32) (i : Nat) : Bool := (words.getD (i / 32) 0).toNat.testBit (i % 32)

theorem toNat_one_shiftLeft {bit : Nat} (h : bit < 32) : (1 <<< UInt32.ofNat bit : UInt32).toNat = 2 ^ bit := by
  have hlt : 2 ^ bit < 2 ^ 32 := Nat.pow_lt_pow_right (by decide) h
  rw [UInt32.toNat_shiftLeft, UInt32.toNat_ofNat', Nat.mod_eq_of_lt (by omega : bit < 2 ^ 32), Nat.mod_eq_of_lt h]
  simpa [Nat.shiftLeft_eq] using hlt

theorem Sack.mem_offsets {self : Sack} {offset : UInt16} :
    offset ∈ self.offsets ↔ ∃ i, bit_at self.words i = true ∧ offset = UInt16.ofNat (i + 2) := by
  have hmask (word : UInt32) {bit : Nat} (h : bit < 32) :
      word &&& 1 <<< UInt32.ofNat bit ≠ 0 ↔ word.toNat.testBit bit = true := by
    rw [ne_eq, ← UInt32.toNat_inj, UInt32.toNat_and, toNat_one_shiftLeft h, Nat.and_two_pow]
    cases word.toNat.testBit bit <;> simp
  simp only [Sack.offsets, List.mem_flatMap, List.mem_map, List.mem_filter, List.mem_range, decide_eq_true_eq]
  constructor
  · rintro ⟨⟨word, index⟩, hword, bit, ⟨hbit, hset⟩, rfl⟩
    refine ⟨index * 32 + bit, ?_, rfl⟩
    rw [bit_at, (by omega : (index * 32 + bit) / 32 = index), (by omega : (index * 32 + bit) % 32 = bit),
      List.getD_eq_getElem?_getD, List.mem_zipIdx_iff_getElem?.mp hword]
    exact (hmask word hbit).mp hset
  · rintro ⟨i, hi, rfl⟩
    have hword : self.words[i / 32]? = some (self.words.getD (i / 32) 0) := by
      cases hget : self.words[i / 32]? with
      | none => simp [bit_at, List.getD_eq_getElem?_getD, hget] at hi
      | some word => simp [List.getD_eq_getElem?_getD, hget]
    exact ⟨(_, i / 32), List.mem_zipIdx_iff_getElem?.mpr hword, i % 32, ⟨Nat.mod_lt _ (by decide),
      (hmask _ (Nat.mod_lt _ (by decide))).mpr hi⟩, by rw [Nat.div_add_mod']⟩

/-- A packet that a mask has room for. -/
def Representable (ack seq : UInt16) : Prop := 2 ≤ (seq - ack).toNat ∧ (seq - ack).toNat ≤ 257

/-- What the loop has made of the packets so far. -/
structure Marks (ack : UInt16) (seqs : Vec UInt16) (state : Vec UInt32 × Bool) : Prop where
  length_eq : state.1.length = max_words
  bit_iff : ∀ i, bit_at state.1 i = true ↔ ∃ seq ∈ seqs, Representable ack seq ∧ (seq - ack).toNat = i + 2
  any_of : (∃ seq ∈ seqs, Representable ack seq) → state.2 = true

theorem Marks.add_held {ack seq : UInt16} {seqs : Vec UInt16} {state : Vec UInt32 × Bool} (h : Marks ack seqs state) :
    Marks ack (seqs ++ [seq]) (Sack.add_held ack state seq) := by
  have houtside : (seq - ack < 2 ∨ UInt16.ofNat (max_words * 32 + 1) < seq - ack) ↔ ¬Representable ack seq := by
    simp only [UInt16.lt_iff_toNat_lt, Representable]
    change (_ < 2 ∨ 257 < _) ↔ _
    omega
  unfold Sack.add_held
  dsimp only
  by_cases hseq : Representable ack seq
  · rw [if_neg (by rwa [houtside, not_not])]
    have ⟨hlow, hhigh⟩ := hseq
    rw [if_pos (by rw [h.length_eq, max_words]; omega)]
    refine ⟨by simpa using h.length_eq, fun i => ?_, fun _ => rfl⟩
    have hmodify : bit_at (state.1.modify (((seq - ack).toNat - 2) / 32)
        (· ||| 1 <<< UInt32.ofNat (((seq - ack).toNat - 2) % 32))) i = true ↔
          bit_at state.1 i = true ∨ (seq - ack).toNat = i + 2 := by
      simp only [bit_at, List.getD_eq_getElem?_getD, List.getElem?_modify]
      split
      · next hindex =>
        have hget : i / 32 < state.1.length := by
          rw [h.length_eq, max_words]
          omega
        have hbit : ((seq - ack).toNat - 2) % 32 = i % 32 ↔ (seq - ack).toNat = i + 2 := by omega
        simp [List.getElem?_eq_getElem hget, toNat_one_shiftLeft (Nat.mod_lt _ (by decide : 0 < 32)),
          Nat.testBit_two_pow, hbit]
      · next hindex =>
        have hother : (seq - ack).toNat ≠ i + 2 := by omega
        simp [hother]
    rw [hmodify, h.bit_iff]
    simp [or_and_right, exists_or, hseq]
  · rw [if_pos (houtside.mpr hseq)]
    refine ⟨h.length_eq, fun i => ?_, ?_⟩
    · simp [h.bit_iff, or_and_right, exists_or, hseq]
    · simpa [or_and_right, exists_or, hseq] using h.any_of

theorem marks_from_held (ack : UInt16) (held : Vec (UInt16 × Bytes)) {seqs : Vec UInt16} {state : Vec UInt32 × Bool}
    (h : Marks ack seqs state) :
    Marks ack (seqs ++ held.map Prod.fst) (held.foldl (fun state entry => Sack.add_held ack state entry.1) state) := by
  induction held generalizing seqs state with
  | nil => simpa using h
  | cons entry held ih => simpa using ih h.add_held

/-- Trailing zeros make no difference. -/
theorem bit_at_trim (words : Vec UInt32) (i : Nat) :
    bit_at (words.reverse.dropWhile (· == 0)).reverse i = bit_at words i := by
  induction words using List.reverseRecOn with
  | nil => rfl
  | append_singleton words word ih =>
    rw [List.reverse_append, List.reverse_singleton, List.singleton_append, List.dropWhile_cons]
    split
    · next hzero =>
      rw [ih, bit_at, bit_at, eq_of_beq hzero]
      rcases Nat.lt_trichotomy (i / 32) words.length with hlt | heq | hgt
      · rw [List.getD_append _ _ _ _ hlt]
      · simp [heq]
      · rw [List.getD_eq_default _ _ (by omega), List.getD_eq_default _ _ (by simp; omega)]
    · simp

theorem parse_encode_data {words : Vec UInt32} (h : words ≠ []) :
    Sack.parse_data (Sack.encode_data ⟨words⟩) = .ok ⟨words⟩ := by
  have hlength : (Sack.encode_data ⟨words⟩).length = words.length * 4 := by
    simp [Sack.encode_data, List.length_flatMap]
  have hword (word : UInt32) : UInt32.ofNat (endian.from_le (endian.to_le 4 word.toNat)) = word := by
    rw [endian.from_le, endian.to_le, List.reverse_reverse, endian.from_be_to_be]
    exact (congrArg _ (Nat.mod_eq_of_lt word.toNat_lt)).trans UInt32.ofNat_toNat
  have hchunks :=
    slices.chunks_flatMap (by decide : 0 < 4) (fun word : UInt32 => endian.to_le 4 word.toNat) (by simp) words
  rw [Sack.parse_data, reject_if, if_neg (by rw [← List.length_eq_zero_iff, hlength]; simpa using h), bind_ok,
    Sack.encode_data, hchunks]
  simp [Function.comp_def, hword]

/-- If a packet is held that a mask has room for, then the peer finds exactly these in the mask that is sent. -/
theorem Sack.acks_what_is_held (ack : UInt16) (held : Vec (UInt16 × Bytes))
    (h : ∃ entry ∈ held, 2 ≤ (entry.1 - ack).toNat ∧ (entry.1 - ack).toNat ≤ 257) :
    ∃ sack, Sack.parse_data (Sack.from_held ack held).encode_data = .ok sack ∧
      ∀ s, sack_acks_sequence (some sack) ack s = true ↔
        (∃ payload, (s, payload) ∈ held) ∧ 2 ≤ (s - ack).toNat ∧ (s - ack).toNat ≤ 257 := by
  have hstart : Marks ack [] (List.replicate max_words 0, false) :=
    ⟨by simp, fun i => by simp [bit_at, List.getD_eq_getElem?_getD, List.getElem?_replicate]; split <;> simp, nofun⟩
  have hmarks := marks_from_held ack held hstart
  unfold Sack.from_held
  generalize held.foldl (fun state entry => Sack.add_held ack state entry.1) _ = state at hmarks ⊢
  obtain ⟨words, any⟩ := state
  obtain ⟨-, hbit, hany⟩ := hmarks
  dsimp only at hbit hany ⊢
  simp only [List.nil_append, List.mem_map, exists_exists_and_eq_and] at hbit hany
  rw [if_pos (hany h)]
  have hbits (i : Nat) := (congrArg (· = true) (bit_at_trim words i)).to_iff.trans (hbit i)
  generalize (words.reverse.dropWhile (· == 0)).reverse = words at hbits ⊢
  refine ⟨⟨words⟩, parse_encode_data ?_, fun s => ?_⟩
  · rintro rfl
    obtain ⟨entry, hmem, hlow, hhigh⟩ := h
    have hset := (hbits ((entry.1 - ack).toNat - 2)).mpr ⟨entry, hmem, ⟨hlow, hhigh⟩, by omega⟩
    simp [bit_at] at hset
  · simp only [sack_acks_sequence, List.contains_iff_mem, Sack.mem_offsets, hbits]
    constructor
    · rintro ⟨i, ⟨entry, hmem, hrange, hi⟩, hs⟩
      rw [← hi, UInt16.ofNat_toNat, UInt16.sub_left_inj] at hs
      exact hs ▸ ⟨⟨entry.2, hmem⟩, hrange⟩
    · rintro ⟨⟨payload, hmem⟩, hrange⟩
      refine ⟨(s - ack).toNat - 2, ⟨_, hmem, hrange, (Nat.sub_add_cancel hrange.1).symm⟩, ?_⟩
      rw [Nat.sub_add_cancel hrange.1, UInt16.ofNat_toNat]

/-- Two of the held packets are past the end of the mask. -/
theorem Sack.acks_four_held :
    ∃ sack, Sack.parse_data (Sack.from_held 65534 [(0, [1]), (2, []), (255, []), (9000, [])]).encode_data = .ok sack ∧
      sack_acks_sequence (some sack) 65534 0 = true ∧ sack_acks_sequence (some sack) 65534 9000 = false := by
  obtain ⟨sack, hparse, hacks⟩ := Sack.acks_what_is_held 65534 [(0, [1]), (2, []), (255, []), (9000, [])] (by decide)
  exact ⟨sack, hparse, (hacks 0).mpr ⟨⟨[1], by simp⟩, by decide⟩,
    Bool.eq_false_iff.mpr fun h => absurd ((hacks 9000).mp h).2 (by decide)⟩

/-- A mask without packets is not read back. -/
theorem Sack.empty_rejected : Sack.parse_data (Sack.from_held 0 []).encode_data =
    .error (.Parse "uTP SACK extension length must be a non-zero multiple of 4") :=
  rfl

end swarmotter.utp
