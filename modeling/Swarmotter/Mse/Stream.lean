import Swarmotter.Bytes
import Swarmotter.Lib.Keystream

namespace swarmotter.mse

def RC4_DROP_BYTES : Nat := 1024

structure Rc4Cipher where
  s : Vector UInt8 256
  i : UInt8
  j : UInt8
  deriving DecidableEq, Repr

namespace Rc4Cipher

def next_byte (cipher : Rc4Cipher) : UInt8 × Rc4Cipher :=
  let i := cipher.i + 1
  let j := cipher.j + cipher.s.get i.toFin
  let s := cipher.s.swap i.toNat j.toNat i.toNat_lt j.toNat_lt
  let idx := s.get i.toFin + s.get j.toFin
  (s.get idx.toFin, ⟨s, i, j⟩)

/-- One turn of the key schedule. -/
def schedule (key : Vector UInt8 20) (state : Vector UInt8 256 × UInt8) (i : Fin 256) : Vector UInt8 256 × UInt8 :=
  let j := state.2 + state.1.get i + key.get ⟨i.val % 20, Nat.mod_lt _ (by decide)⟩
  (state.1.swap i.val j.toNat i.isLt j.toNat_lt, j)

def new (key : Vector UInt8 20) : Rc4Cipher :=
  let scheduled := (List.finRange 256).foldl (schedule key) (Vector.ofFn fun i => UInt8.ofNat i.val, 0)
  keystream.skip next_byte RC4_DROP_BYTES ⟨scheduled.1, 0, 0⟩

def apply (cipher : Rc4Cipher) (buf : Bytes) : Bytes × Rc4Cipher := keystream.apply next_byte cipher buf

/-- The next bytes of the keystream. -/
def keys (cipher : Rc4Cipher) (n : Nat) : Bytes := keystream.keys next_byte n cipher

@[simp] theorem apply_nil (cipher : Rc4Cipher) : cipher.apply [] = ([], cipher) := rfl

theorem apply_fst_eq (cipher : Rc4Cipher) (buf : Bytes) :
    (cipher.apply buf).1 = List.zipWith (· ^^^ ·) buf (cipher.keys buf.length) := by
  rw [apply, keystream.apply_eq]
  rfl

theorem length_apply (cipher : Rc4Cipher) (buf : Bytes) : (cipher.apply buf).1.length = buf.length :=
  keystream.length_apply next_byte cipher buf

theorem apply_append (cipher : Rc4Cipher) (front back : Bytes) :
    cipher.apply (front ++ back) =
      ((cipher.apply front).1 ++ ((cipher.apply front).2.apply back).1, ((cipher.apply front).2.apply back).2) :=
  keystream.apply_append next_byte cipher front back

end Rc4Cipher

/-- `std::task::Poll`. -/
inductive Poll (α : Type) where
  | Ready (value : α)
  | Pending
  deriving DecidableEq, Repr

/-- `std::io::Error`. -/
inductive IoError where
  | WriteZero (message : String)
  | Other (message : String)
  deriving DecidableEq, Repr

/-- A read is given the room in the buffer and returns what it puts there. No bytes mean the end of the stream. -/
class AsyncRead (S : Type) where
  poll_read : S → Nat → Poll (Except IoError Bytes) × S

class AsyncWrite (S : Type) where
  poll_write : S → Bytes → Poll (Except IoError Nat) × S
  poll_flush : S → Poll (Except IoError Unit) × S
  poll_shutdown : S → Poll (Except IoError Unit) × S

/-- A peer byte stream after the negotiation. -/
structure MseStream (S : Type) where
  stream : S
  incoming : Rc4Cipher
  outgoing : Rc4Cipher
  read_prefix_bytes : Bytes
  pending_write : Bytes
  pending_offset : Nat

/-- A stream together with all that was read from it and written to it. -/
structure Recorded (S : Type) where
  stream : S
  delivered : Bytes
  received : Bytes

namespace Recorded

variable {S : Type}

instance [AsyncRead S] : AsyncRead (Recorded S) where
  poll_read recorded room :=
    match AsyncRead.poll_read recorded.stream room with
    | (.Ready (.ok bytes), stream) =>
      (.Ready (.ok bytes), { recorded with stream := stream, delivered := recorded.delivered ++ bytes })
    | (outcome, stream) => (outcome, { recorded with stream := stream })

instance [AsyncWrite S] : AsyncWrite (Recorded S) where
  poll_write recorded buf :=
    match AsyncWrite.poll_write recorded.stream buf with
    | (.Ready (.ok n), stream) =>
      (.Ready (.ok n), { recorded with stream := stream, received := recorded.received ++ buf.take n })
    | (outcome, stream) => (outcome, { recorded with stream := stream })
  poll_flush recorded :=
    ((AsyncWrite.poll_flush recorded.stream).1,
      { recorded with stream := (AsyncWrite.poll_flush recorded.stream).2 })
  poll_shutdown recorded :=
    ((AsyncWrite.poll_shutdown recorded.stream).1,
      { recorded with stream := (AsyncWrite.poll_shutdown recorded.stream).2 })

def start (stream : S) : Recorded S := ⟨stream, [], []⟩

section
variable [AsyncRead S] {recorded recorded' : Recorded S} {room : Nat}

theorem delivered_of_ok {bytes : Bytes} (h : AsyncRead.poll_read recorded room = (.Ready (.ok bytes), recorded')) :
    recorded'.delivered = recorded.delivered ++ bytes := by
  simp only [AsyncRead.poll_read] at h
  split at h
  · obtain ⟨hpoll, rfl⟩ := Prod.mk.inj h
    cases hpoll
    rfl
  · rename_i outcome stream hother hpoll
    obtain ⟨rfl, -⟩ := Prod.mk.inj h
    exact absurd rfl (hother bytes)

theorem delivered_of_ne_ok {outcome : Poll (Except IoError Bytes)}
    (h : AsyncRead.poll_read recorded room = (outcome, recorded')) (hne : ∀ bytes, outcome ≠ .Ready (.ok bytes)) :
    recorded'.delivered = recorded.delivered := by
  simp only [AsyncRead.poll_read] at h
  split at h
  · obtain ⟨hpoll, -⟩ := Prod.mk.inj h
    exact absurd hpoll.symm (hne _)
  · obtain ⟨-, rfl⟩ := Prod.mk.inj h
    rfl

end

section
variable [AsyncWrite S] {recorded recorded' : Recorded S} {buf : Bytes}

theorem received_of_ok {n : Nat} (h : AsyncWrite.poll_write recorded buf = (.Ready (.ok n), recorded')) :
    recorded'.received = recorded.received ++ buf.take n := by
  simp only [AsyncWrite.poll_write] at h
  split at h
  · obtain ⟨hpoll, rfl⟩ := Prod.mk.inj h
    cases hpoll
    rfl
  · rename_i outcome stream hother hpoll
    obtain ⟨rfl, -⟩ := Prod.mk.inj h
    exact absurd rfl (hother n)

theorem received_of_ne_ok {outcome : Poll (Except IoError Nat)}
    (h : AsyncWrite.poll_write recorded buf = (outcome, recorded')) (hne : ∀ n, outcome ≠ .Ready (.ok n)) :
    recorded'.received = recorded.received := by
  simp only [AsyncWrite.poll_write] at h
  split at h
  · obtain ⟨hpoll, -⟩ := Prod.mk.inj h
    exact absurd hpoll.symm (hne _)
  · obtain ⟨-, rfl⟩ := Prod.mk.inj h
    rfl

theorem poll_write_fst : (AsyncWrite.poll_write recorded buf).1 = (AsyncWrite.poll_write recorded.stream buf).1 := by
  simp only [AsyncWrite.poll_write]
  split
  · rename_i hpoll
    rw [hpoll]
  · rename_i hpoll
    rw [hpoll]

end

end Recorded

/-- A stream that follows a script: the outcomes of the reads and of the writes, where `none` is not ready. It ends
    behind the last read and takes everything behind the last write. -/
structure Pipe where
  reads : List (Option Bytes)
  writes : List (Option Nat)
  deriving DecidableEq, Repr

instance : AsyncRead Pipe where
  poll_read pipe room :=
    match pipe.reads with
    | [] => (.Ready (.ok []), pipe)
    | none :: rest => (.Pending, { pipe with reads := rest })
    | some bytes :: rest =>
      (.Ready (.ok (bytes.take room)),
        { pipe with reads := if bytes.length ≤ room then rest else some (bytes.drop room) :: rest })

/-- A write takes one byte more than the script says, as far as there are bytes. -/
instance : AsyncWrite Pipe where
  poll_write pipe buf :=
    match pipe.writes with
    | [] => (.Ready (.ok buf.length), pipe)
    | none :: rest => (.Pending, { pipe with writes := rest })
    | some n :: rest => (.Ready (.ok (min (n + 1) buf.length)), { pipe with writes := rest })
  poll_flush pipe := (.Ready (.ok ()), pipe)
  poll_shutdown pipe := (.Ready (.ok ()), pipe)

namespace MseStream

variable {S : Type}

def new (stream : S) (incoming outgoing : Rc4Cipher) (read_prefix_bytes : Bytes) : MseStream S :=
  ⟨stream, incoming, outgoing, read_prefix_bytes, [], 0⟩

/-- The bytes that move from the front of the first list into the room, and those that stay. -/
def pop_front : Bytes → Nat → Bytes × Bytes
  | bytes, 0 => ([], bytes)
  | [], _ + 1 => ([], [])
  | byte :: bytes, room + 1 =>
    let popped := pop_front bytes room
    (byte :: popped.1, popped.2)

theorem pop_front_eq (bytes : Bytes) (room : Nat) : pop_front bytes room = (bytes.take room, bytes.drop room) := by
  fun_induction pop_front bytes room with
  | case1 bytes => rfl
  | case2 room => rfl
  | case3 byte bytes room popped ih =>
    simp only [popped, ih]
    rfl

/-- The outcome, what the call has put into the buffer, and the stream. -/
def poll_read [AsyncRead S] (mse : MseStream S) (remaining : Nat) :
    Poll (Except IoError Unit) × Bytes × MseStream S :=
  let popped := pop_front mse.read_prefix_bytes remaining
  let mse := { mse with read_prefix_bytes := popped.2 }
  if remaining - popped.1.length = 0 then (.Ready (.ok ()), popped.1, mse)
  else
    match AsyncRead.poll_read mse.stream (remaining - popped.1.length) with
    | (.Ready (.ok bytes), stream) =>
      let decrypted := mse.incoming.apply bytes
      (.Ready (.ok ()), popped.1 ++ decrypted.1, { mse with stream := stream, incoming := decrypted.2 })
    | (.Ready (.error error), stream) => (.Ready (.error error), popped.1, { mse with stream := stream })
    | (.Pending, stream) => (.Pending, popped.1, { mse with stream := stream })

/-- What a caller has after reads with these buffers: a buffer counts if the read was ready. -/
def read_calls [AsyncRead S] : MseStream S → List Nat → Bytes × MseStream S
  | mse, [] => ([], mse)
  | mse, remaining :: rest =>
    let read := mse.poll_read remaining
    let later := read_calls read.2.2 rest
    ((if read.1 = .Ready (.ok ()) then read.2.1 else []) ++ later.1, later.2)

/-! What the caller obtains. -/

section
variable [AsyncRead S]

/-- The buffer is full before the inner stream is asked. -/
theorem poll_read_of_le {mse : MseStream S} {remaining : Nat} (hle : remaining ≤ mse.read_prefix_bytes.length) :
    mse.poll_read remaining = (.Ready (.ok ()), mse.read_prefix_bytes.take remaining,
        { mse with read_prefix_bytes := mse.read_prefix_bytes.drop remaining }) := by
  have hfull : remaining - (mse.read_prefix_bytes.take remaining).length = 0 := by
    rw [List.length_take]
    omega
  simp only [poll_read, pop_front_eq]
  rw [if_pos hfull]

section
variable {mse : MseStream S} {remaining : Nat} {stream : S} (hlt : mse.read_prefix_bytes.length < remaining)
include hlt

/-- The buffer is larger than the prefix, which goes into it whole. -/
theorem poll_read_of_ok {bytes : Bytes}
    (hpoll : AsyncRead.poll_read mse.stream (remaining - mse.read_prefix_bytes.length) = (.Ready (.ok bytes), stream)) :
    mse.poll_read remaining = (.Ready (.ok ()), mse.read_prefix_bytes ++ (mse.incoming.apply bytes).1,
        { mse with read_prefix_bytes := [], stream := stream, incoming := (mse.incoming.apply bytes).2 }) := by
  simp only [poll_read, pop_front_eq, List.take_of_length_le hlt.le, List.drop_of_length_le hlt.le]
  rw [if_neg (by omega), hpoll]

/-- The prefix has left the stream also where the read is not ready. -/
theorem poll_read_of_ne_ok {outcome : Poll (Except IoError Bytes)}
    (hpoll : AsyncRead.poll_read mse.stream (remaining - mse.read_prefix_bytes.length) = (outcome, stream))
    (hne : ∀ bytes, outcome ≠ .Ready (.ok bytes)) :
    (mse.poll_read remaining).1 ≠ .Ready (.ok ()) ∧
      (mse.poll_read remaining).2.2 = { mse with read_prefix_bytes := [], stream := stream } := by
  simp only [poll_read, pop_front_eq, List.take_of_length_le hlt.le, List.drop_of_length_le hlt.le]
  rw [if_neg (by omega), hpoll]
  match outcome with
  | .Ready (.ok bytes) => exact absurd rfl (hne bytes)
  | .Ready (.error error) => simp
  | .Pending => simp

end

/-- The one read whose buffer takes the last of the prefix and has room left finds the inner stream ready. Until
    then the inner stream has not been asked. -/
def PrefixMet (mse : MseStream S) (rooms : List Nat) : Prop :=
  ∀ front room back, rooms = front ++ room :: back → front.sum < mse.read_prefix_bytes.length →
    mse.read_prefix_bytes.length < front.sum + room →
      ∃ bytes stream, AsyncRead.poll_read mse.stream (front.sum + room - mse.read_prefix_bytes.length) =
        (.Ready (.ok bytes), stream)

theorem prefix_met_of_nil {mse : MseStream S} (hnil : mse.read_prefix_bytes = []) (rooms : List Nat) :
    mse.PrefixMet rooms := by
  intro front room back _ hfront
  simp [hnil] at hfront

/-- A buffer that the prefix fills leaves the condition to the later ones. -/
theorem prefix_met_cons_of_le {mse : MseStream S} {room : Nat} (hle : room ≤ mse.read_prefix_bytes.length)
    (rooms : List Nat) :
    mse.PrefixMet (room :: rooms) ↔
      { mse with read_prefix_bytes := mse.read_prefix_bytes.drop room }.PrefixMet rooms := by
  simp only [PrefixMet, List.length_drop]
  constructor
  · intro hmet front room' back hrooms hlow hhigh
    have hsplit : room :: rooms = (room :: front) ++ room' :: back := by rw [hrooms, List.cons_append]
    have hready := hmet (room :: front) room' back hsplit (by rw [List.sum_cons]; omega)
      (by rw [List.sum_cons]; omega)
    rw [List.sum_cons] at hready
    rwa [show front.sum + room' - (mse.read_prefix_bytes.length - room) =
      room + front.sum + room' - mse.read_prefix_bytes.length by omega]
  · intro hmet front room' back hrooms hlow hhigh
    cases front with
    | nil =>
      simp only [List.nil_append, List.cons.injEq] at hrooms
      rw [List.sum_nil] at hhigh
      omega
    | cons first front =>
      simp only [List.cons_append, List.cons.injEq] at hrooms
      obtain ⟨rfl, hrooms⟩ := hrooms
      rw [List.sum_cons] at hlow hhigh ⊢
      have hready := hmet front room' back hrooms (by omega) (by omega)
      rwa [show front.sum + room' - (mse.read_prefix_bytes.length - room) =
        room + front.sum + room' - mse.read_prefix_bytes.length by omega] at hready

/-- A buffer with more room than the prefix decides the condition. -/
theorem prefix_met_cons_of_lt {mse : MseStream S} {room : Nat} (hlt : mse.read_prefix_bytes.length < room)
    (rooms : List Nat) :
    mse.PrefixMet (room :: rooms) ↔ mse.read_prefix_bytes = [] ∨
      ∃ bytes stream, AsyncRead.poll_read mse.stream (room - mse.read_prefix_bytes.length) =
        (.Ready (.ok bytes), stream) := by
  constructor
  · intro hmet
    rw [or_iff_not_imp_left]
    intro hsome
    have hready := hmet [] room rooms rfl (List.length_pos_iff.mpr hsome) (by rw [List.sum_nil]; omega)
    rwa [List.sum_nil, Nat.zero_add] at hready
  · rintro (hnil | hready)
    · exact prefix_met_of_nil hnil _
    · intro front room' back hrooms hlow hhigh
      cases front with
      | nil =>
        simp only [List.nil_append, List.cons.injEq] at hrooms
        rw [← hrooms.1, List.sum_nil, Nat.zero_add]
        exact hready
      | cons first front =>
        simp only [List.cons_append, List.cons.injEq] at hrooms
        rw [List.sum_cons] at hlow
        omega

/-- The prefix and what the inner stream has delivered reach the caller; if the condition fails, bytes are missing. -/
theorem read_calls_account (mse : MseStream (Recorded S)) (rooms : List Nat) :
    ∃ bytes, (mse.read_calls rooms).2.stream.delivered = mse.stream.delivered ++ bytes ∧
      (mse.read_calls rooms).2.incoming = (mse.incoming.apply bytes).2 ∧
      (mse.PrefixMet rooms → (mse.read_calls rooms).1 ++ (mse.read_calls rooms).2.read_prefix_bytes =
        mse.read_prefix_bytes ++ (mse.incoming.apply bytes).1) ∧
      (¬ mse.PrefixMet rooms → (mse.read_calls rooms).1.length + (mse.read_calls rooms).2.read_prefix_bytes.length <
        mse.read_prefix_bytes.length + bytes.length) := by
  induction rooms generalizing mse with
  | nil =>
    refine ⟨[], ?_⟩
    simp [read_calls, PrefixMet]
  | cons room rooms ih =>
    by_cases hle : room ≤ mse.read_prefix_bytes.length
    · obtain ⟨bytes, hdelivered, hincoming, hmet, hmissing⟩ :=
        ih { mse with read_prefix_bytes := mse.read_prefix_bytes.drop room }
      rw [prefix_met_cons_of_le hle]
      simp only [read_calls, poll_read_of_le hle, if_true]
      refine ⟨bytes, hdelivered, hincoming, fun h => ?_, fun h => ?_⟩
      · rw [List.append_assoc, hmet h, ← List.append_assoc, List.take_append_drop]
      · have hlt := hmissing h
        simp only [List.length_append, List.length_take, List.length_drop] at hlt ⊢
        omega
    · have hlt : mse.read_prefix_bytes.length < room := Nat.lt_of_not_le hle
      rw [prefix_met_cons_of_lt hlt]
      simp only [read_calls]
      -- whatever the inner stream returns, nothing of the prefix is left for the later reads
      obtain ⟨⟨outcome, stream⟩, hpoll⟩ : ∃ polled,
          AsyncRead.poll_read mse.stream (room - mse.read_prefix_bytes.length) = polled := ⟨_, rfl⟩
      by_cases hok : ∃ front, outcome = .Ready (.ok front)
      · obtain ⟨front, rfl⟩ := hok
        obtain ⟨back, hdelivered, hincoming, hmet, -⟩ := ih { mse with
          read_prefix_bytes := [], stream := stream, incoming := (mse.incoming.apply front).2 }
        have hback := hmet (prefix_met_of_nil rfl rooms)
        simp only [poll_read_of_ok hlt hpoll, if_true]
        refine ⟨front ++ back, ?_, ?_, fun _ => ?_, fun h => absurd (Or.inr ⟨front, stream, hpoll⟩) h⟩
        · rw [hdelivered, Recorded.delivered_of_ok hpoll, List.append_assoc]
        · rw [hincoming, Rc4Cipher.apply_append]
        · rw [List.append_assoc, List.append_assoc, hback, Rc4Cipher.apply_append, List.nil_append]
      · have hne : ∀ bytes, outcome ≠ .Ready (.ok bytes) := fun bytes h => hok ⟨bytes, h⟩
        obtain ⟨hread, hnext⟩ := poll_read_of_ne_ok hlt hpoll hne
        obtain ⟨bytes, hdelivered, hincoming, hmet, -⟩ := ih { mse with read_prefix_bytes := [], stream := stream }
        have hbytes := hmet (prefix_met_of_nil rfl rooms)
        simp only [List.nil_append] at hbytes
        rw [if_neg hread, hnext, List.nil_append]
        refine ⟨bytes, hdelivered.trans ?_, hincoming, fun h => ?_, fun h => ?_⟩
        · rw [Recorded.delivered_of_ne_ok hpoll hne]
        · obtain hnil | ⟨front, other, hfront⟩ := h
          · rw [hbytes, hnil, List.nil_append]
          · exact absurd (Prod.mk.inj (hpoll.symm.trans hfront)).1 (hne front)
        · have hsome : mse.read_prefix_bytes ≠ [] := fun hnil => h (Or.inl hnil)
          have hlength := congrArg List.length hbytes
          rw [List.length_append, Rc4Cipher.length_apply] at hlength
          have hpos := List.length_pos_iff.mpr hsome
          omega

/-- The bytes that the caller has and those still in front are the prefix and the decrypted bytes of the inner stream,
    none lost and none repeated, exactly if the inner stream is ready for the read that takes the last of the prefix
    into a larger buffer. The keystream is in step in any case. -/
theorem read_calls_complete_iff (stream : S) (incoming outgoing : Rc4Cipher) (read_prefix_bytes : Bytes)
    (rooms : List Nat) :
    let mse := MseStream.new (Recorded.start stream) incoming outgoing read_prefix_bytes
    let last := (mse.read_calls rooms).2
    ((mse.read_calls rooms).1 ++ last.read_prefix_bytes =
        read_prefix_bytes ++ (incoming.apply last.stream.delivered).1 ↔ mse.PrefixMet rooms) ∧
      last.incoming = (incoming.apply last.stream.delivered).2 := by
  intro mse last
  obtain ⟨bytes, hdelivered, hincoming, hmet, hmissing⟩ := mse.read_calls_account rooms
  have hbytes : last.stream.delivered = bytes := hdelivered
  rw [hbytes]
  refine ⟨⟨fun h => ?_, hmet⟩, hincoming⟩
  by_contra hnot
  have hlt := hmissing hnot
  have hlength := congrArg List.length h
  rw [List.length_append, List.length_append, Rc4Cipher.length_apply] at hlength
  exact absurd hlength (Nat.ne_of_lt hlt)

end

/-- A stream with one byte in front of a scripted one. -/
def with_prefix_byte (reads : List (Option Bytes)) : MseStream (Recorded Pipe) :=
  MseStream.new (Recorded.start ⟨reads, []⟩) (Rc4Cipher.new (Vector.replicate 20 0))
    (Rc4Cipher.new (Vector.replicate 20 1)) [7]

theorem read_calls_complete_iff_ready :
    (with_prefix_byte [some [5]]).PrefixMet [2, 2] ∧
      ((with_prefix_byte [some [5]]).read_calls [2, 2]).1 ++
          ((with_prefix_byte [some [5]]).read_calls [2, 2]).2.read_prefix_bytes =
        [7] ++ ((Rc4Cipher.new (Vector.replicate 20 0)).apply
          ((with_prefix_byte [some [5]]).read_calls [2, 2]).2.stream.delivered).1 := by
  have hmet : (with_prefix_byte [some [5]]).PrefixMet [2, 2] :=
    (prefix_met_cons_of_lt (by decide) [2]).mpr (Or.inr ⟨[5], _, rfl⟩)
  exact ⟨hmet, (read_calls_complete_iff _ _ _ _ [2, 2]).1.mpr hmet⟩

/-- The byte in front is taken out by a read that is not ready, and no later read returns it. -/
theorem prefix_lost_when_pending :
    ((with_prefix_byte [none]).read_calls [2, 2]).1 = [] ∧
      ((with_prefix_byte [none]).read_calls [2, 2]).2.read_prefix_bytes = [] := ⟨rfl, rfl⟩

variable {S : Type}

section
variable [AsyncWrite S]

def poll_flush_pending (mse : MseStream S) : Poll (Except IoError Unit) × MseStream S :=
  if mse.pending_offset < mse.pending_write.length then
    match AsyncWrite.poll_write mse.stream (mse.pending_write.drop mse.pending_offset) with
    | (.Ready (.ok n), stream) =>
      if n = 0 then
        (.Ready (.error (.WriteZero "encrypted stream write returned zero bytes")), { mse with stream := stream })
      else poll_flush_pending { mse with stream := stream, pending_offset := mse.pending_offset + n }
    | (.Ready (.error error), stream) => (.Ready (.error error), { mse with stream := stream })
    | (.Pending, stream) => (.Pending, { mse with stream := stream })
  else (.Ready (.ok ()), { mse with pending_write := [], pending_offset := 0 })
termination_by mse.pending_write.length - mse.pending_offset

def poll_write (mse : MseStream S) (buf : Bytes) : Poll (Except IoError Nat) × MseStream S :=
  match mse.poll_flush_pending with
  | (.Pending, mse) => (.Pending, mse)
  | (.Ready (.error error), mse) => (.Ready (.error error), mse)
  | (.Ready (.ok ()), mse) =>
    if buf = [] then (.Ready (.ok 0), mse)
    else
      let encrypted := mse.outgoing.apply buf
      let flushed := { mse with
        outgoing := encrypted.2, pending_write := encrypted.1, pending_offset := 0 }.poll_flush_pending
      match flushed.1 with
      | .Ready (.error error) => (.Ready (.error error), flushed.2)
      | _ => (.Ready (.ok buf.length), flushed.2)

/-- What `poll_flush` and `poll_shutdown` do: the rest of the ciphertext, and then the same call on the inner stream. -/
def flush_then (inner : S → Poll (Except IoError Unit) × S) (mse : MseStream S) :
    Poll (Except IoError Unit) × MseStream S :=
  match mse.poll_flush_pending with
  | (.Pending, mse) => (.Pending, mse)
  | (.Ready (.error error), mse) => (.Ready (.error error), mse)
  | (.Ready (.ok ()), mse) => ((inner mse.stream).1, { mse with stream := (inner mse.stream).2 })

def poll_flush : MseStream S → Poll (Except IoError Unit) × MseStream S := flush_then AsyncWrite.poll_flush

def poll_shutdown : MseStream S → Poll (Except IoError Unit) × MseStream S := flush_then AsyncWrite.poll_shutdown

end

/-- A call on the writing side. -/
inductive Call where
  | Write (buf : Bytes)
  | Flush
  | Shutdown

/-- The bytes that a call accepts. -/
def accepted (buf : Bytes) : Poll (Except IoError Nat) → Bytes
  | .Ready (.ok n) => buf.take n
  | _ => []

def call [AsyncWrite S] (mse : MseStream S) : Call → Bytes × MseStream S
  | .Write buf => (accepted buf (mse.poll_write buf).1, (mse.poll_write buf).2)
  | .Flush => ([], mse.poll_flush.2)
  | .Shutdown => ([], mse.poll_shutdown.2)

/-- The bytes accepted in a sequence of calls, and the stream behind it. -/
def calls [AsyncWrite S] : MseStream S → List Call → Bytes × MseStream S
  | mse, [] => ([], mse)
  | mse, first :: rest =>
    let done := mse.call first
    let later := done.2.calls rest
    (done.1 ++ later.1, later.2)

/-- The ciphertext that the inner stream has not taken. -/
def unsent (mse : MseStream S) : Bytes := mse.pending_write.drop mse.pending_offset

/-! The ciphertext under way. -/

section
variable [AsyncWrite S]

/-- A flush hands ciphertext over in order and is ready only when there is none left. -/
theorem poll_flush_pending_spec (mse : MseStream (Recorded S)) :
    mse.poll_flush_pending.2.stream.received ++ mse.poll_flush_pending.2.unsent = mse.stream.received ++ mse.unsent ∧
      mse.poll_flush_pending.2.outgoing = mse.outgoing ∧
      (mse.poll_flush_pending.1 = .Ready (.ok ()) → mse.poll_flush_pending.2.unsent = []) := by
  fun_induction poll_flush_pending mse with
  | case1 mse hlt stream hpoll =>
    have hreceived := Recorded.received_of_ok hpoll
    rw [List.take_zero, List.append_nil] at hreceived
    simp [unsent, hreceived]
  | case2 mse hlt n stream hpoll hzero ih =>
    obtain ⟨hbytes, houtgoing, hready⟩ := ih
    refine ⟨hbytes.trans ?_, houtgoing, hready⟩
    simp only [unsent]
    rw [Recorded.received_of_ok hpoll, List.append_assoc, ← List.drop_drop, List.take_append_drop]
  | case3 mse hlt error stream hpoll =>
    have hreceived := Recorded.received_of_ne_ok hpoll (by simp)
    simp [unsent, hreceived]
  | case4 mse hlt stream hpoll =>
    have hreceived := Recorded.received_of_ne_ok hpoll (by simp)
    simp [unsent, hreceived]
  | case5 mse hge =>
    have hunsent : mse.unsent = [] := List.drop_of_length_le (Nat.le_of_not_lt hge)
    rw [hunsent]
    exact ⟨rfl, rfl, fun _ => rfl⟩

/-- The inner stream takes bytes or is not ready, at every write there is. -/
def Obliging (S : Type) [AsyncWrite S] : Prop :=
  ∀ (stream : S) (buf : Bytes), buf ≠ [] → (AsyncWrite.poll_write stream buf).1 = .Pending ∨
    ∃ n, 0 < n ∧ (AsyncWrite.poll_write stream buf).1 = .Ready (.ok n)

theorem Obliging.recorded (h : Obliging S) : Obliging (Recorded S) := by
  intro recorded buf hbuf
  rw [Recorded.poll_write_fst]
  exact h recorded.stream buf hbuf

theorem poll_flush_pending_ne_error (h : Obliging S) (mse : MseStream S) (error : IoError) :
    mse.poll_flush_pending.1 ≠ .Ready (.error error) := by
  fun_induction poll_flush_pending mse with
  | case1 mse hlt stream hpoll =>
    have hsome : mse.pending_write.drop mse.pending_offset ≠ [] := by simpa using hlt
    rcases h mse.stream _ hsome with hpending | ⟨n, hpos, hok⟩
    · simp [hpoll] at hpending
    · rw [hpoll] at hok
      cases hok
      omega
  | case2 mse hlt n stream hpoll hzero ih => exact ih
  | case3 mse hlt other stream hpoll =>
    have hsome : mse.pending_write.drop mse.pending_offset ≠ [] := by simpa using hlt
    rcases h mse.stream _ hsome with hpending | ⟨n, hpos, hok⟩
    · simp [hpoll] at hpending
    · simp [hpoll] at hok
  | case4 mse hlt stream hpoll => simp
  | case5 mse hge => simp

/-- What the inner stream has and what waits for it are the ciphertext of the accepted bytes, and the cipher stands
    behind them. -/
def InStep (outgoing : Rc4Cipher) (mse : MseStream (Recorded S)) (plaintext : Bytes) : Prop :=
  mse.stream.received ++ mse.unsent = (outgoing.apply plaintext).1 ∧ mse.outgoing = (outgoing.apply plaintext).2

variable {outgoing : Rc4Cipher} {mse : MseStream (Recorded S)} {plaintext : Bytes}

section
variable (h : mse.InStep outgoing plaintext)
include h

theorem InStep.flush : mse.poll_flush_pending.2.InStep outgoing plaintext := by
  obtain ⟨hbytes, houtgoing, -⟩ := mse.poll_flush_pending_spec
  exact ⟨hbytes.trans h.1, houtgoing.trans h.2⟩

omit [AsyncWrite S] in
/-- Bytes taken when nothing waits. -/
theorem InStep.encrypt (hunsent : mse.unsent = []) (buf : Bytes) :
    InStep outgoing { mse with
      outgoing := (mse.outgoing.apply buf).2, pending_write := (mse.outgoing.apply buf).1, pending_offset := 0 }
      (plaintext ++ buf) := by
  obtain ⟨hbytes, houtgoing⟩ := h
  rw [hunsent, List.append_nil] at hbytes
  simp only [InStep, unsent, List.drop_zero]
  rw [Rc4Cipher.apply_append, hbytes, houtgoing]
  exact ⟨rfl, rfl⟩

theorem InStep.write (hinner : Obliging S) (buf : Bytes) :
    (mse.poll_write buf).2.InStep outgoing (plaintext ++ accepted buf (mse.poll_write buf).1) := by
  have hflush := h.flush
  obtain ⟨-, -, hempty⟩ := mse.poll_flush_pending_spec
  have herror := mse.poll_flush_pending_ne_error hinner.recorded
  obtain ⟨⟨outcome, flushed⟩, hpoll⟩ : ∃ polled, mse.poll_flush_pending = polled := ⟨_, rfl⟩
  rw [poll_write]
  rw [hpoll] at hflush hempty herror ⊢
  match outcome with
  | .Pending => simpa [accepted] using hflush
  | .Ready (.error error) => exact absurd rfl (herror error)
  | .Ready (.ok ()) =>
    by_cases hbuf : buf = []
    · simpa [hbuf, accepted] using hflush
    · have hnext := (hflush.encrypt (hempty rfl) buf).flush
      have hnext_error := poll_flush_pending_ne_error hinner.recorded { flushed with
        outgoing := (flushed.outgoing.apply buf).2, pending_write := (flushed.outgoing.apply buf).1,
        pending_offset := 0 }
      simp only [if_neg hbuf, accepted, List.take_length]
      exact hnext

theorem InStep.flush_then {inner : Recorded S → Poll (Except IoError Unit) × Recorded S}
    (hinner : ∀ recorded, (inner recorded).2.received = recorded.received) :
    (MseStream.flush_then inner mse).2.InStep outgoing plaintext := by
  have hflush := h.flush
  rw [MseStream.flush_then]
  split
  · rename_i hpoll
    rwa [hpoll] at hflush
  · rename_i hpoll
    rwa [hpoll] at hflush
  · rename_i flushed hpoll
    rw [hpoll] at hflush
    refine ⟨?_, hflush.2⟩
    rw [hinner]
    exact hflush.1

theorem InStep.call (hinner : Obliging S) (next : Call) :
    (mse.call next).2.InStep outgoing (plaintext ++ (mse.call next).1) := by
  cases next with
  | Write buf => exact h.write hinner buf
  | Flush =>
    rw [MseStream.call, List.append_nil]
    exact h.flush_then fun _ => rfl
  | Shutdown =>
    rw [MseStream.call, List.append_nil]
    exact h.flush_then fun _ => rfl

theorem InStep.calls (hinner : Obliging S) (script : List Call) :
    (mse.calls script).2.InStep outgoing (plaintext ++ (mse.calls script).1) := by
  induction script generalizing mse plaintext with
  | nil =>
    rw [MseStream.calls, List.append_nil]
    exact h
  | cons next script ih =>
    simp only [MseStream.calls]
    rw [← List.append_assoc]
    exact ih (h.call hinner next)

end

/-- A flush that is ready, well or not, has handed everything over. -/
theorem unsent_of_poll_flush (hinner : Obliging S) {result : Except IoError Unit}
    (hready : mse.poll_flush.1 = .Ready result) : mse.poll_flush.2.unsent = [] := by
  obtain ⟨-, -, hempty⟩ := mse.poll_flush_pending_spec
  have herror := mse.poll_flush_pending_ne_error hinner.recorded
  rw [poll_flush, MseStream.flush_then] at hready ⊢
  split at hready
  · cases hready
  · rename_i error flushed hpoll
    rw [hpoll] at herror
    exact absurd rfl (herror error)
  · rename_i flushed hpoll
    rw [hpoll] at hempty
    exact hempty rfl

/-- The inner stream holds a front part of the accepted bytes under the keystream, and all of them after a flush that
    is ready. -/
theorem received_prefix_of_ciphertext (hinner : Obliging S) (stream : S) (incoming outgoing : Rc4Cipher)
    (read_prefix_bytes : Bytes) (script : List Call) :
    let last := (MseStream.new (Recorded.start stream) incoming outgoing read_prefix_bytes).calls script
    let ciphertext := List.zipWith (· ^^^ ·) last.1 (outgoing.keys last.1.length)
    last.2.stream.received <+: ciphertext ∧
      ∀ result, last.2.poll_flush.1 = .Ready result → last.2.poll_flush.2.stream.received = ciphertext := by
  intro last ciphertext
  have hstart : InStep outgoing (MseStream.new (Recorded.start stream) incoming outgoing read_prefix_bytes) [] :=
    ⟨rfl, rfl⟩
  have hlast : last.2.InStep outgoing last.1 := hstart.calls hinner script
  have hciphertext : ciphertext = (outgoing.apply last.1).1 := (outgoing.apply_fst_eq last.1).symm
  rw [hciphertext]
  refine ⟨⟨last.2.unsent, hlast.1⟩, fun result hready => ?_⟩
  have hflush : last.2.poll_flush.2.InStep outgoing last.1 := hlast.flush_then fun _ => rfl
  rw [← hflush.1, unsent_of_poll_flush hinner hready, List.append_nil]

end

theorem Pipe.obliging : Obliging Pipe := by
  intro pipe buf hbuf
  have hpos := List.length_pos_iff.mpr hbuf
  simp only [AsyncWrite.poll_write]
  split
  · exact Or.inr ⟨buf.length, hpos, rfl⟩
  · exact Or.inl rfl
  · rename_i n _ _
    exact Or.inr ⟨min (n + 1) buf.length, by omega, rfl⟩

/-- A stream that takes one byte, then is not ready, then takes the rest. -/
theorem received_prefix_of_ciphertext_pipe :
    Obliging Pipe ∧
      let last := (MseStream.new (Recorded.start (Pipe.mk [] [some 0, none])) (Rc4Cipher.new (Vector.replicate 20 0))
        (Rc4Cipher.new (Vector.replicate 20 1)) []).calls [.Write [1, 2], .Flush, .Write [3]]
      let ciphertext := List.zipWith (· ^^^ ·) last.1 ((Rc4Cipher.new (Vector.replicate 20 1)).keys last.1.length)
      last.2.stream.received <+: ciphertext ∧
        ∀ result, last.2.poll_flush.1 = .Ready result → last.2.poll_flush.2.stream.received = ciphertext :=
  ⟨Pipe.obliging, received_prefix_of_ciphertext Pipe.obliging _ _ _ _ _⟩

end MseStream

end swarmotter.mse
