import Swarmotter.Engine.PieceWindow

open swarmotter.peer

namespace swarmotter.engine

/-! The requests of a download, and the blocks that come of them. -/

theorem mem_block_requests {piece_length offset length : Nat} : (offset, length) ∈ block_requests piece_length ↔
    ∃ i < blocks_for piece_length, i * BLOCK_SIZE = offset ∧
      min BLOCK_SIZE (piece_length - i * BLOCK_SIZE) = length := by
  simp [block_requests_eq]

/-- Two requests of a piece have different offsets. -/
theorem nodup_offsets (piece_length : Nat) : ((block_requests piece_length).map Prod.fst).Nodup := by
  rw [block_requests_eq, List.map_map]
  exact List.nodup_range.map fun i j h => Nat.eq_of_mul_eq_mul_right (by decide) h

/-- A block of the length that was asked for is taken. -/
theorem add_block_eq_ok {assembler : PieceAssembler} {i : Nat} {block : Bytes}
    (hi : i < blocks_for assembler.piece_length)
    (hlength : min BLOCK_SIZE (assembler.piece_length - i * BLOCK_SIZE) = block.length)
    (hmissing : assembler.received[i]? = some false) :
    assembler.add_block (i * BLOCK_SIZE) block = .ok (decide (assembler.received_count + 1 = assembler.received.length),
        { assembler with
          buf := assembler.buf.take (i * BLOCK_SIZE) ++ block ++ assembler.buf.drop (i * BLOCK_SIZE + block.length)
          received := assembler.received.set i true
          received_count := assembler.received_count + 1 }) := by
  have hinside : ¬i * BLOCK_SIZE ≥ assembler.piece_length := by
    unfold blocks_for BLOCK_SIZE at *
    omega
  have hstop : ¬i * BLOCK_SIZE + block.length > assembler.piece_length := by omega
  simp only [PieceAssembler.add_block, eq_ok_iff]
  refine ⟨(), hinside, (), hstop, ?_⟩
  rw [Nat.mul_div_cancel i (by decide), if_pos hmissing, if_pos hmissing, List.length_set]

namespace ParallelPieceDownload

/-! Whole downloads: the requests are sent and the blocks arrive in any order, among blocks that were not asked for. -/

/-- What happens to a download. The other pieces of the session change `global_in_flight` as well. -/
inductive Event where
  | Send (global_in_flight request_budget : Nat) (writes : Option Nat)
  | Arrive (offset : Nat) (block : Bytes) (global_in_flight : Nat)

def next (self : ParallelPieceDownload) : Event → ParallelPieceDownload
  | .Send global_in_flight request_budget writes => (self.send_more global_in_flight request_budget writes).2.1
  | .Arrive offset block global_in_flight =>
    match self.record_block offset block global_in_flight with
    | .ok (_, download, _) => download
    | .error _ => self

def after (self : ParallelPieceDownload) (events : List Event) : ParallelPieceDownload := events.foldl next self

/-- Whether a block answers a request that is outstanding. -/
def accepts (self : ParallelPieceDownload) (offset : Nat) (block : Bytes) : Bool :=
  self.outstanding_blocks.lookup offset = some block.length

/-- The offsets of the requests that are answered in the course of the events. -/
def accepted (self : ParallelPieceDownload) : List Event → List Nat
  | [] => []
  | event :: events =>
    match event with
    | .Arrive offset block _ =>
      if self.accepts offset block then offset :: (self.next event).accepted events
      else (self.next event).accepted events
    | .Send .. => (self.next event).accepted events

/-- Every block that answers a request is a part of the content. -/
def AnswersWith (content : Bytes) (self : ParallelPieceDownload) : List Event → Prop
  | [] => True
  | event :: events =>
    (match event with
    | .Arrive offset block _ => self.accepts offset block = true → block = (content.drop offset).take block.length
    | .Send .. => True) ∧ (self.next event).AnswersWith content events

/-- The requests that are outstanding were sent and have not been answered. The blocks of those that have are in their
place. -/
structure Assembles (content : Bytes) (answered : List Nat) (download : ParallelPieceDownload) : Prop where
  piece_length : download.assembler.piece_length = content.length
  reqs : download.reqs = block_requests content.length
  received : download.assembler.received =
    (List.range (blocks_for content.length)).map fun i => decide (i * BLOCK_SIZE ∈ answered)
  count : download.assembler.received_count = download.assembler.received.count true
  sent : ∀ offset ∈ answered, offset ∈ (download.reqs.take download.next_req).map Prod.fst
  outstanding : ∀ offset length, download.outstanding_blocks.lookup offset = some length ↔
    (offset, length) ∈ download.reqs.take download.next_req ∧ offset ∉ answered
  buf : download.assembler.buf.length = content.length
  bytes : ∀ k < content.length, k / BLOCK_SIZE * BLOCK_SIZE ∈ answered → download.assembler.buf[k]? = content[k]?

section
variable {download : ParallelPieceDownload} {content : Bytes} {answered : List Nat} {offset length : Nat}
  {block : Bytes} {global_in_flight : Nat}

theorem Assembles.new (content : Bytes) (piece_index : Nat) :
    Assembles content [] (.new piece_index content.length) := by
  constructor <;> simp [ParallelPieceDownload.new, PieceAssembler.new, List.count_replicate]

theorem take_next (hnext : download.reqs[download.next_req]? = some (offset, length)) :
    download.reqs.take (download.next_req + 1) = download.reqs.take download.next_req ++ [(offset, length)] := by
  rw [List.take_add_one, hnext]
  rfl

/-- The request that is next has not been sent yet. -/
theorem unsent (hnodup : (download.reqs.map Prod.fst).Nodup)
    (hnext : download.reqs[download.next_req]? = some (offset, length)) :
    offset ∉ (download.reqs.take download.next_req).map Prod.fst := by
  have hsent := hnodup.sublist ((List.take_sublist (download.next_req + 1) _).map _)
  rw [take_next hnext, List.map_append, List.nodup_append] at hsent
  exact fun hmem => hsent.2.2 offset hmem offset (List.mem_singleton_self _) rfl

theorem Assembles.sent_next (h : Assembles content answered download)
    (hnext : download.reqs[download.next_req]? = some (offset, length)) :
    Assembles content answered (download.requested offset length) := by
  refine ⟨h.piece_length, h.reqs, h.received, h.count, fun other hother => ?_, fun other length' => ?_, h.buf, h.bytes⟩
  · rw [requested, take_next hnext, List.map_append]
    exact List.mem_append_left _ (h.sent other hother)
  · rw [requested, take_next hnext, List.mem_append, List.mem_singleton]
    by_cases heq : other = offset
    · subst heq
      have hnew := unsent (h.reqs ▸ nodup_offsets content.length) hnext
      have hunsent : (other, length') ∉ download.reqs.take download.next_req :=
        fun hmem => hnew (List.mem_map_of_mem hmem)
      have hunanswered : other ∉ answered := fun hmem => hnew (h.sent other hmem)
      simp [hunsent, hunanswered, eq_comm]
    · rw [AList.lookup_insert_ne heq, h.outstanding]
      simp [heq]

theorem Assembles.send_loop (request_budget fuel : Nat) (writes : Option Nat) (h : Assembles content answered download)
    (global_in_flight : Nat) : Assembles content answered
      (ParallelPieceDownload.send_loop request_budget fuel writes download global_in_flight).2.1 :=
  @send_loop_keeps (fun download _ => Assembles content answered download) (fun h => h.sent_next) _ _ _ _ _ h

/-- A block that answers no request changes nothing. -/
theorem record_block_of_not_accepts (h : download.accepts offset block = false) :
    download.record_block offset block global_in_flight = .ok (none, download, global_in_flight) := by
  have hother : download.outstanding_blocks.lookup offset ≠ some block.length := of_decide_eq_false h
  unfold record_block
  cases hlookup : download.outstanding_blocks.lookup offset with
  | none => rfl
  | some expected_len =>
    dsimp only
    rw [if_pos]
    rintro rfl
    exact hother hlookup

/-- The block of a request is written over its part of the buffer. -/
theorem getElem?_written {buf : Bytes} (hlen : buf.length = content.length)
    (hfits : offset + block.length ≤ content.length) (hblock : block = (content.drop offset).take block.length)
    (k : Nat) :
    (buf.take offset ++ block ++ buf.drop (offset + block.length))[k]? =
      if offset ≤ k ∧ k < offset + block.length then content[k]? else buf[k]? := by
  have htake : (buf.take offset).length = offset := by
    rw [List.length_take]
    omega
  by_cases hbefore : k < offset
  · rw [if_neg (by omega), List.append_assoc, List.getElem?_append_left (by omega), List.getElem?_take_of_lt hbefore]
  · by_cases hinside : k < offset + block.length
    · rw [if_pos ⟨by omega, hinside⟩, List.append_assoc, List.getElem?_append_right (by omega), htake,
        List.getElem?_append_left (by omega), hblock, List.getElem?_take_of_lt (by omega), List.getElem?_drop]
      congr 1
      omega
    · rw [if_neg (by omega), List.getElem?_append_right (by rw [List.length_append]; omega), List.length_append, htake,
        List.getElem?_drop]
      congr 1
      omega

/-- A block that answers a request is put into its place. The piece is reported as complete if all requests have been
answered. -/
theorem Assembles.record (h : Assembles content answered download) (haccepts : download.accepts offset block = true)
    (hblock : block = (content.drop offset).take block.length) (global_in_flight : Nat) :
    ∃ complete taken, download.record_block offset block global_in_flight =
      .ok (some complete, taken, global_in_flight - 1) ∧
      Assembles content (answered ++ [offset]) taken ∧
      (complete = true ↔ ∀ request ∈ block_requests content.length, request.1 ∈ answered ++ [offset]) := by
  have hlookup : download.outstanding_blocks.lookup offset = some block.length := of_decide_eq_true haccepts
  obtain ⟨hsent, hunanswered⟩ := (h.outstanding _ _).mp hlookup
  obtain ⟨i, hi, rfl, hlength⟩ := mem_block_requests.mp (h.reqs ▸ List.mem_of_mem_take hsent)
  have hmissing : download.assembler.received[i]? = some false := by simp [h.received, hi, hunanswered]
  have hlt := (List.getElem?_eq_some_iff.mp hmissing).1
  have hfits : i * BLOCK_SIZE + block.length ≤ content.length := by
    unfold blocks_for BLOCK_SIZE at *
    omega
  have hset : download.assembler.received.set i true =
      (List.range (blocks_for content.length)).map fun j => decide (j * BLOCK_SIZE ∈ answered ++ [i * BLOCK_SIZE]) := by
    refine List.ext_getElem (by simp [h.received]) fun j hj hj' => ?_
    rcases eq_or_ne i j with rfl | hne
    · simp
    · have hother : j * BLOCK_SIZE ≠ i * BLOCK_SIZE := fun heq => hne (Nat.eq_of_mul_eq_mul_right (by decide) heq.symm)
      simp only [List.getElem_set_ne hne, h.received, List.getElem_map, List.getElem_range, List.mem_append,
        List.mem_singleton, hother, or_false]
  have hcount : (download.assembler.received.set i true).count true = download.assembler.received_count + 1 := by
    rw [List.count_set hlt, (List.getElem?_eq_some_iff.mp hmissing).2, h.count]
    rfl
  unfold record_block
  rw [hlookup]
  dsimp only
  rw [if_neg (not_not.mpr rfl), add_block_eq_ok (h.piece_length ▸ hi) (h.piece_length ▸ hlength) hmissing]
  refine ⟨_, _, rfl, ⟨h.piece_length, h.reqs, hset, hcount.symm, fun offset hoffset => ?_, fun offset length => ?_, ?_,
    fun k hk hanswered => ?_⟩, ?_⟩
  · rcases List.mem_append.mp hoffset with hbefore | hlast
    · exact h.sent offset hbefore
    · rw [List.mem_singleton.mp hlast]
      exact List.mem_map_of_mem hsent
  · by_cases heq : offset = i * BLOCK_SIZE
    · subst heq
      simp
    · rw [AList.lookup_erase_ne heq, h.outstanding]
      simp [heq]
  · have hbuf := h.buf
    simp only [List.length_append, List.length_take, List.length_drop]
    omega
  · rw [getElem?_written h.buf hfits hblock]
    split
    · rfl
    · refine h.bytes k hk ((List.mem_append.mp hanswered).resolve_right fun hlast => ?_)
      rw [List.mem_singleton] at hlast
      unfold BLOCK_SIZE at *
      omega
  · rw [decide_eq_true_iff, ← hcount, ← List.length_set (i := i) (a := true), List.count_eq_length, hset,
      block_requests_eq]
    simp

/-- A piece of which every request has been answered is the content. -/
theorem Assembles.data (h : Assembles content answered download)
    (hall : ∀ request ∈ block_requests content.length, request.1 ∈ answered) : download.assembler.data = content := by
  rw [PieceAssembler.data, h.piece_length, ← h.buf, List.take_length]
  apply List.ext_getElem?
  intro k
  by_cases hk : k < content.length
  · have hblock : k / BLOCK_SIZE < blocks_for content.length := by
      unfold blocks_for BLOCK_SIZE
      omega
    exact h.bytes k hk (hall _ (mem_block_requests.mpr ⟨_, hblock, rfl, rfl⟩))
  · rw [List.getElem?_eq_none (by rw [h.buf]; omega), List.getElem?_eq_none (by omega)]

theorem Assembles.after (h : Assembles content answered download) {events : List Event}
    (hevents : download.AnswersWith content events) :
    Assembles content (answered ++ download.accepted events) (download.after events) := by
  induction events generalizing download answered with
  | nil => rwa [accepted, List.append_nil]
  | cons event events ih =>
    obtain ⟨hevent, hevents⟩ := hevents
    cases event with
    | Send global_in_flight request_budget writes => exact ih (h.send_loop ..) hevents
    | Arrive offset block global_in_flight =>
      rw [accepted]
      cases haccepts : download.accepts offset block with
      | false =>
        have hnext : download.next (.Arrive offset block global_in_flight) = download := by
          rw [next, record_block_of_not_accepts haccepts]
        rw [hnext] at hevents
        rw [if_neg (by decide), after, List.foldl_cons, hnext]
        exact ih h hevents
      | true =>
        obtain ⟨complete, taken, hrecord, htaken, -⟩ := h.record haccepts (hevent haccepts) global_in_flight
        have hnext : download.next (.Arrive offset block global_in_flight) = taken := by
          rw [next, hrecord]
        rw [hnext] at hevents
        rw [if_pos rfl, after, List.foldl_cons, hnext, ← List.singleton_append, ← List.append_assoc]
        exact ih htaken hevents

/-- The requests cover every byte of the piece once, in their order. -/
theorem block_requests_tile (piece_length : Nat) :
    (block_requests piece_length).flatMap (fun request => List.range' request.1 request.2) =
      List.range piece_length := by
  have hfirst :
      ∀ n, ((List.range n).map fun i => (i * BLOCK_SIZE, min BLOCK_SIZE (piece_length - i * BLOCK_SIZE))).flatMap
      (fun request => List.range' request.1 request.2) = List.range (min (n * BLOCK_SIZE) piece_length) := by
    intro n
    induction n with
    | zero => simp
    | succ n ih =>
      rw [List.range_succ, List.map_append, List.flatMap_append, ih, List.map_singleton, List.flatMap_singleton]
      by_cases hinside : n * BLOCK_SIZE ≤ piece_length
      · have hmore : min ((n + 1) * BLOCK_SIZE) piece_length =
            n * BLOCK_SIZE + min BLOCK_SIZE (piece_length - n * BLOCK_SIZE) := by
          rw [Nat.succ_mul]
          omega
        rw [Nat.min_eq_left hinside, hmore, List.range_add, List.range'_eq_map_range]
      · have hsame : min ((n + 1) * BLOCK_SIZE) piece_length = min (n * BLOCK_SIZE) piece_length := by
          rw [Nat.succ_mul]
          omega
        rw [hsame, Nat.sub_eq_zero_of_le (by omega), Nat.min_zero, List.range'_zero, List.append_nil]
  have hall : min (blocks_for piece_length * BLOCK_SIZE) piece_length = piece_length := by
    unfold blocks_for BLOCK_SIZE
    omega
  rw [block_requests_eq, hfirst, hall]

theorem answersWith_append {events more : List Event} : download.AnswersWith content (events ++ more) ↔
    download.AnswersWith content events ∧ (download.after events).AnswersWith content more := by
  induction events generalizing download with
  | nil => exact ⟨fun h => ⟨trivial, h⟩, fun h => h.2⟩
  | cons event events ih =>
    constructor
    · rintro ⟨hevent, hrest⟩
      exact ⟨⟨hevent, (ih.mp hrest).1⟩, (ih.mp hrest).2⟩
    · rintro ⟨⟨hevent, hevents⟩, hmore⟩
      exact ⟨hevent, ih.mpr ⟨hevents, hmore⟩⟩

/-- Blocks arrive in any order, among blocks that were not asked for or are not of the length that was asked for. None
is refused. A block is taken if its request is outstanding, and ignored otherwise; the piece is reported as complete
with the block that answers the last request, and is the content then. -/
theorem reports_completion {content : Bytes} {piece_index : Nat} {events : List Event} {offset : Nat}
    {block : Bytes} {global_in_flight : Nat}
    (hanswers : (new piece_index content.length).AnswersWith content
      (events ++ [.Arrive offset block global_in_flight])) :
    let start := new piece_index content.length
    let download := start.after events
    (block_requests content.length).flatMap (fun request => List.range' request.1 request.2) =
      List.range content.length ∧
    ∃ report taken in_flight, download.record_block offset block global_in_flight = .ok (report, taken, in_flight) ∧
      (report = none ↔ download.accepts offset block = false) ∧ (report = none → taken = download) ∧
      (report = some true ↔ download.accepts offset block = true ∧
        ∀ request ∈ block_requests content.length, request.1 ∈ start.accepted events ++ [offset]) ∧
      (report = some true → taken.assembler.data = content) := by
  intro start download
  obtain ⟨hevents, harrival⟩ := answersWith_append.mp hanswers
  have hassembles : Assembles content (start.accepted events) download :=
    (Assembles.new content piece_index).after hevents
  refine ⟨block_requests_tile content.length, ?_⟩
  cases haccepts : download.accepts offset block with
  | false =>
    refine ⟨none, download, global_in_flight, record_block_of_not_accepts haccepts, ?_⟩
    simp
  | true =>
    obtain ⟨complete, taken, hrecord, htaken, hcomplete⟩ :=
      hassembles.record haccepts (harrival.1 haccepts) global_in_flight
    refine ⟨some complete, taken, _, hrecord, by simp, nofun, ?_, fun hreport => ?_⟩
    · rw [Option.some.injEq, hcomplete]
      simp
    · exact htaken.data (hcomplete.mp (Option.some.inj hreport))

end

/-- A piece of one block. A block that is too short and one that was not asked for come first. -/
theorem reports_completion_one_block :
    ∃ taken in_flight,
      ((new 4 3).after [.Send 0 64 none, .Arrive 0 [9, 9] 1, .Arrive 7 [1] 1]).record_block 0 [1, 2, 3] 1 =
      .ok (some true, taken, in_flight) ∧ taken.assembler.data = [1, 2, 3] := by
  have hanswers : (new 4 3).AnswersWith [1, 2, 3]
      ([.Send 0 64 none, .Arrive 0 [9, 9] 1, .Arrive 7 [1] 1] ++ [.Arrive 0 [1, 2, 3] 1]) := by
    refine ⟨trivial, fun h => ?_, fun h => ?_, fun _ => rfl, trivial⟩
    · exact absurd h (by decide)
    · exact absurd h (by decide)
  obtain ⟨-, report, taken, in_flight, hrecord, -, -, hcomplete, hdata⟩ :=
    @reports_completion [1, 2, 3] 4 [.Send 0 64 none, .Arrive 0 [9, 9] 1, .Arrive 7 [1] 1] 0 [1, 2, 3] 1 hanswers
  have hreport : report = some true := hcomplete.mpr ⟨by decide, by decide⟩
  exact ⟨taken, in_flight, hreport ▸ hrecord, hdata hreport⟩

end ParallelPieceDownload

end swarmotter.engine
