import Swarmotter.Torrent

open swarmotter.storage swarmotter.torrent

namespace swarmotter.health

/-! The share of the peers in the health of a torrent. -/

/-- The signals of a peer. A moment is a number of nanoseconds. -/
structure EnginePeerHealth where
  has_missing_pieces : Bool
  unchoked : Bool
  blocked : Bool
  last_valid_block : Option Nat
  useful_recently : Bool
  last_seen : Option Nat

/-- What the score of the peers depends on. -/
structure HealthInput where
  state : TorrentState
  piece_count : Nat
  pieces_have : PieceBitfield
  peers : Vec EnginePeerHealth
  /-- The `traffic_allowed` of the network, if its health is known. -/
  network : Option Bool
  webseed_recent_ok : Bool

structure PeerSummary where
  has_missing : Bool
  unchoked : Bool
  blocked : Bool
  useful_recently : Bool
  active_sending : Bool
  last_seen : Option Nat

def EnginePeerHealth.summary (now : Nat) (p : EnginePeerHealth) : PeerSummary where
  has_missing := p.has_missing_pieces
  unchoked := p.unchoked
  blocked := p.blocked
  useful_recently := p.useful_recently
  active_sending := p.unchoked && p.has_missing_pieces &&
    (p.last_valid_block.map fun t => decide (now - t < 60 * 10 ^ 9)).getD false
  last_seen := p.last_seen

def HealthInput.peer_summaries (self : HealthInput) (now : Nat) : Vec PeerSummary := self.peers.map (·.summary now)

def PeerSummary.useful (p : PeerSummary) : Bool :=
  p.has_missing && !p.blocked && (p.unchoked || p.useful_recently) && p.last_seen.isSome

/-- The score and the reason for it. The number of the active peers is cast to a byte. -/
def peer_score (input : HealthInput) (useful active_sending unchoked peers_with_needed_pieces : Nat) :
    Nat × Option String :=
  if useful = 0 then
    if input.webseed_recent_ok then (70, some "webseed is sending data")
    else if peers_with_needed_pieces = 0 then (0, some "no connected peer has the pieces we need")
    else (0, some "no useful peer is currently sending data")
  else
    let base := if useful = 1 then 45 else if useful = 2 then 65 else 80
    let bonus := if 3 ≤ useful then min (min (min active_sending useful % 2 ^ 8 * 4) 255) 20 else 0
    let score := base + bonus
    (min score 100,
      if 90 ≤ score then some s!"{useful} useful peers are sending data"
      else if 65 ≤ score then some s!"{useful} useful peers are active"
      else if 0 < unchoked then some s!"{unchoked} peer is unchoked but slow"
      else none)

/-- The score of the peers where `compute` returns before it has looked at them. -/
def HealthInput.hard_cap (self : HealthInput) : Option Nat :=
  if self.network = some false then some 0
  else if self.state = .Paused then some 0
  else if self.state = .Completed ∨ 0 < self.piece_count ∧ ∀ i < self.piece_count, self.pieces_have.has i = true then
    some 100
  else none

/-- The `peer_score` of the health that `compute` returns, which the other scores do not enter. -/
def HealthCalculator.compute_peer_score (now : Nat) (input : HealthInput) : Nat :=
  match input.hard_cap with
  | some score => score
  | none =>
    let peer_summaries := input.peer_summaries now
    (peer_score input (peer_summaries.countP (·.useful)) (peer_summaries.countP (·.active_sending))
      (peer_summaries.countP (·.unchoked)) (peer_summaries.countP (·.has_missing))).1

/-- One more active peer lowers the score where their number is a multiple of 256 then. -/
theorem peer_score_succ_iff (input : HealthInput) (useful active_sending unchoked peers_with_needed_pieces : Nat) :
    (peer_score input useful active_sending unchoked peers_with_needed_pieces).1 ≤
        (peer_score input useful (active_sending + 1) unchoked peers_with_needed_pieces).1 ↔
      (active_sending < useful → (active_sending + 1) % 256 ≠ 0) := by
  unfold peer_score
  by_cases hzero : useful = 0
  · simp [hzero]
  · simp only [hzero, if_false]
    split_ifs <;> omega

section
variable {now block : Nat} {input : HealthInput} {before after : Vec EnginePeerHealth} {peer : EnginePeerHealth}

/-- A signal that is changed at one peer, if at all. -/
theorem countP_peer_summaries (now : Nat) (input : HealthInput) (signal : PeerSummary → Bool)
    (hpeers : input.peers = before ++ peer :: after) :
    (input.peer_summaries now).countP signal =
      (before.map (·.summary now) ++ after.map (·.summary now)).countP signal + (signal (peer.summary now)).toNat := by
  rw [HealthInput.peer_summaries, hpeers, List.map_append, List.map_cons, List.countP_append, List.countP_append,
    List.countP_cons, Nat.add_assoc]
  cases signal (peer.summary now) <;> rfl

/-- The score is not lowered by a useful peer that starts to send, unless that makes the number of the active peers a
multiple of 256 and there are as many useful ones. -/
theorem HealthCalculator.peer_score_le_iff (hpeers : input.peers = before ++ peer :: after)
    (hidle : (peer.summary now).active_sending = false)
    (hactive : ({ peer with last_valid_block := some block }.summary now).active_sending = true) :
    compute_peer_score now input ≤ compute_peer_score now
        { input with peers := before ++ { peer with last_valid_block := some block } :: after } ↔
      (input.hard_cap = none →
        (input.peer_summaries now).countP (·.active_sending) < (input.peer_summaries now).countP (·.useful) →
          ((input.peer_summaries now).countP (·.active_sending) + 1) % 256 ≠ 0) := by
  have hbefore (signal : PeerSummary → Bool) := countP_peer_summaries now input signal hpeers
  have hafter (signal : PeerSummary → Bool) := countP_peer_summaries now
    { input with peers := before ++ { peer with last_valid_block := some block } :: after } signal rfl
  have hcap : { input with peers := before ++ { peer with last_valid_block := some block } :: after }.hard_cap =
    input.hard_cap := rfl
  unfold compute_peer_score
  rw [hcap]
  cases input.hard_cap with
  | some score => simp
  | none =>
    simp only [forall_const, hafter, hbefore, hidle, hactive]
    exact peer_score_succ_iff input _ _ _ _

end

def sample_peer (last_valid_block : Option Nat) : EnginePeerHealth :=
  ⟨true, true, false, last_valid_block, true, some 0⟩

/-- A number of useful peers that send, and another one. -/
def sample_input (active : Nat) (last_valid_block : Option Nat) : HealthInput where
  state := .Downloading
  piece_count := 1
  pieces_have := .new 1
  peers := List.replicate active (sample_peer (some 0)) ++ [sample_peer last_valid_block]
  network := none
  webseed_recent_ok := false

theorem HealthCalculator.peer_score_le_three :
    compute_peer_score 0 (sample_input 2 none) ≤ compute_peer_score 0 (sample_input 2 (some 0)) :=
  (@HealthCalculator.peer_score_le_iff 0 0 (sample_input 2 none) _ _ _ rfl rfl rfl).mpr (by decide)

/-- The last of 256 useful peers starts to send, and the score falls from 100 to 80. -/
theorem HealthCalculator.peer_score_falls :
    ((sample_peer none).summary 0).useful = true ∧ ((sample_peer none).summary 0).active_sending = false ∧
      ((sample_peer (some 0)).summary 0).active_sending = true ∧
      compute_peer_score 0 (sample_input 255 (some 0)) < compute_peer_score 0 (sample_input 255 none) := by
  decide +kernel

end swarmotter.health
