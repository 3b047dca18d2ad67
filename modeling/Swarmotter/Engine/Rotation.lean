import Mathlib.Data.Int.CardIntervalMod
import Swarmotter.Meta.Parse
import Swarmotter.Tracker.Announce

open swarmotter.meta swarmotter.tracker

namespace swarmotter.engine

/-- The candidates of a call and the cursor after it. -/
def rotated_peer_candidates (eligible : Vec PeerAddr) (cursor limit : Nat) : Vec PeerAddr × Nat :=
  if eligible = [] ∨ limit = 0 then ([], cursor)
  else
    let start := cursor % eligible.length
    let take := min eligible.length limit
    ((List.range take).filterMap fun offset => eligible[(start + offset) % eligible.length]?,
      (start + take) % eligible.length)

/-- What calls in a row return. -/
def rotated_calls (eligible : Vec PeerAddr) (limit : Nat) : Nat → Nat → Vec (Vec PeerAddr)
  | 0, _ => []
  | calls + 1, cursor =>
    let (out, cursor) := rotated_peer_candidates eligible cursor limit
    out :: rotated_calls eligible limit calls cursor

/-- A number of turns through the list, from the place of a cursor. -/
def turns (eligible : Vec PeerAddr) (cursor count : Nat) : Vec PeerAddr :=
  (List.range count).filterMap fun i => eligible[(cursor + i) % eligible.length]?

variable {eligible : Vec PeerAddr} {limit : Nat}

theorem turns_add (cursor front back : Nat) :
    turns eligible cursor (front + back) = turns eligible cursor front ++ turns eligible (cursor + front) back := by
  simp [turns, List.range_add, List.filterMap_map, Nat.add_assoc]

theorem length_turns (hpos : 0 < eligible.length) (cursor count : Nat) :
    (turns eligible cursor count).length = count := by
  rw [turns, List.length_filterMap_eq_countP, List.countP_eq_length.mpr, List.length_range]
  exact fun i _ => by simp [Nat.mod_lt _ hpos]

theorem turns_subset {cursor count : Nat} : turns eligible cursor count ⊆ eligible := by
  intro peer hpeer
  obtain ⟨i, -, hi⟩ := List.mem_filterMap.mp hpeer
  exact List.mem_of_getElem? hi

section
variable (hnodup : eligible.Nodup) {peer : PeerAddr} (hpeer : peer ∈ eligible) (cursor count : Nat)
include hnodup hpeer

/-- Every peer has one turn in a round. -/
theorem count_turns : (turns eligible cursor count).count peer = count / eligible.length ∨
    (turns eligible cursor count).count peer = count / eligible.length + 1 ∧ 0 < count % eligible.length := by
  obtain ⟨place, hplace, rfl⟩ := List.getElem_of_mem hpeer
  have hpos : 0 < eligible.length := by omega
  have hshift : cursor % eligible.length + (place + (eligible.length - cursor % eligible.length)) =
      place + eligible.length := by
    have hlt := Nat.mod_lt cursor hpos
    omega
  have hturn (i : Nat) : (eligible[(cursor + i) % eligible.length]? == some eligible[place]) =
      decide (i ≡ place + (eligible.length - cursor % eligible.length) [MOD eligible.length]) := by
    rw [List.getElem?_eq_getElem (Nat.mod_lt _ hpos), Bool.eq_iff_iff, beq_iff_eq, Option.some.injEq,
      hnodup.getElem_inj_iff, decide_eq_true_eq, ← Nat.mod_add_mod, ← Nat.ModEq.add_iff_left rfl, hshift,
      Nat.ModEq, Nat.add_mod_right, Nat.mod_eq_of_lt hplace]
  have hcount := Nat.count_modEq_card count hpos (place + (eligible.length - cursor % eligible.length))
  rw [turns, List.count_filterMap, funext hturn, ← Nat.count, hcount]
  split
  · exact .inr ⟨rfl, by omega⟩
  · exact .inl rfl

end

/-- The turns of calls in a row. -/
theorem flatMap_turns (cursor take start calls : Nat) :
    ((List.range' start calls).flatMap fun call => turns eligible (cursor + call * take) take) =
      turns eligible (cursor + start * take) (calls * take) := by
  induction calls generalizing start with
  | zero => simp [turns]
  | succ calls ih =>
    rw [List.range'_succ, List.flatMap_cons, ih, Nat.succ_mul, Nat.succ_mul, ← Nat.add_assoc, ← turns_add,
      Nat.add_comm take]

theorem rotated_calls_eq (hpeers : eligible ≠ []) (hlimit : 0 < limit) (k cursor : Nat) :
    rotated_calls eligible limit k cursor = (List.range k).map fun call =>
      turns eligible (cursor + call * min eligible.length limit) (min eligible.length limit) := by
  induction k generalizing cursor with
  | zero => rfl
  | succ k ih =>
    simp [rotated_calls, rotated_peer_candidates, hpeers, Nat.ne_of_gt hlimit, ih, List.range_succ_eq_map, turns,
      Nat.succ_mul, Nat.add_assoc, Nat.add_left_comm]

/-- Each call returns different peers, calls enough for a round return all of them, and no peer gets ahead of
    another by more than one turn. -/
theorem rotated_calls_fair (hnodup : eligible.Nodup) (hpeers : eligible ≠ []) (hlimit : 0 < limit) (cursor k : Nat) :
    let calls := rotated_calls eligible limit k cursor
    (∀ out ∈ calls, out.length = min eligible.length limit ∧ out.Nodup ∧ out ⊆ eligible) ∧
      (∀ start, start + div_ceil eligible.length limit ≤ k → ∀ peer ∈ eligible,
        peer ∈ ((calls.drop start).take (div_ceil eligible.length limit)).flatten) ∧
      ∀ left ∈ eligible, ∀ right ∈ eligible, calls.flatten.count left ≤ calls.flatten.count right + 1 := by
  have hpos : 0 < eligible.length := List.length_pos_iff.mpr hpeers
  rw [rotated_calls_eq hpeers hlimit]
  generalize htake : min eligible.length limit = take
  refine ⟨List.forall_mem_map.mpr fun call _ => ?_, fun start hstart peer hpeer => ?_,
    fun left hleft right hright => ?_⟩
  · refine ⟨length_turns hpos _ _, List.nodup_iff_count_le_one.mpr fun peer => ?_, turns_subset⟩
    by_cases hpeer : peer ∈ eligible
    · have hcount := count_turns hnodup hpeer (cursor + call * take) take
      rcases (show take < eligible.length ∨ take = eligible.length by omega) with hlt | heq
      · rw [Nat.div_eq_of_lt hlt] at hcount
        omega
      · subst heq
        rw [Nat.div_self hpos, Nat.mod_self] at hcount
        omega
    · exact (List.count_eq_zero.mpr fun hmem => hpeer (turns_subset hmem)).le.trans (Nat.zero_le 1)
  · have hwindow : ((List.range k).drop start).take (div_ceil eligible.length limit) =
        List.range' start (div_ceil eligible.length limit) := by
      rw [List.range_eq_range', List.drop_range', List.take_range'_of_length_ge (by omega), Nat.zero_add, Nat.mul_one]
    rw [← List.map_drop, ← List.map_take, hwindow, ← List.flatMap_def, flatMap_turns, ← List.count_pos_iff]
    have hround : eligible.length ≤ div_ceil eligible.length limit * take := by
      rcases (show take = limit ∨ take = eligible.length by omega) with rfl | rfl
      · exact (slices.div_ceil_le_iff hlimit).mp le_rfl
      · exact Nat.le_mul_of_pos_left _ (Nat.div_pos (by omega) hlimit)
    have hcount := count_turns hnodup hpeer (cursor + start * take) (div_ceil eligible.length limit * take)
    have hdiv := Nat.div_pos hround hpos
    omega
  · rw [← List.flatMap_def, List.range_eq_range', flatMap_turns]
    have hcount_left := count_turns hnodup hleft (cursor + 0 * take) (k * take)
    have hcount_right := count_turns hnodup hright (cursor + 0 * take) (k * take)
    omega

theorem rotated_calls_fair_two :
    let first : PeerAddr := ⟨.V4 .UNSPECIFIED, 1⟩
    let second : PeerAddr := ⟨.V4 .UNSPECIFIED, 2⟩
    let calls := rotated_calls [first, second] 1 3 5
    calls.flatten.count second ≤ calls.flatten.count first + 1 :=
  (rotated_calls_fair (by decide) (by decide) (by decide) 5 3).2.2 _ (by decide) _ (by decide)

end swarmotter.engine
