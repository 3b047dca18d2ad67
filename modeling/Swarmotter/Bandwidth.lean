import Mathlib.Data.Nat.Bitwise
import Mathlib.Tactic.Ring

namespace swarmotter.bandwidth

def REFILL_IN_PROGRESS : UInt64 := (1 : UInt64) <<< 63

def REFILL_TIME_MASK : UInt64 := ~~~REFILL_IN_PROGRESS

structure AtomicTokenBucket where
  tokens : UInt64
  capacity : UInt64
  last_refill_ms : UInt64
  deriving DecidableEq

namespace AtomicTokenBucket

def new (capacity_per_sec now_ms : UInt64) : AtomicTokenBucket := ⟨capacity_per_sec, capacity_per_sec, now_ms⟩

/-- The sum has 128 bits. -/
def add_tokens (self : AtomicTokenBucket) (add : Nat) (capacity : UInt64) : AtomicTokenBucket :=
  { self with tokens := UInt64.ofNat (min ((self.tokens.toNat + add) % 2 ^ 128) capacity.toNat) }

/-- A refill that no other call disturbs: it waits for ever for one that is marked as in progress. The product has
128 bits. -/
def refill (self : AtomicTokenBucket) (now_ms : UInt64) : Option AtomicTokenBucket :=
  if self.last_refill_ms &&& REFILL_IN_PROGRESS ≠ 0 then none
  else
    let last_refill := self.last_refill_ms &&& REFILL_TIME_MASK
    if now_ms ≤ last_refill then some self
    else
      let elapsed := now_ms.toNat - last_refill.toNat
      let add := self.capacity.toNat * elapsed % 2 ^ 128 / 1000
      let refilled := if self.capacity > 0 ∧ add > 0 then self.add_tokens add self.capacity else self
      some { refilled with last_refill_ms := now_ms }

def consume (self : AtomicTokenBucket) (want : UInt64) : UInt64 × AtomicTokenBucket :=
  let allowed := if want ≤ self.tokens then want else self.tokens
  (allowed, { self with tokens := self.tokens - allowed })

def refill_and_consume (self : AtomicTokenBucket) (now_ms want : UInt64) : Option (UInt64 × AtomicTokenBucket) :=
  if self.capacity = 0 then some (want, self) else (self.refill (now_ms &&& REFILL_TIME_MASK)).map (·.consume want)

/-- Calls one after the other: what they grant together, and the bucket behind them. -/
def calls (self : AtomicTokenBucket) : List (UInt64 × UInt64) → Option (Nat × AtomicTokenBucket)
  | [] => some (0, self)
  | (now_ms, want) :: rest => do
    let (allowed, next) ← self.refill_and_consume now_ms want
    let (granted, last) ← next.calls rest
    pure (allowed.toNat + granted, last)

/-- A bucket with a limit that holds no more than it can, and that no refill has locked. -/
structure Sound (bucket : AtomicTokenBucket) : Prop where
  limited : 0 < bucket.capacity.toNat
  tokens_le : bucket.tokens.toNat ≤ bucket.capacity.toNat
  free : bucket.last_refill_ms.toNat < 2 ^ 63

section
variable {bucket : AtomicTokenBucket} {now_ms : UInt64}

theorem and_in_progress {time : UInt64} (h : time.toNat < 2 ^ 63) : time &&& REFILL_IN_PROGRESS = 0 := by
  apply UInt64.toNat_inj.mp
  rw [UInt64.toNat_and, show REFILL_IN_PROGRESS.toNat = 2 ^ 63 by decide, Nat.and_two_pow, Nat.testBit_lt_two_pow h]
  rfl

theorem and_time_mask {time : UInt64} (h : time.toNat < 2 ^ 63) : time &&& REFILL_TIME_MASK = time := by
  apply UInt64.toNat_inj.mp
  rw [UInt64.toNat_and, show REFILL_TIME_MASK.toNat = 2 ^ 63 - 1 by decide, Nat.and_two_pow_sub_one_eq_mod,
    Nat.mod_eq_of_lt h]

/-- A refill adds what the time since the last one is worth, as far as there is room. -/
theorem Sound.refill (h : Sound bucket) (hnow : now_ms.toNat < 2 ^ 63) : ∃ refilled,
    bucket.refill now_ms = some refilled ∧ Sound refilled ∧ refilled.capacity = bucket.capacity ∧
      refilled.last_refill_ms.toNat = max bucket.last_refill_ms.toNat now_ms.toNat ∧
      refilled.tokens.toNat = min bucket.capacity.toNat (bucket.tokens.toNat +
        bucket.capacity.toNat * (now_ms.toNat - bucket.last_refill_ms.toNat) / 1000) := by
  obtain ⟨hlimited, htokens, hfree⟩ := h
  have hcapacity := bucket.capacity.toNat_lt
  unfold AtomicTokenBucket.refill
  rw [if_neg (by rw [and_in_progress hfree]; simp), and_time_mask hfree]
  dsimp only
  split
  case isTrue hle =>
    have hle := UInt64.le_iff_toNat_le.mp hle
    refine ⟨bucket, rfl, ⟨hlimited, htokens, hfree⟩, rfl, (Nat.max_eq_left hle).symm, ?_⟩
    rw [Nat.sub_eq_zero_of_le hle]
    simpa using htokens
  case isFalse hle =>
    have hlt : bucket.last_refill_ms.toNat < now_ms.toNat := by
      rw [UInt64.le_iff_toNat_le] at hle
      omega
    -- neither the product nor the sum leaves its 128 bits
    have hproduct : bucket.capacity.toNat * (now_ms.toNat - bucket.last_refill_ms.toNat) < 2 ^ 127 := by
      calc _ < 2 ^ 64 * 2 ^ 63 := Nat.mul_lt_mul'' hcapacity (by omega)
        _ = 2 ^ 127 := by decide
    rw [Nat.mod_eq_of_lt (Nat.lt_trans hproduct (by decide))]
    generalize bucket.capacity.toNat * (now_ms.toNat - bucket.last_refill_ms.toNat) = product at hproduct ⊢
    split
    case isTrue hadd =>
      have hsum : (bucket.tokens.toNat + product / 1000) % 2 ^ 128 = bucket.tokens.toNat + product / 1000 :=
        Nat.mod_eq_of_lt (by omega)
      have hroom : (UInt64.ofNat (min (bucket.tokens.toNat + product / 1000) bucket.capacity.toNat)).toNat =
          min bucket.capacity.toNat (bucket.tokens.toNat + product / 1000) := by
        rw [UInt64.toNat_ofNat', Nat.mod_eq_of_lt (by omega), Nat.min_comm]
      refine ⟨_, rfl, ⟨hlimited, ?_, hnow⟩, rfl, (Nat.max_eq_right hlt.le).symm, ?_⟩ <;>
        simp only [add_tokens, hsum, hroom]
      exact Nat.min_le_left _ _
    case isFalse hadd =>
      have hzero : product / 1000 = 0 := by
        by_contra hne
        exact hadd ⟨UInt64.lt_iff_toNat_lt.mpr hlimited, Nat.pos_of_ne_zero hne⟩
      refine ⟨_, rfl, ⟨hlimited, htokens, hnow⟩, rfl, (Nat.max_eq_right hlt.le).symm, ?_⟩
      simpa [hzero] using htokens

/-- What a call grants is taken from the bucket. -/
theorem Sound.refill_and_consume (h : Sound bucket) (want : UInt64) (hnow : now_ms.toNat < 2 ^ 63) : ∃ allowed next,
    bucket.refill_and_consume now_ms want = some (allowed, next) ∧ Sound next ∧ next.capacity = bucket.capacity ∧
      next.last_refill_ms.toNat = max bucket.last_refill_ms.toNat now_ms.toNat ∧
      next.tokens.toNat + allowed.toNat = min bucket.capacity.toNat (bucket.tokens.toNat +
        bucket.capacity.toNat * (now_ms.toNat - bucket.last_refill_ms.toNat) / 1000) := by
  obtain ⟨refilled, hrefill, ⟨hlimited, htokens, hfree⟩, hcapacity, hlast, hsum⟩ := h.refill hnow
  let allowed := if want ≤ refilled.tokens then want else refilled.tokens
  have hallowed : allowed ≤ refilled.tokens := by
    unfold allowed
    split
    · assumption
    · exact UInt64.le_refl _
  have hsub := UInt64.toNat_sub_of_le _ _ hallowed
  have hle := UInt64.le_iff_toNat_le.mp hallowed
  refine ⟨allowed, { refilled with tokens := refilled.tokens - allowed }, ?_, ⟨hlimited, ?_, hfree⟩, hcapacity, hlast,
    ?_⟩
  · have hne : bucket.capacity ≠ 0 := fun h0 => by simpa [h0] using h.limited
    rw [AtomicTokenBucket.refill_and_consume, if_neg hne, and_time_mask hnow, hrefill]
    rfl
  · dsimp only
    omega
  · dsimp only
    omega

/-- The largest of a time and some others. -/
def latest (time : Nat) (times : List UInt64) : Nat := times.foldl (fun latest time => max latest time.toNat) time

theorem latest_cons (time : Nat) (now_ms : UInt64) (times : List UInt64) :
    latest time (now_ms :: times) = latest (max time now_ms.toNat) times :=
  rfl

theorem le_latest (times : List UInt64) : ∀ time, time ≤ latest time times := by
  induction times with
  | nil => exact fun _ => Nat.le_refl _
  | cons now_ms times ih => exact fun time => Nat.le_trans (Nat.le_max_left _ _) (ih _)

/-- What the calls grant and leave in the bucket was there or came with the time. -/
theorem Sound.calls (calls : List (UInt64 × UInt64)) : ∀ {bucket : AtomicTokenBucket}, Sound bucket →
    (∀ call ∈ calls, call.1.toNat < 2 ^ 63) → ∃ granted last,
      bucket.calls calls = some (granted, last) ∧ Sound last ∧ last.capacity = bucket.capacity ∧
        last.tokens.toNat + granted ≤ bucket.tokens.toNat +
          bucket.capacity.toNat *
            (latest bucket.last_refill_ms.toNat (calls.map Prod.fst) - bucket.last_refill_ms.toNat) / 1000 := by
  induction calls with
  | nil => exact fun {bucket} h _ => ⟨0, bucket, rfl, h, rfl, Nat.le_add_right _ _⟩
  | cons call calls ih =>
    intro bucket h htimes
    obtain ⟨hnow, hrest⟩ := List.forall_mem_cons.mp htimes
    obtain ⟨allowed, next, hcall, hnext, hcapacity, hlast, hsum⟩ := h.refill_and_consume call.2 hnow
    obtain ⟨granted, last, hcalls, hsound, hcapacity', hgranted⟩ := ih hnext hrest
    refine ⟨allowed.toNat + granted, last, ?_, hsound, hcapacity'.trans hcapacity, ?_⟩
    · simp [AtomicTokenBucket.calls, hcall, hcalls]
    · rw [hcapacity, hlast] at hgranted
      have hle := le_latest (calls.map Prod.fst) (max bucket.last_refill_ms.toNat call.1.toNat)
      rw [List.map_cons, latest_cons]
      generalize latest (max bucket.last_refill_ms.toNat call.1.toNat) (calls.map Prod.fst) = time at hle hgranted ⊢
      -- the two waits make up the whole one, and the parts are rounded down
      have hwaits : time - bucket.last_refill_ms.toNat = (call.1.toNat - bucket.last_refill_ms.toNat) +
          (time - max bucket.last_refill_ms.toNat call.1.toNat) := by omega
      rw [hwaits, Nat.mul_add]
      generalize bucket.capacity.toNat * (call.1.toNat - bucket.last_refill_ms.toNat) = first at *
      generalize bucket.capacity.toNat * (time - max bucket.last_refill_ms.toNat call.1.toNat) = second at *
      omega

/-- No call to a bucket that is locked returns. -/
theorem calls_locked (hlocked : ¬ bucket.last_refill_ms.toNat < 2 ^ 63) (hlimited : bucket.capacity ≠ 0)
    (call : UInt64 × UInt64) (calls : List (UInt64 × UInt64)) : bucket.calls (call :: calls) = none := by
  have hbit : bucket.last_refill_ms &&& REFILL_IN_PROGRESS ≠ 0 := by
    intro hzero
    have hand := congrArg UInt64.toNat hzero
    rw [UInt64.toNat_and, show REFILL_IN_PROGRESS.toNat = 2 ^ 63 by decide, Nat.and_two_pow] at hand
    have hlt := bucket.last_refill_ms.toNat_lt
    have hset : bucket.last_refill_ms.toNat.testBit 63 = true := by
      rw [Nat.testBit_eq_decide_div_mod_eq, decide_eq_true_eq]
      omega
    simp [hset] at hand
  simp [AtomicTokenBucket.calls, refill_and_consume, hlimited, refill, hbit]

/-- Whatever is asked for and whenever, the bucket holds no more than its capacity, and the calls together get no more
than the capacity once and again for every second. They all return if the bucket was made at a time of 63 bits too. -/
theorem granted_le_rate (capacity start : UInt64) (hlimited : 0 < capacity) (calls : List (UInt64 × UInt64))
    (htimes : ∀ call ∈ calls, call.1.toNat < 2 ^ 63) :
    (start.toNat < 2 ^ 63 → ((new capacity start).calls calls).isSome) ∧
      ∀ granted last, (new capacity start).calls calls = some (granted, last) →
        last.tokens ≤ capacity ∧
          granted ≤ capacity.toNat +
            capacity.toNat * (latest start.toNat (calls.map Prod.fst) - start.toNat) / 1000 := by
  have hpos := UInt64.lt_iff_toNat_lt.mp hlimited
  have hfree : start.toNat < 2 ^ 63 → ∃ granted last, (new capacity start).calls calls = some (granted, last) ∧
      last.tokens ≤ capacity ∧
        granted ≤ capacity.toNat + capacity.toNat * (latest start.toNat (calls.map Prod.fst) - start.toNat) / 1000 := by
    intro hstart
    have hsound : Sound (new capacity start) := ⟨hpos, Nat.le_refl _, hstart⟩
    obtain ⟨granted, last, hcalls, hsound, hcapacity, hle⟩ := hsound.calls calls htimes
    have htokens := hsound.tokens_le
    rw [hcapacity] at htokens
    exact ⟨granted, last, hcalls, UInt64.le_iff_toNat_le.mpr htokens, Nat.le_trans (Nat.le_add_left _ _) hle⟩
  constructor
  · intro hstart
    obtain ⟨granted, last, hcalls, -⟩ := hfree hstart
    rw [hcalls]
    rfl
  · intro granted last h
    by_cases hstart : start.toNat < 2 ^ 63
    · obtain ⟨granted', last', hcalls, hle⟩ := hfree hstart
      cases h.symm.trans hcalls
      exact hle
    · cases calls with
      | nil =>
        cases h
        exact ⟨UInt64.le_refl _, Nat.zero_le _⟩
      | cons call calls =>
        rw [calls_locked hstart (fun h0 => by simp_all [new])] at h
        cases h

theorem granted_le_rate_backwards : ((new 100 5000).calls [(5500, 70), (5200, 70), (6000, 70)]) =
      some (150, ⟨0, 100, 6000⟩) ∧
    ∀ granted last, (new 100 5000).calls [(5500, 70), (5200, 70), (6000, 70)] = some (granted, last) →
      last.tokens ≤ 100 ∧ granted ≤ 200 :=
  ⟨by decide +kernel, (granted_le_rate 100 5000 (by decide) [(5500, 70), (5200, 70), (6000, 70)] (by simp)).2⟩

end

section
variable {bucket : AtomicTokenBucket}

def refill_all (self : AtomicTokenBucket) (times : List UInt64) : Option AtomicTokenBucket := times.foldlM refill self

/-- The times that refills one after the other are worth: one that does not come after the last one is worth none. -/
def waits (last_refill_ms : Nat) : List UInt64 → List Nat
  | [] => []
  | now_ms :: times => (now_ms.toNat - last_refill_ms) :: waits (max last_refill_ms now_ms.toNat) times

theorem latest_le {bound : Nat} : ∀ {times : List UInt64} {time : Nat}, time ≤ bound →
    (∀ now_ms ∈ times, now_ms.toNat ≤ bound) → latest time times ≤ bound
  | [], _, htime, _ => htime
  | now_ms :: times, time, htime, htimes => by
    obtain ⟨hnow, hrest⟩ := List.forall_mem_cons.mp htimes
    rw [latest_cons]
    exact latest_le (Nat.max_le.mpr ⟨htime, hnow⟩) hrest

theorem sum_waits : ∀ (times : List UInt64) (time : Nat), (waits time times).sum = latest time times - time
  | [], time => (Nat.sub_self time).symm
  | now_ms :: times, time => by
    have hle := le_latest times (max time now_ms.toNat)
    rw [waits, List.sum_cons, sum_waits times, latest_cons]
    omega

/-- Refills add the whole tokens that each wait is worth. -/
theorem Sound.refill_all (times : List UInt64) : ∀ {bucket : AtomicTokenBucket}, Sound bucket →
    (∀ now_ms ∈ times, now_ms.toNat < 2 ^ 63) → ∃ last, bucket.refill_all times = some last ∧
      last.tokens.toNat = min bucket.capacity.toNat (bucket.tokens.toNat +
        ((waits bucket.last_refill_ms.toNat times).map (bucket.capacity.toNat * · / 1000)).sum) := by
  induction times with
  | nil =>
    intro bucket h _
    exact ⟨bucket, rfl, (Nat.min_eq_right h.tokens_le).symm⟩
  | cons now_ms times ih =>
    intro bucket h htimes
    obtain ⟨hnow, hrest⟩ := List.forall_mem_cons.mp htimes
    obtain ⟨refilled, hrefill, hsound, hcapacity, hlast, htokens⟩ := h.refill hnow
    obtain ⟨last, hall, hsum⟩ := ih hsound hrest
    refine ⟨last, ?_, ?_⟩
    · rw [AtomicTokenBucket.refill_all, List.foldlM_cons, hrefill]
      exact hall
    · rw [hsum, htokens, hcapacity, hlast, waits, List.map_cons, List.sum_cons]
      omega

/-- What waits are worth together, by the whole tokens of each and by what each leaves over. -/
theorem sum_tokens_add_left (capacity : Nat) : ∀ waits : List Nat,
    1000 * (waits.map (capacity * · / 1000)).sum + (waits.map (capacity * · % 1000)).sum = capacity * waits.sum
  | [] => rfl
  | wait :: waits => by
    have hrest := sum_tokens_add_left capacity waits
    simp only [List.map_cons, List.sum_cons, Nat.mul_add]
    omega

/-- Every refill forgets the part of a token its wait leaves over. Refilling at increasing times gives as much as
refilling at the last of them exactly when those parts make no token together, or the bucket is filled without them. -/
theorem refill_often_iff (h : Sound bucket) (times : List UInt64) (last_ms : UInt64)
    (htimes : ∀ now_ms ∈ times ++ [last_ms], now_ms.toNat < 2 ^ 63)
    (hincreasing : (times ++ [last_ms]).Pairwise (· < ·)) :
    (∃ often once, bucket.refill_all (times ++ [last_ms]) = some often ∧ bucket.refill last_ms = some once ∧
        once.tokens ≤ often.tokens) ↔
      ((waits bucket.last_refill_ms.toNat (times ++ [last_ms])).map (bucket.capacity.toNat * · % 1000)).sum < 1000 ∨
        bucket.capacity.toNat ≤ bucket.tokens.toNat +
          ((waits bucket.last_refill_ms.toNat (times ++ [last_ms])).map (bucket.capacity.toNat * · / 1000)).sum := by
  obtain ⟨often, hoften, htokens⟩ := h.refill_all _ htimes
  obtain ⟨once, honce, -, -, -, htokens'⟩ := h.refill (htimes last_ms (by simp))
  have hwhole := sum_tokens_add_left bucket.capacity.toNat (waits bucket.last_refill_ms.toNat (times ++ [last_ms]))
  have hwait : (waits bucket.last_refill_ms.toNat (times ++ [last_ms])).sum =
      last_ms.toNat - bucket.last_refill_ms.toNat := by
    have hbefore : latest bucket.last_refill_ms.toNat times ≤ max bucket.last_refill_ms.toNat last_ms.toNat := by
      refine latest_le (Nat.le_max_left _ _) fun now_ms hmem => ?_
      have hlt := (List.pairwise_append.mp hincreasing).2.2 now_ms hmem last_ms (List.mem_singleton_self _)
      exact Nat.le_trans (Nat.le_of_lt (UInt64.lt_iff_toNat_lt.mp hlt)) (Nat.le_max_right _ _)
    have hle := le_latest times bucket.last_refill_ms.toNat
    rw [sum_waits, latest, List.foldl_append]
    change max (latest _ times) _ - _ = _
    omega
  rw [← hwait, ← hwhole] at htokens'
  constructor
  · rintro ⟨_, _, hoften', honce', hle⟩
    cases hoften.symm.trans hoften'
    cases honce.symm.trans honce'
    rw [UInt64.le_iff_toNat_le] at hle
    omega
  · intro hwhen
    refine ⟨often, once, hoften, honce, UInt64.le_iff_toNat_le.mpr ?_⟩
    omega

/-- A byte each second, asked for every half second. -/
theorem refill_twice_gives_less :
    (AtomicTokenBucket.mk 0 1 0).refill_all [500, 1000] = some ⟨0, 1, 1000⟩ ∧
      (AtomicTokenBucket.mk 0 1 0).refill 1000 = some ⟨1, 1, 1000⟩ := by
  decide +kernel

theorem refill_often_iff_even : ∃ often once,
    (AtomicTokenBucket.mk 0 4 0).refill_all ([250, 500] ++ [1000]) = some often ∧
      (AtomicTokenBucket.mk 0 4 0).refill 1000 = some once ∧ once.tokens ≤ often.tokens :=
  (refill_often_iff ⟨by decide, by decide, by decide⟩ [250, 500] 1000 (by simp) (by simp)).mpr (by decide)

end

end AtomicTokenBucket

end swarmotter.bandwidth
