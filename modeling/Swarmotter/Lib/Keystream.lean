/-! Stream ciphers: a generator of key bytes, and bytes with the key bytes over them. -/

namespace keystream

variable {σ : Type} (next : σ → UInt8 × σ)

/-- The first key bytes from a state. -/
def keys : Nat → σ → List UInt8
  | 0, _ => []
  | n + 1, state => (next state).1 :: keys n (next state).2

/-- The state behind a number of key bytes. -/
def skip : Nat → σ → σ
  | 0, state => state
  | n + 1, state => skip n (next state).2

/-- The bytes with the key bytes over them, and the state behind them. -/
def apply : σ → List UInt8 → List UInt8 × σ
  | state, [] => ([], state)
  | state, byte :: bytes =>
    let rest := apply (next state).2 bytes
    ((byte ^^^ (next state).1) :: rest.1, rest.2)

theorem length_keys (n : Nat) (state : σ) : (keys next n state).length = n := by
  induction n generalizing state with
  | zero => rfl
  | succ n ih => rw [keys, List.length_cons, ih]

theorem apply_eq (state : σ) (bytes : List UInt8) :
    apply next state bytes =
      (List.zipWith (· ^^^ ·) bytes (keys next bytes.length state), skip next bytes.length state) := by
  induction bytes generalizing state with
  | nil => rfl
  | cons byte bytes ih =>
    simp only [apply, ih, List.length_cons, keys, skip, List.zipWith_cons_cons]

theorem length_apply (state : σ) (bytes : List UInt8) : (apply next state bytes).1.length = bytes.length := by
  rw [apply_eq, List.length_zipWith, length_keys, Nat.min_self]

/-- Text given in two pieces: the second piece goes on where the first one ended. -/
theorem apply_append (state : σ) (front back : List UInt8) :
    apply next state (front ++ back) = ((apply next state front).1 ++ (apply next (apply next state front).2 back).1,
        (apply next (apply next state front).2 back).2) := by
  induction front generalizing state with
  | nil => rfl
  | cons byte front ih => simp only [List.cons_append, apply, ih]

end keystream
