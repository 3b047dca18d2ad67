import Swarmotter.Bytes
import Swarmotter.Meta.Limits

open swarmotter.meta decimal

namespace swarmotter.bencode

/-- A bencode value. Dictionary entries stay in the order in which they were read. -/
inductive Value where
  | Int (n : Int64)
  | Str (s : Bytes)
  | List (items : List Value)
  | Dict (entries : List (Bytes × Value))
  deriving Repr

mutual

/-- `PartialEq` of values. -/
def Value.decEq : (x y : Value) → Decidable (x = y)
  | .Int m, .Int n =>
    if h : m = n then .isTrue (by rw [h]) else .isFalse (by simpa using h)
  | .Str s, .Str t =>
    if h : s = t then .isTrue (by rw [h]) else .isFalse (by simpa using h)
  | .List xs, .List ys =>
    match Value.decEqItems xs ys with
    | .isTrue h => .isTrue (by rw [h])
    | .isFalse h => .isFalse (by simpa using h)
  | .Dict xs, .Dict ys =>
    match Value.decEqEntries xs ys with
    | .isTrue h => .isTrue (by rw [h])
    | .isFalse h => .isFalse (by simpa using h)
  | .Int _, .Str _ | .Int _, .List _ | .Int _, .Dict _
  | .Str _, .Int _ | .Str _, .List _ | .Str _, .Dict _
  | .List _, .Int _ | .List _, .Str _ | .List _, .Dict _
  | .Dict _, .Int _ | .Dict _, .Str _ | .Dict _, .List _ => .isFalse (by simp)

def Value.decEqItems : (xs ys : Vec Value) → Decidable (xs = ys)
  | [], [] => .isTrue rfl
  | [], _ :: _ => .isFalse (by simp)
  | _ :: _, [] => .isFalse (by simp)
  | x :: xs, y :: ys =>
    match Value.decEq x y, Value.decEqItems xs ys with
    | .isTrue hx, .isTrue hxs => .isTrue (by rw [hx, hxs])
    | .isFalse hx, _ => .isFalse (by simp [hx])
    | _, .isFalse hxs => .isFalse (by simp [hxs])

def Value.decEqEntries : (xs ys : Vec (Bytes × Value)) → Decidable (xs = ys)
  | [], [] => .isTrue rfl
  | [], _ :: _ => .isFalse (by simp)
  | _ :: _, [] => .isFalse (by simp)
  | (k, x) :: xs, (l, y) :: ys =>
    if hk : k = l then
      match Value.decEq x y, Value.decEqEntries xs ys with
      | .isTrue hx, .isTrue hxs => .isTrue (by rw [hk, hx, hxs])
      | .isFalse hx, _ => .isFalse (by simp [hx])
      | _, .isFalse hxs => .isFalse (by simp [hxs])
    else .isFalse (by simp [hk])

end

instance : DecidableEq Value := Value.decEq

def Value.as_str : Value → Option Bytes
  | .Str s => some s
  | _ => none

def Value.as_str_utf8 : Value → Option String
  | .Str s => from_utf8 s
  | _ => none

def Value.as_int : Value → Option Int64
  | .Int n => some n
  | _ => none

def Value.as_list : Value → Option (Vec Value)
  | .List items => some items
  | _ => none

def Value.as_dict : Value → Option (Vec (Bytes × Value))
  | .Dict entries => some entries
  | _ => none

/-- The value of the first entry under `key`. -/
def Value.get (value : Value) (key : Bytes) : Option Value :=
  match value with
  | .Dict entries => (entries.find? fun entry => entry.1 == key).map Prod.snd
  | _ => none

structure Parser where
  bytes : Bytes
  pos : Nat
  depth : Nat
  nodes : Nat
  deriving DecidableEq, Repr

def Parser.peek (p : Parser) : Result UInt8 :=
  ok_or p.bytes[p.pos]? (.Bencode "unexpected end of input")

def Parser.bump (p : Parser) : Result (UInt8 × Parser) := do
  let c ← p.peek
  let pos ← ok_or (checked_add p.pos 1) (.Bencode "cursor overflow")
  pure (c, { p with pos := pos })

/-- Count one node and reject the node that would exceed the budget. -/
def Parser.count_node (p : Parser) : Result Parser := do
  let nodes ← ok_or (checked_add p.nodes 1) (.Bencode "node count overflow")
  let _ ← reject_if (nodes > MAX_BENCODE_NODES)
    (.Bencode s!"bencode node count exceeds maximum {MAX_BENCODE_NODES}")
  pure { p with nodes := nodes }

def Parser.enter (p : Parser) : Result Parser := do
  let depth ← ok_or (checked_add p.depth 1) (.Bencode "nesting depth overflow")
  let _ ← reject_if (depth > MAX_BENCODE_DEPTH)
    (.Bencode s!"bencode nesting depth exceeds maximum {MAX_BENCODE_DEPTH}")
  pure { p with depth := depth }

def Parser.leave (p : Parser) : Result Parser := do
  let depth ← ok_or (checked_sub p.depth 1) (.Bencode "nesting depth underflow")
  pure { p with depth := depth }

/-- The scan of `parse_int` for the terminator. Started with one unit of fuel for each byte
    that is left, it stops with none only where `peek` fails, as the loop of the source does. -/
def Parser.scan_int : Nat → Parser → Result Parser
  | 0, p => .ok p
  | fuel + 1, p =>
    match p.peek with
    | .error _ => .ok p
    | .ok c =>
      if c = b 'e' then .ok p
      else do
        let pos ← ok_or (checked_add p.pos 1) (.Bencode "integer cursor overflow")
        scan_int fuel { p with pos := pos }

/-- The checks of `parse_int` on the bytes between `i` and `e`. -/
def check_int_body (chars : Bytes) : Result Unit := do
  let sign := chars.head? = some (b '-')
  let _ ← reject_if (sign ∧ chars.length = 1) (.Bencode "integer has sign without digits")
  let digits := if sign then chars.tail else chars
  let _ ← reject_if (digits = []) (.Bencode "integer has no digits")
  let _ ← reject_if (digits.all is_digit = false) (.Bencode "integer contains non-digit")
  let _ ← reject_if (digits.head? = some (b '0') ∧ digits.length > 1)
    (.Bencode "integer has leading zero")
  reject_if (digits.head? = some (b '0') ∧ sign) (.Bencode "negative zero is not allowed")

def Parser.parse_int (p : Parser) : Result (Value × Parser) := do
  let (_, p) ← p.bump
  let start := p.pos
  let p ← p.scan_int (p.bytes.length - p.pos)
  let _ ← reject_if (start = p.pos) (.Bencode "empty integer")
  let s ← ok_or (from_utf8 ((p.bytes.take p.pos).drop start)) (.Bencode "integer body is not utf8")
  let chars := as_bytes s
  let _ ← check_int_body chars
  let n ← ok_or (parse_i64 chars) (.Bencode "integer out of i64 range")
  let (_, p) ← p.bump
  pure (.Int n, p)

def Parser.parse_str (p : Parser) : Result (Bytes × Parser) := do
  let colon ← ok_or ((p.bytes.drop p.pos).findIdx? (· == b ':')) (.Bencode "missing ':' in string")
  let after_len ← ok_or (checked_add p.pos colon) (.Bencode "string length prefix overflows cursor")
  let len_bytes := (p.bytes.take after_len).drop p.pos
  let _ ← reject_if (colon = 0) (.Bencode "empty string length prefix")
  let _ ← reject_if (len_bytes.all is_digit = false) (.Bencode "string length is not digits")
  let _ ← reject_if (len_bytes.length > 1 ∧ len_bytes.head? = some (b '0'))
    (.Bencode "string length has leading zero")
  let text ← ok_or (from_utf8 len_bytes) (.Bencode "string length is not utf8")
  let len ← ok_or (parse_usize (as_bytes text)) (.Bencode "string length is not a valid usize")
  let data_start ← ok_or (checked_add after_len 1) (.Bencode "string colon offset overflows cursor")
  let data_end ← ok_or (checked_add data_start len) (.Bencode "string end overflows cursor")
  let _ ← reject_if (data_end > p.bytes.length) (.Bencode "string overruns input")
  pure ((p.bytes.take data_end).drop data_start, { p with pos := data_end })

/-- What the recursion below returns when its fuel is spent. `decode_prefix` supplies enough of
    it that this never happens. -/
def out_of_fuel : CoreError := .Internal "bencode recursion"

mutual

def Parser.parse : Nat → Parser → Result (Value × Parser)
  | 0, _ => .error out_of_fuel
  | fuel + 1, p => do
    let p ← p.count_node
    let c ← p.peek
    if c = b 'i' then p.parse_int
    else if c = b 'l' then Parser.parse_list fuel p
    else if c = b 'd' then Parser.parse_dict fuel p
    else if is_digit c then do
      let (s, p) ← p.parse_str
      pure (.Str s, p)
    else .error (.Bencode s!"invalid token at {p.pos}")

def Parser.parse_list : Nat → Parser → Result (Value × Parser)
  | 0, _ => .error out_of_fuel
  | fuel + 1, p => do
    let (_, p) ← p.bump
    let p ← p.enter
    let (items, p) ← Parser.list_loop fuel p []
    let (_, p) ← p.bump
    let p ← p.leave
    pure (.List items, p)

/-- The loop of `parse_list`, which pushes one item in each round. -/
def Parser.list_loop : Nat → Parser → Vec Value → Result (Vec Value × Parser)
  | 0, _, _ => .error out_of_fuel
  | fuel + 1, p, items => do
    let c ← p.peek
    if c = b 'e' then pure (items, p)
    else do
      let (item, p) ← Parser.parse fuel p
      Parser.list_loop fuel p (items ++ [item])

def Parser.parse_dict : Nat → Parser → Result (Value × Parser)
  | 0, _ => .error out_of_fuel
  | fuel + 1, p => do
    let (_, p) ← p.bump
    let p ← p.enter
    let (entries, p) ← Parser.dict_loop fuel p [] []
    let (_, p) ← p.bump
    let p ← p.leave
    pure (.Dict entries, p)

/-- The loop of `parse_dict`. The keys read so far are in `seen`. -/
def Parser.dict_loop : Nat → Parser → Vec (Bytes × Value) → Vec Bytes →
    Result (Vec (Bytes × Value) × Parser)
  | 0, _, _, _ => .error out_of_fuel
  | fuel + 1, p, entries, seen => do
    let c ← p.peek
    if c = b 'e' then pure (entries, p)
    else do
      let first ← p.peek
      let _ ← reject_if (is_digit first = false) (.Bencode "dictionary key is not a string")
      let p ← p.count_node
      let (key, p) ← p.parse_str
      let _ ← reject_if (key ∈ seen) (.Bencode s!"duplicate dictionary key (length {key.length})")
      let (val, p) ← Parser.parse fuel p
      Parser.dict_loop fuel p (entries ++ [(key, val)]) (key :: seen)

end

/-- Decode exactly one value from the beginning of `bytes`, with the bytes it took. -/
def decode_prefix (bytes : Bytes) : Result (Value × Nat) := do
  let _ ← reject_if (bytes.length > MAX_TORRENT_METADATA_BYTES)
    (.Bencode s!"input length {bytes.length} exceeds maximum {MAX_TORRENT_METADATA_BYTES}")
  let (value, p) ← Parser.parse (3 * bytes.length + 3) ⟨bytes, 0, 0, 0⟩
  pure (value, p.pos)

/-- Decode a complete document. -/
def decode (bytes : Bytes) : Result Value := do
  let (value, consumed) ← decode_prefix bytes
  let _ ← reject_if (consumed ≠ bytes.length)
    (.Bencode s!"trailing bytes after top-level value at position {consumed}")
  pure value

example : decode (as_bytes "d3:cow3:moo4:spamli42ei-7eee") = .ok
    (.Dict [(as_bytes "cow", .Str (as_bytes "moo")), (as_bytes "spam", .List [.Int 42, .Int (-7)])]) := by
  decide +kernel

/-- The canonical decimal of an `i64`. -/
def serialize_int (n : Int64) : Bytes :=
  if n.toInt < 0 then b '-' :: render n.toInt.natAbs else render n.toInt.natAbs

/-- A byte string behind its length. -/
def serialize_str (s : Bytes) : Bytes := render s.length ++ b ':' :: s

mutual

/-- The bencoding of a value that keeps dictionary entries in their order. -/
def Value.serialize : Value → Bytes
  | .Int n => b 'i' :: (serialize_int n ++ [b 'e'])
  | .Str s => serialize_str s
  | .List items => b 'l' :: (serialize_items items ++ [b 'e'])
  | .Dict entries => b 'd' :: (serialize_entries entries ++ [b 'e'])

def Value.serialize_items : Vec Value → Bytes
  | [] => []
  | item :: items => item.serialize ++ serialize_items items

def Value.serialize_entries : Vec (Bytes × Value) → Bytes
  | [] => []
  | (key, val) :: entries => serialize_str key ++ (val.serialize ++ serialize_entries entries)

end

mutual

/-- The values a value consists of, itself and its dictionary keys included. -/
def Value.nodes : Value → Nat
  | .Int _ => 1
  | .Str _ => 1
  | .List items => 1 + nodes_items items
  | .Dict entries => 1 + nodes_entries entries

def Value.nodes_items : Vec Value → Nat
  | [] => 0
  | item :: items => item.nodes + nodes_items items

def Value.nodes_entries : Vec (Bytes × Value) → Nat
  | [] => 0
  | (_, val) :: entries => 1 + val.nodes + nodes_entries entries

end

mutual

/-- How deep lists and dictionaries are nested in a value. -/
def Value.depth : Value → Nat
  | .Int _ => 0
  | .Str _ => 0
  | .List items => 1 + depth_items items
  | .Dict entries => 1 + depth_entries entries

def Value.depth_items : Vec Value → Nat
  | [] => 0
  | item :: items => max item.depth (depth_items items)

def Value.depth_entries : Vec (Bytes × Value) → Nat
  | [] => 0
  | (_, val) :: entries => max val.depth (depth_entries entries)

end

mutual

/-- No dictionary inside a value has two entries with one key. -/
def Value.DistinctKeys : Value → Prop
  | .Int _ => True
  | .Str _ => True
  | .List items => DistinctKeysItems items
  | .Dict entries => (entries.map Prod.fst).Nodup ∧ DistinctKeysEntries entries

def Value.DistinctKeysItems : Vec Value → Prop
  | [] => True
  | item :: items => item.DistinctKeys ∧ DistinctKeysItems items

def Value.DistinctKeysEntries : Vec (Bytes × Value) → Prop
  | [] => True
  | (_, val) :: entries => val.DistinctKeys ∧ DistinctKeysEntries entries

end

/-- What the decoder asks of a value beyond its grammar: distinct keys and its two budgets. -/
structure Value.Admissible (v : Value) : Prop where
  distinct : v.DistinctKeys
  depth_le : v.depth ≤ MAX_BENCODE_DEPTH
  nodes_le : v.nodes ≤ MAX_BENCODE_NODES

section
variable (front rest : Vec (Bytes × Value))

theorem Value.serialize_entries_append :
    serialize_entries (front ++ rest) = serialize_entries front ++ serialize_entries rest := by
  induction front with
  | nil => rfl
  | cons entry front ih =>
    obtain ⟨key, value⟩ := entry
    simp only [List.cons_append, serialize_entries, ih, List.append_assoc]

theorem Value.nodes_entries_append : nodes_entries (front ++ rest) = nodes_entries front + nodes_entries rest := by
  induction front with
  | nil => simp [nodes_entries]
  | cons entry front ih =>
    obtain ⟨key, value⟩ := entry
    simp only [List.cons_append, nodes_entries, ih, Nat.add_assoc]

theorem Value.depth_entries_append :
    depth_entries (front ++ rest) = max (depth_entries front) (depth_entries rest) := by
  induction front with
  | nil => simp [depth_entries]
  | cons entry front ih =>
    obtain ⟨key, value⟩ := entry
    simp only [List.cons_append, depth_entries, ih, Nat.max_assoc]

theorem Value.distinctKeysEntries_append :
    DistinctKeysEntries (front ++ rest) ↔ DistinctKeysEntries front ∧ DistinctKeysEntries rest := by
  induction front with
  | nil => simp [DistinctKeysEntries]
  | cons entry front ih =>
    obtain ⟨key, value⟩ := entry
    simp only [List.cons_append, DistinctKeysEntries, ih, and_assoc]

end

private theorem digit_ne {c d : UInt8} (hc : is_digit c = true) (hd : is_digit d = false) :
    c ≠ d := by
  rintro rfl
  rw [hc] at hd
  cases hd

private theorem from_utf8_of_digits {digits : Bytes} (hdigits : ∀ c ∈ digits, is_digit c = true) :
    (from_utf8 digits).isSome = true := by
  refine Option.isSome_of_eq_some (from_utf8_of_ascii ?_)
  intro c hc
  have := is_digit_iff.mp (hdigits c hc)
  omega

private theorem head?_ne_of_digits {digits : Bytes} {c : UInt8}
    (hdigits : ∀ x ∈ digits, is_digit x = true) (hc : is_digit c = false) :
    digits.head? ≠ some c := by
  intro hhead
  exact digit_ne (hdigits c (List.mem_of_head? hhead)) hc rfl

theorem parse_digits_eq_some_iff {s : Bytes} {n : Nat} :
    parse_digits s = some n ↔ s ≠ [] ∧ (∀ c ∈ s, is_digit c = true) ∧ value s = n := by
  unfold parse_digits
  split <;> simp_all

theorem parse_digits_render (n : Nat) : parse_digits (render n) = some n :=
  parse_digits_eq_some_iff.mpr
    ⟨render_ne_nil n, fun _ hc => is_digit_of_mem_render hc, value_render n⟩

private theorem is_digit_plus : is_digit (b '+') = false := rfl
private theorem is_digit_minus : is_digit (b '-') = false := rfl
private theorem is_digit_colon : is_digit (b ':') = false := rfl

theorem parse_usize_of_digits {s : Bytes} {n : Nat} (hdigits : ∀ c ∈ s, is_digit c = true) :
    parse_usize s = some n ↔ parse_digits s = some n ∧ n ≤ usize.MAX := by
  have hplus := head?_ne_of_digits hdigits is_digit_plus
  simp only [parse_usize, hplus, if_false]
  cases parse_digits s with
  | none => simp
  | some m =>
    simp only [Option.ite_none_right_eq_some, Option.some.injEq]
    constructor
    · rintro ⟨hfits, rfl⟩
      exact ⟨rfl, hfits⟩
    · rintro ⟨rfl, hfits⟩
      exact ⟨hfits, rfl⟩

/-- The checks that `parse_str` and `read_str` make on the bytes before the colon. -/
def LengthPrefix (rest : Bytes) (colon len : Nat) : Prop :=
  rest.findIdx? (· == b ':') = some colon ∧ colon ≠ 0 ∧
    (rest.take colon).all is_digit = true ∧
    ¬ ((rest.take colon).length > 1 ∧ (rest.take colon).head? = some (b '0')) ∧
    ∃ text, from_utf8 (rest.take colon) = some text ∧ parse_usize (as_bytes text) = some len

/-- The checks accept exactly the shortest decimal of a `usize`. -/
theorem lengthPrefix_iff {rest : Bytes} {colon len : Nat} :
    LengthPrefix rest colon len ↔ colon = (render len).length ∧ len ≤ usize.MAX ∧
        ∃ tail, rest = render len ++ b ':' :: tail := by
  constructor
  · rintro ⟨hcolon, hpos, hdigits, hzero, text, htext, hlen⟩
    rw [as_bytes_of_from_utf8 htext] at hlen
    have hall : ∀ c ∈ rest.take colon, is_digit c = true := by simpa using hdigits
    obtain ⟨hparse, hfits⟩ := (parse_usize_of_digits hall).mp hlen
    obtain ⟨hne, -, hvalue⟩ := parse_digits_eq_some_iff.mp hparse
    obtain ⟨hlt, hat, -⟩ := List.findIdx?_eq_some_iff_getElem.mp hcolon
    have hrender : render len = rest.take colon := by
      rw [← hvalue]
      exact render_value ⟨hne, hall, fun hlong hhead => hzero ⟨hlong, hhead⟩⟩
    refine ⟨?_, hfits, rest.drop (colon + 1), ?_⟩
    · rw [hrender, List.length_take]
      omega
    · have hbyte : rest[colon] = b ':' := by simpa using hat
      rw [hrender, ← hbyte, List.getElem_cons_drop, List.take_append_drop]
  · rintro ⟨rfl, hfits, tail, rfl⟩
    have hall : ∀ c ∈ render len, is_digit c = true := fun _ hc => is_digit_of_mem_render hc
    obtain ⟨text, htext⟩ := Option.isSome_iff_exists.mp (from_utf8_of_digits hall)
    have htake : (render len ++ b ':' :: tail).take (render len).length = render len := by simp
    refine ⟨?_, (render_length_pos len).ne', ?_, ?_, text, ?_, ?_⟩
    · rw [List.findIdx?_append]
      have hnone : (render len).findIdx? (· == b ':') = none := by
        rw [List.findIdx?_eq_none_iff]
        intro c hc
        simpa using digit_ne (hall c hc) is_digit_colon
      simp [hnone, List.findIdx?_cons]
    · rw [htake]
      simpa using hall
    · rw [htake]
      rintro ⟨hlong, hhead⟩
      exact (render_canonical len).2.2 hlong hhead
    · rw [htake]
      exact htext
    · rw [as_bytes_of_from_utf8 htext, parse_usize_of_digits hall]
      exact ⟨parse_digits_render len, hfits⟩

theorem serialize_int_ne_nil (n : Int64) : serialize_int n ≠ [] := by
  unfold serialize_int
  split
  · simp
  · exact render_ne_nil _

private theorem mem_serialize_int {n : Int64} {c : UInt8} (hc : c ∈ serialize_int n) :
    c = b '-' ∨ is_digit c = true := by
  unfold serialize_int at hc
  split at hc
  · rcases List.mem_cons.mp hc with rfl | hc
    · exact Or.inl rfl
    · exact Or.inr (is_digit_of_mem_render hc)
  · exact Or.inr (is_digit_of_mem_render hc)

theorem not_mem_serialize_int (n : Int64) : b 'e' ∉ serialize_int n := by
  intro he
  rcases mem_serialize_int he with he | he <;> exact absurd he (by decide)

theorem from_utf8_serialize_int (n : Int64) : (from_utf8 (serialize_int n)).isSome = true := by
  refine Option.isSome_of_eq_some (from_utf8_of_ascii ?_)
  intro c hc
  rcases mem_serialize_int hc with rfl | hc
  · decide
  · have := is_digit_iff.mp hc
    omega

private theorem toInt_ofInt_of_mem {z : Int} (hlow : -2 ^ 63 ≤ z) (hhigh : z < 2 ^ 63) :
    (Int64.ofInt z).toInt = z := by
  have hsize : Int64.size = 2 ^ 64 := rfl
  rw [Int64.toInt_ofInt, Int.bmod_eq_of_le] <;> omega

theorem check_int_body_eq_ok_iff {chars digits : Bytes} {u : Unit}
    (hdigits : digits = if chars.head? = some (b '-') then chars.tail else chars) :
    check_int_body chars = .ok u ↔ ¬ (chars.head? = some (b '-') ∧ chars.length = 1) ∧ digits ≠ [] ∧
        (∀ c ∈ digits, is_digit c = true) ∧
        ¬ (digits.head? = some (b '0') ∧ digits.length > 1) ∧
        ¬ (digits.head? = some (b '0') ∧ chars.head? = some (b '-')) := by
  subst hdigits
  simp only [check_int_body, eq_ok_iff, exists_const, Bool.not_eq_false, List.all_eq_true, ne_eq]

/-- A body that passes the checks and fits in an `i64` is the canonical decimal of its value. -/
theorem int_body_sound {chars : Bytes} {n : Int64} {u : Unit} (hcheck : check_int_body chars = .ok u)
    (hparse : parse_i64 chars = some n) : chars = serialize_int n := by
  obtain ⟨-, hne, hall, hzero, hneg⟩ := (check_int_body_eq_ok_iff rfl).mp hcheck
  by_cases hminus : chars.head? = some (b '-')
  · simp only [hminus, if_true, and_true] at hne hall hneg
    simp only [parse_i64, hminus, if_true] at hparse
    obtain ⟨rest, rfl⟩ : ∃ rest, chars = b '-' :: rest := by
      cases chars with
      | nil => cases hminus
      | cons c rest => exact ⟨rest, by simpa using hminus⟩
    simp only [List.tail_cons] at hne hall hneg hparse
    have hpos := value_pos hne hall hneg
    rw [parse_digits_eq_some_iff.mpr ⟨hne, hall, rfl⟩] at hparse
    simp only [Option.ite_none_right_eq_some, Option.some.injEq] at hparse
    obtain ⟨hfits, rfl⟩ := hparse
    have hint : (Int64.ofInt (-(value rest : Int))).toInt = -(value rest : Int) :=
      toInt_ofInt_of_mem (by omega) (by omega)
    rw [serialize_int, hint, if_pos (by omega), Int.natAbs_neg, Int.natAbs_natCast,
      render_value ⟨hne, hall, fun _ => hneg⟩]
  · simp only [hminus, if_false, not_and] at hne hall hzero
    have hplus := head?_ne_of_digits hall is_digit_plus
    simp only [parse_i64, hminus, hplus, if_false, parse_digits_eq_some_iff.mpr ⟨hne, hall, rfl⟩,
      Option.ite_none_right_eq_some, Option.some.injEq] at hparse
    obtain ⟨hfits, rfl⟩ := hparse
    have hint : (Int64.ofInt (value chars : Int)).toInt = value chars := toInt_ofInt_of_mem (by omega) (by omega)
    have hcanonical : Canonical chars := ⟨hne, hall, fun hlong hhead => hzero hhead hlong⟩
    rw [serialize_int, hint, if_neg (by omega), Int.natAbs_natCast, render_value hcanonical]

theorem int_body_complete (n : Int64) :
    check_int_body (serialize_int n) = .ok () ∧ parse_i64 (serialize_int n) = some n := by
  have hlow := n.le_toInt
  have hhigh := n.toInt_lt
  have hall : ∀ c ∈ render n.toInt.natAbs, is_digit c = true := fun _ hc => is_digit_of_mem_render hc
  have hne := render_ne_nil n.toInt.natAbs
  by_cases hneg : n.toInt < 0
  · have hhead := render_head?_ne_zero (n := n.toInt.natAbs) (by omega)
    rw [serialize_int, if_pos hneg]
    constructor
    · have hdigits : render n.toInt.natAbs =
          if (b '-' :: render n.toInt.natAbs).head? = some (b '-')
          then (b '-' :: render n.toInt.natAbs).tail
          else b '-' :: render n.toInt.natAbs := by simp
      rw [check_int_body_eq_ok_iff hdigits]
      refine ⟨?_, hne, hall, fun h => hhead h.1, fun h => hhead h.1⟩
      simp [hne]
    · have hfits : n.toInt.natAbs ≤ 2 ^ 63 := by omega
      have habs : -(n.toInt.natAbs : Int) = n.toInt := by omega
      simp only [parse_i64, List.head?_cons, List.tail_cons, if_true, parse_digits_render, if_pos hfits, habs,
        Int64.ofInt_toInt]
  · have hminus := head?_ne_of_digits hall is_digit_minus
    have hplus := head?_ne_of_digits hall is_digit_plus
    rw [serialize_int, if_neg hneg]
    constructor
    · have hzero := (render_canonical n.toInt.natAbs).2.2
      rw [check_int_body_eq_ok_iff (if_neg hminus).symm]
      exact ⟨fun h => hminus h.1, hne, hall, fun h => hzero h.2 h.1, fun h => hminus h.2⟩
    · have hfits : n.toInt.natAbs < 2 ^ 63 := by omega
      have habs : (n.toInt.natAbs : Int) = n.toInt := by omega
      simp only [parse_i64, hminus, hplus, if_false, parse_digits_render, if_pos hfits, habs, Int64.ofInt_toInt]

/-- The bytes the parser has not read. -/
def Parser.rest (p : Parser) : Bytes := p.bytes.drop p.pos

/-- The parser behind `n` more bytes and `k` more nodes, at the same depth. -/
def Parser.consume (p : Parser) (n k : Nat) : Parser :=
  { p with pos := p.pos + n, nodes := p.nodes + k }

/-- What every parser that `decode` runs satisfies: the cursor is inside an input of admissible
    size and no budget is overdrawn. -/
structure Parser.InBounds (p : Parser) : Prop where
  pos_le : p.pos ≤ p.bytes.length
  bytes_le : p.bytes.length ≤ MAX_TORRENT_METADATA_BYTES
  depth_le : p.depth ≤ MAX_BENCODE_DEPTH
  nodes_le : p.nodes ≤ MAX_BENCODE_NODES

/-- `p` reads `text`, which counts for `k` nodes, and ends in `q`. -/
def Parser.Reads (p : Parser) (text : Bytes) (k : Nat) (q : Parser) : Prop :=
  text <+: p.rest ∧ q = p.consume text.length k

@[simp] theorem Parser.consume_depth (p : Parser) (n k : Nat) : (p.consume n k).depth = p.depth := rfl
@[simp] theorem Parser.consume_nodes (p : Parser) (n k : Nat) :
    (p.consume n k).nodes = p.nodes + k := rfl
@[simp] theorem Parser.consume_bytes (p : Parser) (n k : Nat) : (p.consume n k).bytes = p.bytes := rfl
@[simp] theorem Parser.consume_pos (p : Parser) (n k : Nat) : (p.consume n k).pos = p.pos + n := rfl

theorem Parser.consume_consume (p : Parser) (m n j k : Nat) :
    (p.consume m j).consume n k = p.consume (m + n) (j + k) := by
  simp [consume, Nat.add_assoc]

theorem Parser.rest_consume (p : Parser) (n k : Nat) : (p.consume n k).rest = p.rest.drop n := by
  simp [rest, consume, List.drop_drop]

variable {p q : Parser} {text : Bytes} {k : Nat}

theorem Parser.Reads.rest_eq (h : p.Reads text k q) : p.rest = text ++ q.rest := by
  obtain ⟨⟨tail, htail⟩, rfl⟩ := h
  rw [rest_consume, ← htail, List.drop_left]

theorem Parser.Reads.depth_eq (h : p.Reads text k q) : q.depth = p.depth := by
  rw [h.2, consume_depth]

theorem Parser.Reads.nodes_eq (h : p.Reads text k q) : q.nodes = p.nodes + k := by
  rw [h.2, consume_nodes]

theorem Parser.reads_nil (p : Parser) : p.Reads [] 0 p := ⟨List.nil_prefix, rfl⟩

theorem Parser.Reads.trans {r : Parser} {text' : Bytes} {j : Nat} (h : p.Reads text j q)
    (h' : q.Reads text' k r) : p.Reads (text ++ text') (j + k) r := by
  refine ⟨⟨r.rest, ?_⟩, ?_⟩
  · rw [List.append_assoc, ← h'.rest_eq, ← h.rest_eq]
  · rw [h'.2, h.2, consume_consume, List.length_append]

/-- A text is read in two parts. -/
theorem Parser.reads_append_iff {r : Parser} {text' : Bytes} {j : Nat} :
    p.Reads (text ++ text') (j + k) r ↔ ∃ q, p.Reads text j q ∧ q.Reads text' k r := by
  constructor
  · rintro ⟨⟨after, hafter⟩, rfl⟩
    refine ⟨p.consume text.length j, ⟨⟨text' ++ after, by rw [← hafter, List.append_assoc]⟩, rfl⟩, ⟨after, ?_⟩, ?_⟩
    · rw [rest_consume, ← hafter, List.append_assoc, List.drop_left]
    · rw [consume_consume, List.length_append]
  · rintro ⟨q, hfirst, hsecond⟩
    exact hfirst.trans hsecond

theorem Parser.length_rest (p : Parser) : p.rest.length = p.bytes.length - p.pos := by
  simp [rest]

theorem Parser.Reads.inBounds (h : p.Reads text k q) (hp : p.InBounds) (hk : p.nodes + k ≤ MAX_BENCODE_NODES) :
    q.InBounds := by
  obtain ⟨hstarts, rfl⟩ := h
  have hlen := hstarts.length_le
  rw [length_rest] at hlen
  have hpos := hp.pos_le
  exact ⟨by simp only [consume_pos, consume_bytes]; omega, hp.bytes_le, hp.depth_le, hk⟩

theorem Parser.InBounds.pos_lt_max (hp : p.InBounds) : p.pos + 1 ≤ usize.MAX := by
  have hpos := hp.pos_le
  have hbytes := hp.bytes_le
  simp only [MAX_TORRENT_METADATA_BYTES, usize.MAX] at *
  omega

theorem Parser.peek_eq_ok_iff {c : UInt8} : p.peek = .ok c ↔ p.rest.head? = some c := by
  simp [peek, rest]

/-- `bump` reads one byte. -/
theorem Parser.bump_eq_ok_iff {c : UInt8} (hp : p.InBounds) : p.bump = .ok (c, q) ↔ p.Reads [c] 0 q := by
  simp only [bump, eq_ok_iff, checked_add_eq_some_iff, Prod.mk.injEq, peek_eq_ok_iff]
  constructor
  · rintro ⟨c, hc, pos, ⟨-, rfl⟩, rfl, rfl⟩
    refine ⟨?_, rfl⟩
    obtain ⟨tail, htail⟩ := List.head?_eq_some_iff.mp hc
    exact ⟨tail, by rw [htail]; rfl⟩
  · rintro ⟨⟨tail, htail⟩, rfl⟩
    exact ⟨c, by rw [← htail]; rfl, p.pos + 1, ⟨hp.pos_lt_max, rfl⟩, rfl, rfl⟩

theorem Parser.count_node_eq_ok_iff : p.count_node = .ok q ↔ p.nodes + 1 ≤ MAX_BENCODE_NODES ∧ q = p.consume 0 1 := by
  simp only [count_node, eq_ok_iff, checked_add_eq_some_iff]
  constructor
  · rintro ⟨nodes, ⟨-, rfl⟩, -, hbudget, rfl⟩
    exact ⟨by omega, rfl⟩
  · rintro ⟨hbudget, rfl⟩
    have : p.nodes + 1 ≤ usize.MAX := hbudget.trans (by decide)
    exact ⟨p.nodes + 1, ⟨this, rfl⟩, (), by omega, rfl⟩

theorem Parser.enter_eq_ok_iff :
    p.enter = .ok q ↔ p.depth + 1 ≤ MAX_BENCODE_DEPTH ∧ q = { p with depth := p.depth + 1 } := by
  simp only [enter, eq_ok_iff, checked_add_eq_some_iff]
  constructor
  · rintro ⟨depth, ⟨-, rfl⟩, -, hbudget, rfl⟩
    exact ⟨by omega, rfl⟩
  · rintro ⟨hbudget, rfl⟩
    have : p.depth + 1 ≤ usize.MAX := hbudget.trans (by decide)
    exact ⟨p.depth + 1, ⟨this, rfl⟩, (), by omega, rfl⟩

theorem Parser.leave_eq_ok_iff : p.leave = .ok q ↔ 1 ≤ p.depth ∧ q = { p with depth := p.depth - 1 } := by
  simp only [leave, eq_ok_iff, checked_sub_eq_some_iff]
  constructor
  · rintro ⟨depth, ⟨hpos, rfl⟩, rfl⟩
    exact ⟨hpos, rfl⟩
  · rintro ⟨hpos, rfl⟩
    exact ⟨p.depth - 1, ⟨hpos, rfl⟩, rfl⟩

theorem length_serialize_str (s : Bytes) : (serialize_str s).length = (render s.length).length + 1 + s.length := by
  simp only [serialize_str, List.length_append, List.length_cons]
  omega

/-- The bytes of a range, seen from the cursor. -/
private theorem drop_take_of_rest (bytes : Bytes) (pos m n : Nat) :
    (bytes.take (pos + m + n)).drop (pos + m) = ((bytes.drop pos).drop m).take n := by
  rw [List.drop_take, List.drop_drop, Nat.add_sub_cancel_left]

private theorem drop_take_zero (bytes : Bytes) (pos n : Nat) :
    (bytes.take (pos + n)).drop pos = (bytes.drop pos).take n := by
  simpa using drop_take_of_rest bytes pos 0 n

/-- The serialized strings are those with a length prefix and the data behind it. -/
theorem Parser.reads_str_iff {p q : Parser} {s : Bytes} (hmax : p.rest.length ≤ usize.MAX) :
    p.Reads (serialize_str s) 0 q ↔ ∃ colon len, LengthPrefix p.rest colon len ∧ colon + 1 + len ≤ p.rest.length ∧
      (p.rest.drop (colon + 1)).take len = s ∧ p.consume (colon + 1 + len) 0 = q := by
  simp only [lengthPrefix_iff]
  constructor
  · rintro ⟨⟨after, hafter⟩, rfl⟩
    have hrest : p.rest = render s.length ++ b ':' :: (s ++ after) := by simp [← hafter, serialize_str]
    have hlength := congrArg List.length hrest
    simp only [List.length_append, List.length_cons] at hlength
    refine ⟨_, s.length, ⟨rfl, by omega, _, hrest⟩, by omega, ?_, by rw [length_serialize_str]⟩
    rw [hrest, ← List.drop_drop, List.drop_left, List.drop_one, List.tail_cons, List.take_left]
  · rintro ⟨_, len, ⟨rfl, -, tail, hrest⟩, hfits, rfl, rfl⟩
    have htail : p.rest.drop ((render len).length + 1) = tail := by
      rw [hrest, ← List.drop_drop, List.drop_left, List.drop_one, List.tail_cons]
    have htake : (tail.take len).length = len := by
      rw [← htail, List.length_take, List.length_drop]
      omega
    rw [htail, Reads, length_serialize_str, htake]
    refine ⟨⟨tail.drop len, ?_⟩, rfl⟩
    rw [hrest, serialize_str, htake, List.append_assoc, List.cons_append, List.take_append_drop]

/-- `parse_str` reads exactly the serialized byte strings. -/
theorem Parser.parse_str_eq_ok_iff {p q : Parser} {s : Bytes} (hp : p.InBounds) :
    p.parse_str = .ok (s, q) ↔ p.Reads (serialize_str s) 0 q := by
  have hpos := hp.pos_le
  have hmax : p.bytes.length ≤ usize.MAX := hp.bytes_le.trans (by decide)
  have hrest := p.length_rest
  rw [reads_str_iff (by omega)]
  simp only [parse_str, eq_ok_iff, checked_add_eq_some_iff, Prod.mk.injEq]
  constructor
  · rintro ⟨colon, hcolon, _, ⟨-, rfl⟩, -, hne, -, hdigits, -, hzero, text, htext, len, hlen,
      _, ⟨-, rfl⟩, _, ⟨-, rfl⟩, -, hend, rfl, rfl⟩
    rw [drop_take_zero] at hdigits hzero htext
    refine ⟨colon, len, ⟨hcolon, hne, (Bool.not_eq_false _).mp hdigits, hzero, text, htext, hlen⟩, by omega, ?_, ?_⟩
    · exact (drop_take_of_rest p.bytes p.pos (colon + 1) len).symm
    · simp [consume, Nat.add_assoc]
  · rintro ⟨colon, len, ⟨hcolon, hne, hdigits, hzero, text, htext, hlen⟩, hfits, rfl, rfl⟩
    refine ⟨colon, hcolon, _, ⟨by omega, rfl⟩, (), hne, (), ?_, (), ?_, text, ?_, len, hlen,
      _, ⟨by omega, rfl⟩, _, ⟨by omega, rfl⟩, (), by omega, ?_, ?_⟩
    · rw [drop_take_zero]
      exact (Bool.not_eq_false _).mpr hdigits
    · rwa [drop_take_zero]
    · rwa [drop_take_zero]
    · exact drop_take_of_rest p.bytes p.pos (colon + 1) len
    · simp [consume, Nat.add_assoc]

/-- The scan stops in front of the first `e`, or at the end of the input. -/
theorem Parser.scan_int_eq {p : Parser} (hp : p.InBounds) {fuel : Nat} (hfuel : fuel = p.bytes.length - p.pos) :
    p.scan_int fuel = .ok (p.consume (p.rest.takeWhile (· != b 'e')).length 0) := by
  induction fuel generalizing p with
  | zero =>
    have hnil : p.rest = [] := by rw [← List.length_eq_zero_iff, length_rest, ← hfuel]
    rw [scan_int, hnil]
    rfl
  | succ fuel ih =>
    have hlt : p.pos < p.bytes.length := by omega
    have hrest : p.rest = p.bytes[p.pos] :: p.bytes.drop (p.pos + 1) := List.drop_eq_getElem_cons hlt
    have hpeek : p.peek = .ok p.bytes[p.pos] := by
      rw [peek_eq_ok_iff, hrest, List.head?_cons]
    rw [scan_int, hpeek]
    by_cases he : p.bytes[p.pos] = b 'e'
    · simp only [he, if_true]
      rw [hrest, he]
      rfl
    · simp only [he, if_false]
      have hadd : checked_add p.pos 1 = some (p.pos + 1) := checked_add_eq_some_iff.mpr ⟨hp.pos_lt_max, rfl⟩
      have hnext : (p.consume 1 0).InBounds := ⟨hlt, hp.bytes_le, hp.depth_le, hp.nodes_le⟩
      have hscan := ih hnext (by simp only [consume_bytes, consume_pos]; omega)
      rw [hadd]
      have hstep : (p.rest.takeWhile (· != b 'e')).length =
          1 + ((p.consume 1 0).rest.takeWhile (· != b 'e')).length := by
        rw [hrest, List.takeWhile_cons_of_pos (by simpa using he), List.length_cons, Nat.add_comm]
        rfl
      rw [hstep, ← Nat.add_zero 0, ← consume_consume]
      exact hscan

private theorem takeWhile_ne_append {body tail : Bytes} (hbody : b 'e' ∉ body) :
    (body ++ b 'e' :: tail).takeWhile (· != b 'e') = body := by
  rw [List.takeWhile_append_of_pos]
  · simp
  · intro c hc
    simpa using fun h : c = b 'e' => hbody (h ▸ hc)

/-- On an input that starts with `i`, `parse_int` reads exactly the canonical integers. -/
theorem Parser.parse_int_eq_ok_iff {p q : Parser} {v : Value} (hp : p.InBounds) (hi : p.rest.head? = some (b 'i')) :
    p.parse_int = .ok (v, q) ↔ ∃ n, v = .Int n ∧ p.Reads (Value.Int n).serialize 0 q := by
  obtain ⟨tail, htail⟩ := List.head?_eq_some_iff.mp hi
  have hread : p.Reads [b 'i'] 0 (p.consume 1 0) := ⟨⟨tail, by rw [htail]; rfl⟩, rfl⟩
  have hbump : p.bump = .ok (b 'i', p.consume 1 0) := (bump_eq_ok_iff hp).mpr hread
  have hafter : (p.consume 1 0).rest = tail := by rw [rest_consume, htail, List.drop_one, List.tail_cons]
  have hscan := scan_int_eq (hread.inBounds hp hp.nodes_le) rfl
  rw [hafter, consume_consume, Nat.add_zero] at hscan
  have hbody : (p.bytes.take (p.pos + (1 + (tail.takeWhile (· != b 'e')).length))).drop (p.pos + 1) =
      tail.takeWhile (· != b 'e') := by
    rw [← Nat.add_assoc, drop_take_of_rest, ← Parser.rest, htail, List.drop_one, List.tail_cons]
    exact (List.prefix_iff_eq_take.mp (List.takeWhile_prefix _)).symm
  have hmid : p.Reads (b 'i' :: tail.takeWhile (· != b 'e')) 0
      (p.consume (1 + (tail.takeWhile (· != b 'e')).length) 0) := by
    refine ⟨?_, by rw [List.length_cons, Nat.add_comm]⟩
    rw [htail]
    exact (List.prefix_cons_inj _).mpr (List.takeWhile_prefix _)
  simp only [parse_int, hbump, bind_ok, hscan, eq_ok_iff, Prod.mk.injEq, Prod.exists,
    bump_eq_ok_iff (hmid.inBounds hp hp.nodes_le)]
  simp only [consume_pos, consume_bytes, hbody]
  constructor
  · rintro ⟨-, -, s, hs, u, hcheck, n, hn, c, r, hlast, rfl, rfl⟩
    rw [as_bytes_of_from_utf8 hs] at hcheck hn
    have hc : c = b 'e' := by
      -- what is behind the body is what the scan has stopped at
      have hsplit := hmid.rest_eq
      rw [htail, List.cons_append, List.cons.injEq, hlast.rest_eq] at hsplit
      have hnot := List.head?_dropWhile_not (· != b 'e') tail
      rw [List.append_cancel_left ((List.takeWhile_append_dropWhile).trans hsplit.2)] at hnot
      simpa using hnot
    refine ⟨n, rfl, ?_⟩
    rw [hc] at hlast
    simpa [Value.serialize, int_body_sound hcheck hn] using hmid.trans hlast
  · rintro ⟨n, rfl, hreads⟩
    obtain ⟨after, hafter⟩ := hreads.1
    rw [htail, Value.serialize, List.cons_append, List.cons.injEq] at hafter
    have hint : tail.takeWhile (· != b 'e') = serialize_int n := by
      rw [← hafter.2, List.append_assoc, List.singleton_append, takeWhile_ne_append (not_mem_serialize_int n)]
    obtain ⟨_, ⟨-, rfl⟩, hlast⟩ := (@reads_append_iff p (b 'i' :: serialize_int n) 0 q [b 'e'] 0).mp hreads
    have hpos := List.length_pos_iff.mpr (serialize_int_ne_nil n)
    obtain ⟨s, hs⟩ := Option.isSome_iff_exists.mp (from_utf8_serialize_int n)
    obtain ⟨hcheck, hparse⟩ := int_body_complete n
    rw [List.length_cons, Nat.add_comm] at hlast
    rw [hint]
    exact ⟨(), by omega, s, hs, (), by rw [as_bytes_of_from_utf8 hs]; exact hcheck, n,
      by rw [as_bytes_of_from_utf8 hs]; exact hparse, b 'e', q, hlast, rfl, rfl⟩

end swarmotter.bencode
