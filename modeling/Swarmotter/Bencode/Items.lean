import Swarmotter.Bencode.Atoms

open swarmotter.meta decimal

namespace swarmotter.bencode

/-- A string starts with a digit, with which nothing else does. -/
theorem serialize_str_head (s : Bytes) :
    ∃ c tail, serialize_str s = c :: tail ∧ decimal.is_digit c = true ∧
      c ≠ b 'e' ∧ c ≠ b 'i' ∧ c ≠ b 'l' ∧ c ≠ b 'd' := by
  obtain ⟨c, rest, hrender⟩ := List.exists_cons_of_ne_nil (decimal.render_ne_nil s.length)
  have hc : decimal.is_digit c = true := decimal.is_digit_of_mem_render (by rw [hrender]; simp)
  refine ⟨c, rest ++ b ':' :: s, by rw [serialize_str, hrender, List.cons_append], hc, ?_, ?_, ?_, ?_⟩ <;>
    · rintro rfl
      cases hc

/-- No value starts with the terminator of a list or a dictionary. -/
theorem Value.serialize_head (v : Value) : ∃ c tail, v.serialize = c :: tail ∧ c ≠ b 'e' := by
  cases v with
  | Int n => exact ⟨_, _, rfl, by decide⟩
  | Str s =>
    obtain ⟨c, tail, hs, -, hc, -⟩ := serialize_str_head s
    exact ⟨c, tail, hs, hc⟩
  | List items => exact ⟨_, _, rfl, by decide⟩
  | Dict entries => exact ⟨_, _, rfl, by decide⟩

/-- The parser reads one value from `p` to `q`: its serialization lies at the cursor, its keys
    are distinct, and the budgets that are left pay for it. -/
structure Parser.Accepts (p : Parser) (v : Value) (q : Parser) : Prop where
  reads : p.Reads v.serialize v.nodes q
  distinct : v.DistinctKeys
  depth_le : p.depth + v.depth ≤ MAX_BENCODE_DEPTH
  nodes_le : p.nodes + v.nodes ≤ MAX_BENCODE_NODES

/-- The loop of `parse_list` reads `items` and stops in front of the terminator. -/
structure Parser.AcceptsItems (p : Parser) (items : Vec Value) (q : Parser) : Prop where
  reads : p.Reads (Value.serialize_items items) (Value.nodes_items items) q
  stops : q.rest.head? = some (b 'e')
  distinct : Value.DistinctKeysItems items
  depth_le : p.depth + Value.depth_items items ≤ MAX_BENCODE_DEPTH
  nodes_le : p.nodes + Value.nodes_items items ≤ MAX_BENCODE_NODES

/-- The loop of `parse_dict` reads `entries`, none of which repeats a key, and stops in front
    of the terminator. -/
structure Parser.AcceptsEntries (p : Parser) (seen : Vec Bytes) (entries : Vec (Bytes × Value))
    (q : Parser) : Prop where
  reads : p.Reads (Value.serialize_entries entries) (Value.nodes_entries entries) q
  stops : q.rest.head? = some (b 'e')
  nodup : (entries.map Prod.fst).Nodup
  fresh : ∀ key ∈ entries.map Prod.fst, key ∉ seen
  distinct : Value.DistinctKeysEntries entries
  depth_le : p.depth + Value.depth_entries entries ≤ MAX_BENCODE_DEPTH
  nodes_le : p.nodes + Value.nodes_entries entries ≤ MAX_BENCODE_NODES

namespace Parser

variable {p q r : Parser} {v : Value} {text text' : Bytes} {j k : Nat} {c : UInt8}

theorem Accepts.inBounds (h : p.Accepts v q) (hp : p.InBounds) : q.InBounds := h.reads.inBounds hp h.nodes_le

theorem Reads.length_rest (h : p.Reads text k q) : p.rest.length = text.length + q.rest.length := by
  rw [h.rest_eq, List.length_append]

theorem Accepts.lt (h : p.Accepts v q) : q.rest.length < p.rest.length := by
  obtain ⟨c, tail, hv, -⟩ := v.serialize_head
  have hlength := h.reads.length_rest
  rw [hv, List.length_cons] at hlength
  omega

theorem reads_one (hc : p.rest.head? = some c) : p.Reads [c] 0 (p.consume 1 0) := by
  obtain ⟨tail, htail⟩ := List.head?_eq_some_iff.mp hc
  exact ⟨⟨tail, by rw [htail]; rfl⟩, rfl⟩

theorem bump_of_head (hp : p.InBounds) (hc : p.rest.head? = some c) : p.bump = .ok (c, p.consume 1 0) :=
  (bump_eq_ok_iff hp).mpr (reads_one hc)

theorem Reads.head (h : p.Reads (c :: text) k q) : p.rest.head? = some c := by
  rw [h.rest_eq]
  rfl

/-- The node of a value itself is counted before its bytes are read. -/
theorem reads_counted_iff : p.Reads text (1 + k) q ↔ (p.consume 0 1).Reads text k q := by
  rw [Reads, Reads, rest_consume, List.drop_zero, consume_consume, Nat.zero_add]

/-- The parser inside of a list or a dictionary that starts at its cursor. -/
def deeper (p : Parser) : Parser := { p.consume 1 0 with depth := p.depth + 1 }

/-- The parser behind a list or a dictionary that ends at its cursor. -/
def closed (p : Parser) : Parser := { p.consume 1 0 with depth := p.depth - 1 }

theorem InBounds.deeper (hp : p.InBounds) (hc : p.rest.head? = some c) (hdepth : p.depth + 1 ≤ MAX_BENCODE_DEPTH) :
    p.deeper.InBounds := by
  have hone := (reads_one hc).inBounds hp hp.nodes_le
  exact ⟨hone.pos_le, hone.bytes_le, hdepth, hone.nodes_le⟩

theorem InBounds.counted (hp : p.InBounds) (hnodes : p.nodes + 1 ≤ MAX_BENCODE_NODES) : (p.consume 0 1).InBounds :=
  ⟨hp.pos_le, hp.bytes_le, hp.depth_le, hnodes⟩

/-- The opening byte, a text one level deeper, and the terminator. -/
theorem reads_bracketed_iff : p.Reads (c :: (text ++ [b 'e'])) k q ↔
    p.rest.head? = some c ∧ ∃ r, p.deeper.Reads text k r ∧ r.rest.head? = some (b 'e') ∧ q = r.closed := by
  have hclosed : (p.deeper.consume text.length k).closed = p.consume (c :: (text ++ [b 'e'])).length k := by
    simp only [Parser.closed, Parser.deeper, consume, List.length_cons, List.length_append, List.length_nil, mk.injEq,
      true_and]
    exact ⟨by omega, by omega, by omega⟩
  constructor
  · intro h
    have hhead := h.head
    obtain ⟨⟨after, hafter⟩, rfl⟩ := h
    have hrest : p.deeper.rest = text ++ b 'e' :: after := by
      have hone := p.rest_consume 1 0
      rw [← hafter, List.cons_append, List.drop_one, List.tail_cons, List.append_assoc] at hone
      exact hone
    refine ⟨hhead, _, ⟨⟨b 'e' :: after, hrest.symm⟩, rfl⟩, ?_, hclosed.symm⟩
    rw [rest_consume, hrest, List.drop_left, List.head?_cons]
  · rintro ⟨hopen, r, hloop, hstop, rfl⟩
    have hrest : p.rest = c :: (text ++ r.rest) := by
      rw [(reads_one hopen).rest_eq]
      exact congrArg (c :: ·) hloop.rest_eq
    obtain ⟨tail, htail⟩ := List.head?_eq_some_iff.mp hstop
    refine ⟨⟨tail, by rw [hrest, htail]; simp⟩, ?_⟩
    rw [hloop.2, hclosed]

/-! What is accepted, part by part. -/

theorem acceptsItems_nil_iff (hp : p.InBounds) : p.AcceptsItems [] q ↔ p.rest.head? = some (b 'e') ∧ q = p := by
  constructor
  · rintro ⟨⟨-, hq⟩, hstops, -⟩
    obtain rfl : q = p := hq
    exact ⟨hstops, rfl⟩
  · rintro ⟨hstops, rfl⟩
    exact ⟨reads_nil _, hstops, trivial, hp.depth_le, hp.nodes_le⟩

theorem acceptsItems_cons_iff {item : Value} {items : Vec Value} :
    p.AcceptsItems (item :: items) q ↔ ∃ r, p.Accepts item r ∧ r.AcceptsItems items q := by
  constructor
  · rintro ⟨hreads, hstops, hdistinct, hdepth, hnodes⟩
    simp only [Value.depth_items, Value.nodes_items] at hdepth hnodes
    obtain ⟨r, hitem, hitems⟩ := reads_append_iff.mp hreads
    have hsame := hitem.depth_eq
    have hmore := hitem.nodes_eq
    exact ⟨r, ⟨hitem, hdistinct.1, by omega, by omega⟩, hitems, hstops, hdistinct.2, by omega, by omega⟩
  · rintro ⟨r, ⟨hitem, hdistinct, hdepth, hnodes⟩, hitems, hstops, hrest, hdepth', hnodes'⟩
    rw [hitem.depth_eq] at hdepth'
    rw [hitem.nodes_eq] at hnodes'
    refine ⟨reads_append_iff.mpr ⟨r, hitem, hitems⟩, hstops, ⟨hdistinct, hrest⟩, ?_, ?_⟩ <;>
      simp only [Value.depth_items, Value.nodes_items] <;> omega

variable {seen : Vec Bytes}

theorem acceptsEntries_nil_iff (hp : p.InBounds) :
    p.AcceptsEntries seen [] q ↔ p.rest.head? = some (b 'e') ∧ q = p := by
  constructor
  · rintro ⟨⟨-, hq⟩, hstops, -⟩
    obtain rfl : q = p := hq
    exact ⟨hstops, rfl⟩
  · rintro ⟨hstops, rfl⟩
    exact ⟨reads_nil _, hstops, List.nodup_nil, by simp, trivial, hp.depth_le, hp.nodes_le⟩

theorem acceptsEntries_cons_iff {key : Bytes} {val : Value} {entries : Vec (Bytes × Value)} :
    p.AcceptsEntries seen ((key, val) :: entries) q ↔ p.nodes + 1 ≤ MAX_BENCODE_NODES ∧ key ∉ seen ∧
      ∃ r s, (p.consume 0 1).Reads (serialize_str key) 0 r ∧ r.Accepts val s ∧
        s.AcceptsEntries (key :: seen) entries q := by
  constructor
  · rintro ⟨hreads, hstops, hnodup, hfresh, hdistinct, hdepth, hnodes⟩
    simp only [Value.depth_entries, Value.nodes_entries, Nat.add_assoc] at hdepth hnodes hreads
    have hbody := reads_counted_iff.mp hreads
    rw [← Nat.zero_add (val.nodes + _)] at hbody
    obtain ⟨r, hkey, hrest⟩ := reads_append_iff.mp hbody
    obtain ⟨s, hval, hentries⟩ := reads_append_iff.mp hrest
    have hdepthKey := hkey.depth_eq
    have hnodesKey := hkey.nodes_eq
    have hdepthVal := hval.depth_eq
    have hnodesVal := hval.nodes_eq
    simp only [consume_depth, consume_nodes] at hdepthKey hnodesKey
    simp only [List.map_cons, List.nodup_cons, List.forall_mem_cons] at hnodup hfresh
    refine ⟨by omega, hfresh.1, r, s, hkey, ⟨hval, hdistinct.1, by omega, by omega⟩, hentries, hstops, hnodup.2, ?_,
      hdistinct.2, by omega, by omega⟩
    intro other hother
    rw [List.mem_cons, not_or]
    exact ⟨fun heq => hnodup.1 (heq ▸ hother), hfresh.2 other hother⟩
  · rintro ⟨hnode, hkeyFresh, r, s, hkey, ⟨hval, hdistinct, hdepth, hnodes⟩, hentries, hstops, hnodup, hfresh, hrest,
      hdepth', hnodes'⟩
    simp only [List.mem_cons, not_or] at hfresh
    rw [hval.depth_eq] at hdepth'
    rw [hval.nodes_eq] at hnodes'
    rw [hkey.depth_eq, consume_depth] at hdepth hdepth'
    rw [hkey.nodes_eq, consume_nodes] at hnodes hnodes'
    refine ⟨?_, hstops, List.nodup_cons.mpr ⟨fun hmem => (hfresh key hmem).1 rfl, hnodup⟩,
      List.forall_mem_cons.mpr ⟨hkeyFresh, fun other hother => (hfresh other hother).2⟩, ⟨hdistinct, hrest⟩, ?_, ?_⟩
    · simp only [Value.nodes_entries, Value.serialize_entries, Nat.add_assoc]
      rw [reads_counted_iff, ← Nat.zero_add (val.nodes + _)]
      exact reads_append_iff.mpr ⟨r, hkey, reads_append_iff.mpr ⟨s, hval, hentries⟩⟩
    · simp only [Value.depth_entries]
      omega
    · simp only [Value.nodes_entries]
      omega

theorem accepts_int_iff (hp : p.InBounds) {n : Int64} : p.Accepts (.Int n) q ↔
    p.nodes + 1 ≤ MAX_BENCODE_NODES ∧ (p.consume 0 1).Reads (Value.Int n).serialize 0 q :=
  ⟨fun h => ⟨h.nodes_le, reads_counted_iff.mp h.reads⟩,
    fun h => ⟨reads_counted_iff.mpr h.2, trivial, hp.depth_le, h.1⟩⟩

theorem accepts_str_iff (hp : p.InBounds) {s : Bytes} : p.Accepts (.Str s) q ↔
    p.nodes + 1 ≤ MAX_BENCODE_NODES ∧ (p.consume 0 1).Reads (serialize_str s) 0 q :=
  ⟨fun h => ⟨h.nodes_le, reads_counted_iff.mp h.reads⟩,
    fun h => ⟨reads_counted_iff.mpr h.2, trivial, hp.depth_le, h.1⟩⟩

/-- A bracketed value: its loop is read one level deeper. -/
theorem accepts_list_iff {items : Vec Value} : p.Accepts (.List items) q ↔
    p.nodes + 1 ≤ MAX_BENCODE_NODES ∧ p.depth + 1 ≤ MAX_BENCODE_DEPTH ∧ p.rest.head? = some (b 'l') ∧
      ∃ r, (p.consume 0 1).deeper.AcceptsItems items r ∧ q = r.closed := by
  constructor
  · rintro ⟨hreads, hdistinct, hdepth, hnodes⟩
    simp only [Value.depth, Value.nodes] at hdepth hnodes
    obtain ⟨hopen, r, hitems, hstops, rfl⟩ := reads_bracketed_iff.mp (reads_counted_iff.mp hreads)
    refine ⟨by omega, by omega, hopen, r, ⟨hitems, hstops, hdistinct, ?_, ?_⟩, rfl⟩ <;>
      simp only [Parser.deeper, consume] <;> omega
  · rintro ⟨-, -, hopen, r, ⟨hitems, hstops, hdistinct, hdepth, hnodes⟩, rfl⟩
    simp only [Parser.deeper, consume] at hdepth hnodes
    refine ⟨reads_counted_iff.mpr (reads_bracketed_iff.mpr ⟨hopen, r, hitems, hstops, rfl⟩), hdistinct, ?_, ?_⟩ <;>
      simp only [Value.depth, Value.nodes] <;> omega

theorem accepts_dict_iff {entries : Vec (Bytes × Value)} : p.Accepts (.Dict entries) q ↔
    p.nodes + 1 ≤ MAX_BENCODE_NODES ∧ p.depth + 1 ≤ MAX_BENCODE_DEPTH ∧ p.rest.head? = some (b 'd') ∧
      ∃ r, (p.consume 0 1).deeper.AcceptsEntries [] entries r ∧ q = r.closed := by
  constructor
  · rintro ⟨hreads, ⟨hnodup, hdistinct⟩, hdepth, hnodes⟩
    simp only [Value.depth, Value.nodes] at hdepth hnodes
    obtain ⟨hopen, r, hentries, hstops, rfl⟩ := reads_bracketed_iff.mp (reads_counted_iff.mp hreads)
    refine ⟨by omega, by omega, hopen, r, ⟨hentries, hstops, hnodup, fun _ _ => List.not_mem_nil, hdistinct, ?_, ?_⟩,
      rfl⟩ <;>
      simp only [Parser.deeper, consume] <;> omega
  · rintro ⟨-, -, hopen, r, ⟨hentries, hstops, hnodup, -, hdistinct, hdepth, hnodes⟩, rfl⟩
    simp only [Parser.deeper, consume] at hdepth hnodes
    refine ⟨reads_counted_iff.mpr (reads_bracketed_iff.mpr ⟨hopen, r, hentries, hstops, rfl⟩), ⟨hnodup, hdistinct⟩,
      ?_, ?_⟩ <;>
      simp only [Value.depth, Value.nodes] <;> omega

/-! What the parser returns, loop by loop. -/

/-- The frame of `parse_list` and `parse_dict` around their loops. -/
theorem bracketed_eq_ok_iff {α : Type} {loop : Parser → Result (α × Parser)} {make : α → Value}
    {accepts : α → Parser → Prop} (hp : p.InBounds) (hopen : p.rest.head? = some c)
    (hloop : p.deeper.InBounds → ∀ {xs r}, loop p.deeper = .ok (xs, r) ↔ accepts xs r)
    (hreads : ∀ {xs r}, accepts xs r → ∃ text k, p.deeper.Reads text k r ∧ r.rest.head? = some (b 'e') ∧
      p.deeper.nodes + k ≤ MAX_BENCODE_NODES) :
    (do
      let (_, p) ← p.bump
      let p ← p.enter
      let (xs, p) ← loop p
      let (_, p) ← p.bump
      let p ← p.leave
      pure (make xs, p)) = Except.ok (v, q) ↔
    p.depth + 1 ≤ MAX_BENCODE_DEPTH ∧ ∃ xs r, v = make xs ∧ accepts xs r ∧ q = r.closed := by
  rw [bump_of_head hp hopen]
  simp only [bind_ok, eq_ok_iff, Prod.exists, enter_eq_ok_iff, leave_eq_ok_iff, Prod.mk.injEq]
  constructor
  · rintro ⟨_, ⟨hdepth, rfl⟩, xs, r, hrun, d, s, hbump, _, ⟨-, rfl⟩, rfl, rfl⟩
    have hdeeper := hp.deeper hopen hdepth
    have hxs := (hloop hdeeper).mp hrun
    obtain ⟨text, k, htext, hstop, hnodes⟩ := hreads hxs
    rw [bump_of_head (htext.inBounds hdeeper hnodes) hstop] at hbump
    cases hbump
    exact ⟨hdepth, xs, r, rfl, hxs, rfl⟩
  · rintro ⟨hdepth, xs, r, rfl, hxs, rfl⟩
    have hdeeper := hp.deeper hopen hdepth
    obtain ⟨text, k, htext, hstop, hnodes⟩ := hreads hxs
    have hlevel : r.depth = p.depth + 1 := htext.depth_eq
    refine ⟨_, ⟨hdepth, rfl⟩, xs, r, (hloop hdeeper).mpr hxs, _, _,
      bump_of_head (htext.inBounds hdeeper hnodes) hstop, _,
      ⟨?_, rfl⟩, rfl, rfl⟩
    rw [consume_depth]
    omega

/-- The parser and its loops accept what they should at one amount of fuel: three calls for
    each byte that is left, `parse`, the bracketed parser and its loop. -/
structure Exact (fuel : Nat) : Prop where
  parse : ∀ {p v q}, p.InBounds → 3 * p.rest.length ≤ fuel → (Parser.parse fuel p = .ok (v, q) ↔ p.Accepts v q)
  items : ∀ {p acc all q}, p.InBounds → 3 * p.rest.length + 1 ≤ fuel →
    (list_loop fuel p acc = .ok (all, q) ↔ ∃ items, all = acc ++ items ∧ p.AcceptsItems items q)
  entries : ∀ {p acc seen all q}, p.InBounds → 3 * p.rest.length + 1 ≤ fuel →
    (dict_loop fuel p acc seen = .ok (all, q) ↔ ∃ entries, all = acc ++ entries ∧ p.AcceptsEntries seen entries q)

variable {fuel : Nat}

theorem length_deeper (hc : p.rest.head? = some c) : p.deeper.rest.length + 1 = p.rest.length := by
  have hlength := (reads_one hc).length_rest
  have hsame : p.deeper.rest = (p.consume 1 0).rest := rfl
  rw [List.length_singleton, ← hsame] at hlength
  omega

theorem parse_list_exact (ih : ∀ m < fuel, Exact m) (hp : p.InBounds) (hopen : p.rest.head? = some (b 'l'))
    (hfuel : 3 * p.rest.length ≤ fuel + 1) : parse_list fuel p = .ok (v, q) ↔
      p.depth + 1 ≤ MAX_BENCODE_DEPTH ∧ ∃ items r, v = .List items ∧ p.deeper.AcceptsItems items r ∧ q = r.closed := by
  have hlength := length_deeper hopen
  obtain ⟨fuel, rfl⟩ : ∃ n, fuel = n + 1 := ⟨fuel - 1, by omega⟩
  refine bracketed_eq_ok_iff hp hopen (fun hdeeper items r => ?_) fun h => ⟨_, _, h.reads, h.stops, h.nodes_le⟩
  simp only [(ih fuel (by omega)).items hdeeper (by omega), List.nil_append, exists_eq_left']

theorem parse_dict_exact (ih : ∀ m < fuel, Exact m) (hp : p.InBounds) (hopen : p.rest.head? = some (b 'd'))
    (hfuel : 3 * p.rest.length ≤ fuel + 1) : parse_dict fuel p = .ok (v, q) ↔ p.depth + 1 ≤ MAX_BENCODE_DEPTH ∧
        ∃ entries r, v = .Dict entries ∧ p.deeper.AcceptsEntries [] entries r ∧ q = r.closed := by
  have hlength := length_deeper hopen
  obtain ⟨fuel, rfl⟩ : ∃ n, fuel = n + 1 := ⟨fuel - 1, by omega⟩
  refine bracketed_eq_ok_iff hp hopen (fun hdeeper entries r => ?_) fun h => ⟨_, _, h.reads, h.stops, h.nodes_le⟩
  simp only [(ih fuel (by omega)).entries hdeeper (by omega), List.nil_append, exists_eq_left']

theorem parse_exact (ih : ∀ m < fuel, Exact m) (hp : p.InBounds) (hfuel : 3 * p.rest.length ≤ fuel) :
    Parser.parse fuel p = .ok (v, q) ↔ p.Accepts v q := by
  match fuel with
  | 0 => exact iff_of_false nofun fun h => absurd h.lt (by omega)
  | fuel + 1 =>
    have ih := fun m (hm : m < fuel) => ih m (by omega)
    rw [Parser.parse]
    simp only [bind_eq_ok_iff, count_node_eq_ok_iff, peek_eq_ok_iff]
    constructor
    · rintro ⟨_, ⟨hnodes, rfl⟩, c, hc, h⟩
      have hr := hp.counted hnodes
      split at h
      · rename_i hci
        obtain ⟨n, rfl, hreads⟩ := (parse_int_eq_ok_iff hr (hci ▸ hc)).mp h
        exact (accepts_int_iff hp).mpr ⟨hnodes, hreads⟩
      split at h
      · rename_i hcl
        obtain ⟨hdepth, items, r, rfl, hitems, rfl⟩ := (parse_list_exact ih hr (hcl ▸ hc) hfuel).mp h
        exact accepts_list_iff.mpr ⟨hnodes, hdepth, hcl ▸ hc, r, hitems, rfl⟩
      split at h
      · rename_i hcd
        obtain ⟨hdepth, entries, r, rfl, hentries, rfl⟩ := (parse_dict_exact ih hr (hcd ▸ hc) hfuel).mp h
        exact accepts_dict_iff.mpr ⟨hnodes, hdepth, hcd ▸ hc, r, hentries, rfl⟩
      split at h
      · simp only [eq_ok_iff, Prod.exists, parse_str_eq_ok_iff hr, Prod.mk.injEq] at h
        obtain ⟨s, _, hreads, rfl, rfl⟩ := h
        exact (accepts_str_iff hp).mpr ⟨hnodes, hreads⟩
      · cases h
    · intro h
      cases v with
      | Int n =>
        obtain ⟨hnodes, hreads⟩ := (accepts_int_iff hp).mp h
        refine ⟨_, ⟨hnodes, rfl⟩, _, hreads.head, ?_⟩
        rw [if_pos rfl]
        exact (parse_int_eq_ok_iff (hp.counted hnodes) hreads.head).mpr ⟨n, rfl, hreads⟩
      | Str s =>
        obtain ⟨hnodes, hreads⟩ := (accepts_str_iff hp).mp h
        obtain ⟨c, tail, hs, hc, -, hi, hl, hd⟩ := serialize_str_head s
        refine ⟨_, ⟨hnodes, rfl⟩, c, (hs ▸ hreads).head, ?_⟩
        rw [if_neg hi, if_neg hl, if_neg hd, if_pos hc, (parse_str_eq_ok_iff (hp.counted hnodes)).mpr hreads]
        rfl
      | List items =>
        obtain ⟨hnodes, hdepth, hopen, r, hitems, rfl⟩ := accepts_list_iff.mp h
        refine ⟨_, ⟨hnodes, rfl⟩, _, hopen, ?_⟩
        rw [if_neg (by decide), if_pos rfl]
        exact (parse_list_exact ih (hp.counted hnodes) hopen hfuel).mpr
          ⟨hdepth, items, r, rfl, hitems, rfl⟩
      | Dict entries =>
        obtain ⟨hnodes, hdepth, hopen, r, hentries, rfl⟩ := accepts_dict_iff.mp h
        refine ⟨_, ⟨hnodes, rfl⟩, _, hopen, ?_⟩
        rw [if_neg (by decide), if_neg (by decide), if_pos rfl]
        exact (parse_dict_exact ih (hp.counted hnodes) hopen hfuel).mpr
          ⟨hdepth, entries, r, rfl, hentries, rfl⟩

theorem list_loop_exact (ih : Exact fuel) {acc all : Vec Value} (hp : p.InBounds) (hfuel : 3 * p.rest.length ≤ fuel) :
    list_loop (fuel + 1) p acc = .ok (all, q) ↔ ∃ items, all = acc ++ items ∧ p.AcceptsItems items q := by
  rw [list_loop]
  simp only [bind_eq_ok_iff, peek_eq_ok_iff]
  constructor
  · rintro ⟨c, hc, h⟩
    split at h
    · rename_i hce
      cases h
      exact ⟨[], (List.append_nil _).symm, (acceptsItems_nil_iff hp).mpr ⟨hce ▸ hc, rfl⟩⟩
    · simp only [bind_eq_ok_iff, Prod.exists, ih.parse hp hfuel] at h
      obtain ⟨item, r, hitem, hloop⟩ := h
      have hlt := hitem.lt
      obtain ⟨items, rfl, hitems⟩ := (ih.items (hitem.inBounds hp) (by omega)).mp hloop
      exact ⟨item :: items, by simp, acceptsItems_cons_iff.mpr ⟨r, hitem, hitems⟩⟩
  · rintro ⟨items, rfl, h⟩
    cases items with
    | nil =>
      obtain ⟨hstops, rfl⟩ := (acceptsItems_nil_iff hp).mp h
      exact ⟨_, hstops, by simp⟩
    | cons item items =>
      obtain ⟨r, hitem, hitems⟩ := acceptsItems_cons_iff.mp h
      obtain ⟨c, tail, hs, hc⟩ := item.serialize_head
      have hlt := hitem.lt
      refine ⟨c, (hs ▸ hitem.reads).head, ?_⟩
      rw [if_neg hc, (ih.parse hp hfuel).mpr hitem, bind_ok]
      exact (ih.items (hitem.inBounds hp) (by omega)).mpr ⟨items, by simp, hitems⟩

theorem dict_loop_exact (ih : Exact fuel) {acc all : Vec (Bytes × Value)} (hp : p.InBounds)
    (hfuel : 3 * p.rest.length ≤ fuel) : dict_loop (fuel + 1) p acc seen = .ok (all, q) ↔
      ∃ entries, all = acc ++ entries ∧ p.AcceptsEntries seen entries q := by
  rw [dict_loop]
  simp only [bind_eq_ok_iff, peek_eq_ok_iff]
  constructor
  · rintro ⟨c, hc, h⟩
    split at h
    · rename_i hce
      cases h
      exact ⟨[], (List.append_nil _).symm, (acceptsEntries_nil_iff hp).mpr ⟨hce ▸ hc, rfl⟩⟩
    · simp only [eq_ok_iff, Prod.exists, count_node_eq_ok_iff] at h
      obtain ⟨-, -, -, -, _, ⟨hnodes, rfl⟩, key, r, hparse, -, hfresh, val, s, hval, hloop⟩ := h
      have hcounted := hp.counted hnodes
      have hkey := (parse_str_eq_ok_iff hcounted).mp hparse
      have hr := hkey.inBounds hcounted hcounted.nodes_le
      have hle : p.rest.length = _ := hkey.length_rest
      rw [ih.parse hr (by omega)] at hval
      have hlt := hval.lt
      obtain ⟨entries, rfl, hentries⟩ := (ih.entries (hval.inBounds hr) (by omega)).mp hloop
      exact ⟨(key, val) :: entries, by simp, acceptsEntries_cons_iff.mpr ⟨hnodes, hfresh, r, s, hkey, hval, hentries⟩⟩
  · rintro ⟨entries, rfl, h⟩
    cases entries with
    | nil =>
      obtain ⟨hstops, rfl⟩ := (acceptsEntries_nil_iff hp).mp h
      exact ⟨_, hstops, by simp⟩
    | cons entry entries =>
      obtain ⟨hnodes, hfresh, r, s, hkey, hval, hentries⟩ := acceptsEntries_cons_iff.mp h
      obtain ⟨c, tail, hs, hc, hce, -⟩ := serialize_str_head entry.1
      have hcounted := hp.counted hnodes
      have hr := hkey.inBounds hcounted hcounted.nodes_le
      have hle : p.rest.length = _ := hkey.length_rest
      have hlt := hval.lt
      have hhead : p.rest.head? = some c := (hs ▸ hkey).head
      refine ⟨c, hhead, ?_⟩
      rw [if_neg hce]
      simp only [eq_ok_iff, Prod.exists, peek_eq_ok_iff, count_node_eq_ok_iff]
      exact ⟨c, hhead, (), by simp [hc], _, ⟨hnodes, rfl⟩, _, r, (parse_str_eq_ok_iff hcounted).mpr hkey,
        (), hfresh, _, s, (ih.parse hr (by omega)).mpr hval,
        (ih.entries (hval.inBounds hr) (by omega)).mpr ⟨entries, by simp, hentries⟩⟩

/-- With enough fuel the parser accepts exactly the serialized values within the budgets. -/
theorem exact (fuel : Nat) : Exact fuel := by
  induction fuel using Nat.strongRecOn with
  | ind fuel ih =>
    refine ⟨parse_exact ih, fun {p _ _ _} hp hfuel => ?_, fun {p _ _ _ _} hp hfuel => ?_⟩ <;>
      obtain ⟨fuel, rfl⟩ : ∃ n, fuel = n + 1 := ⟨fuel - 1, by omega⟩
    · exact list_loop_exact (ih fuel (by omega)) hp (by omega)
    · exact dict_loop_exact (ih fuel (by omega)) hp (by omega)

end Parser

theorem Parser.inBounds_start {bytes : Bytes} (hbytes : bytes.length ≤ MAX_TORRENT_METADATA_BYTES) :
    (⟨bytes, 0, 0, 0⟩ : Parser).InBounds :=
  ⟨Nat.zero_le _, hbytes, Nat.zero_le _, Nat.zero_le _⟩

theorem Parser.accepts_start_iff {bytes : Bytes} {v : Value} {q : Parser} :
    (⟨bytes, 0, 0, 0⟩ : Parser).Accepts v q ↔
      v.Admissible ∧ v.serialize <+: bytes ∧ q = ⟨bytes, v.serialize.length, 0, v.nodes⟩ := by
  constructor
  · rintro ⟨⟨hstarts, rfl⟩, hdistinct, hdepth, hnodes⟩
    refine ⟨⟨hdistinct, by simpa using hdepth, by simpa using hnodes⟩, hstarts, ?_⟩
    simp [consume]
  · rintro ⟨⟨hdistinct, hdepth, hnodes⟩, hstarts, rfl⟩
    refine ⟨⟨hstarts, by simp [consume]⟩, hdistinct, by simpa using hdepth, by simpa using hnodes⟩

/-- `decode_prefix` takes the serialization of one admissible value and leaves any suffix. -/
theorem decode_prefix_eq_ok_iff {bytes : Bytes} {v : Value} {consumed : Nat} :
    decode_prefix bytes = .ok (v, consumed) ↔
      bytes.length ≤ MAX_TORRENT_METADATA_BYTES ∧ v.Admissible ∧ v.serialize <+: bytes ∧
        consumed = v.serialize.length := by
  unfold decode_prefix
  simp only [eq_ok_iff, Prod.exists, Prod.mk.injEq, Nat.not_lt, gt_iff_lt]
  have hparse (hbytes : bytes.length ≤ MAX_TORRENT_METADATA_BYTES) {v : Value} {q : Parser} :
      Parser.parse (3 * bytes.length + 3) ⟨bytes, 0, 0, 0⟩ = .ok (v, q) ↔ _ :=
    ((Parser.exact _).parse (Parser.inBounds_start hbytes) (by simp [Parser.rest])).trans Parser.accepts_start_iff
  constructor
  · rintro ⟨-, hbytes, _, q, h, rfl, rfl⟩
    obtain ⟨hadmissible, hstarts, rfl⟩ := (hparse hbytes).mp h
    exact ⟨hbytes, hadmissible, hstarts, rfl⟩
  · rintro ⟨hbytes, hadmissible, hstarts, rfl⟩
    exact ⟨(), hbytes, v, _, (hparse hbytes).mpr ⟨hadmissible, hstarts, rfl⟩, rfl, rfl⟩

theorem decode_eq_ok_iff {bytes : Bytes} {v : Value} :
    decode bytes = .ok v ↔ bytes = v.serialize ∧ v.Admissible ∧ bytes.length ≤ MAX_TORRENT_METADATA_BYTES := by
  simp only [decode, eq_ok_iff, Prod.exists, decode_prefix_eq_ok_iff, ne_eq, not_not]
  constructor
  · rintro ⟨_, consumed, ⟨hbytes, hadmissible, hstarts, rfl⟩, -, hall, rfl⟩
    exact ⟨(hstarts.eq_of_length hall).symm, hadmissible, hbytes⟩
  · rintro ⟨rfl, hadmissible, hbytes⟩
    exact ⟨v, v.serialize.length, ⟨hbytes, hadmissible, List.prefix_rfl, rfl⟩, (), rfl, rfl⟩

/-- The decoder accepts exactly the serializations of admissible values within the length limit,
    each value in one byte form only. Integers are `i64` values written in their canonical
    decimal, and dictionary entries keep the order in which the value holds them. -/
theorem decode_exact (bytes : Bytes) (v : Value) :
    (decode bytes = .ok v ↔ bytes = v.serialize ∧ v.Admissible ∧ bytes.length ≤ MAX_TORRENT_METADATA_BYTES) ∧
    ∀ other, decode bytes = .ok v → decode other = .ok v → bytes = other := by
  refine ⟨decode_eq_ok_iff, fun other hbytes hother => ?_⟩
  rw [(decode_eq_ok_iff.mp hbytes).1, (decode_eq_ok_iff.mp hother).1]

/-- `if bad { return None }`. -/
def bail_if (bad : Prop) [Decidable bad] : Option Unit := if bad then none else some ()

@[simp] theorem bail_if_eq_some_iff {bad : Prop} [Decidable bad] {u : Unit} : bail_if bad = some u ↔ ¬ bad := by
  unfold bail_if
  split <;> simp_all

def advance (cursor amount : Nat) : Option Nat := checked_add cursor amount

/-- The string at the cursor `p`, with the cursor behind it. -/
def read_str (bytes : Bytes) (p : Nat) : Option (Bytes × Nat) := do
  let colon ← (bytes.drop p).findIdx? (· == b ':')
  let after_len ← checked_add p colon
  let len_bytes := (bytes.take after_len).drop p
  let _ ← bail_if (colon = 0 ∨ len_bytes.all is_digit = false)
  let _ ← bail_if (len_bytes.length > 1 ∧ len_bytes.head? = some (b '0'))
  let text ← from_utf8 len_bytes
  let len ← parse_usize (as_bytes text)
  let data_start ← checked_add after_len 1
  let data_end ← checked_add data_start len
  let _ ← bail_if (data_end > bytes.length)
  pure ((bytes.take data_end).drop data_start, data_end)

/-- `while *p < bytes.len() && bytes[*p] != b'e'`. Started with one unit of fuel for each byte
    behind the cursor, it has none left only at the end of the input, where the loop ends too. -/
def scan_to_end : Nat → Bytes → Nat → Option Nat
  | 0, _, p => some p
  | fuel + 1, bytes, p =>
    match bytes[p]? with
    | none => some p
    | some c =>
      if c = b 'e' then some p
      else do
        let p ← advance p 1
        scan_to_end fuel bytes p

/-- The loop of `skip_value` over the body of a list or a dictionary. Every round moves the
    cursor, so that the fuel is as in `scan_to_end`. -/
def skip_body : Nat → Bytes → Nat → Nat → Option Nat
  | 0, _, p, _ => some p
  | fuel + 1, bytes, p, depth =>
    match bytes[p]? with
    | none => some p
    | some c =>
      if depth = 0 then some p
      else if c = b 'l' ∨ c = b 'd' then do
        let depth ← checked_add depth 1
        let p ← advance p 1
        skip_body fuel bytes p depth
      else if c = b 'e' then do
        let depth ← checked_sub depth 1
        let p ← advance p 1
        skip_body fuel bytes p depth
      else if is_digit c then do
        let (_, p) ← read_str bytes p
        skip_body fuel bytes p depth
      else if c = b 'i' then do
        let p ← advance p 1
        let p ← scan_to_end (bytes.length - p) bytes p
        let _ ← bail_if (p ≥ bytes.length)
        let p ← advance p 1
        skip_body fuel bytes p depth
      else none

def skip_value (bytes : Bytes) (p : Nat) : Option Nat := do
  let c ← bytes[p]?
  if c = b 'i' then do
    let p ← advance p 1
    let body_start := p
    let p ← scan_to_end (bytes.length - p) bytes p
    let _ ← bail_if (p ≥ bytes.length)
    let _ ← bail_if (p = body_start)
    advance p 1
  else if c = b 'l' ∨ c = b 'd' then do
    let p ← advance p 1
    skip_body (bytes.length - p) bytes p 1
  else if is_digit c then do
    let (_, p) ← read_str bytes p
    pure p
  else none

/-- The loop of `extract_value_bytes` over the entries of the outer dictionary. -/
def extract_loop : Nat → Bytes → Bytes → Nat → Option Bytes
  | 0, _, _, _ => none
  | fuel + 1, bytes, key, p =>
    match bytes[p]? with
    | none => none
    | some c =>
      if c = b 'e' then none
      else do
        let (k, start) ← read_str bytes p
        let p ← skip_value bytes start
        if k = key then some ((bytes.take p).drop start)
        else extract_loop fuel bytes key p

/-- The bytes of the value under a top-level key, found without building a `Value`. -/
def extract_value_bytes (bytes key : Bytes) : Option Bytes := do
  let _ ← bail_if (bytes.length > MAX_TORRENT_METADATA_BYTES)
  let first ← bytes.head?
  let _ ← bail_if (first ≠ b 'd')
  let p ← checked_add 0 1
  extract_loop (bytes.length - p) bytes key p

/-- `read_str` is `parse_str` without its error messages. -/
theorem read_str_eq_some_iff {bytes s : Bytes} {p q : Nat} :
    read_str bytes p = some (s, q) ↔ (⟨bytes, p, 0, 0⟩ : Parser).parse_str = .ok (s, ⟨bytes, q, 0, 0⟩) := by
  simp only [read_str, Parser.parse_str, eq_ok_iff, bail_if_eq_some_iff, Option.bind_eq_bind, Option.bind_eq_some_iff,
    Option.pure_def, Option.some.injEq, Prod.mk.injEq, Parser.mk.injEq, not_or, and_assoc, true_and, and_true,
    exists_const]

/-- What the raw scanner takes for a value: an integer is any bytes before the next `e`, and a dictionary any items
    in a row. -/
inductive Item where
  | Int (body : Bytes) (closed : b 'e' ∉ body)
  | Str (s : Bytes)
  | List (items : List Item)
  | Dict (items : List Item)

mutual

def Item.serialize : Item → Bytes
  | .Int body _ => b 'i' :: (body ++ [b 'e'])
  | .Str s => serialize_str s
  | .List items => b 'l' :: (serialize_items items ++ [b 'e'])
  | .Dict items => b 'd' :: (serialize_items items ++ [b 'e'])

def Item.serialize_items : Vec Item → Bytes
  | [] => []
  | item :: items => item.serialize ++ serialize_items items

end

mutual

/-- A value of the decoder as the scanner sees it. -/
def Value.to_item : Value → Item
  | .Int n => .Int (serialize_int n) (not_mem_serialize_int n)
  | .Str s => .Str s
  | .List items => .List (to_items items)
  | .Dict entries => .Dict (entries_to_items entries)

def Value.to_items : Vec Value → Vec Item
  | [] => []
  | item :: items => item.to_item :: to_items items

def Value.entries_to_items : Vec (Bytes × Value) → Vec Item
  | [] => []
  | (key, val) :: entries => .Str key :: val.to_item :: entries_to_items entries

end

mutual

theorem Value.serialize_to_item (v : Value) : v.to_item.serialize = v.serialize := by
  cases v with
  | Int n => rfl
  | Str s => rfl
  | List items => rw [to_item, Item.serialize, Value.serialize, serialize_to_items items]
  | Dict entries => rw [to_item, Item.serialize, Value.serialize, serialize_entries_to_items entries]

theorem Value.serialize_to_items (items : Vec Value) :
    Item.serialize_items (to_items items) = serialize_items items := by
  cases items with
  | nil => rfl
  | cons item items =>
    rw [to_items, Item.serialize_items, Value.serialize_items, serialize_to_item item, serialize_to_items items]

theorem Value.serialize_entries_to_items (entries : Vec (Bytes × Value)) :
    Item.serialize_items (entries_to_items entries) = serialize_entries entries := by
  cases entries with
  | nil => rfl
  | cons entry entries =>
    obtain ⟨key, val⟩ := entry
    rw [entries_to_items, Item.serialize_items, Item.serialize_items, Value.serialize_entries, Item.serialize,
      serialize_to_item val, serialize_entries_to_items entries]

end

/-- Two texts cut at their first delimiter. -/
theorem cut_inj {a : UInt8} {body body' tail tail' : Bytes} (hbody : a ∉ body) (hbody' : a ∉ body')
    (h : body ++ a :: tail = body' ++ a :: tail') : body = body' ∧ tail = tail' := by
  have hlength := congrArg (List.idxOf a) h
  rw [List.idxOf_append_of_notMem hbody, List.idxOf_append_of_notMem hbody', List.idxOf_cons_self,
    List.idxOf_cons_self] at hlength
  obtain ⟨hsame, hrest⟩ := List.append_inj h (by omega)
  exact ⟨hsame, (List.cons.inj hrest).2⟩

/-- A string can be read back whatever follows it. -/
theorem serialize_str_append_inj {s s' tail tail' : Bytes}
    (h : serialize_str s ++ tail = serialize_str s' ++ tail') : s = s' ∧ tail = tail' := by
  have hcolon (n : Nat) : b ':' ∉ render n := fun hmem =>
    absurd (is_digit_of_mem_render hmem) (by decide)
  simp only [serialize_str, List.append_assoc, List.cons_append] at h
  obtain ⟨hrender, hrest⟩ := cut_inj (hcolon _) (hcolon _) h
  have hlength : s.length = s'.length := by
    rw [← value_render s.length, hrender, value_render]
  exact List.append_inj hrest hlength

theorem serialize_str_ne_nil (s : Bytes) : serialize_str s ≠ [] := by
  obtain ⟨c, tail, hs, -⟩ := serialize_str_head s
  simp [hs]

/-- The first byte of an item tells its kind. -/
theorem Item.serialize_head (item : Item) : ∃ c tail, item.serialize = c :: tail ∧ c ≠ b 'e' := by
  cases item with
  | Int body closed => exact ⟨_, _, rfl, by decide⟩
  | Str s =>
    obtain ⟨c, tail, hs, -, hc, -⟩ := serialize_str_head s
    exact ⟨c, tail, hs, hc⟩
  | List items => exact ⟨_, _, rfl, by decide⟩
  | Dict items => exact ⟨_, _, rfl, by decide⟩

theorem serialize_str_ne_cons {s tail tail' : Bytes} {c : UInt8} (hc : is_digit c = false) :
    serialize_str s ++ tail ≠ c :: tail' := by
  obtain ⟨digit, rest, hs, hdigit, -⟩ := serialize_str_head s
  rw [hs, List.cons_append]
  intro h
  rw [(List.cons.inj h).1, hc] at hdigit
  cases hdigit

mutual

/-- An item can be read back whatever follows it. -/
theorem Item.serialize_append_inj (item item' : Item) {tail tail' : Bytes}
    (h : item.serialize ++ tail = item'.serialize ++ tail') : item = item' ∧ tail = tail' := by
  cases item <;> cases item'
  case Int.Int body closed body' closed' =>
    simp only [serialize, List.cons_append, List.append_assoc, List.nil_append, List.cons.injEq, true_and] at h
    obtain ⟨rfl, htail⟩ := cut_inj closed closed' h
    exact ⟨rfl, htail⟩
  case Str.Str s s' =>
    obtain ⟨rfl, htail⟩ := serialize_str_append_inj h
    exact ⟨rfl, htail⟩
  case List.List items items' | Dict.Dict items items' =>
    simp only [serialize, List.cons_append, List.append_assoc, List.nil_append, List.cons.injEq, true_and] at h
    obtain ⟨rfl, htail⟩ := serialize_items_inj items items' h
    exact ⟨rfl, htail⟩
  -- items of two kinds differ in their first byte
  all_goals first
    | exact absurd h (serialize_str_ne_cons (by decide))
    | exact absurd h.symm (serialize_str_ne_cons (by decide))
    | exact absurd (List.cons.inj h).1 (by decide)

theorem Item.serialize_items_inj (items items' : Vec Item) {tail tail' : Bytes}
    (h : serialize_items items ++ b 'e' :: tail = serialize_items items' ++ b 'e' :: tail') :
    items = items' ∧ tail = tail' := by
  cases items with
  | nil =>
    cases items' with
    | nil => exact ⟨rfl, (List.cons.inj h).2⟩
    | cons item items' =>
      obtain ⟨c, rest, hs, hc⟩ := item.serialize_head
      rw [serialize_items, serialize_items, hs] at h
      exact absurd (List.cons.inj h).1.symm hc
  | cons item items =>
    cases items' with
    | nil =>
      obtain ⟨c, rest, hs, hc⟩ := item.serialize_head
      rw [serialize_items, serialize_items, hs] at h
      exact absurd (List.cons.inj h).1 hc
    | cons item' items' =>
      rw [serialize_items, serialize_items, List.append_assoc, List.append_assoc] at h
      obtain ⟨rfl, hrest⟩ := serialize_append_inj item item' h
      obtain ⟨rfl, htail⟩ := serialize_items_inj items items' hrest
      exact ⟨rfl, htail⟩

end

theorem Item.serialize_injective {item item' : Item} (h : item.serialize = item'.serialize) : item = item' :=
  (serialize_append_inj item item' (congrArg (· ++ []) h)).1

/-- No value is an empty integer. -/
theorem Value.serialize_to_item_ne (v : Value) : v.to_item.serialize ≠ as_bytes "ie" := by
  rw [v.serialize_to_item]
  cases v with
  | Int n =>
    intro h
    have hlength := congrArg List.length h
    have hpos := List.length_pos_iff.mpr (serialize_int_ne_nil n)
    simp only [Value.serialize, List.length_cons, List.length_append] at hlength
    have htwo : (as_bytes "ie").length = 2 := rfl
    omega
  | Str s => exact fun h => serialize_str_ne_cons (by decide) ((List.append_nil _).trans h)
  | List items => exact fun h => absurd (List.cons.inj h).1 (by decide)
  | Dict entries => exact fun h => absurd (List.cons.inj h).1 (by decide)

/-- The decoder takes a whole item exactly if it is one of its own values. -/
theorem decode_prefix_item (item : Item) (hsize : item.serialize.length ≤ MAX_TORRENT_METADATA_BYTES) (v : Value) :
    decode_prefix item.serialize = .ok (v, item.serialize.length) ↔ item = v.to_item ∧ v.Admissible := by
  rw [decode_prefix_eq_ok_iff]
  constructor
  · rintro ⟨-, hadmissible, hstarts, hlength⟩
    refine ⟨Item.serialize_injective ?_, hadmissible⟩
    rw [v.serialize_to_item]
    exact (hstarts.eq_of_length hlength.symm).symm
  · rintro ⟨rfl, hadmissible⟩
    rw [v.serialize_to_item] at hsize ⊢
    exact ⟨hsize, hadmissible, List.prefix_rfl, rfl⟩

/-- A document that is cut short anywhere is refused. -/
theorem decode_truncated {bytes front : Bytes} {v : Value} (h : decode bytes = .ok v) (hfront : front <+: bytes)
    (hne : front ≠ bytes) : ∃ error, decode front = .error error := by
  cases hdecode : decode front with
  | error error => exact ⟨error, rfl⟩
  | ok w =>
    obtain ⟨tail, htail⟩ := hfront
    obtain ⟨rfl, -, -⟩ := decode_eq_ok_iff.mp h
    obtain ⟨rfl, -, -⟩ := decode_eq_ok_iff.mp hdecode
    rw [← v.serialize_to_item, ← w.serialize_to_item] at hne htail
    -- the whole document would begin with another item
    rw [← List.append_nil v.to_item.serialize] at htail
    exact absurd (congrArg Item.serialize (Item.serialize_append_inj _ _ htail).1) hne

theorem decode_truncated_int : ∃ error, decode (as_bytes "i1") = .error error :=
  @decode_truncated (as_bytes "i1e") (as_bytes "i1") (.Int 1) (by decide +kernel) (by decide) (by decide)

end swarmotter.bencode
