import Swarmotter.Bencode.Items

open swarmotter.meta

namespace swarmotter.bencode

/-- The text from the cursor `p` up to the cursor `q`. -/
structure Spans (bytes : Bytes) (p : Nat) (text : Bytes) (q : Nat) : Prop where
  drop_eq : bytes.drop p = text ++ bytes.drop q
  pos_eq : q = p + text.length
  pos_le : q ≤ bytes.length

section
variable {bytes text text' : Bytes} {p q r : Nat} {c : UInt8}

theorem Spans.slice (h : Spans bytes p text q) : (bytes.take q).drop p = text := by
  rw [List.drop_take, h.drop_eq, h.pos_eq, Nat.add_sub_cancel_left, List.take_left]

theorem Spans.lt (h : Spans bytes p text q) (hne : text ≠ []) : p < q ∧ p < bytes.length := by
  have hpos := List.length_pos_iff.mpr hne
  have hle := h.pos_le
  have heq := h.pos_eq
  omega

/-- The input around a span. -/
theorem Spans.split (h : Spans bytes p text q) : bytes = bytes.take p ++ (text ++ bytes.drop q) := by
  rw [← h.drop_eq, List.take_append_drop]

theorem spans_of_prefix (hp : p ≤ bytes.length) (h : text <+: bytes.drop p) : Spans bytes p text (p + text.length) := by
  have hle := h.length_le
  rw [List.length_drop] at hle
  refine ⟨?_, rfl, by omega⟩
  rw [← List.drop_drop, List.prefix_iff_eq_append.mp h]

theorem spans_nil_iff : Spans bytes p [] q ↔ p ≤ bytes.length ∧ q = p := by
  constructor
  · rintro ⟨-, rfl, hle⟩
    exact ⟨hle, rfl⟩
  · rintro ⟨hle, rfl⟩
    exact ⟨rfl, rfl, hle⟩

theorem spans_append_iff : Spans bytes p (text ++ text') r ↔ ∃ q, Spans bytes p text q ∧ Spans bytes q text' r := by
  constructor
  · rintro ⟨hdrop, hpos, hle⟩
    rw [List.length_append] at hpos
    have hrest : bytes.drop (p + text.length) = text' ++ bytes.drop r := by
      rw [← List.drop_drop, hdrop, List.append_assoc, List.drop_left]
    exact ⟨p + text.length, ⟨by rw [hdrop, hrest, List.append_assoc], rfl, by omega⟩, hrest, by omega, hle⟩
  · rintro ⟨q, h, h'⟩
    refine ⟨by rw [h.drop_eq, h'.drop_eq, List.append_assoc], ?_, h'.pos_le⟩
    rw [h'.pos_eq, h.pos_eq, List.length_append, Nat.add_assoc]

theorem spans_cons_iff : Spans bytes p (c :: text) q ↔ bytes[p]? = some c ∧ Spans bytes (p + 1) text q := by
  have hbyte {r : Nat} : Spans bytes p [c] r ↔ bytes[p]? = some c ∧ r = p + 1 := by
    constructor
    · rintro ⟨hdrop, rfl, -⟩
      exact ⟨by rw [← List.head?_drop, hdrop]; rfl, rfl⟩
    · rintro ⟨hc, rfl⟩
      obtain ⟨hlt, rfl⟩ := List.getElem?_eq_some_iff.mp hc
      exact ⟨List.drop_eq_getElem_cons hlt, rfl, hlt⟩
  rw [← List.singleton_append, spans_append_iff]
  simp only [hbyte, and_assoc, exists_and_left, exists_eq_left]

variable (hbytes : bytes.length ≤ MAX_TORRENT_METADATA_BYTES)
include hbytes

theorem advance_eq_some_iff (hp : p < bytes.length) : advance p 1 = some q ↔ q = p + 1 := by
  have hmax : bytes.length ≤ usize.MAX := hbytes.trans (by decide)
  rw [advance, checked_add_eq_some_iff]
  exact and_iff_right (by omega)

theorem read_str_spans_iff (hp : p ≤ bytes.length) {s : Bytes} :
    read_str bytes p = some (s, q) ↔ Spans bytes p (serialize_str s) q := by
  have hbounds : (⟨bytes, p, 0, 0⟩ : Parser).InBounds := ⟨hp, hbytes, Nat.zero_le _, Nat.zero_le _⟩
  rw [read_str_eq_some_iff, Parser.parse_str_eq_ok_iff hbounds]
  constructor
  · intro h
    have hpos : q = p + (serialize_str s).length := congrArg Parser.pos h.2
    exact ⟨h.rest_eq, hpos, (h.inBounds hbounds (Nat.zero_le _)).pos_le⟩
  · intro h
    refine ⟨⟨_, h.drop_eq.symm⟩, ?_⟩
    rw [h.pos_eq]
    rfl

/-- The scan over an integer stops at the first `e`, if there is one. -/
theorem scan_to_end_iff {fuel : Nat} (hp : p ≤ bytes.length) (hfuel : bytes.length - p ≤ fuel) :
    scan_to_end fuel bytes p = some q ∧ q < bytes.length ↔
      ∃ body, b 'e' ∉ body ∧ Spans bytes p (body ++ [b 'e']) (q + 1) := by
  induction fuel generalizing p with
  | zero =>
    refine iff_of_false (by rintro ⟨⟨⟩, hq⟩; omega) ?_
    rintro ⟨body, -, h⟩
    have hlt := h.lt (by simp)
    omega
  | succ fuel ih =>
    rw [scan_to_end]
    cases hc : bytes[p]? with
    | none =>
      have hend := List.getElem?_eq_none_iff.mp hc
      refine iff_of_false (by rintro ⟨⟨⟩, hq⟩; omega) ?_
      rintro ⟨body, -, h⟩
      have hlt := h.lt (by simp)
      omega
    | some c =>
      obtain ⟨hlt, -⟩ := List.getElem?_eq_some_iff.mp hc
      by_cases he : c = b 'e'
      · simp only [he, if_true, Option.some.injEq]
        constructor
        · rintro ⟨rfl, -⟩
          exact ⟨[], List.not_mem_nil, spans_cons_iff.mpr ⟨he ▸ hc, spans_nil_iff.mpr ⟨hlt, rfl⟩⟩⟩
        · rintro ⟨body, hbody, h⟩
          cases body with
          | nil =>
            have hq := (spans_nil_iff.mp (spans_cons_iff.mp h).2).2
            exact ⟨by omega, by omega⟩
          | cons d body =>
            obtain rfl : c = d := Option.some.inj (hc.symm.trans (spans_cons_iff.mp h).1)
            exact absurd (he ▸ List.mem_cons_self) hbody
      · simp only [if_neg he, Option.bind_eq_bind, Option.bind_eq_some_iff, advance_eq_some_iff hbytes hlt,
          exists_eq_left, ih (show p + 1 ≤ _ from hlt) (by omega)]
        constructor
        · rintro ⟨body, hbody, h⟩
          exact ⟨c :: body, List.not_mem_cons_of_ne_of_not_mem (Ne.symm he) hbody, spans_cons_iff.mpr ⟨hc, h⟩⟩
        · rintro ⟨body, hbody, h⟩
          cases body with
          | nil => exact absurd (Option.some.inj (hc.symm.trans (spans_cons_iff.mp h).1)) he
          | cons d body => exact ⟨body, fun hmem => hbody (List.mem_cons_of_mem _ hmem), (spans_cons_iff.mp h).2⟩

/-- An integer inside the input: `i`, the bytes before the next `e`, and that `e`. -/
theorem scan_int_iff (hc : bytes[p]? = some (b 'i')) :
    scan_to_end (bytes.length - (p + 1)) bytes (p + 1) = some q ∧ q < bytes.length ↔
      ∃ body closed, Spans bytes p (Item.Int body closed).serialize (q + 1) := by
  obtain ⟨hlt, -⟩ := List.getElem?_eq_some_iff.mp hc
  rw [scan_to_end_iff hbytes hlt le_rfl]
  simp only [Item.serialize, spans_cons_iff, hc, true_and, exists_prop]

end

/-- The text closes this many levels of lists and dictionaries, token by token as the scanner reads it. -/
inductive Closes : Nat → Bytes → Prop
  | done : Closes 0 []
  | opening {depth text c} (hc : c = b 'l' ∨ c = b 'd') : Closes (depth + 2) text → Closes (depth + 1) (c :: text)
  | closing {depth text} : Closes depth text → Closes (depth + 1) (b 'e' :: text)
  | str {depth text} (s) : Closes (depth + 1) text → Closes (depth + 1) (serialize_str s ++ text)
  | int {depth text} (body closed) :
    Closes (depth + 1) text → Closes (depth + 1) ((Item.Int body closed).serialize ++ text)

/-- The items that close the levels, the innermost first. -/
def closings (levels : Vec (Vec Item)) : Bytes :=
  levels.flatMap fun items => Item.serialize_items items ++ [b 'e']

theorem closings_cons (items : Vec Item) (levels : Vec (Vec Item)) :
    closings (items :: levels) = Item.serialize_items items ++ b 'e' :: closings levels := by
  simp [closings]

theorem Closes.levels {depth : Nat} {text : Bytes} (h : Closes depth text) :
    ∃ levels, levels.length = depth ∧ closings levels = text := by
  have hitem (item : Item) {levels : Vec (Vec Item)} {depth : Nat} (hlength : levels.length = depth + 1) :
      ∃ levels', levels'.length = depth + 1 ∧ closings levels' = item.serialize ++ closings levels := by
    obtain ⟨items, levels, rfl⟩ := List.exists_cons_of_length_eq_add_one hlength
    exact ⟨(item :: items) :: levels, hlength, by simp only [closings_cons, Item.serialize_items, List.append_assoc]⟩
  induction h with
  | done => exact ⟨[], rfl, rfl⟩
  | @opening depth text c hc _ ih =>
    obtain ⟨levels, hlength, rfl⟩ := ih
    obtain ⟨inner, levels, rfl⟩ := List.exists_cons_of_length_eq_add_one hlength
    rw [closings_cons]
    rcases hc with rfl | rfl
    · obtain ⟨levels', hlength', hlevels⟩ := hitem (.List inner) (Nat.succ.inj hlength)
      exact ⟨levels', hlength', by simp [hlevels, Item.serialize]⟩
    · obtain ⟨levels', hlength', hlevels⟩ := hitem (.Dict inner) (Nat.succ.inj hlength)
      exact ⟨levels', hlength', by simp [hlevels, Item.serialize]⟩
  | closing _ ih =>
    obtain ⟨levels, rfl, rfl⟩ := ih
    exact ⟨[] :: levels, rfl, rfl⟩
  | str s _ ih =>
    obtain ⟨levels, hlength, rfl⟩ := ih
    exact hitem (.Str s) hlength
  | int body closed _ ih =>
    obtain ⟨levels, hlength, rfl⟩ := ih
    exact hitem (.Int body closed) hlength

mutual

theorem Item.closes (item : Item) {depth : Nat} {text : Bytes} (h : Closes (depth + 1) text) :
    Closes (depth + 1) (item.serialize ++ text) := by
  cases item with
  | Int body closed => exact .int body closed h
  | Str s => exact .str s h
  | List items =>
    simp only [serialize, List.cons_append, List.append_assoc, List.nil_append]
    exact .opening (.inl rfl) (Item.closes_items items (.closing h))
  | Dict items =>
    simp only [serialize, List.cons_append, List.append_assoc, List.nil_append]
    exact .opening (.inr rfl) (Item.closes_items items (.closing h))

theorem Item.closes_items (items : Vec Item) {depth : Nat} {text : Bytes} (h : Closes (depth + 1) text) :
    Closes (depth + 1) (serialize_items items ++ text) := by
  cases items with
  | nil => exact h
  | cons item items =>
    rw [serialize_items, List.append_assoc]
    exact Item.closes item (Item.closes_items items h)

end

/-- A list or dictionary that is not closed: no item is at the front of the bytes. -/
def Unclosed (bytes : Bytes) : Prop :=
  (bytes.head? = some (b 'l') ∨ bytes.head? = some (b 'd')) ∧ ∀ item, ¬ Item.serialize item <+: bytes

section
variable {bytes : Bytes} {p q depth fuel : Nat} (hbytes : bytes.length ≤ MAX_TORRENT_METADATA_BYTES)
include hbytes

/-- The loop reads a text that closes its levels. No more of them are open than bytes have been read. -/
theorem skip_body_of_closes {text : Bytes} (h : Closes depth text) (hspans : Spans bytes p text q)
    (hdepth : depth ≤ p) (hfuel : bytes.length - p ≤ fuel) : skip_body fuel bytes p depth = some q := by
  induction h generalizing p fuel with
  | done =>
    obtain ⟨-, rfl⟩ := spans_nil_iff.mp hspans
    cases fuel with
    | zero => rfl
    | succ fuel =>
      rw [skip_body]
      split <;> simp
  | @opening depth text c hc _ ih =>
    obtain ⟨hp, hspans⟩ := spans_cons_iff.mp hspans
    obtain ⟨hlt, -⟩ := List.getElem?_eq_some_iff.mp hp
    obtain ⟨fuel, rfl⟩ : ∃ n, fuel = n + 1 := ⟨fuel - 1, by omega⟩
    have hmax : bytes.length ≤ usize.MAX := hbytes.trans (by decide)
    have hadd : checked_add (depth + 1) 1 = some (depth + 2) := checked_add_eq_some_iff.mpr ⟨by omega, rfl⟩
    simp only [skip_body, hp, if_neg depth.succ_ne_zero, if_pos hc, hadd, (advance_eq_some_iff hbytes hlt).mpr rfl,
      Option.bind_eq_bind, Option.bind_some]
    exact ih hspans (by omega) (by omega)
  | @closing depth text _ ih =>
    obtain ⟨hp, hspans⟩ := spans_cons_iff.mp hspans
    obtain ⟨hlt, -⟩ := List.getElem?_eq_some_iff.mp hp
    obtain ⟨fuel, rfl⟩ : ∃ n, fuel = n + 1 := ⟨fuel - 1, by omega⟩
    have hsub : checked_sub (depth + 1) 1 = some depth := checked_sub_eq_some_iff.mpr ⟨by omega, rfl⟩
    have hne : ¬ (b 'e' = b 'l' ∨ b 'e' = b 'd') := by decide
    simp only [skip_body, hp, if_neg depth.succ_ne_zero, if_neg hne, if_true, hsub,
      (advance_eq_some_iff hbytes hlt).mpr rfl, Option.bind_eq_bind, Option.bind_some]
    exact ih hspans (by omega) (by omega)
  | @str depth text s _ ih =>
    obtain ⟨next, hstr, hspans⟩ := spans_append_iff.mp hspans
    obtain ⟨c, tail, hs, hc, he, -, hne⟩ := serialize_str_head s
    have hlt := hstr.lt (by simp [hs])
    obtain ⟨fuel, rfl⟩ : ∃ n, fuel = n + 1 := ⟨fuel - 1, by omega⟩
    simp only [skip_body, (spans_cons_iff.mp (hs ▸ hstr)).1, if_neg depth.succ_ne_zero, if_neg (not_or.mpr hne),
      if_neg he,
      if_pos hc, (read_str_spans_iff hbytes hlt.2.le).mpr hstr, Option.bind_eq_bind, Option.bind_some]
    exact ih hspans (by omega) (by omega)
  | @int depth text body closed _ ih =>
    obtain ⟨next, hint, hspans⟩ := spans_append_iff.mp hspans
    have hp := (spans_cons_iff.mp hint).1
    have hlt := hint.lt (by simp [Item.serialize])
    obtain ⟨stop, rfl⟩ : ∃ n, next = n + 1 := ⟨next - 1, by omega⟩
    obtain ⟨fuel, rfl⟩ : ∃ n, fuel = n + 1 := ⟨fuel - 1, by omega⟩
    obtain ⟨hscan, hstop⟩ := (scan_int_iff hbytes hp).mpr ⟨body, closed, hint⟩
    have hne : ¬ (b 'i' = b 'l' ∨ b 'i' = b 'd') ∧ b 'i' ≠ b 'e' ∧ ¬ decimal.is_digit (b 'i') = true := by decide
    simp only [skip_body, hp, if_neg depth.succ_ne_zero, if_neg hne.1, if_neg hne.2.1, if_neg hne.2.2, if_true,
      (advance_eq_some_iff hbytes hlt.2).mpr rfl, hscan, bail_if, if_neg hstop.not_ge,
      (advance_eq_some_iff hbytes hstop).mpr rfl, Option.bind_eq_bind, Option.bind_some]
    exact ih hspans (by omega) (by omega)

/-- The loop ends behind the `e` of the outermost level, or at the end of the input. -/
theorem closes_of_skip_body (hp : p ≤ bytes.length) (hfuel : bytes.length - p ≤ fuel)
    (h : skip_body fuel bytes p depth = some q) :
    q = bytes.length ∨ ∃ text, Closes depth text ∧ Spans bytes p text q := by
  induction fuel generalizing p depth with
  | zero =>
    obtain rfl : p = q := Option.some.inj h
    exact .inl (by omega)
  | succ fuel ih =>
    rw [skip_body] at h
    cases hc : bytes[p]? with
    | none =>
      rw [hc] at h
      obtain rfl : p = q := Option.some.inj h
      have hend := List.getElem?_eq_none_iff.mp hc
      exact .inl (by omega)
    | some c =>
      obtain ⟨hlt, -⟩ := List.getElem?_eq_some_iff.mp hc
      simp only [hc] at h
      cases depth with
      | zero =>
        rw [if_pos rfl] at h
        obtain rfl : p = q := Option.some.inj h
        exact .inr ⟨[], .done, spans_nil_iff.mpr ⟨hp, rfl⟩⟩
      | succ depth =>
      rw [if_neg depth.succ_ne_zero] at h
      split at h
      · rename_i hkind
        simp only [Option.bind_eq_bind, Option.bind_eq_some_iff, checked_add_eq_some_iff,
          advance_eq_some_iff hbytes hlt] at h
        obtain ⟨_, ⟨-, rfl⟩, _, rfl, h⟩ := h
        refine (ih hlt (by omega) h).imp_right ?_
        rintro ⟨text, hcloses, hspans⟩
        exact ⟨c :: text, .opening hkind hcloses, spans_cons_iff.mpr ⟨hc, hspans⟩⟩
      split at h
      · rename_i he
        simp only [Option.bind_eq_bind, Option.bind_eq_some_iff, checked_sub_eq_some_iff,
          advance_eq_some_iff hbytes hlt] at h
        obtain ⟨_, ⟨-, rfl⟩, _, rfl, h⟩ := h
        refine (ih hlt (by omega) h).imp_right ?_
        rintro ⟨text, hcloses, hspans⟩
        exact ⟨b 'e' :: text, .closing hcloses, spans_cons_iff.mpr ⟨he ▸ hc, hspans⟩⟩
      split at h
      · simp only [Option.bind_eq_bind, Option.bind_eq_some_iff, Prod.exists, read_str_spans_iff hbytes hp] at h
        obtain ⟨s, next, hstr, h⟩ := h
        have hnext := hstr.lt (serialize_str_ne_nil s)
        refine (ih hstr.pos_le (by omega) h).imp_right ?_
        rintro ⟨text, hcloses, hspans⟩
        exact ⟨_, .str s hcloses, spans_append_iff.mpr ⟨next, hstr, hspans⟩⟩
      split at h
      · rename_i hint
        simp only [Option.bind_eq_bind, Option.bind_eq_some_iff, bail_if_eq_some_iff, exists_const,
          advance_eq_some_iff hbytes hlt, exists_eq_left] at h
        obtain ⟨stop, hscan, hstop, next, hnext, h⟩ := h
        rw [ge_iff_le, Nat.not_le] at hstop
        obtain rfl := (advance_eq_some_iff hbytes hstop).mp hnext
        obtain ⟨body, closed, hspan⟩ := (scan_int_iff hbytes (hint ▸ hc)).mp ⟨hscan, hstop⟩
        have hnext := hspan.lt (by simp [Item.serialize])
        refine (ih hspan.pos_le (by omega) h).imp_right ?_
        rintro ⟨text, hcloses, hspans⟩
        exact ⟨_, .int body closed hcloses, spans_append_iff.mpr ⟨_, hspan, hspans⟩⟩
      · cases h

/-- `skip_value` moves the cursor behind the item it is on, unless that is an empty integer. -/
theorem skip_value_of_item {item : Item} (h : Spans bytes p item.serialize q)
    (hne : item.serialize ≠ as_bytes "ie") : skip_value bytes p = some q := by
  have hopened {c : UInt8} {items : Vec Item} (hkind : c = b 'l' ∨ c = b 'd') (hint : c ≠ b 'i')
      (hspans : Spans bytes p (c :: (Item.serialize_items items ++ [b 'e'])) q) : skip_value bytes p = some q := by
    obtain ⟨hp, hspans⟩ := spans_cons_iff.mp hspans
    obtain ⟨hlt, -⟩ := List.getElem?_eq_some_iff.mp hp
    simp only [skip_value, hp, if_neg hint, if_pos hkind, (advance_eq_some_iff hbytes hlt).mpr rfl,
      Option.bind_eq_bind, Option.bind_some]
    exact skip_body_of_closes hbytes (Item.closes_items items (.closing .done)) hspans (by omega) le_rfl
  cases item with
  | Int body closed =>
    have hp := (spans_cons_iff.mp h).1
    have hlt := h.lt (by simp [Item.serialize])
    obtain ⟨stop, rfl⟩ : ∃ n, q = n + 1 := ⟨q - 1, by omega⟩
    obtain ⟨hscan, hstop⟩ := (scan_int_iff hbytes hp).mpr ⟨body, closed, h⟩
    have hnonempty : stop ≠ p + 1 := by
      have hpos := h.pos_eq
      simp only [Item.serialize, List.length_cons, List.length_append, List.length_nil] at hpos
      rintro rfl
      obtain rfl := List.length_eq_zero_iff.mp (show body.length = 0 by omega)
      exact hne rfl
    simp only [skip_value, hp, if_true, (advance_eq_some_iff hbytes hlt.2).mpr rfl, hscan, bail_if, if_neg hstop.not_ge,
      if_neg hnonempty, Option.bind_eq_bind, Option.bind_some]
    exact (advance_eq_some_iff hbytes hstop).mpr rfl
  | Str s =>
    obtain ⟨c, rest, hs, hc, -, hi, hne⟩ := serialize_str_head s
    have hlt := h.lt (serialize_str_ne_nil s)
    have hp : Spans bytes p (c :: rest) q := hs ▸ h
    simp only [skip_value, (spans_cons_iff.mp hp).1, if_neg hi, if_neg (not_or.mpr hne), if_pos hc,
      (read_str_spans_iff hbytes hlt.2.le).mpr h, Option.bind_eq_bind, Option.bind_some, Option.pure_def]
  | List items => exact hopened (.inl rfl) (by decide) h
  | Dict items => exact hopened (.inr rfl) (by decide) h

/-- `skip_value` takes one item that is not an empty integer, unless a list or dictionary is not closed by the end of
    the input. -/
theorem item_of_skip_value (hp : p ≤ bytes.length) (h : skip_value bytes p = some q) :
    (∃ item, Spans bytes p (Item.serialize item) q ∧ item.serialize ≠ as_bytes "ie") ∨
      q = bytes.length ∧ Unclosed (bytes.drop p) := by
  have hskip := h
  simp only [skip_value, Option.bind_eq_bind, Option.bind_eq_some_iff] at h
  obtain ⟨c, hc, h⟩ := h
  obtain ⟨hlt, -⟩ := List.getElem?_eq_some_iff.mp hc
  split at h
  · rename_i hint
    simp only [Option.bind_eq_some_iff, bail_if_eq_some_iff, exists_const, advance_eq_some_iff hbytes hlt,
      exists_eq_left] at h
    obtain ⟨stop, hscan, hstop, hnonempty, hq⟩ := h
    rw [ge_iff_le, Nat.not_le] at hstop
    obtain rfl := (advance_eq_some_iff hbytes hstop).mp hq
    obtain ⟨body, closed, hspan⟩ := (scan_int_iff hbytes (hint ▸ hc)).mp ⟨hscan, hstop⟩
    refine .inl ⟨_, hspan, fun hempty => hnonempty ?_⟩
    have hpos := hspan.pos_eq
    rw [hempty] at hpos
    exact Nat.succ.inj hpos
  split at h
  · rename_i hkind
    simp only [Option.bind_eq_some_iff, advance_eq_some_iff hbytes hlt, exists_eq_left] at h
    rcases closes_of_skip_body hbytes hlt le_rfl h with hend | ⟨text, hcloses, hspans⟩
    · have hhead : (bytes.drop p).head? = some c := by rw [List.head?_drop, hc]
      by_cases hitem : ∃ item, Item.serialize item <+: bytes.drop p
      · -- the item at the front is the one that is skipped
        obtain ⟨item, hitem⟩ := hitem
        have hne : item.serialize ≠ as_bytes "ie" := by
          intro hempty
          obtain ⟨tail, htail⟩ := hitem
          rw [← htail, hempty] at hhead
          rcases hkind with rfl | rfl <;> exact absurd (Option.some.inj hhead) (by decide)
        have hspans := spans_of_prefix hp hitem
        obtain rfl := Option.some.inj (hskip.symm.trans (skip_value_of_item hbytes hspans hne))
        exact .inl ⟨item, hspans, hne⟩
      · refine .inr ⟨hend, ?_, not_exists.mp hitem⟩
        rw [hhead]
        exact hkind.imp (congrArg some) (congrArg some)
    · obtain ⟨levels, hlength, rfl⟩ := hcloses.levels
      obtain ⟨items, rfl⟩ := List.length_eq_one_iff.mp hlength
      have hspan := spans_cons_iff.mpr ⟨hc, hspans⟩
      rw [closings_cons] at hspan
      rcases hkind with rfl | rfl
      · exact .inl ⟨.List items, hspan, fun hempty => absurd (List.cons.inj hempty).1 (by decide)⟩
      · exact .inl ⟨.Dict items, hspan, fun hempty => absurd (List.cons.inj hempty).1 (by decide)⟩
  split at h
  · simp only [Option.bind_eq_some_iff, Prod.exists, Option.pure_def, Option.some.injEq,
      read_str_spans_iff hbytes hp, exists_eq_right] at h
    obtain ⟨s, hstr⟩ := h
    refine .inl ⟨.Str s, hstr, fun hempty => ?_⟩
    exact serialize_str_ne_cons (by decide) ((List.append_nil _).trans hempty)
  · cases h

end

variable {entries : Vec (Bytes × Value)} {key : Bytes} {v : Value}

theorem Value.get_dict_eq_some (h : (Value.Dict entries).get key = some v) : (key, v) ∈ entries := by
  simp only [Value.get, Option.map_eq_some_iff] at h
  obtain ⟨⟨k, w⟩, hfind, rfl⟩ := h
  have hkey : k = key := by simpa using List.find?_some hfind
  exact hkey ▸ List.mem_of_find?_eq_some hfind

theorem Value.get_dict_isSome_iff : ((Value.Dict entries).get key).isSome = true ↔ key ∈ entries.map Prod.fst := by
  simp [Value.get, List.find?_isSome]

theorem Value.serialize_entries_of_mem (h : (key, v) ∈ entries) :
    v.serialize.length ≤ (Value.serialize_entries entries).length := by
  obtain ⟨front, rest, rfl⟩ := List.append_of_mem h
  simp only [Value.serialize_entries_append, Value.serialize_entries, List.length_append]
  omega

/-- The values of an admissible dictionary are admissible. -/
theorem Value.Admissible.of_mem (hdict : (Value.Dict entries).Admissible) (h : (key, v) ∈ entries) : v.Admissible := by
  obtain ⟨⟨-, hdistinct⟩, hdepth, hnodes⟩ := hdict
  obtain ⟨front, rest, rfl⟩ := List.append_of_mem h
  rw [Value.distinctKeysEntries_append] at hdistinct
  simp only [Value.depth, Value.depth_entries_append, Value.depth_entries] at hdepth
  simp only [Value.nodes, Value.nodes_entries_append, Value.nodes_entries] at hnodes
  exact ⟨hdistinct.2.1, by omega, by omega⟩

variable {bytes : Bytes}

/-- The scan over serialized entries stops at the first one under `key` and returns the bytes of
    its value. -/
theorem extract_loop_at (entries : Vec (Bytes × Value)) (key : Bytes) {p q fuel : Nat}
    (hbytes : bytes.length ≤ MAX_TORRENT_METADATA_BYTES)
    (h : Spans bytes p (Value.serialize_entries entries ++ [b 'e']) q) (hfuel : bytes.length - p ≤ fuel) :
    extract_loop fuel bytes key p = ((Value.Dict entries).get key).map Value.serialize := by
  have hlt := h.lt (by simp)
  obtain ⟨fuel, rfl⟩ : ∃ n, fuel = n + 1 := ⟨fuel - 1, by omega⟩
  induction entries generalizing p fuel with
  | nil => simp [extract_loop, (spans_cons_iff.mp h).1, Value.get]
  | cons entry entries ih =>
    obtain ⟨k, v⟩ := entry
    simp only [Value.serialize_entries, List.append_assoc] at h
    obtain ⟨start, hkey, h⟩ := spans_append_iff.mp h
    obtain ⟨stop, hval, hrest⟩ := spans_append_iff.mp h
    obtain ⟨c, rest, hs, -, hce, -⟩ := serialize_str_head k
    have hp := (spans_cons_iff.mp (hs ▸ hkey)).1
    have hskip := skip_value_of_item hbytes (v.serialize_to_item.symm ▸ hval) v.serialize_to_item_ne
    simp only [extract_loop, hp, if_neg hce, (read_str_spans_iff hbytes hlt.2.le).mpr hkey, Option.bind_eq_bind,
      Option.bind_some, hskip, hval.slice]
    by_cases hk : k = key
    · simp [hk, Value.get]
    · have hnext := hkey.lt (serialize_str_ne_nil k)
      have hle := hval.pos_eq
      have hlast := hrest.lt (by simp)
      obtain ⟨fuel, rfl⟩ : ∃ n, fuel = n + 1 := ⟨fuel - 1, by omega⟩
      rw [if_neg hk, ih hrest hlast fuel (by omega)]
      simp [Value.get, hk]

theorem extract_value_bytes_of_decode (h : decode bytes = .ok (.Dict entries)) (key : Bytes) :
    extract_value_bytes bytes key = ((Value.Dict entries).get key).map Value.serialize := by
  obtain ⟨hserialize, hadmissible, hbytes⟩ := decode_eq_ok_iff.mp h
  rw [Value.serialize] at hserialize
  have hspans : Spans bytes 1 (Value.serialize_entries entries ++ [b 'e']) bytes.length := by
    refine ⟨?_, ?_, le_rfl⟩
    · rw [List.drop_length, List.append_nil, hserialize]
      rfl
    · rw [hserialize, List.length_cons, Nat.add_comm]
  have hloop := extract_loop_at entries key hbytes hspans le_rfl
  have hadd : checked_add 0 1 = some 1 := rfl
  have hhead : bytes.head? = some (b 'd') := by rw [hserialize]; rfl
  simp only [extract_value_bytes, bail_if, if_neg (Nat.not_lt.mpr hbytes), hhead, hadd, Option.bind_eq_bind,
    Option.bind_some, gt_iff_lt, ne_eq, not_true_eq_false, if_false, hloop]

/-- The slice under a key decodes to the value under it. -/
theorem decode_extracted {slice : Bytes} (h : decode bytes = .ok (.Dict entries))
    (hslice : extract_value_bytes bytes key = some slice) :
    ∃ v, (Value.Dict entries).get key = some v ∧ decode slice = .ok v := by
  rw [extract_value_bytes_of_decode h key] at hslice
  obtain ⟨v, hv, rfl⟩ := Option.map_eq_some_iff.mp hslice
  obtain ⟨hserialize, hadmissible, hbytes⟩ := decode_eq_ok_iff.mp h
  have hmem := Value.get_dict_eq_some hv
  have hlen := Value.serialize_entries_of_mem hmem
  rw [hserialize] at hbytes
  simp only [Value.serialize, List.length_cons, List.length_append] at hbytes
  exact ⟨v, hv, decode_eq_ok_iff.mpr ⟨rfl, hadmissible.of_mem hmem, by omega⟩⟩

/-- On a document that decodes to a dictionary the raw scanner agrees with the decoder. It finds
    exactly the keys of the dictionary, and the slice it returns decodes to the value under the key,
    so that the bytes hashed for the info-hash are those of the parsed `info` dictionary. -/
theorem extract_value_bytes_agrees {bytes : Bytes} {entries : Vec (Bytes × Value)}
    (h : decode bytes = .ok (.Dict entries)) (key : Bytes) :
    ((∃ slice, extract_value_bytes bytes key = some slice) ↔ key ∈ entries.map Prod.fst) ∧
    ∀ slice, extract_value_bytes bytes key = some slice →
      ∃ v, (Value.Dict entries).get key = some v ∧ decode slice = .ok v := by
  rw [extract_value_bytes_of_decode h key]
  constructor
  · rw [← Value.get_dict_isSome_iff, Option.isSome_iff_exists]
    constructor
    · rintro ⟨slice, hslice⟩
      obtain ⟨v, hv, -⟩ := Option.map_eq_some_iff.mp hslice
      exact ⟨v, hv⟩
    · rintro ⟨v, hv⟩
      exact ⟨v.serialize, by rw [hv, Option.map_some]⟩
  · intro slice hslice
    exact decode_extracted h ((extract_value_bytes_of_decode h key).trans hslice)

theorem extract_value_bytes_agrees_info :
    ∃ v, (Value.Dict [(as_bytes "announce", .Str (as_bytes "x")),
        (as_bytes "info", .Dict [(as_bytes "a", .List [.Int 1])])]).get (as_bytes "info") = some v ∧
      decode (as_bytes "d1:ali1eee") = .ok v := by
  have hdecode : decode (as_bytes "d8:announce1:x4:infod1:ali1eeee") =
      .ok (.Dict [(as_bytes "announce", .Str (as_bytes "x")),
        (as_bytes "info", .Dict [(as_bytes "a", .List [.Int 1])])]) := by decide +kernel
  exact (extract_value_bytes_agrees hdecode (as_bytes "info")).2 _ (by decide +kernel)

variable {p : Nat}

/-- Where the slice stands: behind its key, up to the cursor that `skip_value` ends at. -/
theorem extract_loop_spans {key slice : Bytes} {fuel : Nat} (hbytes : bytes.length ≤ MAX_TORRENT_METADATA_BYTES)
    (hp : p ≤ bytes.length) (h : extract_loop fuel bytes key p = some slice) :
    ∃ front start stop, Spans bytes front (serialize_str key) start ∧ skip_value bytes start = some stop ∧
      slice = (bytes.take stop).drop start := by
  induction fuel generalizing p with
  | zero => cases h
  | succ fuel ih =>
    rw [extract_loop] at h
    cases hc : bytes[p]? with
    | none => rw [hc] at h; cases h
    | some c =>
      simp only [hc] at h
      by_cases he : c = b 'e'
      · rw [if_pos he] at h; cases h
      · simp only [if_neg he, Option.bind_eq_bind, Option.bind_eq_some_iff, Prod.exists] at h
        obtain ⟨k, start, hread, stop, hskip, h⟩ := h
        have hkey := (read_str_spans_iff hbytes hp).mp hread
        by_cases hk : k = key
        · rw [if_pos hk] at h
          exact ⟨p, start, stop, hk ▸ hkey, hskip, (Option.some.inj h).symm⟩
        · rw [if_neg hk] at h
          refine ih ?_ h
          rcases item_of_skip_value hbytes hkey.pos_le hskip with ⟨item, hspans, -⟩ | ⟨hend, -⟩
          · exact hspans.pos_le
          · exact hend.le

theorem decode_slice_of_decode {key slice : Bytes} {document : Value} (h : decode bytes = .ok document)
    (hfirst : bytes.head? = some (b 'd')) (hslice : extract_value_bytes bytes key = some slice) :
    ∃ v, decode slice = .ok v := by
  rw [(decode_eq_ok_iff.mp h).1] at hfirst
  cases document with
  | Int n => exact absurd (Option.some.inj hfirst) (by decide)
  | Str s =>
    obtain ⟨c, tail, hs, -, -, -, -, hc⟩ := serialize_str_head s
    rw [Value.serialize, hs] at hfirst
    exact absurd (Option.some.inj hfirst) hc
  | List items => exact absurd (Option.some.inj hfirst) (by decide)
  | Dict entries =>
    obtain ⟨v, -, hdecode⟩ := decode_extracted h hslice
    exact ⟨v, hdecode⟩

/-- The raw slice is one item whole, and the decoder takes it if it is one of its values; of a document that decodes it
    always is. The one exception is a list or dictionary that the input does not close. -/
theorem extract_value_bytes_item {bytes key slice : Bytes} (h : extract_value_bytes bytes key = some slice) :
    ∃ front rest, bytes = front ++ (serialize_str key ++ (slice ++ rest)) ∧
      ((∃ item, slice = Item.serialize item ∧ slice ≠ as_bytes "ie" ∧
          ∀ v, decode_prefix slice = .ok (v, slice.length) ↔ item = v.to_item ∧ v.Admissible) ∨
        rest = [] ∧ Unclosed slice) ∧
      ∀ document, decode bytes = .ok document → ∃ v, decode_prefix slice = .ok (v, slice.length) := by
  have hslice := h
  simp only [extract_value_bytes, Option.bind_eq_bind, Option.bind_eq_some_iff, bail_if_eq_some_iff, exists_const,
    checked_add_eq_some_iff, ne_eq, not_not] at h
  obtain ⟨hbytes, _, hfirst, rfl, _, ⟨-, rfl⟩, h⟩ := h
  rw [gt_iff_lt, Nat.not_lt] at hbytes
  have hpos : 0 + 1 ≤ bytes.length := List.length_pos_of_ne_nil (by rintro rfl; cases hfirst)
  obtain ⟨front, start, stop, hkey, hskip, rfl⟩ := extract_loop_spans hbytes hpos h
  have hdecoded (document : Value) (hdecode : decode bytes = .ok document) :
      ∃ v, decode_prefix ((bytes.take stop).drop start) = .ok (v, ((bytes.take stop).drop start).length) := by
    obtain ⟨v, hv⟩ := decode_slice_of_decode hdecode hfirst hslice
    obtain ⟨hserialize, hadmissible, hsize⟩ := decode_eq_ok_iff.mp hv
    exact ⟨v, decode_prefix_eq_ok_iff.mpr ⟨hsize, hadmissible, hserialize ▸ List.prefix_rfl, by rw [← hserialize]⟩⟩
  rcases item_of_skip_value hbytes hkey.pos_le hskip with ⟨item, hspans, hnonempty⟩ | ⟨rfl, hunclosed⟩
  · rw [hspans.slice] at hdecoded ⊢
    refine ⟨bytes.take front, bytes.drop stop, ?_, .inl ⟨item, rfl, hnonempty, fun v => ?_⟩, hdecoded⟩
    · rw [← List.append_assoc (serialize_str key)]
      exact (spans_append_iff.mpr ⟨_, hkey, hspans⟩).split
    · refine decode_prefix_item item ?_ v
      have hpos := hspans.pos_eq
      have hle := hspans.pos_le
      omega
  · rw [List.take_length] at hdecoded ⊢
    refine ⟨bytes.take front, [], ?_, .inr ⟨rfl, hunclosed⟩, hdecoded⟩
    rw [List.append_nil]
    exact hkey.split

/-- The list reaches the end of the input, and closes there. -/
theorem extract_value_bytes_item_list :
    ∃ item, as_bytes "li1ee" = Item.serialize item ∧ as_bytes "li1ee" ≠ as_bytes "ie" ∧
      ∀ v, decode_prefix (as_bytes "li1ee") = .ok (v, (as_bytes "li1ee").length) ↔ item = v.to_item ∧ v.Admissible := by
  have hslice : extract_value_bytes (as_bytes "d4:infoli1ee") (as_bytes "info") = some (as_bytes "li1ee") := by
    decide +kernel
  obtain ⟨front, rest, -, hitem | ⟨-, -, hunclosed⟩, -⟩ := extract_value_bytes_item hslice
  · exact hitem
  · exact absurd (show Item.serialize (.List [.Int (as_bytes "1") (by decide)]) <+: _ by decide) (hunclosed _)

/-- The scanner returns an integer with a leading zero, and a list that is never closed. The decoder takes neither. -/
theorem slice_not_decoded :
    extract_value_bytes (as_bytes "d4:infoi01ee") (as_bytes "info") = some (as_bytes "i01e") ∧
    decode_prefix (as_bytes "i01e") = .error (.Bencode "integer has leading zero") ∧
    extract_value_bytes (as_bytes "d4:infol") (as_bytes "info") = some (as_bytes "l") ∧
    decode_prefix (as_bytes "l") = .error (.Bencode "unexpected end of input") := by
  decide +kernel

end swarmotter.bencode
