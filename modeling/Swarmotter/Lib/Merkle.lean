import Mathlib.Tactic.Ring
import Mathlib.Data.Nat.Bitwise

namespace merkle

section
variable {α : Type} (combine : α → α → α)

/-- The root of the perfect binary tree of depth `d` whose leaves are `leaf 0`, `leaf 1`, … -/
def tree : Nat → (Nat → α) → α
  | 0, leaf => leaf 0
  | d + 1, leaf => combine (tree d leaf) (tree d fun i => leaf (2 ^ d + i))

/-- The root of a subtree of depth `d` whose leaves are all `zero`. -/
def zero_subtree (zero : α) : Nat → α
  | 0 => zero
  | d + 1 => combine (zero_subtree zero d) (zero_subtree zero d)

/-- One level up: adjacent nodes are combined and an odd last node is dropped. -/
def pair_up : List α → List α
  | left :: right :: rest => combine left right :: pair_up rest
  | [_] => []
  | [] => []

/-- Level after level until at most one node is left, in at most `fuel` rounds. -/
def reduce : Nat → List α → List α
  | 0, level => level
  | fuel + 1, level => if level.length > 1 then reduce fuel (pair_up combine level) else level

/-- The level and all levels above it, up to one with at most one node. -/
def levels : Nat → List α → List (List α)
  | 0, level => [level]
  | fuel + 1, level => if level.length > 1 then level :: levels fuel (pair_up combine level) else [level]

theorem tree_congr {d : Nat} {f g : Nat → α} (h : ∀ i < 2 ^ d, f i = g i) : tree combine d f = tree combine d g := by
  induction d generalizing f g with
  | zero => exact h 0 (by simp)
  | succ d ih =>
    have hsize : 2 ^ (d + 1) = 2 ^ d + 2 ^ d := by rw [Nat.pow_succ]; omega
    have hleft : tree combine d f = tree combine d g := ih fun i hi => h i (by omega)
    have hright : tree combine d (fun i => f (2 ^ d + i)) = tree combine d (fun i => g (2 ^ d + i)) :=
      ih fun i hi => h (2 ^ d + i) (by omega)
    rw [tree, tree, hleft, hright]

/-- A tree is a tree over the roots of its subtrees of depth `d`. -/
theorem tree_add (d k : Nat) (leaf : Nat → α) :
    tree combine (d + k) leaf = tree combine k fun j => tree combine d fun i => leaf (j * 2 ^ d + i) := by
  induction k generalizing leaf with
  | zero => simp [tree]
  | succ k ih =>
    have hright : (fun j => tree combine d fun i => leaf (2 ^ (d + k) + (j * 2 ^ d + i))) =
        fun j => tree combine d fun i => leaf ((2 ^ k + j) * 2 ^ d + i) := by
      funext j
      refine tree_congr combine fun i _ => congrArg leaf ?_
      ring
    rw [← Nat.add_assoc, tree, tree, ih, ih, hright]

theorem tree_const (zero : α) (d : Nat) : tree combine d (fun _ => zero) = zero_subtree combine zero d := by
  induction d with
  | zero => rfl
  | succ d ih => rw [tree, zero_subtree, ih]

theorem length_pair_up (level : List α) : (pair_up combine level).length = level.length / 2 := by
  induction level using pair_up.induct with
  | case1 left right rest ih =>
    simp only [pair_up, List.length_cons, ih]
    omega
  | case2 last => simp [pair_up]
  | case3 => simp [pair_up]

theorem getD_pair_up (zero : α) (level : List α) {i : Nat} (hi : 2 * i + 1 < level.length) :
    (pair_up combine level).getD i zero = combine (level.getD (2 * i) zero) (level.getD (2 * i + 1) zero) := by
  induction level using pair_up.induct generalizing i with
  | case1 left right rest ih =>
    cases i with
    | zero => rfl
    | succ i =>
      have hnext : 2 * i + 1 < rest.length := by
        simp only [List.length_cons] at hi
        omega
      simpa [pair_up, Nat.mul_add] using ih hnext
  | case2 last => simp at hi
  | case3 => simp at hi

/-- Folding a level of `2 ^ d` nodes ends with the root of their tree. -/
theorem reduce_eq_tree (zero : α) {d fuel : Nat} {level : List α} (hlevel : level.length = 2 ^ d)
    (hfuel : d ≤ fuel) : reduce combine fuel level = [tree combine d fun i => level.getD i zero] := by
  induction d generalizing level fuel with
  | zero =>
    obtain ⟨root, rfl⟩ := List.length_eq_one_iff.mp hlevel
    cases fuel <;> rfl
  | succ d ih =>
    have hsize : 2 ^ (d + 1) = 2 * 2 ^ d := by rw [Nat.pow_succ]; omega
    have hpos : 0 < 2 ^ d := Nat.two_pow_pos d
    obtain ⟨fuel, rfl⟩ : ∃ n, fuel = n + 1 := ⟨fuel - 1, by omega⟩
    have hup : (pair_up combine level).length = 2 ^ d := by rw [length_pair_up]; omega
    have hroot : tree combine d (fun i => (pair_up combine level).getD i zero) =
        tree combine (d + 1) fun i => level.getD i zero := by
      rw [Nat.add_comm d 1, tree_add combine 1 d]
      refine tree_congr combine fun i hi => ?_
      rw [getD_pair_up combine zero level (by omega)]
      simp [tree, Nat.mul_comm]
    rw [reduce, if_pos (by omega), ih hup (by omega), hroot]

theorem head?_levels (fuel : Nat) (level : List α) : (levels combine fuel level).head? = some level := by
  cases fuel with
  | zero => rfl
  | succ fuel =>
    rw [levels]
    split <;> rfl

/-- The last level is what the level is folded to. -/
theorem getLast?_levels (fuel : Nat) (level : List α) :
    (levels combine fuel level).getLast? = some (reduce combine fuel level) := by
  induction fuel generalizing level with
  | zero => rfl
  | succ fuel ih =>
    rw [levels, reduce]
    split
    · rw [List.getLast?_cons, ih]
      rfl
    · rfl

end

section
variable {α : Type} (combine : α → α → α)

/-- The node `height` levels above the leaves, at its place from the left. -/
def node (leaf : Nat → α) (height place : Nat) : α :=
  tree combine height fun i => leaf (place * 2 ^ height + i)

/-- The node that a proof leads to: the running node stands left or right of each sibling by the bits of its
    place. -/
def climb : Nat → α → List α → α
  | _, running, [] => running
  | place, running, sibling :: rest =>
    climb (place / 2) (if place % 2 = 0 then combine running sibling else combine sibling running) rest

/-- The siblings of the `count` nodes above the leaf `start`, from the height `height` on. -/
def siblings (leaf : Nat → α) (start height count : Nat) : List α :=
  (List.range' height count).map fun height => node combine leaf height ((start / 2 ^ height) ^^^ 1)

theorem siblings_succ (leaf : Nat → α) (start height count : Nat) :
    siblings combine leaf start height (count + 1) =
      node combine leaf height ((start / 2 ^ height) ^^^ 1) :: siblings combine leaf start (height + 1) count := rfl

theorem node_succ (leaf : Nat → α) (height place : Nat) :
    node combine leaf (height + 1) place =
      combine (node combine leaf height (2 * place)) (node combine leaf height (2 * place + 1)) := by
  have hleft : (fun i => leaf (place * 2 ^ (height + 1) + i)) = fun i => leaf (2 * place * 2 ^ height + i) := by
    funext i
    congr 1
    ring
  have hright : (fun i => leaf (place * 2 ^ (height + 1) + (2 ^ height + i))) =
      fun i => leaf ((2 * place + 1) * 2 ^ height + i) := by
    funext i
    congr 1
    ring
  rw [node, tree, hright, hleft, node, node]

/-- The parent of a node, from the node and its sibling. -/
theorem node_parent (leaf : Nat → α) (height place : Nat) :
    node combine leaf (height + 1) (place / 2) =
      if place % 2 = 0 then combine (node combine leaf height place) (node combine leaf height (place ^^^ 1))
      else combine (node combine leaf height (place ^^^ 1)) (node combine leaf height place) := by
  rw [node_succ]
  by_cases heven : place % 2 = 0
  · rw [if_pos heven, Nat.xor_one_of_even (Nat.even_iff.mpr heven), show 2 * (place / 2) = place by omega]
  · have hodd : place % 2 = 1 := by omega
    rw [if_neg heven, Nat.xor_one_of_odd (Nat.odd_iff.mpr hodd), show 2 * (place / 2) = place - 1 by omega,
      show place - 1 + 1 = place by omega]

/-- From a node and the siblings above it the proof leads to the node `count` levels higher. -/
theorem climb_siblings (leaf : Nat → α) (start height count : Nat) :
    climb combine (start / 2 ^ height) (node combine leaf height (start / 2 ^ height))
      (siblings combine leaf start height count) =
    node combine leaf (height + count) (start / 2 ^ (height + count)) := by
  induction count generalizing height with
  | zero => rfl
  | succ count ih =>
    have hplace : start / 2 ^ height / 2 = start / 2 ^ (height + 1) := by rw [Nat.div_div_eq_div_mul, Nat.pow_succ]
    have hnext := ih (height + 1)
    rw [siblings_succ, climb, ← node_parent, hplace, hnext, show height + 1 + count = height + (count + 1) by omega]

/-- A node over the first nodes is a node over the leaves, one level lower. -/
theorem node_node_one (leaf : Nat → α) (height place : Nat) :
    node combine (node combine leaf 1) height place = node combine leaf (height + 1) place := by
  rw [node, node, Nat.add_comm height 1, tree_add]
  refine tree_congr combine fun j _ => ?_
  refine tree_congr combine fun i _ => congrArg leaf ?_
  ring

theorem node_congr {leaf leaf' : Nat → α} {d height place : Nat} (hheight : height ≤ d)
    (hplace : place < 2 ^ (d - height)) (h : ∀ i < 2 ^ d, leaf i = leaf' i) :
    node combine leaf height place = node combine leaf' height place := by
  refine tree_congr combine fun i hi => h _ ?_
  calc place * 2 ^ height + i
    _ < place * 2 ^ height + 2 ^ height := Nat.add_lt_add_left hi _
    _ = (place + 1) * 2 ^ height := by ring
    _ ≤ 2 ^ (d - height) * 2 ^ height := Nat.mul_le_mul_right _ hplace
    _ = 2 ^ d := by rw [← Nat.pow_add, Nat.sub_add_cancel hheight]

theorem map_node_zero (zero : α) {count : Nat} {level : List α} (hlevel : level.length = count) :
    (List.range count).map (node combine (fun i => level.getD i zero) 0) = level := by
  refine List.ext_getElem (by simp [hlevel]) fun i _ hi => ?_
  simp [node, tree, hi]

/-- The levels over `2 ^ d` leaves, node by node. -/
theorem levels_eq (zero : α) {d fuel : Nat} {level : List α} (hlevel : level.length = 2 ^ d) (hfuel : d ≤ fuel) :
    levels combine fuel level = (List.range (d + 1)).map fun height =>
      (List.range (2 ^ (d - height))).map (node combine (fun i => level.getD i zero) height) := by
  induction d generalizing level fuel with
  | zero =>
    have hbottom := map_node_zero combine zero hlevel
    cases fuel with
    | zero => simpa [levels] using hbottom.symm
    | succ fuel => simpa [levels, hlevel] using hbottom.symm
  | succ d ih =>
    have hsize : 2 ^ (d + 1) = 2 * 2 ^ d := by rw [Nat.pow_succ]; omega
    have hpos : 0 < 2 ^ d := Nat.two_pow_pos d
    obtain ⟨fuel, rfl⟩ : ∃ n, fuel = n + 1 := ⟨fuel - 1, by omega⟩
    have hup : (pair_up combine level).length = 2 ^ d := by rw [length_pair_up]; omega
    have hnode : ∀ i < 2 ^ d, (pair_up combine level).getD i zero = node combine (fun i => level.getD i zero) 1 i := by
      intro i hi
      rw [getD_pair_up combine zero level (by omega), node_succ]
      simp [node, tree]
    rw [levels, if_pos (by omega), ih hup (by omega), @List.range_succ_eq_map (d + 1), List.map_cons, List.map_map,
      Nat.sub_zero, map_node_zero combine zero hlevel]
    refine congrArg (level :: ·) (List.map_congr_left fun height hheight => ?_)
    rw [Function.comp_apply, Nat.succ_eq_add_one, Nat.add_sub_add_right]
    refine List.map_congr_left fun place hplace => ?_
    rw [List.mem_range] at hheight hplace
    rw [node_congr combine (by omega : height ≤ d) hplace hnode, node_node_one]

end

end merkle
