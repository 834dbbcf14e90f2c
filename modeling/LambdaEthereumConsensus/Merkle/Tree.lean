import Mathlib

/-
  LambdaEthereumConsensus.Merkle.Tree — binary Merkle trees over a list of leaves, for any
  node function.

  `root node zero d leaves` is the root of the complete binary tree of depth `d` whose
  leaves are `leaves` followed by as many `zero`s as fill its `2 ^ d` places: the left half
  of the places is the left subtree. Leaves past the last place are not part of it.

  `layer node pad` is one level of the bottom-up computation: neighbours are hashed in
  pairs, a last leaf without a neighbour with `pad`.

  A tree of no leaves has the root of zeros (`root_nil`), zero leaves written out change
  nothing (`root_append_replicate`), and the root over leaves packed to the left is the node
  of its halves' roots (`root_succ_append`).

  `branch node zero d leaves index` is the proof of the leaf at `index`: the roots beside its
  path, the lowest first, the bits of `index` choosing the halves from the top. `climb` is its
  check, folding a leaf up with the siblings, the side at level `l` chosen by bit `l`; it
  gives the root back from the leaf and its branch (`climb_branch`).
-/

namespace Merkle

variable {α : Type} (node : α → α → α)

/-- The root of the depth-`d` tree over `leaves`, padded with `zero` leaves. -/
def root (zero : α) : Nat → List α → α
  | 0, leaves => leaves.headD zero
  | d + 1, leaves => node (root zero d (leaves.take (2 ^ d))) (root zero d (leaves.drop (2 ^ d)))

/-- The root of a tree of `zero` leaves only. -/
def zeroRoot (zero : α) : Nat → α
  | 0 => zero
  | d + 1 => node (zeroRoot zero d) (zeroRoot zero d)

/-- One level up: neighbours in pairs, the last one alone with `pad`. -/
def layer (pad : α) : List α → List α
  | [] => []
  | [a] => [node a pad]
  | a :: b :: rest => node a b :: layer pad rest

/-- A tree of no leaves is a tree of zeros. -/
theorem root_nil (zero : α) (d : Nat) : root node zero d [] = zeroRoot node zero d := by
  induction d with
  | zero => rfl
  | succ d ih => rw [root, List.take_nil, List.drop_nil, ih, zeroRoot]

/-- The root one level up over leaves packed to the left: the left half's root beside the right
    half's, the right half empty unless the left one is full. -/
theorem root_succ_append (zero : α) (d : Nat) {lefts rights : List α} (hleft : lefts.length ≤ 2 ^ d)
    (hpacked : rights ≠ [] → lefts.length = 2 ^ d) :
    root node zero (d + 1) (lefts ++ rights) = node (root node zero d lefts) (root node zero d rights) := by
  rw [root]
  by_cases hrights : rights = []
  · rw [hrights, List.append_nil, List.take_of_length_le hleft, List.drop_eq_nil_of_le hleft]
  · rw [List.take_left' (hpacked hrights), List.drop_left' (hpacked hrights)]

/-- Zero leaves after the leaves leave the root as it is: the tree pads with them anyway. -/
theorem root_append_replicate (zero : α) :
    ∀ (d : Nat) (leaves : List α) (k : Nat), root node zero d (leaves ++ List.replicate k zero) = root node zero d leaves
  | 0, [], k => by cases k <;> rfl
  | 0, _ :: _, _ => rfl
  | d + 1, leaves, k => by
    rw [root, root, List.take_append, List.drop_append, List.take_replicate, List.drop_replicate,
      root_append_replicate zero d, root_append_replicate zero d]

/-! ## Layers -/

@[simp]
theorem length_layer (pad : α) : ∀ leaves : List α, (layer node pad leaves).length = (leaves.length + 1) / 2
  | [] => by simp [layer]
  | [_] => by simp [layer]
  | _ :: _ :: rest => by
    simp only [layer, List.length_cons, length_layer pad rest]
    omega

theorem layer_ne_nil (pad : α) {leaves : List α} (hne : leaves ≠ []) : layer node pad leaves ≠ [] := by
  intro hnil
  have hlength := length_layer node pad leaves
  rw [hnil, List.length_nil] at hlength
  have := List.length_pos_of_ne_nil hne
  omega

/-- The node at place `j` of the layer above is the node of the leaves at places `2 * j` and
    `2 * j + 1`, a place past the end standing for `pad`. -/
theorem getD_layer (pad : α) : ∀ (leaves : List α) (j : Nat),
    (layer node pad leaves).getD j (node pad pad) = node (leaves.getD (2 * j) pad) (leaves.getD (2 * j + 1) pad)
  | [], j => by simp [layer]
  | [_], 0 => rfl
  | [_], j + 1 => by simp [layer]
  | _ :: _ :: _, 0 => rfl
  | a :: b :: rest, j + 1 => by
    have htwo : 2 * (j + 1) = 2 * j + 1 + 1 := by ring
    rw [layer, List.getD_cons_succ, getD_layer pad rest j, htwo, List.getD_cons_succ, List.getD_cons_succ,
      List.getD_cons_succ, List.getD_cons_succ]

/-- The layer above, node by node: the node of places `2 * t` and `2 * t + 1`. -/
theorem layer_eq_map_range (pad : α) : ∀ leaves : List α,
    layer node pad leaves =
      (List.range ((leaves.length + 1) / 2)).map fun t => node (leaves.getD (2 * t) pad) (leaves.getD (2 * t + 1) pad)
  | [] => by simp [layer]
  | [_] => by simp [layer]
  | a :: b :: rest => by
    have hcount : (rest.length + 1 + 1 + 1) / 2 = (rest.length + 1) / 2 + 1 := by omega
    rw [layer, layer_eq_map_range pad rest, List.length_cons, List.length_cons, hcount, List.range_succ_eq_map,
      List.map_cons, List.map_map]
    -- the places past the first pair are the places of the rest, two further on
    congr 1

/-- The even places below `n`: the doubles of the numbers below `(n + 1) / 2`. -/
theorem filter_range_even (n : Nat) : (List.range n).filter (· % 2 = 0) = (List.range ((n + 1) / 2)).map (2 * ·) := by
  induction n with
  | zero => rfl
  | succ n ih =>
    rw [List.range_succ, List.filter_append, ih]
    rcases Nat.even_or_odd n with ⟨k, rfl⟩ | ⟨k, rfl⟩
    · have hhalf : (k + k + 1) / 2 = k := by omega
      have hnext : (k + k + 1 + 1) / 2 = k + 1 := by omega
      have heven : (k + k) % 2 = 0 := by omega
      rw [hnext, hhalf, List.range_succ, List.map_append]
      simp [List.filter, heven, two_mul]
    · have hnext : (2 * k + 1 + 1 + 1) / 2 = (2 * k + 1 + 1) / 2 := by omega
      rw [hnext]
      simp

/-- The layer above as the nodes at the even places: the node of each even place and the next. -/
theorem layer_eq_map_even (pad : α) (leaves : List α) :
    layer node pad leaves =
      ((List.range leaves.length).filter (· % 2 = 0)).map fun j => node (leaves.getD j pad) (leaves.getD (j + 1) pad) := by
  rw [layer_eq_map_range, filter_range_even, List.map_map]
  rfl

/-- The first `n` nodes of the layer above are the layer above the first `2 * n` leaves. -/
theorem take_layer (pad : α) : ∀ (n : Nat) (leaves : List α),
    (layer node pad leaves).take n = layer node pad (leaves.take (2 * n))
  | 0, _ => by simp [layer]
  | _ + 1, [] => by simp [layer]
  | n + 1, [_] => by simp [layer, show 2 * (n + 1) = 2 * n + 1 + 1 by ring]
  | n + 1, a :: b :: rest => by
    have htwo : 2 * (n + 1) = 2 * n + 1 + 1 := by ring
    rw [layer, List.take_succ_cons, take_layer pad n rest, htwo, List.take_succ_cons, List.take_succ_cons, layer]

/-- Past its first `n` nodes, the layer above is the layer above the leaves past the first
    `2 * n`. -/
theorem drop_layer (pad : α) : ∀ (n : Nat) (leaves : List α),
    (layer node pad leaves).drop n = layer node pad (leaves.drop (2 * n))
  | 0, _ => rfl
  | _ + 1, [] => by simp [layer]
  | n + 1, [_] => by simp [layer, show 2 * (n + 1) = 2 * n + 1 + 1 by ring]
  | n + 1, a :: b :: rest => by
    have htwo : 2 * (n + 1) = 2 * n + 1 + 1 := by ring
    rw [layer, List.drop_succ_cons, drop_layer pad n rest, htwo, List.drop_succ_cons, List.drop_succ_cons]

/-- The root over the leaves is the root, one level lower, over the layer above them, the zero
    leaf hashed with itself standing for the zeros there. Induction on the height: the halves of
    the layer are the layers of the halves. -/
theorem root_succ_layer (zero : α) : ∀ (d : Nat) (leaves : List α),
    root node zero (d + 1) leaves = root node (node zero zero) d (layer node zero leaves)
  | 0, [] => rfl
  | 0, [_] => rfl
  | 0, _ :: _ :: _ => rfl
  | d + 1, leaves => by
    have hpow : 2 ^ (d + 1) = 2 * 2 ^ d := by ring
    rw [root, root_succ_layer zero d, root_succ_layer zero d]
    conv_rhs => rw [root]
    rw [take_layer, drop_layer, hpow]

/-! ## Branches -/

/-- The roots beside the path from the leaf at `index` up to the root, the lowest first: at
    height `d + 1` bit `d` of `index` picks the half the path goes down, and the other half's
    root is its sibling there. Bits of `index` from `d` up are not read. -/
def branch (zero : α) : Nat → List α → Nat → List α
  | 0, _, _ => []
  | d + 1, leaves, index =>
    if index / 2 ^ d % 2 = 1 then branch zero d (leaves.drop (2 ^ d)) index ++ [root node zero d (leaves.take (2 ^ d))]
    else branch zero d (leaves.take (2 ^ d)) index ++ [root node zero d (leaves.drop (2 ^ d))]

/-- The root climbed back to from a leaf and the roots beside its path, the lowest first: at
    level `l` the path comes in from the right when bit `l` of `index` is set. -/
def climb (leaf : α) (siblings : List α) (index : Nat) : α :=
  siblings.zipIdx.foldl (fun value (sibling, level) =>
    if index / 2 ^ level % 2 = 1 then node sibling value else node value sibling) leaf

@[simp]
theorem length_branch (zero : α) : ∀ (d : Nat) (leaves : List α) (index : Nat), (branch node zero d leaves index).length = d
  | 0, _, _ => rfl
  | d + 1, leaves, index => by
    rw [branch]
    split_ifs <;> simp [length_branch zero d]

/-- One more sibling on top: one more level of the climb, on the side bit `siblings.length` of
    `index` picks. -/
theorem climb_append_singleton (leaf sibling : α) (siblings : List α) (index : Nat) :
    climb node leaf (siblings ++ [sibling]) index =
      if index / 2 ^ siblings.length % 2 = 1 then node sibling (climb node leaf siblings index)
      else node (climb node leaf siblings index) sibling := by
  simp [climb, List.zipIdx_append, List.foldl_append]

/-- The climb over siblings numbered from `k + m` reads the bits of `index` from `k` on. -/
theorem foldl_zipIdx_climb (index k : Nat) : ∀ (siblings : List α) (m : Nat) (value : α),
    (siblings.zipIdx (k + m)).foldl (fun value (sibling, level) =>
        if index / 2 ^ level % 2 = 1 then node sibling value else node value sibling) value =
      (siblings.zipIdx m).foldl (fun value (sibling, level) =>
        if index / 2 ^ k / 2 ^ level % 2 = 1 then node sibling value else node value sibling) value
  | [], _, _ => rfl
  | sibling :: siblings, m, value => by
    have hbit : index / 2 ^ (k + m) = index / 2 ^ k / 2 ^ m := by rw [Nat.pow_add, Nat.div_div_eq_div_mul]
    simp only [List.zipIdx_cons, List.foldl_cons, hbit]
    exact foldl_zipIdx_climb index k siblings (m + 1) _

/-- Climbing past some siblings, then past the others with the index's bits above them. -/
theorem climb_append (leaf : α) (siblings siblings' : List α) (index : Nat) :
    climb node leaf (siblings ++ siblings') index =
      climb node (climb node leaf siblings index) siblings' (index / 2 ^ siblings.length) := by
  have hshift := foldl_zipIdx_climb node index siblings.length siblings' 0
  rw [Nat.add_zero] at hshift
  rw [climb, List.zipIdx_append, List.foldl_append, Nat.zero_add, hshift]
  rfl

theorem climb_cons (leaf sibling : α) (siblings : List α) (index : Nat) :
    climb node leaf (sibling :: siblings) index =
      climb node (if index % 2 = 1 then node sibling leaf else node leaf sibling) siblings (index / 2) := by
  rw [← List.singleton_append, climb_append]
  simp [climb]

/-- A climb reads the bits of the index below the number of siblings only. -/
theorem climb_mod (leaf : α) (siblings : List α) (index : Nat) :
    climb node leaf siblings index = climb node leaf siblings (index % 2 ^ siblings.length) := by
  induction siblings generalizing leaf index with
  | nil => rfl
  | cons sibling siblings ih =>
    have hpow : 2 ^ (siblings.length + 1) = 2 * 2 ^ siblings.length := by ring
    have hlow : index % 2 ^ (siblings.length + 1) % 2 = index % 2 :=
      Nat.mod_mod_of_dvd index (Dvd.intro _ hpow.symm)
    have hhigh : index % 2 ^ (siblings.length + 1) / 2 = index / 2 % 2 ^ siblings.length := by
      rw [hpow, Nat.mod_mul_right_div_self]
    rw [climb_cons, climb_cons, List.length_cons, hlow, hhigh, ← ih]

/-- Climbing from the leaf at `index % 2 ^ d` along its branch gives the root back. Induction on
    the height: at each level the branch and the root split the leaves at the same place, and
    the leaf's place in the half is `index % 2 ^ d`. -/
theorem climb_branch (zero : α) : ∀ (d : Nat) (leaves : List α) (index : Nat),
    climb node (leaves.getD (index % 2 ^ d) zero) (branch node zero d leaves index) index = root node zero d leaves
  | 0, leaves, index => by
    rw [Nat.pow_zero, Nat.mod_one, ← List.headD_eq_getD]
    rfl
  | d + 1, leaves, index => by
    have hsplit : index % 2 ^ (d + 1) = index % 2 ^ d + 2 ^ d * (index / 2 ^ d % 2) := Nat.mod_pow_succ
    have hlow : index % 2 ^ d < 2 ^ d := Nat.mod_lt _ (Nat.two_pow_pos d)
    rw [root, branch, List.getD_eq_getElem?_getD]
    by_cases hbit : index / 2 ^ d % 2 = 1
    · -- the path goes down the right half
      have hleaf : leaves[index % 2 ^ (d + 1)]? = (leaves.drop (2 ^ d))[index % 2 ^ d]? := by
        rw [List.getElem?_drop, hsplit, hbit, Nat.mul_one, Nat.add_comm]
      rw [if_pos hbit, climb_append_singleton, length_branch, if_pos hbit, hleaf, ← List.getD_eq_getElem?_getD,
        climb_branch zero d]
    · -- the path goes down the left half
      have hbit0 : index / 2 ^ d % 2 = 0 := by omega
      have hleaf : leaves[index % 2 ^ (d + 1)]? = (leaves.take (2 ^ d))[index % 2 ^ d]? := by
        rw [List.getElem?_take_of_lt hlow, hsplit, hbit0, Nat.mul_zero, Nat.add_zero]
      rw [if_neg hbit, climb_append_singleton, length_branch, if_neg hbit, hleaf, ← List.getD_eq_getElem?_getD,
        climb_branch zero d]

end Merkle
