import Virtualization.Lib.Chunks
import Mathlib.Data.Nat.Find

/-!
# Merkle trees of fixed-arity nodes, stored level by level

A Merkle tree over a list of leaf hashes packs each level into nodes of `arity` encoded
hashes, pads every node to `nodeSize` elements, and hashes the nodes to form the level above,
until a level fits in one node.  The hash of that node is the root.  The stored tree lists the
levels from the top down, each level its nodes in order: the layout of fs-verity and of the
APK Signature Scheme v4 hash tree.

`hashesAt leaves x` is level `x` of hashes (level `0` the leaves) and `nodesAt leaves x` the
nodes packing it; `height n` is the level of the single top node over `n` leaves.  The lemmas
count nodes with `⌈/⌉` (`length_nodesAt`), locate each node in the stored tree
(`getElem?_levelsDown`) and each hash inside its node (`carries_pack`).
-/

namespace Virtualization.Merkle

/-- The shape of a tree: how many hashes a node holds and how long a stored node is. -/
structure Shape where
  arity : Nat
  nodeSize : Nat
  one_lt_arity : 1 < arity

variable {α H : Type} (s : Shape) (hashNode : List α → H) (enc : H → List α) (z : α)

theorem Shape.arity_pos : 0 < s.arity := Nat.zero_lt_of_lt s.one_lt_arity

/-- The nodes holding a level of hashes: `arity` encoded hashes to a node, the node padded
with `z` to `nodeSize`. -/
def pack (hs : List H) : List (List α) :=
  (chunks s.arity hs).map fun page ↦ (page.flatMap enc).rightpad s.nodeSize z

/-- Level `x` of hashes above `leaves`: the leaves, then the hashes of the nodes below. -/
def hashesAt (leaves : List H) : Nat → List H
  | 0 => leaves
  | x + 1 => (pack s enc z (hashesAt leaves x)).map hashNode

/-- The nodes of level `x`. -/
def nodesAt (leaves : List H) (x : Nat) : List (List α) :=
  pack s enc z (hashesAt s hashNode enc z leaves x)

theorem exists_fits (n : Nat) : ∃ x, n ≤ s.arity ^ (x + 1) :=
  ⟨n, ((Nat.lt_pow_self s.one_lt_arity).trans_le
    (Nat.pow_le_pow_right s.arity_pos (Nat.le_succ n))).le⟩

/-- The level of the top node over `n` leaves: the first level whose nodes fit in one. -/
def height (n : Nat) : Nat := Nat.find (exists_fits s n)

/-- The nodes of levels `x, x - 1, …, 0`, top first. -/
def levelsDown (leaves : List H) : Nat → List (List α)
  | 0 => nodesAt s hashNode enc z leaves 0
  | x + 1 => nodesAt s hashNode enc z leaves (x + 1) ++ levelsDown leaves x

/-- The number of nodes stored before level `x` among levels `y, y - 1, …, x` over `n`
leaves: the nodes of levels `y` down to `x + 1`. -/
def levelStart (n x : Nat) : Nat → Nat
  | 0 => 0
  | y + 1 => if y + 1 ≤ x then 0 else n ⌈/⌉ s.arity ^ (y + 2) + levelStart n x y

/-- The stored tree's nodes, every level from the top down. -/
def treeNodes (leaves : List H) : List (List α) :=
  levelsDown s hashNode enc z leaves (height s leaves.length)

/-- The stored tree. -/
def tree (leaves : List H) : List α :=
  (treeNodes s hashNode enc z leaves).flatten

/-- The root: the hash of the top node. -/
def root (leaves : List H) : H :=
  hashNode ((nodesAt s hashNode enc z leaves (height s leaves.length)).getD 0 [])

/-! ## Counting nodes -/

@[simp] theorem length_pack (hs : List H) : (pack s enc z hs).length = hs.length ⌈/⌉ s.arity := by
  simp [pack]

theorem length_hashesAt (leaves : List H) (x : Nat) :
    (hashesAt s hashNode enc z leaves x).length = leaves.length ⌈/⌉ s.arity ^ x := by
  induction x with
  | zero => rw [hashesAt, Nat.pow_zero, ceilDiv_one]
  | succ x ih =>
    rw [hashesAt, List.length_map, length_pack, ih,
      ceilDiv_ceilDiv (Nat.pow_pos s.arity_pos) s.arity_pos, Nat.pow_succ]

theorem length_nodesAt (leaves : List H) (x : Nat) :
    (nodesAt s hashNode enc z leaves x).length = leaves.length ⌈/⌉ s.arity ^ (x + 1) := by
  rw [nodesAt, length_pack, length_hashesAt, ceilDiv_ceilDiv (Nat.pow_pos s.arity_pos)
    s.arity_pos, Nat.pow_succ]

theorem le_pow_height (n : Nat) : n ≤ s.arity ^ (height s n + 1) :=
  Nat.find_spec (exists_fits s n)

theorem pow_lt_of_lt_height {n x : Nat} (hx : x < height s n) : s.arity ^ (x + 1) < n :=
  Nat.lt_of_not_le (Nat.find_min (exists_fits s n) hx)

/-- The height is the least level whose nodes fit in one. -/
theorem height_eq_iff {n h : Nat} :
    height s n = h ↔ n ≤ s.arity ^ (h + 1) ∧ ∀ x < h, s.arity ^ (x + 1) < n := by
  constructor
  · rintro rfl
    exact ⟨le_pow_height s n, fun x hx ↦ pow_lt_of_lt_height s hx⟩
  · rintro ⟨hle, hlt⟩
    refine le_antisymm (Nat.find_min' _ hle) (Nat.le_of_not_lt fun hh ↦ ?_)
    exact absurd (hlt _ hh) (Nat.not_lt.mpr (le_pow_height s n))

/-- The height is the level `c` when exactly the levels from `c` on fit in one node. -/
theorem height_eq_of_forall_iff {n c : Nat} (h : ∀ x, n ≤ s.arity ^ (x + 1) ↔ c ≤ x) :
    height s n = c := by
  refine (height_eq_iff s).mpr ⟨(h c).mpr le_rfl, fun x hx ↦ ?_⟩
  exact Nat.lt_of_not_le fun hle ↦ Nat.not_le_of_lt hx ((h x).mp hle)

theorem height_le {n c : Nat} (h : n ≤ s.arity ^ (c + 1)) : height s n ≤ c :=
  Nat.find_min' (exists_fits s n) h

/-- A nonempty tree has one top node. -/
theorem length_nodesAt_height {leaves : List H} (hn : 0 < leaves.length) :
    (nodesAt s hashNode enc z leaves (height s leaves.length)).length = 1 := by
  rw [length_nodesAt]
  refine le_antisymm ((ceilDiv_le_iff_le_mul (Nat.pow_pos s.arity_pos)).2 ?_) ?_
  · rw [Nat.mul_one]
    exact le_pow_height s _
  · exact (lt_ceilDiv_iff (Nat.pow_pos s.arity_pos)).2 (by omega)

/-- One round above the top node leaves the root alone. -/
theorem hashesAt_height_succ {leaves : List H} (hn : 0 < leaves.length) :
    hashesAt s hashNode enc z leaves (height s leaves.length + 1) = [root s hashNode enc z leaves] := by
  obtain ⟨node, hnode⟩ := List.length_eq_one_iff.mp (length_nodesAt_height s hashNode enc z hn)
  show (nodesAt s hashNode enc z leaves _).map hashNode = _
  rw [hnode, List.map_singleton, root, hnode]
  rfl

/-! ## Where a node is stored -/

/-- Node `j` of level `x` sits at `levelStart n x y + j` among levels `y` down to `0`. -/
theorem getElem?_levelsDown (leaves : List H) {x y j : Nat} (hxy : x ≤ y)
    (hj : j < (nodesAt s hashNode enc z leaves x).length) :
    (levelsDown s hashNode enc z leaves y)[levelStart s leaves.length x y + j]? =
      (nodesAt s hashNode enc z leaves x)[j]? := by
  induction y with
  | zero =>
    obtain rfl : x = 0 := by omega
    simp [levelsDown, levelStart]
  | succ y ih =>
    by_cases hx : y + 1 ≤ x
    · obtain rfl : x = y + 1 := by omega
      rw [levelsDown, levelStart, if_pos le_rfl, Nat.zero_add, List.getElem?_append_left hj]
    · have hlen : (nodesAt s hashNode enc z leaves (y + 1)).length =
          leaves.length ⌈/⌉ s.arity ^ (y + 2) := length_nodesAt s hashNode enc z leaves (y + 1)
      rw [levelsDown, levelStart, if_neg hx, Nat.add_assoc, ← hlen,
        List.getElem?_append_right (by omega), Nat.add_sub_cancel_left]
      exact ih (by omega)

@[simp] theorem levelStart_self (n x : Nat) : levelStart s n x x = 0 := by
  cases x with
  | zero => rfl
  | succ x => rw [levelStart, if_pos le_rfl]

/-- The first stored node is the top node, whose hash is the root. -/
theorem getElem?_treeNodes_zero {leaves : List H} (hn : 0 < leaves.length) :
    ∃ node, (treeNodes s hashNode enc z leaves)[0]? = some node ∧
      root s hashNode enc z leaves = hashNode node := by
  have hlen := length_nodesAt_height s hashNode enc z hn
  obtain ⟨node, hnode⟩ := List.length_eq_one_iff.mp hlen
  have htop := getElem?_levelsDown s hashNode enc z leaves (le_refl (height s leaves.length))
    (j := 0) (by rw [hlen]; exact Nat.one_pos)
  rw [levelStart_self, hnode] at htop
  refine ⟨node, htop, ?_⟩
  rw [root, hnode]
  rfl

/-- Below level `y`, the nodes before level `x` are those before level `x + 1` and level
`x + 1` itself. -/
theorem levelStart_eq_add {n x y : Nat} (hxy : x < y) :
    levelStart s n x y = n ⌈/⌉ s.arity ^ (x + 2) + levelStart s n (x + 1) y := by
  induction y with
  | zero => omega
  | succ y ih =>
    rw [levelStart, levelStart, if_neg (by omega)]
    by_cases hx : x + 1 = y + 1
    · obtain rfl : x = y := by omega
      rw [if_pos le_rfl, levelStart_self]
    · rw [if_neg (by omega), ih (by omega)]
      omega

/-- Each level has at most as many nodes as there are leaves. -/
theorem levelStart_le (n x y : Nat) : levelStart s n x y ≤ (y - x) * n := by
  induction y with
  | zero => simp [levelStart]
  | succ y ih =>
    rw [levelStart]
    split_ifs with hx
    · exact Nat.zero_le _
    · have hk : 0 < s.arity ^ (y + 2) := Nat.pow_pos s.arity_pos
      have hnodes : n ⌈/⌉ s.arity ^ (y + 2) ≤ n :=
        (ceilDiv_le_iff_le_mul hk).2 (Nat.le_mul_of_pos_left n hk)
      have hsucc : y + 1 - x = (y - x) + 1 := by omega
      rw [hsucc, Nat.add_mul, Nat.one_mul]
      omega

/-- Every node of a packed level has length `nodeSize`, when `arity` hashes fit in a node. -/
theorem length_of_mem_pack {w : Nat} (henc : ∀ h, (enc h).length = w)
    (hfit : s.arity * w ≤ s.nodeSize) {hs : List H} {node : List α}
    (hnode : node ∈ pack s enc z hs) : node.length = s.nodeSize := by
  obtain ⟨page, hpage, rfl⟩ := List.mem_map.mp hnode
  obtain ⟨i, -, rfl⟩ := mem_chunks.mp hpage
  refine length_rightpad_of_le ?_
  rw [List.length_flatMap, List.map_congr_left fun h _ ↦ henc h, List.map_const',
    List.sum_replicate_nat, length_chunk]
  exact (Nat.mul_le_mul_right w (Nat.min_le_left _ _)).trans hfit

/-- Every stored node has length `nodeSize`. -/
theorem length_of_mem_levelsDown {w : Nat} (henc : ∀ h, (enc h).length = w)
    (hfit : s.arity * w ≤ s.nodeSize) (leaves : List H) (y : Nat) {node : List α}
    (hnode : node ∈ levelsDown s hashNode enc z leaves y) : node.length = s.nodeSize := by
  induction y with
  | zero => exact length_of_mem_pack s enc z henc hfit hnode
  | succ y ih =>
    rcases List.mem_append.mp hnode with h | h
    · exact length_of_mem_pack s enc z henc hfit h
    · exact ih h

/-- Block `j` of the stored tree is stored node `j`. -/
theorem chunk_tree {w : Nat} (henc : ∀ h, (enc h).length = w) (hfit : s.arity * w ≤ s.nodeSize)
    (leaves : List H) {j : Nat} {node : List α}
    (hj : (treeNodes s hashNode enc z leaves)[j]? = some node) :
    chunk s.nodeSize (tree s hashNode enc z leaves) j = node := by
  obtain ⟨hlt, rfl⟩ := List.getElem?_eq_some_iff.mp hj
  exact chunk_flatten (fun b hb ↦ length_of_mem_levelsDown s hashNode enc z henc hfit leaves _ hb)
    j hlt

/-! ## Where a hash is stored -/

/-- A node `node` carries the hash `a` at slot `t` when its `w` elements from `w * t` on
encode `a`. -/
def Carries (w : Nat) (node : List α) (t : Nat) (a : H) : Prop :=
  (node.drop (w * t)).take w = enc a

/-- Node `j` of a packed level carries hash `arity * j + t` at slot `t`. -/
theorem carries_pack {w : Nat} (henc : ∀ h, (enc h).length = w) {hs : List H} {j t : Nat} {node : List α} {a : H}
    (ht : t < s.arity) (hnode : (pack s enc z hs)[j]? = some node)
    (ha : hs[s.arity * j + t]? = some a) : Carries enc w node t a := by
  obtain ⟨hj, rfl⟩ := List.getElem?_eq_some_iff.mp hnode
  obtain ⟨hlt, rfl⟩ := List.getElem?_eq_some_iff.mp ha
  have hpage : t < (chunk s.arity hs j).length := by rw [length_chunk]; omega
  have hflat : ((chunk s.arity hs j).map enc).flatten = (chunk s.arity hs j).flatMap enc := rfl
  simp only [pack, List.getElem_map, getElem_chunks]
  rw [Carries, take_drop_rightpad, ← hflat]
  · change chunk w _ t = _
    rw [chunk_flatten (by simpa using fun h _ ↦ henc h) t (by simpa using hpage),
      List.getElem_map]
    simp [chunk, List.getElem_take, List.getElem_drop]
  · rw [List.length_flatMap, List.map_congr_left fun h _ ↦ henc h, List.map_const',
      List.sum_replicate_nat, Nat.mul_comm w t, ← Nat.add_one_mul]
    exact Nat.mul_le_mul_right w hpage

/-! ## From a leaf to the root -/

/-- `Chain w a path r`: from the hash `a`, every node of `path` carries the current hash at
its slot and hashes to the next one; the last hash is `r`. -/
inductive Chain (w : Nat) : H → List (List α × Nat) → H → Prop
  | nil (a : H) : Chain w a [] a
  | cons {a r : H} {node : List α} {t : Nat} {rest : List (List α × Nat)} :
      Carries enc w node t a → Chain w (hashNode node) rest r → Chain w a ((node, t) :: rest) r

/-- Merkle soundness: a chain that reaches the end of an honest chain through the same slots
starts from the same hash and reads the same nodes, when no honest node has a second
preimage. -/
theorem Chain.eq_of_secondPreimage (henc : Function.Injective enc) {w : Nat} {a b r : H}
    {path honest : List (List α × Nat)} (hpath : Chain hashNode enc w a path r)
    (hhonest : Chain hashNode enc w b honest r)
    (hslots : path.map Prod.snd = honest.map Prod.snd)
    (hsec : ∀ q ∈ honest, ∀ m, hashNode m = hashNode q.1 → m = q.1) : a = b ∧ path = honest := by
  induction hhonest generalizing path a with
  | nil b =>
    obtain rfl : path = [] := List.map_eq_nil_iff.mp hslots
    cases hpath
    exact ⟨rfl, rfl⟩
  | @cons b r node t rest hcarry hrest ih =>
    obtain ⟨⟨node', t'⟩, path', rfl⟩ : ∃ q path', path = q :: path' := by
      cases path with
      | nil => simp at hslots
      | cons q path' => exact ⟨q, path', rfl⟩
    simp only [List.map_cons, List.cons.injEq] at hslots
    obtain ⟨rfl, hslots'⟩ := hslots
    cases hpath with
    | cons hcarry' hrest' =>
      have hsec' : ∀ q ∈ rest, ∀ m, hashNode m = hashNode q.1 → m = q.1 :=
        fun q hq ↦ hsec q (List.mem_cons_of_mem _ hq)
      obtain ⟨hhash, rfl⟩ := ih hrest' hslots' hsec'
      obtain rfl : node' = node := hsec (node, t') List.mem_cons_self node' hhash
      exact ⟨henc (hcarry'.symm.trans hcarry), rfl⟩

/-- The node of level `x` above leaf `i`, with the slot holding the hash below it. -/
def pathEntry (leaves : List H) (i x : Nat) : List α × Nat :=
  ((nodesAt s hashNode enc z leaves x).getD (i / s.arity ^ (x + 1)) [], i / s.arity ^ x % s.arity)

/-- The nodes above leaf `i` on `c` levels from level `x` up. -/
def pathFrom (leaves : List H) (i : Nat) : Nat → Nat → List (List α × Nat)
  | _, 0 => []
  | x, c + 1 => pathEntry s hashNode enc z leaves i x :: pathFrom leaves i (x + 1) c

/-- The honest path from leaf `i` to the root. -/
def honestPath (leaves : List H) (i : Nat) : List (List α × Nat) :=
  pathFrom s hashNode enc z leaves i 0 (height s leaves.length + 1)

/-- The ancestor of leaf `i` at level `x + 1` is the node of level `x` holding it. -/
theorem div_pow_succ (k i x : Nat) : i / k ^ (x + 1) = i / k ^ x / k := by
  rw [Nat.div_div_eq_div_mul, Nat.pow_succ]

/-- Along the honest path every node carries the hash below it, up to the root. -/
theorem chain_pathFrom {w : Nat} (henc : ∀ h, (enc h).length = w) {leaves : List H} {i : Nat}
    (hi : i < leaves.length) (c : Nat) {x : Nat}
    (hxc : x + c = height s leaves.length + 1) {a : H}
    (ha : (hashesAt s hashNode enc z leaves x)[i / s.arity ^ x]? = some a) :
    Chain hashNode enc w a (pathFrom s hashNode enc z leaves i x c)
      (root s hashNode enc z leaves) := by
  induction c generalizing x a with
  | zero =>
    obtain rfl : x = height s leaves.length + 1 := by omega
    have h0 : i / s.arity ^ (height s leaves.length + 1) = 0 :=
      Nat.div_eq_of_lt (lt_of_lt_of_le hi (le_pow_height s _))
    rw [h0, hashesAt, List.getElem?_map] at ha
    obtain ⟨node, hnode, rfl⟩ := Option.map_eq_some_iff.mp ha
    rw [root, List.getD_eq_getElem?_getD, nodesAt, hnode]
    exact Chain.nil _
  | succ c ih =>
    have hk : 0 < s.arity ^ (x + 1) := Nat.pow_pos s.arity_pos
    have hj : i / s.arity ^ (x + 1) < (nodesAt s hashNode enc z leaves x).length := by
      rw [length_nodesAt, lt_ceilDiv_iff hk]
      exact lt_of_le_of_lt (Nat.mul_div_le i _) hi
    obtain ⟨node, hnode⟩ : ∃ node, (nodesAt s hashNode enc z leaves x)[i / s.arity ^ (x + 1)]? =
        some node := ⟨_, List.getElem?_eq_getElem hj⟩
    have hcarry : Carries enc w node (i / s.arity ^ x % s.arity) a := by
      refine carries_pack s enc z henc (Nat.mod_lt _ s.arity_pos) hnode ?_
      rw [div_pow_succ, Nat.div_add_mod]
      exact ha
    rw [pathFrom, pathEntry, List.getD_eq_getElem?_getD, hnode, Option.getD_some]
    refine Chain.cons hcarry (ih (by omega) ?_)
    rw [hashesAt, List.getElem?_map]
    exact congrArg (Option.map hashNode) hnode

/-- The honest path from leaf `i` reaches the root. -/
theorem chain_honestPath {w : Nat} (henc : ∀ h, (enc h).length = w) {leaves : List H}
    {i : Nat} (hi : i < leaves.length) :
    Chain hashNode enc w leaves[i] (honestPath s hashNode enc z leaves i)
      (root s hashNode enc z leaves) :=
  chain_pathFrom s hashNode enc z henc hi _ (Nat.zero_add _)
    (by rw [Nat.pow_zero, Nat.div_one]; exact List.getElem?_eq_getElem hi)

theorem pathFrom_eq_map (leaves : List H) (i : Nat) (c : Nat) : ∀ x,
    pathFrom s hashNode enc z leaves i x c =
      (List.range c).map fun k ↦ pathEntry s hashNode enc z leaves i (x + k) := by
  induction c with
  | zero => intro x; rfl
  | succ c ih =>
    intro x
    rw [pathFrom, ih (x + 1), List.range_succ_eq_map, List.map_cons, List.map_map, Nat.add_zero]
    congr 1
    refine List.map_congr_left fun k _ ↦ ?_
    simp only [Function.comp_apply, Nat.add_assoc, Nat.add_comm 1 k]

/-- The honest path reads, at level `x`, the node above leaf `i` and the slot below it. -/
theorem honestPath_eq_map (leaves : List H) (i : Nat) :
    honestPath s hashNode enc z leaves i =
      (List.range (height s leaves.length + 1)).map (pathEntry s hashNode enc z leaves i) := by
  rw [honestPath, pathFrom_eq_map]
  simp only [Nat.zero_add]

/-- The node of level `x` above leaf `i` is stored after the levels above `x`, at the index of
the leaf's ancestor in its level. -/
theorem getElem?_treeNodes_pathEntry {leaves : List H} {i x : Nat} (hi : i < leaves.length)
    (hx : x ≤ height s leaves.length) :
    (treeNodes s hashNode enc z leaves)[levelStart s leaves.length x (height s leaves.length) +
      i / s.arity ^ (x + 1)]? = some (pathEntry s hashNode enc z leaves i x).1 := by
  have hk : 0 < s.arity ^ (x + 1) := Nat.pow_pos s.arity_pos
  have hj : i / s.arity ^ (x + 1) < (nodesAt s hashNode enc z leaves x).length := by
    rw [length_nodesAt, lt_ceilDiv_iff hk]
    exact lt_of_le_of_lt (Nat.mul_div_le i _) hi
  rw [treeNodes, getElem?_levelsDown s hashNode enc z leaves hx hj, pathEntry,
    List.getD_eq_getElem?_getD, List.getElem?_eq_getElem hj, Option.getD_some]

/-- The nodes of the honest path from a leaf are nodes of the stored tree. -/
theorem mem_treeNodes_of_mem_honestPath {leaves : List H} {i : Nat} (hi : i < leaves.length)
    {q : List α × Nat} (hq : q ∈ honestPath s hashNode enc z leaves i) :
    q.1 ∈ treeNodes s hashNode enc z leaves := by
  rw [honestPath_eq_map] at hq
  obtain ⟨x, hx, rfl⟩ := List.mem_map.mp hq
  exact List.mem_of_getElem? (getElem?_treeNodes_pathEntry s hashNode enc z hi
    (Nat.lt_succ_iff.mp (List.mem_range.mp hx)))

/-! ## Trees of padding -/

section Padding

variable {w : Nat} (henc : ∀ h, (enc h).length = w) (hfit : s.arity * w ≤ s.nodeSize)
include henc hfit

/-- Hashes that encode to padding pack into nodes of padding. -/
theorem eq_replicate_of_mem_pack {hs : List H} (hz : ∀ h ∈ hs, ∀ b ∈ enc h, b = z)
    {node : List α} (hnode : node ∈ pack s enc z hs) : node = List.replicate s.nodeSize z := by
  refine List.eq_replicate_iff.mpr ⟨length_of_mem_pack s enc z henc hfit hnode, fun b hb ↦ ?_⟩
  obtain ⟨page, hpage, rfl⟩ := List.mem_map.mp hnode
  obtain ⟨i, -, rfl⟩ := mem_chunks.mp hpage
  rw [List.rightpad, List.mem_append] at hb
  rcases hb with hb | hb
  · obtain ⟨h, hh, hb⟩ := List.mem_flatMap.mp hb
    exact hz h (mem_of_mem_chunk hh) b hb
  · exact List.eq_of_mem_replicate hb

variable {c : H} (hcz : ∀ b ∈ enc c, b = z) (hc : hashNode (List.replicate s.nodeSize z) = c)
include hcz hc

/-- Over leaves that are all the hash `c` of a node of padding, every level is `c`. -/
theorem eq_of_mem_hashesAt {leaves : List H} (hl : ∀ h ∈ leaves, h = c) (x : Nat) :
    ∀ h ∈ hashesAt s hashNode enc z leaves x, h = c := by
  induction x with
  | zero => exact hl
  | succ x ih =>
    intro h hh
    obtain ⟨node, hnode, rfl⟩ := List.mem_map.mp hh
    have hz : ∀ h ∈ hashesAt s hashNode enc z leaves x, ∀ b ∈ enc h, b = z := by
      intro h hh b hb
      rw [ih h hh] at hb
      exact hcz b hb
    rw [eq_replicate_of_mem_pack s enc z henc hfit hz hnode, hc]

/-- Over leaves that are all the hash `c` of a node of padding, every stored node is padding. -/
theorem eq_replicate_of_mem_levelsDown {leaves : List H} (hl : ∀ h ∈ leaves, h = c) (y : Nat)
    {node : List α} (hnode : node ∈ levelsDown s hashNode enc z leaves y) :
    node = List.replicate s.nodeSize z := by
  have hz : ∀ x, ∀ h ∈ hashesAt s hashNode enc z leaves x, ∀ b ∈ enc h, b = z := by
    intro x h hh b hb
    rw [eq_of_mem_hashesAt s hashNode enc z henc hfit hcz hc hl x h hh] at hb
    exact hcz b hb
  induction y with
  | zero => exact eq_replicate_of_mem_pack s enc z henc hfit (hz 0) hnode
  | succ y ih =>
    rcases List.mem_append.mp hnode with h | h
    · exact eq_replicate_of_mem_pack s enc z henc hfit (hz (y + 1)) h
    · exact ih h

end Padding

end Virtualization.Merkle
