import Virtualization.Idsig.Layout
import Virtualization.AuthFs.Fsverity.Verifier

/-!
# idsig's tree and authfs's fs-verity tree

idsig lays the levels of its tree out bottom up with `calc_hash_levels`; authfs sizes the same
tree with `merkle_tree_size`, counts its levels with `merkle_tree_height`, and finds a level with
the `scan` of `fsverity_walk`.  With blocks of 4096 bytes and SHA-256 digests all of them compute
one layout, `fsverityGeometry.levelSizes`, whose level `x` over `m` chunks takes
`⌈m / 128 ^ (x + 1)⌉` chunks (`levelSizes_fsverityGeometry`).

`calc_hash_levels` and `merkle_tree_size` agree on the size of the tree for every input size,
panicking on the same sizes.  The number of levels agrees with `merkle_tree_height` while that
does not overflow, below `2 ^ 64 - 524288` bytes, and the start of each level with the offsets of
`fsverity_walk` while the walk does not overflow, up to `2 ^ 61` bytes.
-/

namespace Virtualization.Idsig

open Outcome AuthFs AuthFs.Fsverity

variable {ε : Type}

/-- fs-verity's geometry: blocks of 4096 bytes, each holding 128 SHA-256 digests. -/
def fsverityGeometry : Geometry := ⟨12, 32, by decide, by decide⟩

@[simp] theorem blockSize_fsverityGeometry : fsverityGeometry.blockSize = chunkSize := rfl

@[simp] theorem digestSize_fsverityGeometry : fsverityGeometry.digestSize = hashSize := rfl

/-- `calc_hash_levels` with fs-verity's block and digest sizes. -/
theorem calcHashLevels_fsverityGeometry (n : Nat) :
    (calcHashLevels n 4096 32 : Outcome ε (List (Nat × Nat))) =
      calcHashLevels n fsverityGeometry.blockSize fsverityGeometry.digestSize := rfl

/-- The level above a level of `x` bytes takes `⌈⌈x / 4096⌉ / 128⌉` chunks. -/
theorem levelSize_fsverityGeometry (x : Nat) :
    fsverityGeometry.levelSize x = chunkSize * (x ⌈/⌉ chunkSize ⌈/⌉ shape.arity) := by
  rw [Geometry.levelSize, Geometry.hashBlocks, Nat.mul_comm, arity_shape]
  congr 1
  show (x ⌈/⌉ chunkSize * hashSize) ⌈/⌉ chunkSize = x ⌈/⌉ chunkSize ⌈/⌉ 128
  simp only [chunkSize, hashSize, Nat.ceilDiv_eq_add_pred_div]
  omega

/-! ## `merkle_tree_size` -/

/-- One round of `merkle_tree_size` is the size of the level above. -/
theorem hashStorageSize_eq {x : Nat} (hx : x + chunkSize < 2 ^ 64) :
    (hashStorageSize x : Outcome ε Nat) = ok (fsverityGeometry.levelSize x) := by
  have hblocks : x ⌈/⌉ chunkSize * hashSize + chunkSize < 2 ^ 64 := by
    simp only [chunkSize, hashSize, Nat.ceilDiv_eq_add_pred_div] at hx ⊢
    omega
  have hstorage : (x ⌈/⌉ chunkSize * hashSize) ⌈/⌉ chunkSize * chunkSize < 2 ^ 64 := by
    simp only [chunkSize, hashSize, Nat.ceilDiv_eq_add_pred_div] at hx ⊢
    omega
  rw [hashStorageSize, divideRoundup_eq (by decide) hx, ok_bind,
    checkedMul_of_lt (by omega), ok_bind, divideRoundup_eq (by decide) hblocks, ok_bind,
    checkedMul_of_lt hstorage]
  rfl

theorem hashStorageSize_of_le {x : Nat} (hx : 2 ^ 64 ≤ x + chunkSize) :
    (hashStorageSize x : Outcome ε Nat) = panic := by
  rw [hashStorageSize, divideRoundup_of_le hx, panic_bind]

/-- The loop of `merkle_tree_size` adds the sizes of the levels above `x` to `total`. -/
theorem merkleTreeSizeLoop_eq {x total : Nat} (hx : chunkSize < x → x + chunkSize < 2 ^ 64)
    (htotal : total < 2 ^ 64) :
    (merkleTreeSizeLoop x total : Outcome ε Nat) =
      if total + (fsverityGeometry.levelSizes x).sum < 2 ^ 64 then
        ok (total + (fsverityGeometry.levelSizes x).sum)
      else panic := by
  induction x using Nat.strong_induction_on generalizing total with
  | _ x ih =>
  by_cases hle : x ≤ chunkSize
  · rw [merkleTreeSizeLoop, dif_neg (Nat.not_lt.mpr hle), fsverityGeometry.levelSizes_of_le hle,
      List.sum_nil, Nat.add_zero, if_pos htotal]
  have hlt : chunkSize < x := Nat.lt_of_not_le hle
  have hxlt := hx hlt
  have hstep := fsverityGeometry.levelSize_lt hlt
  rw [merkleTreeSizeLoop, dif_pos hlt,
    attach_bind_eq_bind (g := fun hs ↦ checkedAdd 64 total hs >>= merkleTreeSizeLoop hs)
      fun _ _ ↦ rfl,
    hashStorageSize_eq hxlt, ok_bind, fsverityGeometry.levelSizes_of_lt hlt, List.sum_cons]
  by_cases hadd : total + fsverityGeometry.levelSize x < 2 ^ 64
  · rw [checkedAdd_of_lt hadd, ok_bind, ih _ hstep (fun _ ↦ by omega) hadd, Nat.add_assoc]
  · rw [checkedAdd_of_le (Nat.le_of_not_lt hadd), panic_bind, if_neg (by omega)]

/-- idsig's tree is as large as authfs's for every input size, and both panic on the same
sizes. -/
theorem sum_calcHashLevels_eq_merkleTreeSize (n : Nat) :
    (fun ranges ↦ (ranges.map fun r ↦ r.2 - r.1).sum) <$>
        (calcHashLevels n 4096 32 : Outcome ε (List (Nat × Nat))) = merkleTreeSize n := by
  rw [calcHashLevels_fsverityGeometry]
  by_cases hn : chunkSize < n → n + chunkSize < 2 ^ 64
  · rw [fsverityGeometry.calcHashLevels_eq hn, merkleTreeSize,
      merkleTreeSizeLoop_eq hn (Nat.two_pow_pos 64), Nat.zero_add]
    split_ifs
    · rw [map_eq, ok_bind, sum_map_levelRanges]
    · rfl
  · obtain ⟨hlt, hover⟩ := Classical.not_imp.1 hn
    have hstorage : (hashStorageSize n : Outcome ε Nat) = panic :=
      hashStorageSize_of_le (Nat.le_of_not_lt hover)
    rw [blockSize_fsverityGeometry, calcHashLevels_of_overflow hlt (Nat.le_of_not_lt hover),
      merkleTreeSize, merkleTreeSizeLoop, dif_pos hlt,
      attach_bind_eq_bind (g := fun hs ↦ checkedAdd 64 0 hs >>= merkleTreeSizeLoop hs)
        fun _ _ ↦ rfl,
      hstorage]
    rfl

/-! ## The levels of fs-verity's tree -/

/-- The bytes of level `x` of fs-verity's tree over `m` chunks: its nodes, one for every
`128 ^ (x + 1)` chunks, each a chunk. -/
def fsverityLevelSize (m x : Nat) : Nat := chunkSize * (m ⌈/⌉ shape.arity ^ (x + 1))

/-- The level above level `x` is level `x + 1`. -/
theorem levelSize_fsverityLevelSize (m x : Nat) :
    fsverityGeometry.levelSize (fsverityLevelSize m x) = fsverityLevelSize m (x + 1) := by
  have hk : 0 < shape.arity ^ (x + 1) := Nat.pow_pos shape.arity_pos
  rw [levelSize_fsverityGeometry, fsverityLevelSize, mul_ceilDiv (by decide),
    ceilDiv_ceilDiv hk shape.arity_pos, ← Nat.pow_succ, fsverityLevelSize]

/-- From level `j` up, the levels of the tree of height `height m` over `m` chunks. -/
theorem levelSizes_fsverityLevelSize (m : Nat) :
    ∀ d j, Merkle.height shape m - j = d →
      fsverityGeometry.levelSizes (fsverityLevelSize m j) =
        (List.range' (j + 1) d).map (fsverityLevelSize m) := by
  intro d
  induction d with
  | zero =>
    intro j hj
    have hk : 0 < shape.arity ^ (j + 1) := Nat.pow_pos shape.arity_pos
    have hfit : m ≤ shape.arity ^ (j + 1) :=
      (Merkle.le_pow_height shape m).trans (Nat.pow_le_pow_right shape.arity_pos (by omega))
    have hone : m ⌈/⌉ shape.arity ^ (j + 1) ≤ 1 :=
      (ceilDiv_le_iff_le_mul hk).2 (by rw [Nat.mul_one]; exact hfit)
    have hle : fsverityLevelSize m j ≤ fsverityGeometry.blockSize := by
      rw [fsverityLevelSize, blockSize_fsverityGeometry]
      exact le_of_le_of_eq (Nat.mul_le_mul_left chunkSize hone) (Nat.mul_one chunkSize)
    rw [fsverityGeometry.levelSizes_of_le hle]
    rfl
  | succ d ih =>
    intro j hj
    have hk : 0 < shape.arity ^ (j + 1) := Nat.pow_pos shape.arity_pos
    have hpow : shape.arity ^ (j + 1) < m := Merkle.pow_lt_of_lt_height shape (by omega)
    have htwo : 1 < m ⌈/⌉ shape.arity ^ (j + 1) :=
      (lt_ceilDiv_iff hk).2 (by rw [Nat.mul_one]; exact hpow)
    have hlt : fsverityGeometry.blockSize < fsverityLevelSize m j := by
      rw [fsverityLevelSize, blockSize_fsverityGeometry]
      exact lt_of_eq_of_lt (Nat.mul_one chunkSize).symm
        (Nat.mul_lt_mul_of_pos_left htwo (by decide))
    rw [fsverityGeometry.levelSizes_of_lt hlt, levelSize_fsverityLevelSize,
      ih (j + 1) (by omega), List.range'_succ, List.map_cons]

/-- idsig's levels over more than a chunk are the levels of fs-verity's tree, level `x` taking
`⌈m / 128 ^ (x + 1)⌉` chunks over `m` chunks, up to the top at the height of the tree. -/
theorem levelSizes_fsverityGeometry {n : Nat} (hn : chunkSize < n) :
    fsverityGeometry.levelSizes n =
      (List.range (Merkle.height shape (n ⌈/⌉ chunkSize) + 1)).map
        (fsverityLevelSize (n ⌈/⌉ chunkSize)) := by
  have hzero : fsverityGeometry.levelSize n = fsverityLevelSize (n ⌈/⌉ chunkSize) 0 := by
    rw [levelSize_fsverityGeometry, fsverityLevelSize, Nat.zero_add, Nat.pow_one]
  rw [fsverityGeometry.levelSizes_of_lt hn, hzero,
    levelSizes_fsverityLevelSize _ _ 0 (Nat.sub_zero _), List.range_eq_range', List.range'_succ,
    List.map_cons]

/-- The levels above level `x` of a tree of height `h` take `levelStart` chunks. -/
theorem sum_drop_fsverityLevelSize (m x h : Nat) :
    (((List.range (h + 1)).map (fsverityLevelSize m)).drop (x + 1)).sum =
      chunkSize * Merkle.levelStart shape m x h := by
  induction h with
  | zero =>
    rw [List.range_one, List.map_singleton, List.drop_eq_nil_of_le (by simp), List.sum_nil,
      Merkle.levelStart, Nat.mul_zero]
  | succ h ih =>
    rw [List.range_succ, List.map_append, List.map_singleton, Merkle.levelStart]
    by_cases hx : h + 1 ≤ x
    · rw [if_pos hx, List.drop_eq_nil_of_le (by simp; omega), List.sum_nil, Nat.mul_zero]
    · rw [if_neg hx, List.drop_append_of_le_length (by simp; omega), List.sum_append, ih,
        List.sum_singleton, fsverityLevelSize, Nat.mul_add, Nat.add_comm]

/-- Every level takes at most the chunks of level 0, so the tree at most `h + 1` times them. -/
theorem sum_fsverityLevelSize_le (m h : Nat) :
    ((List.range (h + 1)).map (fsverityLevelSize m)).sum ≤ (h + 1) * fsverityLevelSize m 0 := by
  induction h with
  | zero => simp
  | succ h ih =>
    have hpow : shape.arity ^ (0 + 1) ≤ shape.arity ^ (h + 1 + 1) :=
      Nat.pow_le_pow_right shape.arity_pos (by omega)
    have hnodes : m ⌈/⌉ shape.arity ^ (h + 1 + 1) ≤ m ⌈/⌉ shape.arity ^ (0 + 1) :=
      (ceilDiv_le_iff_le_mul (Nat.pow_pos shape.arity_pos)).2
        ((le_smul_ceilDiv (Nat.pow_pos shape.arity_pos)).trans (Nat.mul_le_mul_right _ hpow))
    have hlevel : fsverityLevelSize m (h + 1) ≤ fsverityLevelSize m 0 :=
      Nat.mul_le_mul_left chunkSize hnodes
    rw [List.range_succ, List.map_append, List.map_singleton, List.sum_append, List.sum_singleton,
      Nat.succ_mul]
    omega

/-- The tree over fewer than `2 ^ 64` bytes fits in `usize`. -/
theorem sum_levelSizes_fsverityGeometry_lt {n : Nat} (hn : n < 2 ^ 64) :
    (fsverityGeometry.levelSizes n).sum < 2 ^ 64 := by
  by_cases hle : n ≤ chunkSize
  · rw [fsverityGeometry.levelSizes_of_le hle, List.sum_nil]
    exact Nat.two_pow_pos 64
  have hlt : chunkSize < n := Nat.lt_of_not_le hle
  -- at most `2 ^ 52` chunks, so eight levels and at most `2 ^ 45` nodes in each
  have hm : n ⌈/⌉ chunkSize ≤ 2 ^ 52 :=
    (ceilDiv_le_iff_le_mul (by decide)).2 (by simp only [chunkSize]; omega)
  have hh : Merkle.height shape (n ⌈/⌉ chunkSize) ≤ 7 :=
    Merkle.height_le shape (hm.trans (by rw [arity_shape]; decide))
  have hnodes : n ⌈/⌉ chunkSize ⌈/⌉ shape.arity ^ (0 + 1) ≤ 2 ^ 45 :=
    (ceilDiv_le_iff_le_mul (by decide)).2 (hm.trans (by rw [arity_shape]; decide))
  have hzero : fsverityLevelSize (n ⌈/⌉ chunkSize) 0 ≤ 2 ^ 57 :=
    le_of_le_of_eq (Nat.mul_le_mul_left chunkSize hnodes) rfl
  rw [levelSizes_fsverityGeometry hlt]
  calc _ ≤ (Merkle.height shape (n ⌈/⌉ chunkSize) + 1) * fsverityLevelSize (n ⌈/⌉ chunkSize) 0 :=
        sum_fsverityLevelSize_le _ _
    _ ≤ 8 * 2 ^ 57 := Nat.mul_le_mul (by omega) hzero
    _ < 2 ^ 64 := by decide

/-- Over fewer than `2 ^ 64 - 4096` bytes `calc_hash_levels` lays fs-verity's levels out. -/
theorem calcHashLevels_eq_levelRanges {n : Nat} (hn : n + chunkSize < 2 ^ 64) :
    (calcHashLevels n 4096 32 : Outcome ε (List (Nat × Nat))) =
      ok (levelRanges (fsverityGeometry.levelSizes n)) := by
  rw [calcHashLevels_fsverityGeometry, fsverityGeometry.calcHashLevels_eq fun _ ↦ hn,
    if_pos (sum_levelSizes_fsverityGeometry_lt (by omega))]

/-- The walk from chunk `i` reads, at each level, the hash at the start of the level in idsig's
layout plus the offset of the hash in the level. -/
theorem fsverityWalk_eq_levelRanges {n i : Nat} (hlt : chunkSize < n) (hn : n ≤ 2 ^ 61)
    (hi : i < n ⌈/⌉ chunkSize) :
    fsverityWalk i n = ok ((levelRanges (fsverityGeometry.levelSizes n)).zipIdx.map fun (r, x) ↦
      ((r.1 + i / 128 ^ x * hashSize) / chunkSize, (r.1 + i / 128 ^ x * hashSize) % chunkSize)) := by
  rw [fsverityWalk_eq hlt hn hi, levelSizes_fsverityGeometry hlt]
  congr 1
  apply List.ext_getElem
  · simp
  · intro x h1 h2
    rw [List.getElem_map, List.getElem_map, List.getElem_zipIdx, getElem_levelRanges,
      List.getElem_range]
    dsimp only
    rw [sum_drop_fsverityLevelSize, Nat.zero_add, Nat.mul_comm _ hashSize, ← arity_shape,
      split_hashOffset, walkPosition, Merkle.div_pow_succ]

/-! ## The two layouts -/

/-- idsig's layout and authfs's agree: `calc_hash_levels(n, 4096, 32)` sums to
`merkle_tree_size(n)` for every `n`, both panicking on the same sizes; there are no levels up to
a chunk, and over more, while `merkle_tree_height` does not overflow, one level more than the
height; and while `fsverity_walk` does not overflow, it reads each level at the start of its
range in idsig's layout. -/
theorem calcHashLevels_agrees_with_fsverity (n : Nat) :
    (fun ranges ↦ (ranges.map fun r ↦ r.2 - r.1).sum) <$>
        (calcHashLevels n 4096 32 : Outcome FsverityError (List (Nat × Nat))) = merkleTreeSize n ∧
      (n ≤ 4096 → (calcHashLevels n 4096 32 : Outcome FsverityError (List (Nat × Nat))) = ok []) ∧
      (4096 < n → n + 524288 < 2 ^ 64 →
        ∃ ranges height,
          (calcHashLevels n 4096 32 : Outcome FsverityError (List (Nat × Nat))) = ok ranges ∧
          (merkleTreeHeight n : Outcome FsverityError (Option Nat)) = ok (some height) ∧
          ranges.length = height + 1 ∧
          ranges.map (fun r ↦ r.2 - r.1) =
            (List.range (height + 1)).map (fun x ↦ 4096 * (n ⌈/⌉ 4096 ⌈/⌉ 128 ^ (x + 1))) ∧
          (n ≤ 2 ^ 61 → ∀ i < n ⌈/⌉ chunkSize, fsverityWalk i n =
            ok (ranges.zipIdx.map fun (r, x) ↦
              ((r.1 + i / 128 ^ x * hashSize) / chunkSize,
                (r.1 + i / 128 ^ x * hashSize) % chunkSize)))) := by
  refine ⟨sum_calcHashLevels_eq_merkleTreeSize n, fun hle ↦ calcHashLevels_of_le hle,
    fun hlt hn ↦ ?_⟩
  have hchunks : chunkSize < n := hlt
  refine ⟨levelRanges (fsverityGeometry.levelSizes n), Merkle.height shape (n ⌈/⌉ chunkSize),
    calcHashLevels_eq_levelRanges (by simp only [chunkSize]; omega),
    merkleTreeHeight_eq (by omega) hn, ?_, ?_,
    fun hsmall i hi ↦ fsverityWalk_eq_levelRanges hchunks hsmall hi⟩
  · rw [length_levelRanges, levelSizes_fsverityGeometry hchunks, List.length_map, List.length_range]
  · rw [map_sub_levelRanges, levelSizes_fsverityGeometry hchunks]
    refine List.map_congr_left fun x _ ↦ ?_
    rw [fsverityLevelSize, arity_shape]
    rfl

theorem calcHashLevels_agrees_with_fsverity_10000 :
    4096 < 10000 ∧ 10000 + 524288 < 2 ^ 64 ∧ 10000 ≤ 2 ^ 61 ∧
      ((fun ranges ↦ (ranges.map fun r ↦ r.2 - r.1).sum) <$>
          (calcHashLevels 10000 4096 32 : Outcome FsverityError (List (Nat × Nat))) =
            merkleTreeSize 10000 ∧
        (10000 ≤ 4096 →
          (calcHashLevels 10000 4096 32 : Outcome FsverityError (List (Nat × Nat))) = ok []) ∧
        (4096 < 10000 → 10000 + 524288 < 2 ^ 64 →
          ∃ ranges height,
            (calcHashLevels 10000 4096 32 : Outcome FsverityError (List (Nat × Nat))) = ok ranges ∧
            (merkleTreeHeight 10000 : Outcome FsverityError (Option Nat)) = ok (some height) ∧
            ranges.length = height + 1 ∧
            ranges.map (fun r ↦ r.2 - r.1) =
              (List.range (height + 1)).map (fun x ↦ 4096 * (10000 ⌈/⌉ 4096 ⌈/⌉ 128 ^ (x + 1))) ∧
            (10000 ≤ 2 ^ 61 → ∀ i < 10000 ⌈/⌉ chunkSize, fsverityWalk i 10000 =
              ok (ranges.zipIdx.map fun (r, x) ↦
                ((r.1 + i / 128 ^ x * hashSize) / chunkSize,
                  (r.1 + i / 128 ^ x * hashSize) % chunkSize))))) :=
  ⟨by decide, by decide, by decide, calcHashLevels_agrees_with_fsverity 10000⟩

/-- Past `2 ^ 61` bytes idsig lays out eight levels while `fsverity_walk` panics, and from
`2 ^ 64 - 524288` bytes `merkle_tree_height` panics while idsig still lays out eight levels. -/
theorem fsverity_overflows_before_idsig :
    (∃ ranges, (calcHashLevels (2 ^ 61 + 1) 4096 32 :
        Outcome FsverityError (List (Nat × Nat))) = ok ranges ∧ ranges.length = 8) ∧
      fsverityWalk 0 (2 ^ 61 + 1) = panic ∧
      (∃ ranges, (calcHashLevels (2 ^ 64 - 524288) 4096 32 :
        Outcome FsverityError (List (Nat × Nat))) = ok ranges ∧ ranges.length = 8) ∧
      (merkleTreeHeight (2 ^ 64 - 524288) : Outcome FsverityError (Option Nat)) = panic := by
  have hlevels : ∀ n, 2 ^ 61 < n → n + chunkSize < 2 ^ 64 →
      (levelRanges (fsverityGeometry.levelSizes n)).length = 8 := by
    intro n hlo hhi
    rw [length_levelRanges, levelSizes_fsverityGeometry (by simp only [chunkSize]; omega),
      List.length_map, List.length_range, height_eq_seven hlo (by omega)]
  have hwalk : 2 ^ 61 < 2 ^ 61 + 1 := by decide
  have hwalk' : 2 ^ 61 + 1 + 524288 < 2 ^ 64 := by decide
  have hhigh : 2 ^ 61 < 2 ^ 64 - 524288 := by decide
  have hhigh' : 2 ^ 64 - 524288 + chunkSize < 2 ^ 64 := by decide
  have hheight : 2 ^ 64 ≤ 2 ^ 64 - 524288 + 524288 := by decide
  refine ⟨⟨_, calcHashLevels_eq_levelRanges (by omega), hlevels _ hwalk (by omega)⟩,
    fsverityWalk_of_lt hwalk hwalk',
    ⟨_, calcHashLevels_eq_levelRanges hhigh', hlevels _ hhigh hhigh'⟩, merkleTreeHeight_of_le hheight⟩

end Virtualization.Idsig
