import Virtualization.Idsig.HashTree

/-!
# The levels of an idsig tree

A `Geometry` is a block size and a digest size the tree can be built for: the block a power of
two below `2 ^ 64` that holds at least two digests.  Every level above a level of more than one
block is then smaller than it (`levelSize_lt`), so the sizes of the levels over `n` bytes form a
finite list (`levelSizes`), at most 64 long, and `levelRanges` lays them out top level first.

`calcHashLevels_eq`: `calc_hash_levels` returns these ranges, or panics exactly when the tree
would not fit in `usize`.
-/

namespace Virtualization.Idsig

open Outcome

variable {ε : Type}

/-- A block size and a digest size the tree is built for: the block a power of two below
`2 ^ 64` holding at least two digests. -/
structure Geometry where
  log2BlockSize : Nat
  digestSize : Nat
  log2BlockSize_lt : log2BlockSize < 64
  two_mul_digestSize_le : 2 * digestSize ≤ 2 ^ log2BlockSize

/-! ## Layout of levels of any sizes -/

/-- The ranges of levels of the given sizes, bottom up, in a tree stored top down: each level
comes after all the levels above it. -/
def levelRanges : List Nat → List (Nat × Nat)
  | [] => []
  | size :: above => (above.sum, above.sum + size) :: levelRanges above

@[simp] theorem length_levelRanges (sizes : List Nat) : (levelRanges sizes).length = sizes.length := by
  induction sizes with
  | nil => rfl
  | cons size above ih => rw [levelRanges, List.length_cons, List.length_cons, ih]

/-- Level `i` starts after the levels above it and ends where the level below starts. -/
theorem getElem_levelRanges (sizes : List Nat) {i : Nat} (hi : i < (levelRanges sizes).length) :
    (levelRanges sizes)[i] = ((sizes.drop (i + 1)).sum, (sizes.drop i).sum) := by
  induction sizes generalizing i with
  | nil => simp at hi
  | cons size above ih =>
    cases i with
    | zero => simp [levelRanges, Nat.add_comm]
    | succ i =>
      simp only [levelRanges, List.getElem_cons_succ, List.drop_succ_cons]
      exact ih (by simpa using hi)

/-- Level `i` is as long as its size. -/
theorem levelRanges_sub (sizes : List Nat) {i : Nat} (hi : i < (levelRanges sizes).length) :
    (levelRanges sizes)[i].2 - (levelRanges sizes)[i].1 = sizes.get ⟨i, by simpa using hi⟩ ∧
      (levelRanges sizes)[i].1 ≤ (levelRanges sizes)[i].2 := by
  have hi' : i < sizes.length := by simpa using hi
  have hdrop := List.drop_eq_getElem_cons hi'
  show _ = sizes[i] ∧ _
  rw [getElem_levelRanges, hdrop, List.sum_cons]
  omega

/-- Every level ends inside the tree. -/
theorem levelRanges_snd_le (sizes : List Nat) {i : Nat} (hi : i < (levelRanges sizes).length) :
    (levelRanges sizes)[i].2 ≤ sizes.sum := by
  have hsplit := congrArg List.sum (List.take_append_drop i sizes)
  rw [List.sum_append] at hsplit
  rw [getElem_levelRanges]
  exact le_of_le_of_eq (Nat.le_add_left _ _) hsplit

/-- Level `i + 1` ends where level `i` starts. -/
theorem levelRanges_snd_succ (sizes : List Nat) {i : Nat} (hi : i + 1 < (levelRanges sizes).length) :
    (levelRanges sizes)[i + 1].2 = (levelRanges sizes)[i].1 := by
  rw [getElem_levelRanges, getElem_levelRanges]

/-- The top level starts the tree, and level 0 ends it. -/
theorem levelRanges_bounds (sizes : List Nat) (h : 0 < (levelRanges sizes).length) :
    (levelRanges sizes)[(levelRanges sizes).length - 1].1 = 0 ∧
      (levelRanges sizes)[0].2 = sizes.sum := by
  have hpos : 1 ≤ sizes.length := by rw [length_levelRanges] at h; exact h
  rw [getElem_levelRanges, getElem_levelRanges, length_levelRanges, Nat.sub_add_cancel hpos,
    List.drop_length, List.drop_zero]
  exact ⟨rfl, rfl⟩

/-- Each range is as long as the size it was laid out from. -/
theorem map_sub_levelRanges (sizes : List Nat) :
    (levelRanges sizes).map (fun r ↦ r.2 - r.1) = sizes := by
  induction sizes with
  | nil => rfl
  | cons size above ih => rw [levelRanges, List.map_cons, ih, Nat.add_sub_cancel_left]

/-- The levels together are as long as their sizes. -/
theorem sum_map_levelRanges (sizes : List Nat) :
    ((levelRanges sizes).map fun r ↦ r.2 - r.1).sum = sizes.sum := by
  rw [map_sub_levelRanges]

/-- The ranges of consecutive blocks of the given sizes from `start`. -/
def consecutiveRanges : Nat → List Nat → List (Nat × Nat)
  | _, [] => []
  | start, size :: sizes => (start, start + size) :: consecutiveRanges (start + size) sizes

@[simp] theorem length_consecutiveRanges (start : Nat) (sizes : List Nat) :
    (consecutiveRanges start sizes).length = sizes.length := by
  induction sizes generalizing start with
  | nil => rfl
  | cons size sizes ih => rw [consecutiveRanges, List.length_cons, List.length_cons, ih]

theorem consecutiveRanges_append_singleton (start : Nat) (sizes : List Nat) (size : Nat) :
    consecutiveRanges start (sizes ++ [size]) =
      consecutiveRanges start sizes ++ [(start + sizes.sum, start + sizes.sum + size)] := by
  induction sizes generalizing start with
  | nil => simp [consecutiveRanges]
  | cons s sizes ih =>
    rw [List.cons_append, consecutiveRanges, consecutiveRanges, ih, List.sum_cons, Nat.add_assoc,
      List.cons_append]

/-- The levels laid out from the top level down are the ranges of `levelRanges`. -/
theorem reverse_consecutiveRanges (sizes : List Nat) :
    (consecutiveRanges 0 sizes.reverse).reverse = levelRanges sizes := by
  induction sizes with
  | nil => rfl
  | cons size above ih =>
    rw [List.reverse_cons, consecutiveRanges_append_singleton, List.reverse_append, ih,
      List.sum_reverse, Nat.zero_add]
    rfl

/-- The `scan` lays the ranges out, or panics when the last end overflows. -/
theorem scanRanges_eq {start : Nat} (hstart : start < 2 ^ 64) (sizes : List Nat) :
    (scanRanges start sizes : Outcome ε (List (Nat × Nat))) =
      if start + sizes.sum < 2 ^ 64 then ok (consecutiveRanges start sizes) else panic := by
  induction sizes generalizing start with
  | nil =>
    rw [scanRanges, List.sum_nil, Nat.add_zero, if_pos hstart]
    rfl
  | cons size sizes ih =>
    rw [scanRanges, List.sum_cons]
    by_cases hstop : start + size < 2 ^ 64
    · rw [checkedAdd_of_lt hstop, ok_bind, ih hstop, ← Nat.add_assoc]
      split_ifs <;> rfl
    · rw [checkedAdd_of_le (Nat.le_of_not_lt hstop), panic_bind, if_neg (by omega)]

namespace Geometry

variable (g : Geometry)

/-- The block size. -/
def blockSize : Nat := 2 ^ g.log2BlockSize

theorem blockSize_pos : 0 < g.blockSize := Nat.two_pow_pos _

theorem blockSize_le : g.blockSize ≤ 2 ^ 63 :=
  Nat.pow_le_pow_right (by decide) (Nat.le_of_lt_succ g.log2BlockSize_lt)

theorem two_mul_digestSize_le_blockSize : 2 * g.digestSize ≤ g.blockSize := g.two_mul_digestSize_le

/-- `round_to_multiple` by the block size rounds up. -/
theorem roundToMultiple_blockSize {n : Nat} (h : n + g.blockSize < 2 ^ 64) :
    (roundToMultiple n g.blockSize : Outcome ε Nat) = ok (n ⌈/⌉ g.blockSize * g.blockSize) :=
  roundToMultiple_eq g.log2BlockSize_lt h

/-! ## The sizes of the levels -/

/-- The blocks the digests of `k` blocks take. -/
def hashBlocks (k : Nat) : Nat := k * g.digestSize ⌈/⌉ g.blockSize

/-- The bytes the digests of a level of `x` bytes take, in whole blocks. -/
def levelSize (x : Nat) : Nat := g.hashBlocks (x ⌈/⌉ g.blockSize) * g.blockSize

/-- Two digests to a block: the digests of `k` blocks take at most half as many. -/
theorem hashBlocks_le_half (k : Nat) : g.hashBlocks k ≤ k ⌈/⌉ 2 := by
  rw [hashBlocks, ceilDiv_le_iff_le_mul g.blockSize_pos]
  have hk : k ≤ 2 * (k ⌈/⌉ 2) := le_smul_ceilDiv Nat.zero_lt_two
  have hdouble : 2 * (k * g.digestSize) ≤ 2 * (g.blockSize * (k ⌈/⌉ 2)) :=
    calc 2 * (k * g.digestSize) = k * (2 * g.digestSize) := by rw [Nat.mul_left_comm]
      _ ≤ k * g.blockSize := Nat.mul_le_mul_left k g.two_mul_digestSize_le_blockSize
      _ ≤ 2 * (k ⌈/⌉ 2) * g.blockSize := Nat.mul_le_mul_right _ hk
      _ = 2 * (g.blockSize * (k ⌈/⌉ 2)) := by rw [Nat.mul_assoc, Nat.mul_comm (k ⌈/⌉ 2)]
  omega

/-- The blocks of the level above a level of `x` bytes. -/
theorem levelSize_ceilDiv (x : Nat) : g.levelSize x ⌈/⌉ g.blockSize = g.hashBlocks (x ⌈/⌉ g.blockSize) := by
  rw [levelSize, Nat.mul_comm, mul_ceilDiv g.blockSize_pos]

/-- The digests of a level fit in the level above. -/
theorem hashes_le_levelSize (x : Nat) : x ⌈/⌉ g.blockSize * g.digestSize ≤ g.levelSize x := by
  rw [levelSize, hashBlocks, Nat.mul_comm _ g.blockSize]
  exact le_smul_ceilDiv g.blockSize_pos

/-- A level above a level of more than one block is smaller than it. -/
theorem levelSize_lt {x : Nat} (hx : g.blockSize < x) : g.levelSize x < x := by
  have hblocks : 2 ≤ x ⌈/⌉ g.blockSize := (lt_ceilDiv_iff g.blockSize_pos).2 (by omega)
  have hhalf := g.hashBlocks_le_half (x ⌈/⌉ g.blockSize)
  have hle : (x ⌈/⌉ g.blockSize) ⌈/⌉ 2 ≤ x ⌈/⌉ g.blockSize - 1 :=
    (ceilDiv_le_iff_le_mul (by decide)).2 (by omega)
  have hbelow : g.blockSize * (x ⌈/⌉ g.blockSize - 1) < x :=
    (lt_ceilDiv_iff g.blockSize_pos).1 (by omega)
  calc g.levelSize x = g.hashBlocks (x ⌈/⌉ g.blockSize) * g.blockSize := rfl
    _ ≤ (x ⌈/⌉ g.blockSize - 1) * g.blockSize := Nat.mul_le_mul_right _ (hhalf.trans hle)
    _ < x := by rw [Nat.mul_comm]; exact hbelow

/-- The sizes of the levels above `x` bytes, bottom up: up to the first that fits in a block. -/
def levelSizes (x : Nat) : List Nat :=
  if _ : x ≤ g.blockSize then [] else g.levelSize x :: levelSizes (g.levelSize x)
termination_by x
decreasing_by exact g.levelSize_lt (by omega)

theorem levelSizes_of_le {x : Nat} (hx : x ≤ g.blockSize) : g.levelSizes x = [] := by
  rw [levelSizes, dif_pos hx]

theorem levelSizes_of_lt {x : Nat} (hx : g.blockSize < x) :
    g.levelSizes x = g.levelSize x :: g.levelSizes (g.levelSize x) := by
  rw [levelSizes, dif_neg (Nat.not_le.mpr hx)]

/-- The levels halve: over at most `2 ^ k` blocks there are at most `k` levels. -/
theorem length_levelSizes_le_of {x k : Nat} (hx : x ⌈/⌉ g.blockSize ≤ 2 ^ k) :
    (g.levelSizes x).length ≤ k := by
  induction k generalizing x with
  | zero =>
    have hle : x ≤ g.blockSize := by
      rw [Nat.pow_zero, ceilDiv_le_iff_le_mul g.blockSize_pos, Nat.mul_one] at hx
      exact hx
    rw [g.levelSizes_of_le hle]
    exact Nat.le_refl 0
  | succ k ih =>
    by_cases hle : x ≤ g.blockSize
    · rw [g.levelSizes_of_le hle]
      exact Nat.zero_le _
    · rw [g.levelSizes_of_lt (Nat.lt_of_not_le hle), List.length_cons]
      have habove : g.levelSize x ⌈/⌉ g.blockSize ≤ 2 ^ k := by
        rw [levelSize_ceilDiv]
        refine (g.hashBlocks_le_half _).trans ((ceilDiv_le_iff_le_mul (by decide)).2 ?_)
        rw [← Nat.pow_succ']
        exact hx
      exact Nat.succ_le_succ (ih habove)

/-- Over fewer than `2 ^ 64` bytes there are at most 64 levels. -/
theorem length_levelSizes_le {x : Nat} (hx : x < 2 ^ 64) : (g.levelSizes x).length ≤ 64 :=
  g.length_levelSizes_le_of ((ceilDiv_le_iff_le_mul g.blockSize_pos).2
    (Nat.le_trans (Nat.le_of_lt hx) (Nat.le_mul_of_pos_left _ g.blockSize_pos)))

theorem getElem_levelSizes_zero {x : Nat} (h : 0 < (g.levelSizes x).length) :
    (g.levelSizes x)[0] = g.levelSize x := by
  by_cases hle : x ≤ g.blockSize
  · simp [g.levelSizes_of_le hle] at h
  · simp only [g.levelSizes_of_lt (Nat.lt_of_not_le hle), List.getElem_cons_zero]

/-- Each level is the level of the digests of the one below. -/
theorem getElem_levelSizes_succ {x i : Nat} (h : i + 1 < (g.levelSizes x).length) :
    (g.levelSizes x)[i + 1] = g.levelSize (g.levelSizes x)[i] := by
  induction i generalizing x with
  | zero =>
    by_cases hle : x ≤ g.blockSize
    · simp [g.levelSizes_of_le hle] at h
    · simp only [g.levelSizes_of_lt (Nat.lt_of_not_le hle), List.getElem_cons_succ,
        List.getElem_cons_zero]
      exact g.getElem_levelSizes_zero _
  | succ i ih =>
    by_cases hle : x ≤ g.blockSize
    · simp [g.levelSizes_of_le hle] at h
    · simp only [g.levelSizes_of_lt (Nat.lt_of_not_le hle), List.getElem_cons_succ]
      exact ih _

/-! ## `calc_hash_levels` -/

/-- The loop of `calc_hash_levels` pushes the sizes of the levels above its last input. -/
theorem levelSizesLoop_eq {n x : Nat} {acc : List Nat} (hacc : acc.getLast?.getD n = x)
    (hx : x + g.blockSize < 2 ^ 64)
    (hcap : acc.length + (g.levelSizes x).length ≤ usizeVecCapacity) :
    (levelSizesLoop n g.blockSize g.digestSize acc : Outcome ε (List Nat)) =
      ok (acc ++ g.levelSizes x) := by
  induction x using Nat.strong_induction_on generalizing acc with
  | _ x ih =>
  rw [levelSizesLoop, hacc]
  by_cases hle : x ≤ g.blockSize
  · rw [if_pos hle, g.levelSizes_of_le hle, List.append_nil, pure_eq]
  have hlt : g.blockSize < x := Nat.lt_of_not_le hle
  rw [g.levelSizes_of_lt hlt] at hcap ⊢
  rw [List.length_cons] at hcap
  have hblocks : x ⌈/⌉ g.blockSize * g.blockSize ≤ x + g.blockSize - 1 := by
    rw [Nat.ceilDiv_eq_add_pred_div]
    exact Nat.div_mul_le_self _ _
  have hdigests : 2 * (x ⌈/⌉ g.blockSize * g.digestSize) ≤ x ⌈/⌉ g.blockSize * g.blockSize := by
    rw [Nat.mul_left_comm]
    exact Nat.mul_le_mul_left _ g.two_mul_digestSize_le_blockSize
  have hbs := g.blockSize_le
  have hpos := g.blockSize_pos
  have hmul : x ⌈/⌉ g.blockSize * g.digestSize < 2 ^ 64 := by omega
  have hround : x ⌈/⌉ g.blockSize * g.digestSize + g.blockSize < 2 ^ 64 := by omega
  have hstep := g.levelSize_lt hlt
  rw [if_neg hle, checkedAdd_of_lt hx, ok_bind, checkedSub_of_le (by omega), ok_bind,
    checkedDiv_of_pos hpos, ok_bind, ← Nat.ceilDiv_eq_add_pred_div, checkedMul_of_lt hmul, ok_bind,
    g.roundToMultiple_blockSize hround, ok_bind, dif_pos (by omega)]
  have hacc' : (acc ++ [g.levelSize x]).getLast?.getD n = g.levelSize x := by simp
  have hcap' : (acc ++ [g.levelSize x]).length + (g.levelSizes (g.levelSize x)).length ≤
      usizeVecCapacity := by
    rw [List.length_append, List.length_singleton]
    omega
  show levelSizesLoop n g.blockSize g.digestSize (acc ++ [g.levelSize x]) = _
  rw [ih (g.levelSize x) hstep hacc' (by omega) hcap', List.append_assoc, List.singleton_append]

/-- `calc_hash_levels` lays out the levels over `n` bytes, and panics exactly when the tree
would not fit in `usize`. -/
theorem calcHashLevels_eq {n : Nat} (hn : g.blockSize < n → n + g.blockSize < 2 ^ 64) :
    (calcHashLevels n g.blockSize g.digestSize : Outcome ε (List (Nat × Nat))) =
      if (g.levelSizes n).sum < 2 ^ 64 then ok (levelRanges (g.levelSizes n)) else panic := by
  by_cases hle : n ≤ g.blockSize
  · rw [calcHashLevels_of_le hle, g.levelSizes_of_le hle, List.sum_nil,
      if_pos (Nat.two_pow_pos 64)]
    rfl
  replace hn := hn (Nat.lt_of_not_le hle)
  have hlen := g.length_levelSizes_le (show n < 2 ^ 64 by omega)
  have hcap : ([] : List Nat).length + (g.levelSizes n).length ≤ usizeVecCapacity := by
    rw [List.length_nil, Nat.zero_add]
    exact hlen.trans (by decide)
  have hloop : (levelSizesLoop n g.blockSize g.digestSize [] : Outcome ε (List Nat)) =
      ok (g.levelSizes n) := by
    rw [g.levelSizesLoop_eq (rfl : ([] : List Nat).getLast?.getD n = n) hn hcap, List.nil_append]
    rfl
  rw [calcHashLevels, hloop, ok_bind, scanRanges_eq (by decide), List.sum_reverse, Nat.zero_add]
  split_ifs with hsum
  · have hcap : ¬rangeVecCapacity < (consecutiveRanges 0 (g.levelSizes n).reverse).length := by
      rw [length_consecutiveRanges, List.length_reverse, rangeVecCapacity]
      exact Nat.not_lt.mpr (hlen.trans (by decide))
    rw [ok_bind, if_neg hcap]
    show ok (consecutiveRanges 0 (g.levelSizes n).reverse).reverse = _
    rw [reverse_consecutiveRanges]
  · rw [panic_bind]

/-! ## What the writes need of the layout -/

/-- The ranges of the levels over `n` bytes, level 0 first, fit the writes of
`generate_hash_tree`: a level takes the fewest whole blocks that hold the digests of the blocks of
the level below (of the input, at level 0), and the levels lie end to end, from the top level at
the start of the tree down to level 0. -/
structure Fits (n : Nat) (ranges : List (Nat × Nat)) : Prop where
  nonempty_iff : 0 < ranges.length ↔ g.blockSize < n
  fst_le_snd : ∀ (i : Nat) (hi : i < ranges.length), ranges[i].1 ≤ ranges[i].2
  dvd_size : ∀ (i : Nat) (hi : i < ranges.length), g.blockSize ∣ ranges[i].2 - ranges[i].1
  size_zero : ∀ h : 0 < ranges.length,
    ranges[0].2 - ranges[0].1 = (n ⌈/⌉ g.blockSize * g.digestSize) ⌈/⌉ g.blockSize * g.blockSize
  size_succ : ∀ (i : Nat) (hi : i + 1 < ranges.length),
    ranges[i + 1].2 - ranges[i + 1].1 =
      (((ranges.get ⟨i, Nat.lt_of_succ_lt hi⟩).2 - (ranges.get ⟨i, Nat.lt_of_succ_lt hi⟩).1) /
        g.blockSize * g.digestSize) ⌈/⌉ g.blockSize * g.blockSize
  contiguous : ∀ (i : Nat) (hi : i + 1 < ranges.length),
    ranges[i + 1].2 = (ranges.get ⟨i, Nat.lt_of_succ_lt hi⟩).1
  top_zero : ∀ h : 0 < ranges.length, ranges[ranges.length - 1].1 = 0

theorem dvd_levelSize (x : Nat) : g.blockSize ∣ g.levelSize x := Dvd.intro_left _ rfl

/-- Every level is whole blocks. -/
theorem dvd_getElem_levelSizes {x i : Nat} (h : i < (g.levelSizes x).length) :
    g.blockSize ∣ (g.levelSizes x)[i] := by
  cases i with
  | zero =>
    rw [g.getElem_levelSizes_zero h]
    exact g.dvd_levelSize x
  | succ i =>
    rw [g.getElem_levelSizes_succ h]
    exact g.dvd_levelSize _

/-- On whole blocks the level above counts the blocks exactly. -/
theorem levelSize_of_dvd {x : Nat} (hx : g.blockSize ∣ x) :
    g.levelSize x = (x / g.blockSize * g.digestSize) ⌈/⌉ g.blockSize * g.blockSize := by
  obtain ⟨k, rfl⟩ := hx
  rw [levelSize, hashBlocks, mul_ceilDiv g.blockSize_pos, Nat.mul_div_cancel_left _ g.blockSize_pos]

/-- The ranges of `levelRanges` over the sizes of the levels fit the writes. -/
theorem fits_levelRanges (n : Nat) : g.Fits n (levelRanges (g.levelSizes n)) where
  nonempty_iff := by
    rw [length_levelRanges]
    by_cases hle : n ≤ g.blockSize
    · rw [g.levelSizes_of_le hle, List.length_nil]
      omega
    · rw [g.levelSizes_of_lt (Nat.lt_of_not_le hle), List.length_cons]
      omega
  fst_le_snd i hi := (levelRanges_sub _ hi).2
  dvd_size i hi := by
    rw [(levelRanges_sub _ hi).1, List.get_eq_getElem]
    exact g.dvd_getElem_levelSizes _
  size_zero h := by
    rw [(levelRanges_sub _ h).1, List.get_eq_getElem, g.getElem_levelSizes_zero]
    rfl
  size_succ i hi := by
    have hi' : i < (levelRanges (g.levelSizes n)).length := by omega
    simp only [List.get_eq_getElem]
    rw [(levelRanges_sub _ hi).1, (levelRanges_sub _ hi').1, List.get_eq_getElem,
      List.get_eq_getElem, g.getElem_levelSizes_succ,
      g.levelSize_of_dvd (g.dvd_getElem_levelSizes _)]
  contiguous i hi := levelRanges_snd_succ _ hi
  top_zero h := (levelRanges_bounds _ h).1

end Geometry

end Virtualization.Idsig
