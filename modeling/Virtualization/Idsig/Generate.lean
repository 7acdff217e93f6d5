import Virtualization.Idsig.Layout

/-!
# `generate_hash_tree` writes every level inside its range

Level 0 writes one digest for each block of the zero-padded input through a cursor over its
range, and each level above one digest for each block of the level below.  Over the ranges of
`calc_hash_levels` every digest fits in its level, because a level holds the digests of the level
below rounded up to whole blocks (`Geometry.hashes_le_levelSize`): no `write_all(..).unwrap()`
fails, no slice is out of range, and the tree keeps its length.  So `generate_hash_tree` never
panics while the tree fits in a `Vec`.  It reads `num_blocks` whole blocks of the input chained
with its padding, so over more than a block it returns only from an input that holds as many
bytes as it was told (`generateHashTree_eq_ok`).
-/

namespace Virtualization.Idsig

open Outcome

variable {ε : Type} (salt : List UInt8) (algorithm : Algorithm)

/-! ## Reading the input -/

/-- `read_exact` returns as many bytes as it was asked for. -/
theorem chainReadExact_ensures (n : Nat) (s : List UInt8 × List UInt8) :
    (chainReadExact n).Ensures s fun b _ ↦ b.length = n := by
  obtain ⟨first, second⟩ := s
  unfold chainReadExact Stateful.Ensures
  dsimp only [Stateful.step_apply]
  split_ifs with h1 h2
  · exact List.length_take_of_le h1
  · dsimp only
    rw [List.length_append, List.length_take]
    omega
  · trivial

/-- A call on the chain ensures what it ensures of the input it leaves. -/
theorem withChain_ensures {α : Type} {second input : List UInt8}
    {x : Stateful (List UInt8 × List UInt8) IoError α} {Q : α → List UInt8 → Prop}
    (hx : x.Ensures (input, second) fun a st ↦ Q a st.1) : (withChain second x).Ensures input Q := by
  unfold Stateful.Ensures at hx ⊢
  unfold withChain
  rcases hrun : x (input, second) with ⟨r, input', second'⟩ | e | _
  · rw [hrun] at hx
    cases r with
    | ok a => exact hx
    | error e => trivial
  · exact e.elim
  · rw [hrun] at hx
    exact hx.elim

/-- `read_exact` on the chain takes `n` bytes from it. -/
theorem chainReadExact_eq_ok {n : Nat} {s s' : List UInt8 × List UInt8} {b : List UInt8}
    (h : chainReadExact n s = .ok (.ok b, s')) :
    s'.1.length + s'.2.length + n = s.1.length + s.2.length := by
  obtain ⟨first, second⟩ := s
  unfold chainReadExact at h
  dsimp only [Stateful.step_apply] at h
  split_ifs at h with h1 h2
  · cases h
    dsimp only
    rw [List.length_drop]
    omega
  · cases h
    dsimp only
    rw [List.length_nil, List.length_drop]
    omega
  · cases h

/-- A call on the chain that returned left the chain at what the input has left. -/
theorem withChain_eq_ok {α : Type} {second input input' : List UInt8}
    {x : Stateful (List UInt8 × List UInt8) IoError α} {a : α}
    (h : withChain second x input = .ok (.ok a, input')) :
    ∃ second', x (input, second) = .ok (.ok a, (input', second')) := by
  unfold withChain at h
  split at h
  · rename_i r input'' second'' hx
    cases h
    exact ⟨second'', hx⟩
  · rename_i e _
    exact e.elim
  · cases h

/-! ## The level loops -/

/-- The loop of level 0 writes one digest a block: while the digests fit in the cursor's range
it never panics, and the tree keeps its length. -/
theorem hashInputBlocks_ensures {blockSize : Nat} (hmax : blockSize ≤ isizeMax) (k : Nat) :
    ∀ (tree : List UInt8) (c : Cursor) (s : List UInt8 × List UInt8),
      c.pos + k * algorithm.outputLen ≤ c.bound →
      (hashInputBlocks salt blockSize algorithm k (tree, c)).Ensures s
        fun r _ ↦ r.1.length = tree.length := by
  induction k with
  | zero =>
    intro tree c s _
    rw [hashInputBlocks, Stateful.ensures_pure]
  | succ k ih =>
    intro tree c s hfit
    rw [Nat.succ_mul] at hfit
    rw [hashInputBlocks]
    refine (chainReadExact_ensures _ s).bind fun aBlock s' hlen ↦ ?_
    have hdigest : c.pos + (algorithm.digest (salt ++ aBlock.rightpad blockSize 0)).length ≤
        c.bound := by
      rw [algorithm.length_digest]
      omega
    rw [hashOneBlock_of_le algorithm (Nat.le_of_eq hlen) hmax, Stateful.lift_ok_bind,
      writeAllUnwrap_of_le hdigest, Stateful.lift_ok_bind]
    have hnext : c.pos + (algorithm.digest (salt ++ aBlock.rightpad blockSize 0)).length +
        k * algorithm.outputLen ≤ c.bound := by
      rw [algorithm.length_digest]
      omega
    refine (ih _ _ s' hnext).mono fun r _ hr ↦ ?_
    rw [hr, length_overwrite]

/-- The loop of a level above writes one digest a block of the level below. -/
theorem hashLevelBlocks_ensures {blockSize : Nat} (hmax : blockSize ≤ isizeMax)
    (blocks : List (List UInt8)) :
    ∀ (tree : List UInt8) (c : Cursor), (∀ b ∈ blocks, b.length ≤ blockSize) →
      c.pos + blocks.length * algorithm.outputLen ≤ c.bound →
      (hashLevelBlocks salt blockSize algorithm blocks (tree, c) : Outcome ε _).Ensures
        fun r ↦ r.1.length = tree.length := by
  induction blocks with
  | nil =>
    intro tree c _ _
    rw [hashLevelBlocks, pure_eq, ensures_ok]
  | cons data blocks ih =>
    intro tree c hblocks hfit
    rw [List.length_cons, Nat.succ_mul] at hfit
    have hdigest : c.pos + (algorithm.digest (salt ++ data.rightpad blockSize 0)).length ≤
        c.bound := by
      rw [algorithm.length_digest]
      omega
    rw [hashLevelBlocks, hashOneBlock_of_le algorithm (hblocks data List.mem_cons_self) hmax,
      ok_bind, writeAllUnwrap_of_le hdigest, ok_bind]
    have hnext : c.pos + (algorithm.digest (salt ++ data.rightpad blockSize 0)).length +
        blocks.length * algorithm.outputLen ≤ c.bound := by
      rw [algorithm.length_digest]
      omega
    refine (ih _ _ (fun b hb ↦ hblocks b (List.mem_cons_of_mem _ hb)) hnext).mono fun r hr ↦ ?_
    rw [hr, length_overwrite]

/-- The loop of level 0 takes a block from the chain for each block it hashes. -/
theorem hashInputBlocks_eq_ok {blockSize : Nat} (k : Nat) :
    ∀ {tc r : List UInt8 × Cursor} {s s' : List UInt8 × List UInt8},
      hashInputBlocks salt blockSize algorithm k tc s = .ok (.ok r, s') →
      s'.1.length + s'.2.length + k * blockSize = s.1.length + s.2.length := by
  induction k with
  | zero =>
    intro tc r s s' h
    rw [hashInputBlocks, Stateful.pure_apply] at h
    cases h
    rw [Nat.zero_mul, Nat.add_zero]
  | succ k ih =>
    intro tc r s s' h
    obtain ⟨tree, c⟩ := tc
    rw [hashInputBlocks] at h
    obtain ⟨aBlock, s₁, hread, h⟩ := Stateful.bind_eq_ok.1 h
    obtain ⟨_, -, h⟩ := Stateful.lift_bind_eq_ok.1 h
    obtain ⟨_, -, h⟩ := Stateful.lift_bind_eq_ok.1 h
    have hrest := ih h
    have hblock := chainReadExact_eq_ok hread
    rw [Nat.succ_mul]
    omega

/-! ## One level -/

section Level

variable (g : Geometry)

/-- A level over more than a block needs a block size of at most `isize::MAX`. -/
theorem Geometry.blockSize_le_isizeMax {n : Nat} (hlt : g.blockSize < n)
    (hn : n + g.blockSize < 2 ^ 64) : g.blockSize ≤ isizeMax := by
  rw [isizeMax]
  omega

/-- Level 0 over a range that holds the digests of the input's blocks. -/
theorem hashLevel0_ensures (halg : algorithm.outputLen = g.digestSize) {inputSize : Nat}
    (hn : inputSize + g.blockSize < 2 ^ 64) (hmax : g.blockSize ≤ isizeMax) {cur : Nat × Nat}
    {tree : List UInt8} (hcur : cur.1 ≤ cur.2) (hend : cur.2 ≤ tree.length)
    (hfit : inputSize ⌈/⌉ g.blockSize * g.digestSize ≤ cur.2 - cur.1) (input : List UInt8) :
    (hashLevel0 inputSize salt g.blockSize algorithm cur tree).Ensures input
      fun t _ ↦ t.length = tree.length := by
  have hpos := g.blockSize_pos
  have hround : inputSize ≤ inputSize ⌈/⌉ g.blockSize * g.blockSize := by
    rw [Nat.mul_comm]
    exact le_smul_ceilDiv hpos
  have hblocks : inputSize ⌈/⌉ g.blockSize * g.blockSize ≤ inputSize + g.blockSize - 1 := by
    rw [Nat.ceilDiv_eq_add_pred_div]
    exact Nat.div_mul_le_self _ _
  have hpad : inputSize ⌈/⌉ g.blockSize * g.blockSize - inputSize ≤ isizeMax := by omega
  rw [hashLevel0, g.roundToMultiple_blockSize hn, Stateful.lift_ok_bind, checkedSub_of_le hround,
    Stateful.lift_ok_bind, vecZeroed_of_le hpad, Stateful.lift_ok_bind, slice_of_le hcur hend,
    Stateful.lift_ok_bind, vecZeroed_of_le hmax, Stateful.lift_ok_bind, checkedAdd_of_lt hn,
    ok_bind, checkedSub_of_le (by omega), ok_bind, checkedDiv_of_pos hpos,
    ← Nat.ceilDiv_eq_add_pred_div, Stateful.lift_ok_bind]
  have hwrite : cur.1 + inputSize ⌈/⌉ g.blockSize * algorithm.outputLen ≤ cur.2 := by
    rw [halg]
    omega
  refine (withChain_ensures (Q := fun r _ ↦ r.1.length = tree.length)
    (hashInputBlocks_ensures salt algorithm hmax _ tree ⟨cur.1, cur.2⟩ _ hwrite)).bind ?_
  rintro ⟨t, c⟩ _ ht
  exact ht

/-- A level above, over a range `cur` that ends where the range `prev` of the level below starts
and holds the digests of its blocks. -/
theorem hashLevel_ensures (halg : algorithm.outputLen = g.digestSize)
    (hmax : g.blockSize ≤ isizeMax) {prev cur : Nat × Nat} {tree : List UInt8}
    (hcur : cur.1 ≤ cur.2) (hcont : cur.2 = prev.1) (hprev : prev.1 ≤ prev.2)
    (hend : prev.2 ≤ tree.length)
    (hfit : (prev.2 - prev.1) ⌈/⌉ g.blockSize * g.digestSize ≤ cur.2 - cur.1) :
    (hashLevel salt g.blockSize algorithm prev cur tree : Outcome ε _).Ensures
      fun t ↦ t.length = tree.length := by
  have hlen : ((tree.drop cur.1).take (prev.2 - cur.1)).length = prev.2 - cur.1 := by
    rw [List.length_take, List.length_drop]
    omega
  have hsplit : ¬((tree.drop cur.1).take (prev.2 - cur.1)).length < prev.1 - cur.1 := by
    rw [hlen]
    omega
  have hbelow : (((tree.drop cur.1).take (prev.2 - cur.1)).drop (prev.1 - cur.1)).length =
      prev.2 - prev.1 := by
    rw [List.length_drop, hlen]
    omega
  rw [hashLevel, slice_of_le (by omega) hend, ok_bind, checkedSub_of_le (by omega), ok_bind,
    if_neg hsplit]
  beta_reduce
  rw [sliceChunks_of_pos _ g.blockSize_pos, ok_bind]
  have hwrite : cur.1 + (chunks g.blockSize
      (((tree.drop cur.1).take (prev.2 - cur.1)).drop (prev.1 - cur.1))).length *
        algorithm.outputLen ≤ cur.1 + (prev.1 - cur.1) := by
    rw [length_chunks, hbelow, halg]
    omega
  refine (hashLevelBlocks_ensures salt algorithm hmax _ tree ⟨cur.1, cur.1 + (prev.1 - cur.1)⟩
    (fun b hb ↦ length_le_of_mem_chunks hb) hwrite).bind ?_
  rintro ⟨t, c⟩ ht
  exact ht

/-- Level 0 returns only from an input that holds `input_size` bytes: it reads the input and
the padding to whole blocks, `num_blocks` blocks in all. -/
theorem hashLevel0_eq_ok {inputSize : Nat} (hn : inputSize + g.blockSize < 2 ^ 64)
    {cur : Nat × Nat} {tree input t input' : List UInt8}
    (h : hashLevel0 inputSize salt g.blockSize algorithm cur tree input = .ok (.ok t, input')) :
    inputSize ≤ input.length := by
  have hpos := g.blockSize_pos
  have hround : inputSize ≤ inputSize ⌈/⌉ g.blockSize * g.blockSize := by
    rw [Nat.mul_comm]
    exact le_smul_ceilDiv hpos
  have hblocks : inputSize ⌈/⌉ g.blockSize * g.blockSize ≤ inputSize + g.blockSize - 1 := by
    rw [Nat.ceilDiv_eq_add_pred_div]
    exact Nat.div_mul_le_self _ _
  have hpad : inputSize ⌈/⌉ g.blockSize * g.blockSize - inputSize ≤ isizeMax := by
    have := g.blockSize_le
    rw [isizeMax]
    omega
  rw [hashLevel0, g.roundToMultiple_blockSize hn, Stateful.lift_ok_bind, checkedSub_of_le hround,
    Stateful.lift_ok_bind, vecZeroed_of_le hpad, Stateful.lift_ok_bind] at h
  obtain ⟨_, -, h⟩ := Stateful.lift_bind_eq_ok.1 h
  obtain ⟨_, -, h⟩ := Stateful.lift_bind_eq_ok.1 h
  rw [checkedAdd_of_lt hn, ok_bind, checkedSub_of_le (by omega), ok_bind, checkedDiv_of_pos hpos,
    ← Nat.ceilDiv_eq_add_pred_div, Stateful.lift_ok_bind] at h
  obtain ⟨_, input'', hchain, -⟩ := Stateful.bind_eq_ok.1 h
  obtain ⟨second, hloop⟩ := withChain_eq_ok hchain
  have hread := hashInputBlocks_eq_ok salt algorithm _ hloop
  dsimp only at hread
  rw [List.length_replicate] at hread
  omega

end Level

/-! ## The whole tree -/

/-- The tree is as long as its levels together. -/
theorem treeSize_levelRanges {sizes : List Nat} (acc : Nat) (h : acc + sizes.sum < 2 ^ 64) :
    ((levelRanges sizes).foldlM (fun total r ↦ checkedAdd 64 total (r.2 - r.1)) acc :
      Outcome ε Nat) = ok (acc + sizes.sum) := by
  induction sizes generalizing acc with
  | nil => rfl
  | cons size above ih =>
    rw [List.sum_cons] at h
    have hsize : (above.sum, above.sum + size).2 - (above.sum, above.sum + size).1 = size := by
      simp
    rw [levelRanges, List.foldlM_cons, hsize, checkedAdd_of_lt (by omega), ok_bind,
      ih (acc + size) (by omega), List.sum_cons, Nat.add_assoc]

section Levels

variable (g : Geometry)

/-- The loop over the levels, from level `i` on, keeps the tree's length. -/
theorem hashLevels_ensures (halg : algorithm.outputLen = g.digestSize) {inputSize : Nat}
    (hn : g.blockSize < inputSize → inputSize + g.blockSize < 2 ^ 64) (rest : List (Nat × Nat)) :
    ∀ (i : Nat) (tree input : List UInt8),
      (levelRanges (g.levelSizes inputSize)).drop i = rest →
      tree.length = (g.levelSizes inputSize).sum →
      (hashLevels inputSize salt g.blockSize algorithm (levelRanges (g.levelSizes inputSize)) i
        rest tree).Ensures input fun t _ ↦ t.length = (g.levelSizes inputSize).sum := by
  induction rest with
  | nil =>
    intro i tree input _ htree
    rw [hashLevels, Stateful.ensures_pure]
    exact htree
  | cons cur rest ih =>
    intro i tree input hdrop htree
    have hi : i < (levelRanges (g.levelSizes inputSize)).length := by
      by_contra hge
      rw [List.drop_eq_nil_of_le (Nat.le_of_not_lt hge)] at hdrop
      exact List.cons_ne_nil cur rest hdrop.symm
    rw [List.drop_eq_getElem_cons hi, List.cons.injEq] at hdrop
    obtain ⟨rfl, hrest⟩ := hdrop
    have hfits := g.fits_levelRanges inputSize
    have hlt : g.blockSize < inputSize := hfits.nonempty_iff.1 (by omega)
    have hmax := g.blockSize_le_isizeMax hlt (hn hlt)
    have hend : (levelRanges (g.levelSizes inputSize))[i].2 ≤ tree.length := by
      rw [htree]
      exact levelRanges_snd_le _ hi
    have hnext : ∀ t s', t.length = tree.length →
        (hashLevels inputSize salt g.blockSize algorithm (levelRanges (g.levelSizes inputSize))
          (i + 1) rest t).Ensures s' fun t _ ↦ t.length = (g.levelSizes inputSize).sum :=
      fun t s' ht ↦ ih (i + 1) t s' hrest (ht.trans htree)
    rw [hashLevels]
    cases i with
    | zero =>
      rw [if_pos rfl]
      have hfit : inputSize ⌈/⌉ g.blockSize * g.digestSize ≤
          (levelRanges (g.levelSizes inputSize))[0].2 -
            (levelRanges (g.levelSizes inputSize))[0].1 := by
        rw [(levelRanges_sub _ hi).1, List.get_eq_getElem, g.getElem_levelSizes_zero]
        exact g.hashes_le_levelSize inputSize
      exact (hashLevel0_ensures salt algorithm g halg (hn hlt) hmax (hfits.fst_le_snd 0 hi) hend
        hfit input).bind hnext
    | succ j =>
      have hj : j < (levelRanges (g.levelSizes inputSize)).length := by omega
      have hend' : (levelRanges (g.levelSizes inputSize))[j].2 ≤ tree.length := by
        rw [htree]
        exact levelRanges_snd_le _ hj
      have hfit : ((levelRanges (g.levelSizes inputSize))[j].2 -
            (levelRanges (g.levelSizes inputSize))[j].1) ⌈/⌉ g.blockSize * g.digestSize ≤
          (levelRanges (g.levelSizes inputSize))[j + 1].2 -
            (levelRanges (g.levelSizes inputSize))[j + 1].1 := by
        rw [(levelRanges_sub _ hi).1, (levelRanges_sub _ hj).1, List.get_eq_getElem,
          List.get_eq_getElem, g.getElem_levelSizes_succ]
        exact g.hashes_le_levelSize _
      rw [if_neg (Nat.succ_ne_zero j), Nat.add_sub_cancel, List.getElem?_eq_getElem hj,
        expect_some, ok_bind]
      have hlevel := hashLevel_ensures (ε := IoError) salt algorithm g halg hmax
        (hfits.fst_le_snd _ hi) (hfits.contiguous j hi) (hfits.fst_le_snd j hj) hend' hfit
      exact (Stateful.ensures_lift (Q := fun t _ ↦ t.length = tree.length) hlevel).bind hnext

/-- `generate_hash_tree` hashes every level into a tree as long as its levels, without a
panic, when that fits in a `Vec`; it may fail reading an input shorter than it was told. -/
theorem generateHashTree_ensures (halg : algorithm.outputLen = g.digestSize) {inputSize : Nat}
    (hn : g.blockSize < inputSize → inputSize + g.blockSize < 2 ^ 64)
    (hsize : (g.levelSizes inputSize).sum ≤ isizeMax) (input : List UInt8) :
    (generateHashTree inputSize salt g.blockSize algorithm).Ensures input
      fun t _ ↦ t.length = (g.levelSizes inputSize).sum := by
  have hsum : (g.levelSizes inputSize).sum < 2 ^ 64 := by
    rw [isizeMax] at hsize
    omega
  have htree : (treeSize (levelRanges (g.levelSizes inputSize)) : Outcome IoError Nat) =
      ok (g.levelSizes inputSize).sum := by
    rw [treeSize, treeSize_levelRanges 0 (by omega), Nat.zero_add]
  rw [generateHashTree, halg, g.calcHashLevels_eq hn, if_pos hsum, Stateful.lift_ok_bind, htree,
    Stateful.lift_ok_bind, vecZeroed_of_le hsize, Stateful.lift_ok_bind]
  exact hashLevels_ensures salt algorithm g halg hn _ 0 _ input List.drop_zero
    List.length_replicate

/-- Over more than a block, `generate_hash_tree` returns only from an input that holds
`input_size` bytes. -/
theorem generateHashTree_eq_ok (halg : algorithm.outputLen = g.digestSize)
    {inputSize : Nat} (hlt : g.blockSize < inputSize) {input t input' : List UInt8}
    (h : generateHashTree inputSize salt g.blockSize algorithm input = .ok (.ok t, input')) :
    inputSize ≤ input.length := by
  by_cases hn : inputSize + g.blockSize < 2 ^ 64
  · rw [generateHashTree, halg, g.calcHashLevels_eq fun _ ↦ hn] at h
    obtain ⟨levels, hlevels, h⟩ := Stateful.lift_bind_eq_ok.1 h
    split_ifs at hlevels with hsum
    cases hlevels
    obtain ⟨_, -, h⟩ := Stateful.lift_bind_eq_ok.1 h
    obtain ⟨hashTree, -, h⟩ := Stateful.lift_bind_eq_ok.1 h
    rw [g.levelSizes_of_lt hlt, levelRanges, hashLevels, if_pos rfl] at h
    obtain ⟨_, _, h0, -⟩ := Stateful.bind_eq_ok.1 h
    exact hashLevel0_eq_ok salt algorithm g hn h0
  · rw [generateHashTree, calcHashLevels_of_overflow hlt (Nat.le_of_not_lt hn)] at h
    obtain ⟨_, hpanic, -⟩ := Stateful.lift_bind_eq_ok.1 h
    cases hpanic

/-- Where the tree would pass `isize::MAX` bytes, `vec![0u8; size]` panics, or the sum of the
sizes overflows first. -/
theorem generateHashTree_of_lt (halg : algorithm.outputLen = g.digestSize) {inputSize : Nat}
    (hn : g.blockSize < inputSize → inputSize + g.blockSize < 2 ^ 64)
    (hbig : isizeMax < (g.levelSizes inputSize).sum) (input : List UInt8) :
    generateHashTree inputSize salt g.blockSize algorithm input = .panic := by
  rw [generateHashTree, halg, g.calcHashLevels_eq hn]
  by_cases hsum : (g.levelSizes inputSize).sum < 2 ^ 64
  · have htree : (treeSize (levelRanges (g.levelSizes inputSize)) : Outcome IoError Nat) =
        ok (g.levelSizes inputSize).sum := by
      rw [treeSize, treeSize_levelRanges 0 (by omega), Nat.zero_add]
    rw [if_pos hsum, Stateful.lift_ok_bind, htree, Stateful.lift_ok_bind, vecZeroed_of_lt hbig]
    rfl
  · rw [if_neg hsum]
    rfl

end Levels

/-- For a block size of a power of two that holds two digests, `generate_hash_tree` over `n`
bytes either lays the levels out so that every write fits, and hashes them into a tree as long
as the levels without a panic, or panics before it writes anything: in `calc_hash_levels` when
`n + block_size` overflows, and at `vec![0u8; size]` when the tree would pass `isize::MAX`
bytes. -/
theorem generateHashTree_writes_fit (g : Geometry) (salt : List UInt8) (algorithm : Algorithm)
    (halg : algorithm.outputLen = g.digestSize) (n : Nat) :
    if (g.blockSize < n → n + g.blockSize < 2 ^ 64) ∧ (g.levelSizes n).sum ≤ isizeMax then
      ∃ ranges, (calcHashLevels n g.blockSize g.digestSize : Outcome IoError _) = ok ranges ∧
        g.Fits n ranges ∧
        ∀ input, (generateHashTree n salt g.blockSize algorithm).Ensures input
          fun t _ ↦ t.length = (ranges.map fun r ↦ r.2 - r.1).sum
    else ∀ input, generateHashTree n salt g.blockSize algorithm input = .panic := by
  split_ifs with h
  · obtain ⟨hn, hsize⟩ := h
    have hsum : (g.levelSizes n).sum < 2 ^ 64 := by
      rw [isizeMax] at hsize
      omega
    refine ⟨levelRanges (g.levelSizes n), ?_, g.fits_levelRanges n, fun input ↦ ?_⟩
    · rw [g.calcHashLevels_eq hn, if_pos hsum]
    · rw [sum_map_levelRanges]
      exact generateHashTree_ensures salt algorithm g halg hn hsize input
  · intro input
    by_cases hn : g.blockSize < n → n + g.blockSize < 2 ^ 64
    · exact generateHashTree_of_lt salt algorithm g halg hn
        (Nat.lt_of_not_le fun hsize ↦ h ⟨hn, hsize⟩) input
    · obtain ⟨hlt, hover⟩ := Classical.not_imp.1 hn
      rw [generateHashTree, calcHashLevels_of_overflow hlt (Nat.le_of_not_lt hover)]
      rfl

theorem generateHashTree_writes_fit_10000 :
    (Algorithm.mk 32 64 (fun _ ↦ List.replicate 32 0) fun _ ↦ List.length_replicate).outputLen =
        (Geometry.mk 12 32 (by decide) (by decide)).digestSize ∧
      if ((Geometry.mk 12 32 (by decide) (by decide)).blockSize < 10000 →
            10000 + (Geometry.mk 12 32 (by decide) (by decide)).blockSize < 2 ^ 64) ∧
          ((Geometry.mk 12 32 (by decide) (by decide)).levelSizes 10000).sum ≤ isizeMax then
        ∃ ranges, (calcHashLevels 10000 (Geometry.mk 12 32 (by decide) (by decide)).blockSize
            (Geometry.mk 12 32 (by decide) (by decide)).digestSize : Outcome IoError _) =
              ok ranges ∧
          (Geometry.mk 12 32 (by decide) (by decide)).Fits 10000 ranges ∧
          ∀ input, (generateHashTree 10000 []
              (Geometry.mk 12 32 (by decide) (by decide)).blockSize
              (Algorithm.mk 32 64 (fun _ ↦ List.replicate 32 0) fun _ ↦ List.length_replicate)).Ensures
            input fun t _ ↦ t.length = (ranges.map fun r ↦ r.2 - r.1).sum
      else ∀ input, generateHashTree 10000 [] (Geometry.mk 12 32 (by decide) (by decide)).blockSize
          (Algorithm.mk 32 64 (fun _ ↦ List.replicate 32 0) fun _ ↦ List.length_replicate)
          input = .panic :=
  ⟨rfl, generateHashTree_writes_fit _ [] _ rfl 10000⟩

/-- With one digest to a block the level above a level of two blocks is two blocks again: the
loop of `calc_hash_levels` pushes its size until the `Vec` cannot grow. -/
theorem levelSizesLoop_one_digest_per_block (acc : List Nat) (hlast : acc.getLast?.getD 64 = 64) :
    (levelSizesLoop 64 32 32 acc : Outcome ε (List Nat)) = panic := by
  have hround : (roundToMultiple ((64 + 32 - 1) / 32 * 32) 32 : Outcome ε Nat) = ok 64 :=
    @roundToMultiple_eq ε ((64 + 32 - 1) / 32 * 32) 5 (by decide) (by decide)
  rw [levelSizesLoop, hlast, if_neg (by decide), checkedAdd_of_lt (by decide), ok_bind,
    checkedSub_of_le (by decide), ok_bind, checkedDiv_of_pos (by decide), ok_bind,
    checkedMul_of_lt (by decide), ok_bind, hround, ok_bind]
  split
  · exact levelSizesLoop_one_digest_per_block (acc ++ [64]) (by simp)
  · rfl
termination_by usizeVecCapacity - acc.length
decreasing_by
  rw [List.length_append, List.length_singleton]
  omega

/-- A block size of 32 is a power of two at least the 32 bytes of a SHA-256 digest, and
`calc_hash_levels` over 64 bytes never returns its ranges. -/
theorem calcHashLevels_64_32_32 :
    (calcHashLevels 64 32 32 : Outcome IoError (List (Nat × Nat))) = panic := by
  rw [calcHashLevels, levelSizesLoop_one_digest_per_block [] rfl]
  rfl

end Virtualization.Idsig
