import Virtualization.AuthFs.File
import Virtualization.AuthFs.Fsverity.Spec

/-!
# `authfs::fsverity::verifier`

`VerifiedFileReader` serves a file from an untrusted source, checking every chunk against the
root hash that `new` accepted against the expected digest.  `verity_check` hashes the chunk and
climbs the tree: `fsverity_walk` computes, for each level from the leaf's parent to the root,
the tree chunk to read and the offset of the hash in it, and the fold reads the chunk, compares
the hash there with the hash so far, and hashes the chunk.

The positions are computed with `u64` arithmetic that panics on overflow: for a file of more
than `2 ^ 61` bytes the tree has eight levels and `128 ^ 7 * 4096 * 128` overflows.
`fsverityWalk_eq` gives the positions for every file up to `2 ^ 61` bytes: level `x` reads the
stored node above the chunk (`walkPosition`).  The fold builds a `Merkle.Chain` over the
chunks it read (`foldlM_verifyLevel_ensures`), and accepts every honest chain
(`foldlM_verifyLevel_of_chain`).
-/

namespace Virtualization.AuthFs

open Outcome Fsverity

variable {ε : Type} (sha : List UInt8 → Sha256Hash)

/-- `hash_with_padding`: SHA-256 of `chunk` followed by zeros up to `pad_to` bytes. -/
def hashWithPadding (chunk : List UInt8) (padTo : Nat) : Outcome ε Sha256Hash := do
  let paddingSize ← checkedSub padTo chunk.length
  let padding ← slice (List.replicate chunkSize 0) 0 paddingSize
  pure (sha (chunk ++ padding))

/-- The byte size of level `x` of the tree of a `fileSize`-byte file, and the offset in it of
the hash covering chunk `chunkIndex`: the first `map` of `fsverity_walk`. -/
def levelGeometry (chunkIndex fileSize x : Nat) : Outcome ε (Nat × Nat) := do
  let hashesPerNode := chunkSize / hashSize
  let leavesPerHash ← checkedPow 64 hashesPerNode x
  let leavesSizePerHash ← checkedMul 64 chunkSize leavesPerHash
  let leavesSizePerNode ← checkedMul 64 leavesSizePerHash hashesPerNode
  let nodesAtLevel ← divideRoundup fileSize leavesSizePerNode
  let levelSize ← checkedMul 64 nodesAtLevel chunkSize
  let hashIndex ← checkedDiv chunkIndex leavesPerHash
  let offsetInLevel ← checkedMul 64 hashIndex hashSize
  pure (levelSize, offsetInLevel)

/-- The pipeline of `fsverity_walk` over the levels `xs`, root first: each level's geometry,
the `scan` keeping the offset of the level in the tree, and the global offset of the hash split
into a chunk index and an offset in the chunk. -/
def walkSteps (chunkIndex fileSize : Nat) : Nat → List Nat → Outcome ε (List (Nat × Nat))
  | _, [] => ok []
  | levelOffset, x :: xs => do
    let (levelSize, offsetInLevel) ← levelGeometry chunkIndex fileSize x
    let thisLevelOffset := levelOffset
    let levelOffset' ← checkedAdd 64 levelOffset levelSize
    let globalHashOffset ← checkedAdd 64 thisLevelOffset offsetInLevel
    let rest ← walkSteps chunkIndex fileSize levelOffset' xs
    pure ((globalHashOffset / chunkSize, globalHashOffset % chunkSize) :: rest)

/-- `fsverity_walk`: the tree chunks to read and the offsets of the hashes in them, from the
level of the leaf's parent up to the root. -/
def fsverityWalk (chunkIndex fileSize : Nat) : Outcome FsverityError (List (Nat × Nat)) := do
  let maxLevel ← expect (← merkleTreeHeight fileSize)
  let rootToLeafSteps ←
    walkSteps chunkIndex fileSize 0 (List.range (maxLevel % 2 ^ 32 + 1)).reverse
  pure rootToLeafSteps.reverse

/-- One step of `verity_check`'s fold: read the tree chunk, compare the hash at the offset
with the hash so far, and hash the chunk. -/
def verifyLevel (merkleTree : ReadByChunk) (actualHash : Sha256Hash) (step : Nat × Nat) :
    Outcome FsverityError Sha256Hash := do
  let (merkleChunk, _) ← (merkleTree.readChunk step.1 (FixedBytes.zero _)).mapErr .io
  let expectedHash ← slice merkleChunk.toList step.2 (step.2 + hashSize)
  if actualHash.toList ≠ expectedHash then err .cannotVerify
  else hashWithPadding sha merkleChunk.toList chunkSize

/-- `verity_check`: the root hash that `chunk`, as chunk `chunkIndex`, leads to. -/
def verityCheck (chunk : List UInt8) (chunkIndex fileSize : Nat) (merkleTree : ReadByChunk) :
    Outcome FsverityError Sha256Hash := do
  assert (fileSize ≠ 0)
  let chunkHash ← hashWithPadding sha chunk chunkSize
  if fileSize ≤ chunkSize then pure chunkHash
  else do
    let steps ← fsverityWalk chunkIndex fileSize
    steps.foldlM (verifyLevel sha merkleTree) chunkHash

/-- `VerifiedFileReader`. -/
structure VerifiedFileReader where
  fileSize : Nat
  chunkedFile : ReadByChunk
  merkleTree : ReadByChunk
  rootHash : Sha256Hash

namespace VerifiedFileReader

/-- `VerifiedFileReader::new`: take the root hash from the only chunk of a small file, or from
the first chunk of the tree, and accept it if it gives the expected digest. -/
def new (chunkedFile : ReadByChunk) (fileSize : Nat) (expectedDigest : List UInt8)
    (merkleTree : ReadByChunk) : Outcome FsverityError VerifiedFileReader := do
  let buf ← if fileSize ≤ chunkSize then do
      let (buf, _) ← (chunkedFile.readChunk 0 (FixedBytes.zero _)).mapErr .io
      pure buf
    else do
      let (buf, size) ← (merkleTree.readChunk 0 (FixedBytes.zero _)).mapErr .io
      if chunkSize ≠ size then err (.insufficientData size) else pure buf
  let rootHash := sha buf.toList
  if expectedDigest = (buildFsverityDigest sha rootHash fileSize).toList then
    ok ⟨fileSize, chunkedFile, merkleTree, rootHash⟩
  else err .invalidDigest

/-- `VerifiedFileReader::read_chunk`: read the chunk and check that it leads to the root hash. -/
def readChunk (r : VerifiedFileReader) (chunkIndex : Nat) (buf : ChunkBuffer) :
    Outcome IoError (ChunkBuffer × Nat) := do
  let (buf, size) ← r.chunkedFile.readChunk chunkIndex buf
  let data ← slice buf.toList 0 size
  let rootHash ← (verityCheck sha data chunkIndex r.fileSize r.merkleTree).mapErr
    fun _ => .os EIO
  if rootHash ≠ r.rootHash then err (.os EIO) else ok (buf, size)

theorem readChunk_size_le (r : VerifiedFileReader) (i : Nat) (buf buf' : ChunkBuffer) (n : Nat)
    (h : r.readChunk sha i buf = ok (buf', n)) : n ≤ chunkSize := by
  obtain ⟨⟨b, size⟩, hread, h⟩ := bind_eq_ok.mp h
  obtain ⟨data, -, h⟩ := bind_eq_ok.mp h
  obtain ⟨root, -, h⟩ := bind_eq_ok.mp h
  split_ifs at h
  cases h
  exact r.chunkedFile.size_le _ _ _ _ hread

/-- Everything `new` can return: a reader holding the hash of some chunk, whose descriptor
hashes to the expected digest. -/
theorem new_eq_ok {file tree : ReadByChunk} {n : Nat} {expected : List UInt8}
    {v : VerifiedFileReader} (h : new sha file n expected tree = ok v) :
    ∃ buf : ChunkBuffer, expected = (buildFsverityDigest sha (sha buf.toList) n).toList ∧
      v = ⟨n, file, tree, sha buf.toList⟩ := by
  have hcheck : ∀ buf : ChunkBuffer,
      (if expected = (buildFsverityDigest sha (sha buf.toList) n).toList then
        ok ⟨n, file, tree, sha buf.toList⟩ else err FsverityError.invalidDigest) = ok v →
      expected = (buildFsverityDigest sha (sha buf.toList) n).toList ∧
        v = ⟨n, file, tree, sha buf.toList⟩ := by
    intro buf hbuf
    split_ifs at hbuf with hd
    · cases hbuf
      exact ⟨hd, rfl⟩
  unfold new at h
  split_ifs at h with hle
  · obtain ⟨⟨buf, _⟩, -, h⟩ := bind_eq_ok.mp h
    exact ⟨buf, hcheck buf h⟩
  · obtain ⟨⟨buf, size⟩, -, h⟩ := bind_eq_ok.mp h
    dsimp only at h
    split_ifs at h with hsize
    · cases h
    · exact ⟨buf, hcheck buf h⟩

/-- `read_chunk` of a reader: the file source's read, the reported bytes checked against the
root hash. -/
theorem readChunk_mk (fileSize : Nat) (chunkedFile merkleTree : ReadByChunk) (rootHash : Sha256Hash)
    (i : Nat) (buf : ChunkBuffer) :
    readChunk sha ⟨fileSize, chunkedFile, merkleTree, rootHash⟩ i buf =
      chunkedFile.readChunk i buf >>= fun res ↦
        (verityCheck sha (res.1.toList.take res.2) i fileSize merkleTree).mapErr
            (fun _ ↦ IoError.os EIO) >>= fun root ↦
          if root ≠ rootHash then err (.os EIO) else ok res := by
  unfold readChunk
  cases hread : chunkedFile.readChunk i buf with
  | ok res =>
    obtain ⟨b, size⟩ := res
    have hslice : size ≤ b.toList.length := by
      rw [b.length_toList]
      exact chunkedFile.size_le _ _ _ _ hread
    simp only [ok_bind, slice_of_le (Nat.zero_le _) hslice, List.drop_zero, Nat.sub_zero]
  | err e => rfl
  | panic => rfl

/-- The verified reader as a `ReadByChunk` source. -/
def toReadByChunk (r : VerifiedFileReader) : ReadByChunk :=
  ⟨r.readChunk sha, readChunk_size_le sha r⟩

@[simp] theorem readChunk_toReadByChunk (r : VerifiedFileReader) (i : Nat) (buf : ChunkBuffer) :
    (r.toReadByChunk sha).readChunk i buf = r.readChunk sha i buf := rfl

end VerifiedFileReader

/-! ## Hashing -/

/-- `hash_with_padding` hashes the chunk zero-padded. -/
theorem hashWithPadding_eq {chunk : List UInt8} {padTo : Nat} (hlen : chunk.length ≤ padTo)
    (hpad : padTo ≤ chunkSize) :
    (hashWithPadding sha chunk padTo : Outcome ε Sha256Hash) = ok (sha (chunk.rightpad padTo 0)) := by
  have hslice : padTo - chunk.length ≤ (List.replicate chunkSize (0 : UInt8)).length := by
    rw [List.length_replicate]
    omega
  simp only [hashWithPadding, checkedSub_of_le hlen, ok_bind, slice_of_le (Nat.zero_le _) hslice,
    List.drop_zero, Nat.sub_zero, List.take_replicate, pure_eq, List.rightpad]
  rw [Nat.min_eq_left (by omega)]

/-- A whole chunk is hashed as it is. -/
theorem hashWithPadding_chunkBuffer (buf : ChunkBuffer) :
    (hashWithPadding sha buf.toList chunkSize : Outcome ε Sha256Hash) = ok (sha buf.toList) := by
  rw [hashWithPadding_eq sha (by rw [buf.length_toList]; rfl) le_rfl, List.rightpad,
    buf.length_toList]
  simp [chunkSize]

/-! ## The positions of the walk -/

/-- The position that level `x` of the walk from chunk `i` should read, in a file of `m` chunks
whose tree has height `h`: the stored node above the chunk, and the offset of the hash below
it. -/
def walkPosition (m i h x : Nat) : Nat × Nat :=
  (Merkle.levelStart shape m x h + i / shape.arity ^ (x + 1),
    hashSize * (i / shape.arity ^ x % shape.arity))

/-- The walk reads at level `x` the slot of the honest path's entry at that level. -/
theorem walkPosition_snd (L : List Sha256Hash) (m i h x : Nat) :
    (walkPosition m i h x).2 = hashSize * (Merkle.pathEntry shape sha FixedBytes.toList 0 L i x).2 :=
  rfl

/-- Every slot the walk reads is a whole hash inside a chunk. -/
theorem walkPosition_snd_add_le (m i h x : Nat) : (walkPosition m i h x).2 + hashSize ≤ chunkSize := by
  have hslot : i / shape.arity ^ x % shape.arity < 128 := Nat.mod_lt _ shape.arity_pos
  simp only [walkPosition, hashSize, chunkSize]
  omega

section Walk

variable {i n : Nat}

/-- Up to `2 ^ 61` bytes a file has at most `2 ^ 49` chunks. -/
theorem ceilDiv_chunkSize_le (hn : n ≤ 2 ^ 61) : n ⌈/⌉ chunkSize ≤ 2 ^ 49 :=
  (ceilDiv_le_iff_le_mul (by decide)).2 (by simp only [chunkSize]; omega)

/-- Up to `2 ^ 61` bytes the tree has at most seven levels. -/
theorem height_le_six (hn : n ≤ 2 ^ 61) : Merkle.height shape (n ⌈/⌉ chunkSize) ≤ 6 :=
  Merkle.height_le shape ((ceilDiv_chunkSize_le hn).trans (by simp))

/-- The geometry of level `x ≤ 6` of a file of at most `2 ^ 61` bytes: nothing overflows. -/
theorem levelGeometry_eq {x : Nat} (hx : x ≤ 6) (hn : n ≤ 2 ^ 61) (hi : i < n ⌈/⌉ chunkSize) :
    (levelGeometry i n x : Outcome ε (Nat × Nat)) =
      ok (chunkSize * (n ⌈/⌉ chunkSize ⌈/⌉ shape.arity ^ (x + 1)),
        hashSize * (i / shape.arity ^ x)) := by
  have hm := ceilDiv_chunkSize_le hn
  have hP : 128 ^ x ≤ 2 ^ 42 :=
    calc 128 ^ x ≤ 128 ^ 6 := Nat.pow_le_pow_right (by decide) hx
      _ = 2 ^ 42 := rfl
  have hPpos : 0 < 128 ^ x := Nat.pow_pos (by decide)
  have hnodes : n ⌈/⌉ (chunkSize * 128 ^ x * 128) = n ⌈/⌉ chunkSize ⌈/⌉ 128 ^ (x + 1) := by
    rw [Nat.pow_succ, ceilDiv_ceilDiv (by decide) (Nat.mul_pos hPpos (by decide)), Nat.mul_assoc]
  have hnodes_le : n ⌈/⌉ chunkSize ⌈/⌉ 128 ^ (x + 1) ≤ 2 ^ 49 := by
    have hk : 0 < 128 ^ (x + 1) := Nat.pow_pos (by decide)
    exact ((ceilDiv_le_iff_le_mul hk).2 (Nat.le_mul_of_pos_left _ hk)).trans hm
  have hidx : i / 128 ^ x < 2 ^ 49 := lt_of_le_of_lt (Nat.div_le_self _ _) (lt_of_lt_of_le hi hm)
  have hdiv : chunkSize / hashSize = 128 := rfl
  -- the steps rewritten one bind at a time, so that the kernel never meets the rest of the block
  unfold levelGeometry
  dsimp only
  rw [hdiv, checkedPow_of_lt (show 128 ^ x < 2 ^ 64 by omega), ok_bind,
    checkedMul_of_lt (show chunkSize * 128 ^ x < 2 ^ 64 by simp only [chunkSize]; omega), ok_bind,
    checkedMul_of_lt (show chunkSize * 128 ^ x * 128 < 2 ^ 64 by simp only [chunkSize]; omega),
    ok_bind, divideRoundup_eq (Nat.mul_pos (Nat.mul_pos (by decide) hPpos) (by decide))
      (show n + chunkSize * 128 ^ x * 128 < 2 ^ 64 by simp only [chunkSize]; omega), ok_bind,
    hnodes, checkedMul_of_lt (show n ⌈/⌉ chunkSize ⌈/⌉ 128 ^ (x + 1) * chunkSize < 2 ^ 64 by
      simp only [chunkSize] at hnodes_le ⊢; omega), ok_bind,
    checkedDiv_of_pos hPpos, ok_bind,
    checkedMul_of_lt (show i / 128 ^ x * hashSize < 2 ^ 64 by simp only [hashSize]; omega), ok_bind,
    pure_eq, arity_shape, Nat.mul_comm (n ⌈/⌉ chunkSize ⌈/⌉ 128 ^ (x + 1)),
    Nat.mul_comm (i / 128 ^ x)]

/-- The global offset of a hash, split into a chunk index and an offset in the chunk. -/
theorem split_hashOffset (start q : Nat) :
    ((chunkSize * start + hashSize * q) / chunkSize, (chunkSize * start + hashSize * q) % chunkSize) =
      (start + q / shape.arity, hashSize * (q % shape.arity)) := by
  simp only [chunkSize, hashSize, arity_shape]
  congr 1 <;> omega

/-- One level of the pipeline, from the offset of level `x`: the position of level `x`, and the
offset of the level below. -/
theorem walkSteps_level {x h : Nat} (hxh : x ≤ h) (hn : n ≤ 2 ^ 61) (hi : i < n ⌈/⌉ chunkSize)
    (hh : h ≤ 6) (xs : List Nat) :
    (walkSteps i n (chunkSize * Merkle.levelStart shape (n ⌈/⌉ chunkSize) x h) (x :: xs) :
      Outcome ε (List (Nat × Nat))) =
      (walkSteps i n (chunkSize * Merkle.levelStart shape (n ⌈/⌉ chunkSize) x h +
        chunkSize * (n ⌈/⌉ chunkSize ⌈/⌉ shape.arity ^ (x + 1))) xs) >>=
        fun rest ↦ ok (walkPosition (n ⌈/⌉ chunkSize) i h x :: rest) := by
  have hm := ceilDiv_chunkSize_le hn
  -- every level before `x` has at most `2 ^ 49` nodes, and so has level `x`
  have hstart : Merkle.levelStart shape (n ⌈/⌉ chunkSize) x h ≤ 6 * 2 ^ 49 :=
    (Merkle.levelStart_le shape _ x h).trans (Nat.mul_le_mul (by omega) hm)
  have hnodes : n ⌈/⌉ chunkSize ⌈/⌉ shape.arity ^ (x + 1) ≤ 2 ^ 49 := by
    have hk : 0 < shape.arity ^ (x + 1) := Nat.pow_pos shape.arity_pos
    exact ((ceilDiv_le_iff_le_mul hk).2 (Nat.le_mul_of_pos_left _ hk)).trans hm
  have hq : i / shape.arity ^ x < 2 ^ 49 := lt_of_le_of_lt (Nat.div_le_self _ _) (by omega)
  have hend : chunkSize * Merkle.levelStart shape (n ⌈/⌉ chunkSize) x h +
      chunkSize * (n ⌈/⌉ chunkSize ⌈/⌉ shape.arity ^ (x + 1)) < 2 ^ 64 := by
    simp only [chunkSize] at hstart hnodes ⊢
    omega
  have hglobal : chunkSize * Merkle.levelStart shape (n ⌈/⌉ chunkSize) x h +
      hashSize * (i / shape.arity ^ x) < 2 ^ 64 := by
    simp only [chunkSize, hashSize] at hstart hq ⊢
    omega
  have hpos : walkPosition (n ⌈/⌉ chunkSize) i h x =
      ((chunkSize * Merkle.levelStart shape (n ⌈/⌉ chunkSize) x h +
          hashSize * (i / shape.arity ^ x)) / chunkSize,
        (chunkSize * Merkle.levelStart shape (n ⌈/⌉ chunkSize) x h +
          hashSize * (i / shape.arity ^ x)) % chunkSize) := by
    rw [split_hashOffset, walkPosition, Merkle.div_pow_succ]
  rw [walkSteps, levelGeometry_eq (by omega) hn hi]
  simp only [ok_bind, checkedAdd_of_lt hend, checkedAdd_of_lt hglobal, hpos]
  rfl

/-- From the offset of level `x`, the pipeline over levels `x, x - 1, …, 0` reads their
positions. -/
theorem walkSteps_range {h : Nat} (hn : n ≤ 2 ^ 61) (hi : i < n ⌈/⌉ chunkSize) (hh : h ≤ 6) :
    ∀ x ≤ h, (walkSteps i n (chunkSize * Merkle.levelStart shape (n ⌈/⌉ chunkSize) x h)
        (List.range (x + 1)).reverse : Outcome ε (List (Nat × Nat))) =
      ok ((List.range (x + 1)).reverse.map (walkPosition (n ⌈/⌉ chunkSize) i h)) := by
  intro x
  induction x with
  | zero =>
    intro _
    rw [List.range_one, List.reverse_singleton, walkSteps_level (Nat.zero_le h) hn hi hh]
    rfl
  | succ x ih =>
    intro hx
    have hnext : chunkSize * Merkle.levelStart shape (n ⌈/⌉ chunkSize) (x + 1) h +
        chunkSize * (n ⌈/⌉ chunkSize ⌈/⌉ shape.arity ^ (x + 1 + 1)) =
          chunkSize * Merkle.levelStart shape (n ⌈/⌉ chunkSize) x h := by
      rw [Merkle.levelStart_eq_add shape (show x < h by omega), ← Nat.mul_add, Nat.add_comm]
    rw [List.range_succ, List.reverse_append, List.reverse_singleton, List.singleton_append,
      walkSteps_level hx hn hi hh, hnext, ih (by omega), ok_bind, List.map_cons]

/-- `fsverity_walk` reads, from the leaf's parent up to the root, the stored nodes above the
chunk, for every file of more than one chunk and at most `2 ^ 61` bytes. -/
theorem fsverityWalk_eq (hlt : chunkSize < n) (hn : n ≤ 2 ^ 61) (hi : i < n ⌈/⌉ chunkSize) :
    fsverityWalk i n = ok ((List.range (Merkle.height shape (n ⌈/⌉ chunkSize) + 1)).map
      (walkPosition (n ⌈/⌉ chunkSize) i (Merkle.height shape (n ⌈/⌉ chunkSize)))) := by
  have hh := height_le_six hn
  set h := Merkle.height shape (n ⌈/⌉ chunkSize)
  have hmod : h % 2 ^ 32 = h := Nat.mod_eq_of_lt (by omega)
  have hroot : chunkSize * Merkle.levelStart shape (n ⌈/⌉ chunkSize) h h = 0 := by
    rw [Merkle.levelStart_self, Nat.mul_zero]
  have hsteps := walkSteps_range (ε := FsverityError) hn hi hh h le_rfl
  rw [hroot] at hsteps
  rw [fsverityWalk, merkleTreeHeight_eq (by omega) (by omega), ok_bind, expect_some, ok_bind,
    hmod, hsteps, ok_bind, pure_eq, List.map_reverse, List.reverse_reverse]

/-! ### Past `2 ^ 61` bytes -/

/-- Past `2 ^ 61` bytes the tree has eight levels. -/
theorem height_eq_seven (hn : 2 ^ 61 < n) (hlt : n < 2 ^ 64) :
    Merkle.height shape (n ⌈/⌉ chunkSize) = 7 := by
  have hlo : 2 ^ 49 < n ⌈/⌉ chunkSize :=
    (lt_ceilDiv_iff (by decide)).2 (by simp only [chunkSize]; omega)
  have hhi : n ⌈/⌉ chunkSize ≤ 2 ^ 56 :=
    (ceilDiv_le_iff_le_mul (by decide)).2 (by simp only [chunkSize]; omega)
  refine Merkle.height_eq_of_forall_iff shape fun x ↦ ?_
  rw [arity_shape]
  constructor
  · intro hfit
    by_contra hx
    have hpow : 128 ^ (x + 1) ≤ 128 ^ 7 := Nat.pow_le_pow_right (by decide) (by omega)
    have h7 : (128 : Nat) ^ 7 = 2 ^ 49 := rfl
    omega
  · intro hx
    calc n ⌈/⌉ chunkSize ≤ 2 ^ 56 := hhi
      _ = 128 ^ 8 := rfl
      _ ≤ 128 ^ (x + 1) := Nat.pow_le_pow_right (by decide) (by omega)

/-- At the root level of an eight-level tree a node covers `4096 * 128 ^ 8 = 2 ^ 68` bytes, and
computing it overflows. -/
theorem levelGeometry_seven (i n : Nat) : (levelGeometry i n 7 : Outcome ε (Nat × Nat)) = panic := by
  have hdiv : chunkSize / hashSize = 128 := rfl
  have hpow : (128 : Nat) ^ 7 < 2 ^ 64 := by decide
  have hsize : chunkSize * 128 ^ 7 < 2 ^ 64 := by decide
  have hnode : 2 ^ 64 ≤ chunkSize * 128 ^ 7 * 128 := by decide
  unfold levelGeometry
  dsimp only
  rw [hdiv, checkedPow_of_lt hpow, ok_bind, checkedMul_of_lt hsize, ok_bind, checkedMul_of_le hnode,
    panic_bind]

/-- `fsverity_walk` panics for every file of more than `2 ^ 61` bytes: the positions of the
root level overflow `u64`. -/
theorem fsverityWalk_of_lt (hn : 2 ^ 61 < n) (hlt : n + 524288 < 2 ^ 64) :
    fsverityWalk i n = panic := by
  have hmod : 7 % 2 ^ 32 = 7 := Nat.mod_eq_of_lt (by decide)
  rw [fsverityWalk, merkleTreeHeight_eq (by omega) hlt, ok_bind, expect_some, ok_bind,
    height_eq_seven hn (by omega), hmod, List.range_succ, List.reverse_append,
    List.reverse_singleton, List.singleton_append, walkSteps, levelGeometry_seven, panic_bind,
    panic_bind]

end Walk

/-- On a file of more than `2 ^ 61` bytes, every read of the verified reader that gets a chunk
from the file panics. -/
theorem VerifiedFileReader.readChunk_of_lt {r : VerifiedFileReader} (hn : 2 ^ 61 < r.fileSize)
    (hlt : r.fileSize + 524288 < 2 ^ 64) {i : Nat} {buf buf' : ChunkBuffer} {size : Nat}
    (hread : r.chunkedFile.readChunk i buf = ok (buf', size)) : r.readChunk sha i buf = panic := by
  have hslice : size ≤ buf'.toList.length := by
    rw [buf'.length_toList]
    exact r.chunkedFile.size_le _ _ _ _ hread
  have hne : r.fileSize ≠ 0 := by omega
  have hdata : ((buf'.toList.drop 0).take (size - 0)).length ≤ chunkSize := by
    rw [List.length_take]
    exact (Nat.min_le_left _ _).trans (r.chunkedFile.size_le _ _ _ _ hread)
  rw [readChunk, hread, ok_bind]
  dsimp only
  rw [slice_of_le (Nat.zero_le _) hslice, ok_bind, verityCheck, assert_of_true hne, ok_bind,
    hashWithPadding_eq sha hdata le_rfl, ok_bind, if_neg (by simp only [chunkSize]; omega),
    fsverityWalk_of_lt hn hlt, panic_bind, mapErr_panic, panic_bind]

/-! ## The fold over the tree -/

section Fold

variable {merkleTree : ReadByChunk}

/-- The hash at `offset` of a chunk, when the slot lies inside the chunk. -/
theorem slice_chunkBuffer (buf : ChunkBuffer) {offset : Nat} (hend : offset + hashSize ≤ chunkSize) :
    (slice buf.toList offset (offset + hashSize) : Outcome ε (List UInt8)) =
      ok ((buf.toList.drop offset).take hashSize) := by
  rw [slice_of_le (Nat.le_add_right _ _) (by rw [buf.length_toList]; exact hend),
    Nat.add_sub_cancel_left]

/-- What one step of the fold checks: the chunk it read carries the hash so far at the step's
slot, and the next hash is the chunk's hash. -/
theorem verifyLevel_ensures (htree : merkleTree.Returns) (a : Sha256Hash) {step : Nat × Nat}
    (hslot : step.2 % hashSize = 0) (hend : step.2 + hashSize ≤ chunkSize) :
    (verifyLevel sha merkleTree a step).Ensures fun b ↦ ∃ buf : ChunkBuffer,
      Merkle.Carries FixedBytes.toList hashSize buf.toList (step.2 / hashSize) a ∧
        b = sha buf.toList := by
  have hoffset : hashSize * (step.2 / hashSize) = step.2 := Nat.mul_div_cancel' (Nat.dvd_of_mod_eq_zero hslot)
  unfold verifyLevel
  cases hread : merkleTree.readChunk step.1 (FixedBytes.zero _) with
  | ok res =>
    obtain ⟨buf, size⟩ := res
    simp only [mapErr_ok, ok_bind, slice_chunkBuffer buf hend]
    split_ifs with hne
    · trivial
    · rw [hashWithPadding_chunkBuffer]
      refine ⟨buf, ?_, rfl⟩
      rw [Merkle.Carries, hoffset]
      exact (not_not.mp hne).symm
  | err e => trivial
  | panic => exact absurd (hread ▸ htree step.1 (FixedBytes.zero _)) not_returns_panic

/-- Whatever the tree source returns, a fold that returns a hash has read a chain of chunks from
the chunk's hash to it, through the slots of the steps. -/
theorem foldlM_verifyLevel_ensures (htree : merkleTree.Returns) :
    ∀ (steps : List (Nat × Nat)) (a : Sha256Hash),
      (∀ s ∈ steps, s.2 % hashSize = 0 ∧ s.2 + hashSize ≤ chunkSize) →
      (steps.foldlM (verifyLevel sha merkleTree) a).Ensures fun r ↦ ∃ path,
        path.map Prod.snd = steps.map (fun s ↦ s.2 / hashSize) ∧
          Merkle.Chain sha FixedBytes.toList hashSize a path r := by
  intro steps
  induction steps with
  | nil =>
    intro a _
    exact ⟨[], rfl, Merkle.Chain.nil a⟩
  | cons s steps ih =>
    intro a hsteps
    obtain ⟨hslot, hend⟩ := hsteps s List.mem_cons_self
    rw [List.foldlM_cons]
    refine (verifyLevel_ensures sha htree a hslot hend).bind ?_
    rintro b ⟨buf, hcarry, rfl⟩
    refine (ih _ fun s' hs' ↦ hsteps s' (List.mem_cons_of_mem s hs')).mono ?_
    rintro r ⟨path, hslots, hchain⟩
    refine ⟨(buf.toList, s.2 / hashSize) :: path, ?_, Merkle.Chain.cons hcarry hchain⟩
    rw [List.map_cons, List.map_cons, hslots]

/-- A step whose chunk carries the hash so far at its slot goes on with the chunk's hash. -/
theorem verifyLevel_of_carries {a : Sha256Hash} {step : Nat × Nat} {node : List UInt8} {t : Nat}
    (hslot : step.2 = hashSize * t) (hend : step.2 + hashSize ≤ chunkSize) {buf : ChunkBuffer}
    {size : Nat} (hread : merkleTree.readChunk step.1 (FixedBytes.zero _) = ok (buf, size))
    (hbuf : buf.toList = node) (hcarry : Merkle.Carries FixedBytes.toList hashSize node t a) :
    verifyLevel sha merkleTree a step = ok (sha node) := by
  have hexpected : (buf.toList.drop step.2).take hashSize = a.toList := by
    rw [hbuf, hslot]
    exact hcarry
  unfold verifyLevel
  rw [hread, mapErr_ok, ok_bind]
  dsimp only
  rw [slice_chunkBuffer buf hend, ok_bind, hexpected, if_neg (not_not.mpr rfl),
    hashWithPadding_chunkBuffer, hbuf]

/-- A tree source that serves the chunks of a chain at the steps' positions lets the fold
climb it. -/
theorem foldlM_verifyLevel_of_chain {a r : Sha256Hash} {path : List (List UInt8 × Nat)}
    (hchain : Merkle.Chain sha FixedBytes.toList hashSize a path r) :
    ∀ {steps : List (Nat × Nat)}, List.Forall₂ (fun s q ↦ s.2 = hashSize * q.2 ∧
        s.2 + hashSize ≤ chunkSize ∧ ∃ buf : ChunkBuffer, ∃ size,
          merkleTree.readChunk s.1 (FixedBytes.zero _) = ok (buf, size) ∧ buf.toList = q.1)
        steps path →
      steps.foldlM (verifyLevel sha merkleTree) a = ok r := by
  induction hchain with
  | nil a =>
    intro steps hsteps
    rw [List.forall₂_nil_right_iff.mp hsteps]
    rfl
  | cons hcarry _ ih =>
    intro steps hsteps
    obtain ⟨s, steps', ⟨hslot, hend, buf, size, hread, hbuf⟩, hrest, rfl⟩ :=
      List.forall₂_cons_right_iff.mp hsteps
    rw [List.foldlM_cons, verifyLevel_of_carries sha hslot hend hread hbuf hcarry, ok_bind]
    exact ih hrest

end Fold

end Virtualization.AuthFs
