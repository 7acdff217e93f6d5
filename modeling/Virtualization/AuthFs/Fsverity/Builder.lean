import Virtualization.AuthFs.Fsverity.Spec

/-!
# `authfs::fsverity::builder`: `MerkleLeaves`

The writer's bookkeeping: the leaf hashes of the content written so far and its size.  The
tree above the leaves is computed only when the digest is asked for, by hashing pages of 128
hashes (`hash_all_pages`) level after level.

`hashAllPages_eq` says one round builds the next level of the tree of `Lib/MerkleTree`, and
`calculateRootHash_eq` that the rounds `calculate_root_hash` runs end at its root.
`ofContent` is the state a writer reaches by updating the hash of every block of `D` in order;
its digest is the fs-verity digest of `D` (`calculateFsverityDigest_ofContent`).
-/

namespace Virtualization.AuthFs

open Outcome Fsverity

variable {ε : Type} (sha : List UInt8 → Sha256Hash)

/-- `HASH_PER_PAGE`. -/
def hashPerPage : Nat := chunkSize / hashSize

/-- `hash_all_pages`: the hash of every page of `HASH_PER_PAGE` hashes, zero-padded. -/
def hashAllPages (source : List Sha256Hash) : Outcome ε (List Sha256Hash) :=
  (chunks hashPerPage source).mapM fun chunk => do
    let missing ← checkedSub hashPerPage chunk.length
    let paddingBytes ← checkedMul 64 missing hashSize
    pure (sha (chunk.flatMap FixedBytes.toList ++ List.replicate paddingBytes 0))

/-- `MerkleLeaves`. -/
structure MerkleLeaves where
  leaves : List Sha256Hash
  fileSize : Nat

namespace MerkleLeaves

/-- `MerkleLeaves::new`. -/
def new : MerkleLeaves := ⟨[], 0⟩

/-- `MerkleLeaves::resize`: new leaves are hashes of zero blocks. -/
def resize (t : MerkleLeaves) (newFileSize : Nat) : Outcome ε MerkleLeaves := do
  let leavesSize ← divideRoundup newFileSize chunkSize
  pure ⟨Virtualization.resize t.leaves leavesSize hashOf4096Zeros, newFileSize⟩

/-- `MerkleLeaves::update_hash`: set leaf `index`, filling a gap with hashes of zero blocks, and
raise the size to `size_at_least`. -/
def updateHash (t : MerkleLeaves) (index : Nat) (hash : Sha256Hash) (sizeAtLeast : Nat) :
    Outcome ε MerkleLeaves := do
  let indexEnd ← checkedAdd 64 index 1
  let leaves := if t.leaves.length < indexEnd then
    Virtualization.resize t.leaves indexEnd hashOf4096Zeros else t.leaves
  pure ⟨leaves.set index hash, if sizeAtLeast > t.fileSize then sizeAtLeast else t.fileSize⟩

/-- `MerkleLeaves::is_index_valid`. -/
def isIndexValid (t : MerkleLeaves) (index : Nat) : Bool := decide (index < t.leaves.length)

/-- `MerkleLeaves::is_consistent`. -/
def isConsistent (t : MerkleLeaves) (index : Nat) (hash : Sha256Hash) : Bool :=
  match t.leaves[index]? with
  | some element => decide (element = hash)
  | none => false

/-- `MerkleLeaves::calculate_root_hash`. -/
def calculateRootHash (t : MerkleLeaves) : Outcome FsverityError Sha256Hash :=
  match t.leaves.length with
  | 0 => ok Sha256Hash.zero
  | 1 => expect t.leaves[0]?
  | n => do
    let sizeForEquivalent ← checkedMul 64 n chunkSize
    let level ← expect (← merkleTreeHeight sizeForEquivalent)
    let secondLevel ← hashAllPages sha t.leaves
    let hashes ← (List.range' 1 level).foldlM (fun source _ => hashAllPages sha source)
      secondLevel
    if hashes.length ≠ 1 then err .invalidState else expect hashes.head?

/-- `MerkleLeaves::calculate_fsverity_digest`. -/
def calculateFsverityDigest (t : MerkleLeaves) : Outcome FsverityError Sha256Hash := do
  let rootHash ← calculateRootHash sha t
  pure (buildFsverityDigest sha rootHash t.fileSize)

end MerkleLeaves

/-! ## The levels of the tree -/

/-- A page of `k ≤ 128` hashes is padded with `(128 - k) * 32` zero bytes to a node. -/
theorem flatMap_append_padding {page : List Sha256Hash} (hpage : page.length ≤ hashPerPage) :
    page.flatMap FixedBytes.toList ++ List.replicate ((hashPerPage - page.length) * hashSize) 0 =
      (page.flatMap FixedBytes.toList).rightpad chunkSize 0 := by
  have hlen : (page.flatMap FixedBytes.toList).length = hashSize * page.length := by
    rw [List.length_flatMap, List.map_congr_left fun h _ ↦ h.length_toList, List.map_const',
      List.sum_replicate_nat, Nat.mul_comm]
    rfl
  rw [List.rightpad, hlen]
  congr 2
  simp only [hashPerPage, hashSize, chunkSize] at hpage ⊢
  omega

/-- One round of `hash_all_pages` hashes the nodes packing a level. -/
theorem hashAllPages_eq (hs : List Sha256Hash) :
    (hashAllPages sha hs : Outcome ε (List Sha256Hash)) =
      ok ((Merkle.pack shape FixedBytes.toList 0 hs).map sha) := by
  rw [Merkle.pack, List.map_map]
  refine mapM_eq_ok_map fun page hpage ↦ ?_
  obtain ⟨i, -, rfl⟩ := mem_chunks.mp hpage
  have hle : (chunk hashPerPage hs i).length ≤ hashPerPage := by
    rw [length_chunk]
    exact Nat.min_le_left _ _
  have hpad : (hashPerPage - (chunk hashPerPage hs i).length) * hashSize < 2 ^ 64 := by
    simp only [hashPerPage, hashSize, chunkSize]
    omega
  simp only [checkedSub_of_le hle, checkedMul_of_lt hpad, ok_bind, pure_eq,
    flatMap_append_padding hle]
  rfl

/-- Level `x + 1` of hashes is `hash_all_pages` of level `x`. -/
theorem hashAllPages_hashesAt (ls : List Sha256Hash) (x : Nat) :
    (hashAllPages sha (Merkle.hashesAt shape sha FixedBytes.toList 0 ls x) :
      Outcome ε (List Sha256Hash)) = ok (Merkle.hashesAt shape sha FixedBytes.toList 0 ls (x + 1)) :=
  hashAllPages_eq sha _

/-- The rounds of `calculate_root_hash` climb one level each. -/
theorem foldlM_hashAllPages (ls : List Sha256Hash) (rounds : List Nat) (x : Nat) :
    (rounds.foldlM (fun source _ => hashAllPages sha source)
        (Merkle.hashesAt shape sha FixedBytes.toList 0 ls x) : Outcome ε (List Sha256Hash)) =
      ok (Merkle.hashesAt shape sha FixedBytes.toList 0 ls (x + rounds.length)) := by
  induction rounds generalizing x with
  | nil => rfl
  | cons r rounds ih =>
    rw [List.foldlM_cons, hashAllPages_hashesAt, ok_bind, ih, List.length_cons,
      Nat.add_comm rounds.length 1, Nat.add_assoc]

/-- The rounds `calculate_root_hash` counts for `n` leaves are the height of the tree over them. -/
theorem merkleTreeHeight_leaves {n : Nat} (hn : 0 < n) (hlt : n * chunkSize + 524288 < 2 ^ 64) :
    (merkleTreeHeight (n * chunkSize) : Outcome ε (Option Nat)) =
      ok (some (Merkle.height shape n)) := by
  rw [merkleTreeHeight_eq (Nat.mul_pos hn (by decide)) hlt, Nat.mul_comm, mul_ceilDiv (by decide)]

namespace MerkleLeaves

/-- For two leaves or more, `calculate_root_hash` is the root of the tree over them. -/
theorem calculateRootHash_eq {t : MerkleLeaves} (htwo : 2 ≤ t.leaves.length)
    (hlt : t.leaves.length * chunkSize + 524288 < 2 ^ 64) :
    calculateRootHash sha t = ok (Merkle.root shape sha FixedBytes.toList 0 t.leaves) := by
  have hsize : t.leaves.length * chunkSize < 2 ^ 64 := by omega
  have hlevel := Merkle.hashesAt_height_succ shape sha FixedBytes.toList 0
    (by omega : 0 < t.leaves.length)
  have hsecond : (hashAllPages sha t.leaves : Outcome FsverityError (List Sha256Hash)) =
      ok (Merkle.hashesAt shape sha FixedBytes.toList 0 t.leaves 1) :=
    hashAllPages_hashesAt sha t.leaves 0
  unfold calculateRootHash
  split
  · omega
  · omega
  · rw [checkedMul_of_lt hsize, ok_bind, merkleTreeHeight_leaves (by omega) hlt, ok_bind, expect_some,
      ok_bind, hsecond, ok_bind, foldlM_hashAllPages, List.length_range', Nat.add_comm 1, hlevel, ok_bind]
    rfl

/-- For two leaves or more, `calculate_root_hash` panics when `n * CHUNK_SIZE`, or its rounding
up in `merkle_tree_height`, overflows `u64`. -/
theorem calculateRootHash_of_le {t : MerkleLeaves} (htwo : 2 ≤ t.leaves.length)
    (hle : 2 ^ 64 ≤ t.leaves.length * chunkSize + 524288) : calculateRootHash sha t = panic := by
  unfold calculateRootHash
  split
  · omega
  · omega
  · by_cases hsize : t.leaves.length * chunkSize < 2 ^ 64
    · rw [checkedMul_of_lt hsize, ok_bind, merkleTreeHeight_of_le hle, panic_bind]
    · rw [checkedMul_of_le (Nat.le_of_not_lt hsize), panic_bind]

theorem calculateRootHash_never_invalidState {t : MerkleLeaves} (htwo : 2 ≤ t.leaves.length) :
    calculateRootHash sha t ≠ err .invalidState ∧
      (t.leaves.length * chunkSize + 524288 < 2 ^ 64 →
        (merkleTreeHeight (t.leaves.length * chunkSize) : Outcome FsverityError (Option Nat)) =
            ok (some (Merkle.height shape t.leaves.length)) ∧
          (Merkle.hashesAt shape sha FixedBytes.toList 0 t.leaves
            (Merkle.height shape t.leaves.length + 1)).length = 1) ∧
      calculateRootHash sha t =
        if t.leaves.length * chunkSize + 524288 < 2 ^ 64 then
          ok (Merkle.root shape sha FixedBytes.toList 0 t.leaves)
        else panic := by
  have hpos : 0 < t.leaves.length := by omega
  have heq : calculateRootHash sha t =
      if t.leaves.length * chunkSize + 524288 < 2 ^ 64 then
        ok (Merkle.root shape sha FixedBytes.toList 0 t.leaves)
      else panic := by
    split_ifs with hlt
    · exact calculateRootHash_eq sha htwo hlt
    · exact calculateRootHash_of_le sha htwo (Nat.le_of_not_lt hlt)
  refine ⟨?_, fun hlt ↦ ⟨merkleTreeHeight_leaves hpos hlt, ?_⟩, heq⟩
  · rw [heq]
    split_ifs <;> simp
  · rw [Merkle.hashesAt_height_succ shape sha FixedBytes.toList 0 hpos, List.length_singleton]

/-- Two leaves: one round hashes them into the root. -/
theorem calculateRootHash_never_invalidState_two :
    calculateRootHash (fun _ ↦ Sha256Hash.zero) ⟨[Sha256Hash.zero, Sha256Hash.zero], 2 * chunkSize⟩ ≠
        err .invalidState ∧
      (2 * chunkSize + 524288 < 2 ^ 64 →
        (merkleTreeHeight (2 * chunkSize) : Outcome FsverityError (Option Nat)) =
            ok (some (Merkle.height shape 2)) ∧
          (Merkle.hashesAt shape (fun _ ↦ Sha256Hash.zero) FixedBytes.toList 0
            [Sha256Hash.zero, Sha256Hash.zero] (Merkle.height shape 2 + 1)).length = 1) ∧
      calculateRootHash (fun _ ↦ Sha256Hash.zero) ⟨[Sha256Hash.zero, Sha256Hash.zero], 2 * chunkSize⟩ =
        if 2 * chunkSize + 524288 < 2 ^ 64 then
          ok (Merkle.root shape (fun _ ↦ Sha256Hash.zero) FixedBytes.toList 0
            [Sha256Hash.zero, Sha256Hash.zero])
        else panic :=
  calculateRootHash_never_invalidState (fun _ ↦ Sha256Hash.zero) (by decide)

/-- A sparse file of `u64::MAX` bytes has `2 ^ 52` leaves, and `n * CHUNK_SIZE` overflows. -/
theorem calculateRootHash_hugeLeaves_panics_every_sha :
    calculateRootHash sha ⟨List.replicate (2 ^ 52) hashOf4096Zeros, 2 ^ 64 - 1⟩ = panic := by
  -- the length is rewritten, never computed: the list is not built
  have hlen : (List.replicate (2 ^ 52) hashOf4096Zeros).length = 2 ^ 52 := List.length_replicate
  have hover : 2 ^ 64 ≤ 2 ^ 52 * chunkSize + 524288 := by decide
  exact calculateRootHash_of_le sha (le_of_le_of_eq (by decide) hlen.symm)
    (le_of_le_of_eq hover (congrArg (· * chunkSize + 524288) hlen.symm))

/-- The sparse file of `u64::MAX` bytes, under the hash that maps every string to zero. -/
theorem calculateRootHash_hugeLeaves_panics :
    calculateRootHash (fun _ ↦ Sha256Hash.zero)
      ⟨List.replicate (2 ^ 52) hashOf4096Zeros, 2 ^ 64 - 1⟩ = panic :=
  calculateRootHash_hugeLeaves_panics_every_sha _

/-- `update_hash` of a leaf past the last one fills the gap with hashes of zero blocks. -/
theorem updateHash_of_le {t : MerkleLeaves} {index : Nat} (hle : t.leaves.length ≤ index)
    (hindex : index + 1 < 2 ^ 64) (hash : Sha256Hash) (sizeAtLeast : Nat) :
    (updateHash t index hash sizeAtLeast : Outcome ε MerkleLeaves) =
      ok ⟨(Virtualization.resize t.leaves (index + 1) hashOf4096Zeros).set index hash,
        max sizeAtLeast t.fileSize⟩ := by
  simp only [updateHash, checkedAdd_of_lt hindex, ok_bind,
    if_pos (show t.leaves.length < index + 1 by omega), pure_eq]
  congr 2
  split_ifs with hs <;> omega

/-- `update_hash` of the leaf right after the last one appends it. -/
theorem updateHash_of_length_eq {t : MerkleLeaves} {index : Nat} (hlen : t.leaves.length = index)
    (hindex : index + 1 < 2 ^ 64) (hash : Sha256Hash) (sizeAtLeast : Nat) :
    (updateHash t index hash sizeAtLeast : Outcome ε MerkleLeaves) =
      ok ⟨t.leaves ++ [hash], max sizeAtLeast t.fileSize⟩ := by
  have hresize : Virtualization.resize t.leaves (index + 1) hashOf4096Zeros =
      t.leaves ++ [hashOf4096Zeros] := by
    rw [Virtualization.resize, List.take_of_length_le (by omega), hlen, Nat.add_sub_cancel_left,
      List.replicate_one]
  have hset : (t.leaves ++ [hashOf4096Zeros]).set index hash = t.leaves ++ [hash] := by
    rw [List.set_append_right _ _ (by omega), hlen, Nat.sub_self, List.set_cons_zero]
  rw [updateHash_of_le hlen.le hindex, hresize, hset]

/-- `update_hash` of a leaf that exists replaces it. -/
theorem updateHash_of_lt {t : MerkleLeaves} {index : Nat} (hlt : index < t.leaves.length)
    (hindex : index + 1 < 2 ^ 64) (hash : Sha256Hash) (sizeAtLeast : Nat) :
    (updateHash t index hash sizeAtLeast : Outcome ε MerkleLeaves) =
      ok ⟨t.leaves.set index hash, max sizeAtLeast t.fileSize⟩ := by
  simp only [updateHash, checkedAdd_of_lt hindex, ok_bind,
    if_neg (show ¬ t.leaves.length < index + 1 by omega), pure_eq]
  congr 2
  split_ifs with hs <;> omega

/-- `resize` sets the size and gives the leaves of `⌈size / 4096⌉` chunks, new ones hashes of
zero chunks. -/
theorem resize_eq (t : MerkleLeaves) {size : Nat} (hsize : size + chunkSize < 2 ^ 64) :
    (t.resize size : Outcome ε MerkleLeaves) =
      ok ⟨Virtualization.resize t.leaves (size ⌈/⌉ chunkSize) hashOf4096Zeros, size⟩ := by
  rw [resize, divideRoundup_eq (by decide) hsize, ok_bind, pure_eq]

/-- The `MerkleLeaves` a writer of `D` reaches by `update_hash` of every block's hash in
order, the size raised to the block's end each time. -/
def ofContent (D : List UInt8) : Outcome ε MerkleLeaves :=
  (List.range (D.length ⌈/⌉ chunkSize)).foldlM
    (fun t i => t.updateHash i (hashBlock sha (chunk chunkSize D i))
      (chunkSize * i + (chunk chunkSize D i).length))
    new

/-- After the first `k` blocks, the leaves are their hashes and the size reaches the end of
block `k - 1`. -/
theorem foldlM_updateHash (D : List UInt8) (hD : D.length < 2 ^ 64) {k : Nat}
    (hk : k ≤ D.length ⌈/⌉ chunkSize) :
    ((List.range k).foldlM
      (fun t i => t.updateHash i (hashBlock sha (chunk chunkSize D i))
        (chunkSize * i + (chunk chunkSize D i).length)) new : Outcome ε MerkleLeaves) =
      ok ⟨(Fsverity.leaves sha D).take k, min D.length (chunkSize * k)⟩ := by
  induction k with
  | zero => simp [new]
  | succ k ih =>
    have hblock : chunkSize * k < D.length := (lt_ceilDiv_iff (by decide)).mp hk
    have hk1 : k + 1 < 2 ^ 64 := by
      simp only [chunkSize] at hblock
      omega
    have hlen : ((Fsverity.leaves sha D).take k).length = k := by
      rw [List.length_take, length_leaves]
      omega
    have hkey : (Fsverity.leaves sha D).take k ++ [hashBlock sha (chunk chunkSize D k)] =
        (Fsverity.leaves sha D).take (k + 1) := by
      have hk' : k < (Fsverity.leaves sha D).length := by rw [length_leaves]; omega
      rw [List.take_add_one, List.getElem?_eq_getElem hk', getElem_leaves, Option.toList_some]
    rw [List.range_succ, List.foldlM_append, ih (by omega), ok_bind, List.foldlM_cons,
      updateHash_of_length_eq hlen hk1, ok_bind, List.foldlM_nil, pure_eq, hkey]
    congr 2
    rw [length_chunk]
    simp only [chunkSize] at hblock ⊢
    omega

theorem ofContent_eq (D : List UInt8) (hD : D.length < 2 ^ 64) :
    (ofContent sha D : Outcome ε MerkleLeaves) = ok ⟨Fsverity.leaves sha D, D.length⟩ := by
  have hend : D.length ≤ chunkSize * (D.length ⌈/⌉ chunkSize) :=
    le_smul_ceilDiv (show 0 < chunkSize by decide)
  rw [ofContent, foldlM_updateHash sha D hD le_rfl, Nat.min_eq_left hend,
    List.take_of_length_le (by rw [length_leaves])]

/-- The builder's root hash of the leaves of `D` is the fs-verity root hash of `D`. -/
theorem calculateRootHash_leaves {D : List UInt8} (hD : D.length < 2 ^ 63) (fileSize : Nat) :
    calculateRootHash sha ⟨Fsverity.leaves sha D, fileSize⟩ = ok (rootHash sha D) := by
  rcases Nat.lt_or_ge chunkSize D.length with hlt | hle
  · have htwo : 2 ≤ (Fsverity.leaves sha D).length := by
      rw [length_leaves]
      exact (lt_ceilDiv_iff (by decide)).2 (by omega)
    have hbound : (Fsverity.leaves sha D).length * chunkSize + 524288 < 2 ^ 64 := by
      have hleaves : (Fsverity.leaves sha D).length * 4096 < D.length + 4096 := by
        rw [length_leaves, Nat.ceilDiv_eq_add_pred_div]
        simp only [chunkSize]
        omega
      calc (Fsverity.leaves sha D).length * 4096 + 524288 < D.length + 4096 + 524288 :=
            Nat.add_lt_add_right hleaves _
        _ ≤ 2 ^ 64 := by omega
    rw [@calculateRootHash_eq sha ⟨Fsverity.leaves sha D, fileSize⟩ htwo hbound,
      rootHash_of_lt sha hlt]
  · by_cases hnil : D = []
    · subst hnil
      rfl
    have hone : (Fsverity.leaves sha D).length = 1 := by
      rw [length_leaves]
      refine le_antisymm ((ceilDiv_le_iff_le_mul (by decide)).2 (by rw [Nat.mul_one]; exact hle)) ?_
      rw [Nat.one_le_iff_ne_zero, ← Nat.pos_iff_ne_zero, lt_ceilDiv_iff (by decide), Nat.mul_zero]
      exact List.length_pos_iff.mpr hnil
    obtain ⟨leaf, hleaf⟩ := List.length_eq_one_iff.mp hone
    have hroot : rootHash sha D = leaf := by
      rw [rootHash, hleaf]
    rw [hroot]
    unfold calculateRootHash
    simp only [hleaf, List.length_singleton, List.getElem?_cons_zero, expect_some]

/-- The digest a writer of `D` computes is the fs-verity digest of `D`. -/
theorem calculateFsverityDigest_ofContent {D : List UInt8} (hD : D.length < 2 ^ 63) :
    (do let t ← ofContent sha D; calculateFsverityDigest sha t) = ok (digest sha D) := by
  rw [ofContent_eq sha D (by omega), ok_bind, calculateFsverityDigest, calculateRootHash_leaves sha hD,
    ok_bind]
  rfl

end MerkleLeaves

end Virtualization.AuthFs
