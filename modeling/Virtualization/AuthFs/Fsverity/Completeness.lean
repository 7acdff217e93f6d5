import Virtualization.AuthFs.Fsverity.Builder
import Virtualization.AuthFs.Fsverity.Verifier

/-!
# The builder and the verifier agree

A writer of `D` computes its digest with `MerkleLeaves`; a reader checks `D` against it with
`VerifiedFileReader`, from the honest source of `D` and the honest source of the tree that
fs-verity stores for `D`, top level first.

For every non-empty file of at most `2 ^ 61` bytes, `new` accepts the builder's digest and
every chunk is returned as the honest source returns it (`verifiedFileReader_complete`): the walk
reads the honest path from the chunk to the root (`forall₂_walk_honestPath`), and the fold climbs
it (`verityCheck_honest`).  Past `2 ^ 61` bytes the digest is still computed and accepted, but
every read panics in `fsverity_walk` (`readChunk_honest_of_lt`).
-/

namespace Virtualization.AuthFs

open Outcome Fsverity

variable (sha : List UInt8 → Sha256Hash) {D : List UInt8}

/-! ## The honest sources -/

/-- The honest tree source returns every stored node whole. -/
theorem readChunk_merkleTree (hlt : chunkSize < D.length) {j : Nat} {node : List UInt8}
    (hj : (treeNodes sha D)[j]? = some node) (buf : ChunkBuffer) :
    ∃ b : ChunkBuffer, b.toList = node ∧
      (EagerChunkReader.mk (merkleTree sha D)).readChunk j buf = ok (b, chunkSize) := by
  have hnode : node.length = chunkSize :=
    Merkle.length_of_mem_levelsDown shape sha FixedBytes.toList 0 (fun h ↦ h.length_toList)
      (by decide) _ _ (List.mem_of_getElem? hj)
  have hchunk : chunk chunkSize (merkleTree sha D) j = node := by
    rw [merkleTree_of_lt sha hlt]
    exact Merkle.chunk_tree shape sha FixedBytes.toList 0 (fun h ↦ h.length_toList) (by decide) _ hj
  refine ⟨buf.setPrefix node, ?_, ?_⟩
  · have hnode' : node.length = 4096 := hnode
    rw [FixedBytes.toList_setPrefix, List.take_of_length_le (le_of_eq hnode'), hnode',
      List.drop_of_length_le (le_of_eq buf.length_toList), List.append_nil]
  · rw [EagerChunkReader.readChunk_eq, hchunk, hnode]

/-- A file of more than one chunk: `new` reads only the top node of the honest tree, so it accepts
the digest of `D` whatever the file source. -/
theorem new_of_lt (hlt : chunkSize < D.length) (file : ReadByChunk) :
    VerifiedFileReader.new sha file D.length (digest sha D).toList
        (EagerChunkReader.toReadByChunk ⟨merkleTree sha D⟩) =
      ok ⟨D.length, file, EagerChunkReader.toReadByChunk ⟨merkleTree sha D⟩, rootHash sha D⟩ := by
  have hleaves : 0 < (leaves sha D).length := by
    rw [length_leaves]
    exact (lt_ceilDiv_iff (by decide)).2 (by omega)
  obtain ⟨top, htop, hroot⟩ := Merkle.getElem?_treeNodes_zero shape sha FixedBytes.toList 0 hleaves
  obtain ⟨b, hb, hread⟩ := readChunk_merkleTree sha hlt htop (FixedBytes.zero _)
  unfold VerifiedFileReader.new
  rw [if_neg (Nat.not_le_of_lt hlt), EagerChunkReader.readChunk_toReadByChunk, hread, mapErr_ok,
    ok_bind]
  dsimp only
  rw [if_neg (not_not.mpr rfl), pure_eq, ok_bind, hb, ← hroot, ← rootHash_of_lt sha hlt]
  exact if_pos rfl

/-- From the honest sources, `new` accepts the digest of `D` and keeps the root hash of `D`. -/
theorem new_honest (hD0 : D ≠ []) :
    VerifiedFileReader.new sha (EagerChunkReader.toReadByChunk ⟨D⟩) D.length (digest sha D).toList
        (EagerChunkReader.toReadByChunk ⟨merkleTree sha D⟩) =
      ok ⟨D.length, EagerChunkReader.toReadByChunk ⟨D⟩,
        EagerChunkReader.toReadByChunk ⟨merkleTree sha D⟩, rootHash sha D⟩ := by
  by_cases hle : D.length ≤ chunkSize
  · have hchunk : chunk chunkSize D 0 = D := by
      rw [chunk, Nat.mul_zero, List.drop_zero, List.take_of_length_le hle]
    have hpad : ((FixedBytes.zero 4096).setPrefix D).toList = D.rightpad chunkSize 0 :=
      FixedBytes.toList_zero_setPrefix hle
    have hroot : sha (D.rightpad chunkSize 0) = rootHash sha D := (rootHash_of_le sha hD0 hle).symm
    unfold VerifiedFileReader.new
    rw [if_pos hle, EagerChunkReader.readChunk_toReadByChunk, EagerChunkReader.readChunk_eq, hchunk,
      mapErr_ok, ok_bind]
    dsimp only
    rw [pure_eq, ok_bind, hpad, hroot]
    exact if_pos rfl
  · exact new_of_lt sha (Nat.lt_of_not_le hle) _

/-! ## The walk over the honest tree -/

/-- The walk from chunk `i` reads, at every level, the node of the honest path whole, at the
slot of the hash below. -/
theorem forall₂_walk_honestPath (hlt : chunkSize < D.length) {i : Nat}
    (hi : i < D.length ⌈/⌉ chunkSize) :
    List.Forall₂ (fun s q ↦ s.2 = hashSize * q.2 ∧ s.2 + hashSize ≤ chunkSize ∧
        ∃ buf : ChunkBuffer, ∃ size,
          (EagerChunkReader.toReadByChunk ⟨merkleTree sha D⟩).readChunk s.1 (FixedBytes.zero _) =
            ok (buf, size) ∧ buf.toList = q.1)
      ((List.range (Merkle.height shape (D.length ⌈/⌉ chunkSize) + 1)).map
        (walkPosition (D.length ⌈/⌉ chunkSize) i (Merkle.height shape (D.length ⌈/⌉ chunkSize))))
      (Merkle.honestPath shape sha FixedBytes.toList 0 (leaves sha D) i) := by
  have hi' : i < (leaves sha D).length := by rwa [length_leaves]
  rw [Merkle.honestPath_eq_map, length_leaves, List.forall₂_map_left_iff,
    List.forall₂_map_right_iff, List.forall₂_same]
  intro x hx
  refine ⟨walkPosition_snd sha (leaves sha D) _ _ _ _, walkPosition_snd_add_le _ _ _ _, ?_⟩
  -- the position of level `x` is where the honest node of level `x` is stored
  have hnode := Merkle.getElem?_treeNodes_pathEntry shape sha FixedBytes.toList 0 hi'
    (x := x) (by rw [length_leaves]; exact Nat.lt_succ_iff.mp (List.mem_range.mp hx))
  rw [length_leaves] at hnode
  obtain ⟨b, hb, hread⟩ := readChunk_merkleTree sha hlt hnode (FixedBytes.zero _)
  exact ⟨b, chunkSize, hread, hb⟩

/-- `verity_check` of a chunk of `D`, over the honest tree, returns the root hash of `D`. -/
theorem verityCheck_honest (hD0 : D ≠ []) (hD : D.length ≤ 2 ^ 61) {i : Nat}
    (hi : i < D.length ⌈/⌉ chunkSize) :
    verityCheck sha (chunk chunkSize D i) i D.length
      (EagerChunkReader.toReadByChunk ⟨merkleTree sha D⟩) = ok (rootHash sha D) := by
  have hne : D.length ≠ 0 := (List.length_pos_iff.mpr hD0).ne'
  have hchunk : (chunk chunkSize D i).length ≤ chunkSize := by
    rw [length_chunk]
    exact Nat.min_le_left _ _
  have hleaf : sha ((chunk chunkSize D i).rightpad chunkSize 0) =
      hashBlock sha (chunk chunkSize D i) := rfl
  rw [verityCheck, assert_of_true hne, ok_bind, hashWithPadding_eq sha hchunk le_rfl, ok_bind,
    hleaf]
  by_cases hle : D.length ≤ chunkSize
  · have hi0 : i = 0 := by
      have := (lt_ceilDiv_iff (by decide)).1 hi
      simp only [chunkSize] at this hle
      omega
    subst hi0
    rw [if_pos hle, pure_eq, chunk, Nat.mul_zero, List.drop_zero, List.take_of_length_le hle,
      rootHash_of_le sha hD0 hle]
  · -- the fold climbs the honest path from the chunk's leaf to the root
    have hlt : chunkSize < D.length := Nat.lt_of_not_le hle
    have hi' : i < (leaves sha D).length := by rwa [length_leaves]
    have hchain := Merkle.chain_honestPath shape sha FixedBytes.toList 0 (w := hashSize)
      (fun h ↦ h.length_toList) hi'
    rw [getElem_leaves] at hchain
    rw [if_neg hle, fsverityWalk_eq hlt hD hi, ok_bind, rootHash_of_lt sha hlt]
    exact foldlM_verifyLevel_of_chain sha hchain (forall₂_walk_honestPath sha hlt hi)

/-- Over the honest sources, the verified reader returns every chunk of `D` as the honest
source does. -/
theorem readChunk_honest (hD0 : D ≠ []) (hD : D.length ≤ 2 ^ 61) {i : Nat}
    (hi : i < D.length ⌈/⌉ chunkSize) (buf : ChunkBuffer) :
    VerifiedFileReader.readChunk sha ⟨D.length, EagerChunkReader.toReadByChunk ⟨D⟩,
        EagerChunkReader.toReadByChunk ⟨merkleTree sha D⟩, rootHash sha D⟩ i buf =
      ok (buf.setPrefix (chunk chunkSize D i), (chunk chunkSize D i).length) := by
  have hchunk : (chunk chunkSize D i).length ≤ chunkSize := by
    rw [length_chunk]
    exact Nat.min_le_left _ _
  rw [VerifiedFileReader.readChunk_mk, EagerChunkReader.readChunk_toReadByChunk,
    EagerChunkReader.readChunk_eq, ok_bind]
  dsimp only
  rw [FixedBytes.take_setPrefix buf hchunk, verityCheck_honest sha hD0 hD hi, mapErr_ok, ok_bind,
    if_neg (not_not.mpr rfl)]

/-! ## Completeness -/

theorem verifiedFileReader_complete (hD0 : D ≠ []) (hD : D.length ≤ 2 ^ 61) :
    ∃ t d, (MerkleLeaves.ofContent sha D : Outcome FsverityError MerkleLeaves) = ok t ∧
      t.calculateFsverityDigest sha = ok d ∧
      ∃ v, VerifiedFileReader.new sha (EagerChunkReader.toReadByChunk ⟨D⟩) D.length d.toList
          (EagerChunkReader.toReadByChunk ⟨merkleTree sha D⟩) = ok v ∧
        ∀ i < D.length ⌈/⌉ chunkSize, ∀ buf, v.readChunk sha i buf =
          ok (buf.setPrefix (chunk chunkSize D i), (chunk chunkSize D i).length) := by
  have hcontent := MerkleLeaves.ofContent_eq (ε := FsverityError) sha D (by omega)
  have hdigest := MerkleLeaves.calculateFsverityDigest_ofContent sha (show D.length < 2 ^ 63 by omega)
  rw [hcontent, ok_bind] at hdigest
  exact ⟨_, _, hcontent, hdigest, _, new_honest sha hD0,
    fun i hi buf ↦ readChunk_honest sha hD0 hD hi buf⟩

/-- Three chunks of a counting pattern, under a hash that keeps the first 32 bytes of a string. -/
theorem verifiedFileReader_complete_counting :
    let sha : List UInt8 → Sha256Hash := fun m ↦ (FixedBytes.zero 32).setPrefix m
    let D : List UInt8 := (List.range 8193).map UInt8.ofNat
    ∃ t d, (MerkleLeaves.ofContent sha D : Outcome FsverityError MerkleLeaves) = ok t ∧
      t.calculateFsverityDigest sha = ok d ∧
      ∃ v, VerifiedFileReader.new sha (EagerChunkReader.toReadByChunk ⟨D⟩) D.length d.toList
          (EagerChunkReader.toReadByChunk ⟨merkleTree sha D⟩) = ok v ∧
        ∀ i < D.length ⌈/⌉ chunkSize, ∀ buf, v.readChunk sha i buf =
          ok (buf.setPrefix (chunk chunkSize D i), (chunk chunkSize D i).length) := by
  intro sha D
  have hlen : D.length = 8193 := by simp [D]
  exact @verifiedFileReader_complete sha D (List.ne_nil_of_length_pos (by rw [hlen]; decide))
    (by rw [hlen]; decide)

/-- Past `2 ^ 61` bytes, `new` accepts the builder's digest from the honest sources, and every
read panics. -/
theorem readChunk_honest_of_lt (hn : 2 ^ 61 < D.length) (hlt : D.length < 2 ^ 63) (i : Nat)
    (buf : ChunkBuffer) :
    VerifiedFileReader.readChunk sha ⟨D.length, EagerChunkReader.toReadByChunk ⟨D⟩,
      EagerChunkReader.toReadByChunk ⟨merkleTree sha D⟩, rootHash sha D⟩ i buf = panic :=
  VerifiedFileReader.readChunk_of_lt sha hn (show D.length + 524288 < 2 ^ 64 by omega)
    (EagerChunkReader.readChunk_eq _ _ _)

/-- Over a zero file of `2 ^ 61 + 1` bytes, for every hash function, `new` accepts the builder's
digest and the first read panics. -/
theorem verifiedFileReader_zeroFile_panics_every_sha :
    ∀ sha : List UInt8 → Sha256Hash, ∃ t d,
      (MerkleLeaves.ofContent sha (List.replicate (2 ^ 61 + 1) 0) :
        Outcome FsverityError MerkleLeaves) = ok t ∧
      t.calculateFsverityDigest sha = ok d ∧
      ∃ v, VerifiedFileReader.new sha
          (EagerChunkReader.toReadByChunk ⟨List.replicate (2 ^ 61 + 1) 0⟩) (2 ^ 61 + 1) d.toList
          (EagerChunkReader.toReadByChunk ⟨merkleTree sha (List.replicate (2 ^ 61 + 1) 0)⟩) =
          ok v ∧
        v.readChunk sha 0 (FixedBytes.zero _) = panic := by
  intro sha
  have hlen : (List.replicate (2 ^ 61 + 1) (0 : UInt8)).length = 2 ^ 61 + 1 := List.length_replicate
  have hD0 : List.replicate (2 ^ 61 + 1) (0 : UInt8) ≠ [] := List.ne_nil_of_length_pos (by omega)
  have hcontent := MerkleLeaves.ofContent_eq (ε := FsverityError) sha
    (List.replicate (2 ^ 61 + 1) 0) (by omega)
  have hdigest := MerkleLeaves.calculateFsverityDigest_ofContent sha
    (show (List.replicate (2 ^ 61 + 1) (0 : UInt8)).length < 2 ^ 63 by omega)
  rw [hcontent, ok_bind] at hdigest
  have hnew := new_honest sha hD0
  have hpanic := readChunk_honest_of_lt sha (D := List.replicate (2 ^ 61 + 1) 0) (by omega)
    (by omega) 0 (FixedBytes.zero _)
  rw [hlen] at hnew hpanic
  exact ⟨_, _, hcontent, hdigest, _, hnew, hpanic⟩

/-- The zero file of `2 ^ 61 + 1` bytes, under the hash that maps every string to zero. -/
theorem verifiedFileReader_zeroFile_panics :
    ∃ t d, (MerkleLeaves.ofContent (fun _ ↦ Sha256Hash.zero) (List.replicate (2 ^ 61 + 1) 0) :
        Outcome FsverityError MerkleLeaves) = ok t ∧
      t.calculateFsverityDigest (fun _ ↦ Sha256Hash.zero) = ok d ∧
      ∃ v, VerifiedFileReader.new (fun _ ↦ Sha256Hash.zero)
          (EagerChunkReader.toReadByChunk ⟨List.replicate (2 ^ 61 + 1) 0⟩) (2 ^ 61 + 1) d.toList
          (EagerChunkReader.toReadByChunk
            ⟨merkleTree (fun _ ↦ Sha256Hash.zero) (List.replicate (2 ^ 61 + 1) 0)⟩) = ok v ∧
        v.readChunk (fun _ ↦ Sha256Hash.zero) 0 (FixedBytes.zero _) = panic :=
  verifiedFileReader_zeroFile_panics_every_sha _

end Virtualization.AuthFs
