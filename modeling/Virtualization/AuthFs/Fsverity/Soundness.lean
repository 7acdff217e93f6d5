import Virtualization.AuthFs.Fsverity.Completeness
import Virtualization.AuthFs.FuseFs.Read

/-!
# Soundness of verified reads

A `VerifiedFileReader` that `new` accepted against the digest of `D` returns nothing but `D`,
whatever its two sources return, as long as no string hashed for `D` has a second preimage
(`SecondPreimageResistant`).  `new` then holds the root hash of `D`, since only the descriptor
of that root hash hashes to the digest (`new_eq_of_digest`).  A chunk whose walk ends at that
root has climbed a chain of nodes through the slots of the honest path, and the chain
of fewest preimages is the honest one (`Merkle.Chain.eq_of_secondPreimage`), so the chunk,
zero-padded, is the block of `D` (`verityCheck_sound`).

`read_chunks` takes the bytes of a piece from the whole buffer, also past the size the source
reported, so the file source must leave the rest of the buffer alone
(`ReadByChunk.WritesPrefix`); every reader of the crate does.  It need return only at the
chunks of `D` (`ReadByChunk.ReturnsBelow`): `RemoteFileReader` panics from chunk `2 ^ 52` on,
where `chunk_index * CHUNK_SIZE` overflows, and returns below it.  Then every read copies exactly
the bytes of `D` it asks for, for files of at most `2 ^ 61` bytes.
The file of `2 ^ 61 + 1` zeros is accepted with a hash that has no second preimage for it, and
its first read panics (`readChunks_zeroFile_panics`).
-/

namespace Virtualization.AuthFs

open Outcome Fsverity

variable (sha : List UInt8 → Sha256Hash) {D : List UInt8}

/-- A reader that `new` accepts against the digest of `D` holds the root hash of `D`. -/
theorem new_eq_of_digest {file tree : ReadByChunk} {v : VerifiedFileReader}
    (hsec : SecondPreimageResistant sha D)
    (hnew : VerifiedFileReader.new sha file D.length (digest sha D).toList tree = ok v) :
    v = ⟨D.length, file, tree, rootHash sha D⟩ := by
  obtain ⟨buf, hdigest, rfl⟩ := VerifiedFileReader.new_eq_ok sha hnew
  have hsha : sha (fsverityDescriptor (sha buf.toList) D.length) = digest sha D :=
    (FixedBytes.toList_injective hdigest).symm
  rw [fsverityDescriptor_injective (hsec.descriptor _ hsha)]

section Check

variable {tree : ReadByChunk} (hsec : SecondPreimageResistant sha D) (hD0 : D ≠ [])
  (hD : D.length ≤ 2 ^ 61)
include hsec hD0 hD

/-- When `verity_check` of `data`, as chunk `i`, returns the root hash of `D`, `data`
zero-padded is block `i` of `D` zero-padded, whatever the tree source returns. -/
theorem verityCheck_sound (htree : tree.Returns) {i : Nat} (hi : i < D.length ⌈/⌉ chunkSize)
    {data : List UInt8} (hdata : data.length ≤ chunkSize) :
    (verityCheck sha data i D.length tree).Ensures fun r ↦
      r = rootHash sha D → data.rightpad chunkSize 0 = (chunk chunkSize D i).rightpad chunkSize 0 := by
  have hne : D.length ≠ 0 := (List.length_pos_iff.mpr hD0).ne'
  have hblock : ∀ m, sha m = hashBlock sha (chunk chunkSize D i) →
      m = (chunk chunkSize D i).rightpad chunkSize 0 :=
    hsec.block _ (mem_chunks.mpr ⟨i, hi, rfl⟩)
  rw [verityCheck, assert_of_true hne, ok_bind, hashWithPadding_eq sha hdata le_rfl, ok_bind]
  by_cases hle : D.length ≤ chunkSize
  · have hi0 : i = 0 := by
      have := (lt_ceilDiv_iff (by decide)).1 hi
      simp only [chunkSize] at this hle
      omega
    subst hi0
    have hchunk : chunk chunkSize D 0 = D := by
      rw [chunk, Nat.mul_zero, List.drop_zero, List.take_of_length_le hle]
    rw [if_pos hle, pure_eq, ensures_ok]
    intro hroot
    rw [rootHash_of_le sha hD0 hle, ← hchunk] at hroot
    exact hblock _ hroot
  · have hlt : chunkSize < D.length := Nat.lt_of_not_le hle
    rw [if_neg hle, fsverityWalk_eq hlt hD hi, ok_bind]
    have hslots : ∀ s ∈ (List.range (Merkle.height shape (D.length ⌈/⌉ chunkSize) + 1)).map
        (walkPosition (D.length ⌈/⌉ chunkSize) i (Merkle.height shape (D.length ⌈/⌉ chunkSize))),
        s.2 % hashSize = 0 ∧ s.2 + hashSize ≤ chunkSize := by
      intro s hs
      obtain ⟨x, -, rfl⟩ := List.mem_map.mp hs
      refine ⟨?_, walkPosition_snd_add_le _ _ _ _⟩
      rw [walkPosition_snd sha (leaves sha D)]
      exact Nat.mul_mod_right _ _
    refine (foldlM_verifyLevel_ensures sha htree _ _ hslots).mono ?_
    rintro r ⟨path, hpath, hchain⟩ rfl
    rw [rootHash_of_lt sha hlt] at hchain
    have hi' : i < (leaves sha D).length := by rwa [length_leaves]
    have honest := Merkle.chain_honestPath shape sha FixedBytes.toList 0 (w := hashSize)
      (fun h ↦ h.length_toList) hi'
    -- the chain the fold read goes through the slots of the honest path
    have hslots' : path.map Prod.snd =
        (Merkle.honestPath shape sha FixedBytes.toList 0 (leaves sha D) i).map Prod.snd := by
      rw [hpath, Merkle.honestPath_eq_map, length_leaves, List.map_map, List.map_map]
      refine List.map_congr_left fun x _ ↦ ?_
      simp only [Function.comp_apply, walkPosition_snd sha (leaves sha D)]
      exact Nat.mul_div_cancel_left _ (by decide)
    obtain ⟨hleaf, -⟩ := Merkle.Chain.eq_of_secondPreimage sha FixedBytes.toList
      FixedBytes.toList_injective hchain honest hslots' fun q hq m hm ↦
        hsec.node q.1 (Merkle.mem_treeNodes_of_mem_honestPath shape sha FixedBytes.toList 0 hi' hq)
          m hm
    rw [getElem_leaves] at hleaf
    exact hblock _ hleaf

/-- Every chunk the verified reader returns is the file source's answer, and the bytes the
source reported, zero-padded, are block `i` of `D` zero-padded. -/
theorem readChunk_sound {file : ReadByChunk} (hfile : file.ReturnsBelow (D.length ⌈/⌉ chunkSize))
    (htree : tree.Returns) {i : Nat} (hi : i < D.length ⌈/⌉ chunkSize) (buf : ChunkBuffer) :
    (VerifiedFileReader.readChunk sha ⟨D.length, file, tree, rootHash sha D⟩ i buf).Ensures
      fun res ↦ file.readChunk i buf = ok res ∧
        (res.1.toList.take res.2).rightpad chunkSize 0 = (chunk chunkSize D i).rightpad chunkSize 0 := by
  rw [VerifiedFileReader.readChunk_mk]
  cases hread : file.readChunk i buf with
  | err e => trivial
  | panic => exact absurd (hread ▸ hfile i hi buf) not_returns_panic
  | ok res =>
    obtain ⟨buf', size⟩ := res
    have hdata : (buf'.toList.take size).length ≤ chunkSize := by
      rw [List.length_take]
      exact (Nat.min_le_left _ _).trans (file.size_le _ _ _ _ hread)
    rw [ok_bind]
    refine (ensures_mapErr.mpr (verityCheck_sound sha hsec hD0 hD htree hi hdata)).bind ?_
    intro r hr
    split_ifs with hne
    · trivial
    · exact ⟨rfl, hr (not_not.mp hne)⟩

/-- From a file source that writes only what it reports, the verified reader serves `D`. -/
theorem serves_verified {file : ReadByChunk} (hfile : file.ReturnsBelow (D.length ⌈/⌉ chunkSize))
    (hwrites : file.WritesPrefix) (htree : tree.Returns) :
    (VerifiedFileReader.toReadByChunk sha ⟨D.length, file, tree, rootHash sha D⟩).Serves D := by
  intro i hi
  rw [VerifiedFileReader.readChunk_toReadByChunk]
  refine (readChunk_sound sha hsec hD0 hD hfile htree hi _).mono ?_
  rintro ⟨buf', n⟩ ⟨hread, hpad⟩
  have hn : n ≤ chunkSize := file.size_le _ _ _ _ hread
  rw [FixedBytes.toList_eq_rightpad_take hn (hwrites _ _ _ _ hread)]
  exact hpad

end Check

theorem readChunks_verified_sound {file tree : ReadByChunk} {v : VerifiedFileReader}
    (hsec : SecondPreimageResistant sha D) (hD0 : D ≠ []) (hD : D.length ≤ 2 ^ 61)
    (hfile : file.ReturnsBelow (D.length ⌈/⌉ chunkSize)) (hwrites : file.WritesPrefix)
    (htree : tree.Returns)
    (hnew : VerifiedFileReader.new sha file D.length (digest sha D).toList tree = ok v) :
    (∀ i < D.length ⌈/⌉ chunkSize, ∀ buf, (v.readChunk sha i buf).Ensures fun res ↦
        (res.1.toList.take res.2).rightpad chunkSize 0 = (chunk chunkSize D i).rightpad chunkSize 0) ∧
      ∀ {W : Type} (out : Write W) (w : W) (offset size : Nat),
        (readChunks out w (v.toReadByChunk sha) D.length offset size).Ensures fun res ↦
          res.1 = min size (D.length - offset) ∧
            out.written res.2 = out.written w ++ (D.drop offset).take (min size (D.length - offset)) := by
  obtain rfl := new_eq_of_digest sha hsec hnew
  refine ⟨fun i hi buf ↦ (readChunk_sound sha hsec hD0 hD hfile htree hi buf).mono fun _ h ↦ h.2, ?_⟩
  intro W out w offset size
  exact readChunks_ensures out w (serves_verified sha hsec hD0 hD hfile hwrites htree) (by omega)
    offset size

/-- Two chunks of zeros served by the honest file server through `RemoteFileReader`, with the tree
held in memory as authfs holds it: `new` accepts the digest, and the verified reader serves the
file. -/
theorem readChunks_verified_sound_remote :
    let D : List UInt8 := List.replicate 4097 0
    let file := RemoteFileReader.toReadByChunk ⟨fun offset size ↦ .ok ((D.drop offset).take size)⟩
    let tree := EagerChunkReader.toReadByChunk ⟨merkleTree (zeroFileSha 4097) D⟩
    let v : VerifiedFileReader := ⟨D.length, file, tree, rootHash (zeroFileSha 4097) D⟩
    VerifiedFileReader.new (zeroFileSha 4097) file D.length (digest (zeroFileSha 4097) D).toList
        tree = ok v ∧
      (∀ i < D.length ⌈/⌉ chunkSize, ∀ buf, (v.readChunk (zeroFileSha 4097) i buf).Ensures
        fun res ↦ (res.1.toList.take res.2).rightpad chunkSize 0 =
          (chunk chunkSize D i).rightpad chunkSize 0) ∧
      ∀ {W : Type} (out : Write W) (w : W) (offset size : Nat),
        (readChunks out w (v.toReadByChunk (zeroFileSha 4097)) D.length offset size).Ensures
          fun res ↦ res.1 = min size (D.length - offset) ∧
            out.written res.2 = out.written w ++ (D.drop offset).take (min size (D.length - offset)) := by
  intro D file tree v
  have hlen : D.length = 4097 := List.length_replicate
  have hnew : VerifiedFileReader.new (zeroFileSha 4097) file D.length
      (digest (zeroFileSha 4097) D).toList tree = ok v :=
    new_of_lt (zeroFileSha 4097) (by rw [hlen]; decide) file
  have hfile : file.ReturnsBelow (D.length ⌈/⌉ chunkSize) := by
    intro i hi
    have hlt := (lt_ceilDiv_iff (by decide)).1 hi
    rw [hlen] at hlt
    exact RemoteFileReader.returnsBelow _ i (by simp only [chunkSize] at hlt; omega)
  exact ⟨hnew, readChunks_verified_sound (zeroFileSha 4097)
    (secondPreimageResistant_zeroFileSha (by decide)) (List.ne_nil_of_length_pos (by rw [hlen]; decide))
    (by rw [hlen]; decide) hfile
    (RemoteFileReader.writesPrefix _) (EagerChunkReader.returns _) hnew⟩

theorem readChunks_zeroFile_panics :
    SecondPreimageResistant (zeroFileSha (2 ^ 61 + 1)) (List.replicate (2 ^ 61 + 1) 0) ∧
      ∃ v, VerifiedFileReader.new (zeroFileSha (2 ^ 61 + 1))
          (EagerChunkReader.toReadByChunk ⟨List.replicate (2 ^ 61 + 1) 0⟩) (2 ^ 61 + 1)
          (digest (zeroFileSha (2 ^ 61 + 1)) (List.replicate (2 ^ 61 + 1) 0)).toList
          (EagerChunkReader.toReadByChunk
            ⟨merkleTree (zeroFileSha (2 ^ 61 + 1)) (List.replicate (2 ^ 61 + 1) 0)⟩) = ok v ∧
        ∀ {W : Type} (out : Write W) (w : W),
          readChunks out w (v.toReadByChunk (zeroFileSha (2 ^ 61 + 1))) (2 ^ 61 + 1) 0 1 = panic := by
  have hlen : (List.replicate (2 ^ 61 + 1) (0 : UInt8)).length = 2 ^ 61 + 1 := List.length_replicate
  have hD0 : List.replicate (2 ^ 61 + 1) (0 : UInt8) ≠ [] := List.ne_nil_of_length_pos (by omega)
  have hnew := new_honest (zeroFileSha (2 ^ 61 + 1)) hD0
  have hpanic := readChunk_honest_of_lt (zeroFileSha (2 ^ 61 + 1))
    (D := List.replicate (2 ^ 61 + 1) 0) (by omega) (by omega) 0 (FixedBytes.zero _)
  rw [hlen] at hnew hpanic
  refine ⟨secondPreimageResistant_zeroFileSha (by omega), _, hnew, fun out w ↦ ?_⟩
  refine readChunks_of_panic out w (by omega) (by omega) ?_
  rw [VerifiedFileReader.readChunk_toReadByChunk, Nat.zero_div]
  exact hpanic

end Virtualization.AuthFs
