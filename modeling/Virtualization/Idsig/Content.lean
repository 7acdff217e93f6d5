import Virtualization.Idsig.Generate
import Virtualization.Idsig.Fsverity
import Virtualization.AuthFs.Fsverity.Builder

/-!
# What idsig's tree holds

`HashTree::from` with no salt, blocks of 4096 bytes and SHA-256, against fs-verity's tree of the
same bytes (`Fsverity.merkleTree`, `Fsverity.rootHash`) and authfs's `calculate_root_hash`.  Up
to a block there is no tree, and the root hash is the hash of the input zero-padded to a block.
For the empty input that is the hash of a block of zeros, `HASH_OF_4096_ZEROS`, where fs-verity
and authfs give a root hash of zeros.
-/

namespace Virtualization.Idsig

open Outcome AuthFs AuthFs.Fsverity

variable {ε : Type}

/-- `ring::digest::SHA256` over a hash function: 32-byte digests, 64-byte blocks. -/
def sha256 (sha : List UInt8 → Sha256Hash) : Algorithm :=
  ⟨32, 64, fun m ↦ (sha m).toList, fun m ↦ (sha m).length_toList⟩

@[simp] theorem zeroPadSalt_nil (algorithm : Algorithm) :
    (zeroPadSalt [] algorithm : Outcome ε (List UInt8)) = ok [] := rfl

/-- Over at most a block there are no levels, and `generate_hash_tree` reads nothing. -/
theorem generateHashTree_of_le {inputSize blockSize : Nat} (salt : List UInt8)
    (algorithm : Algorithm) (h : inputSize ≤ blockSize) :
    generateHashTree inputSize salt blockSize algorithm = pure [] := by
  have htree : (treeSize [] : Outcome IoError Nat) = ok 0 := rfl
  rw [generateHashTree, calcHashLevels_of_le h, Stateful.lift_ok_bind, htree,
    Stateful.lift_ok_bind, vecZeroed_of_le (Nat.zero_le _), Stateful.lift_ok_bind, hashLevels]
  rfl

/-- Over at most a block, with no salt, `HashTree::from` has no tree and hashes what is left of
the input, zero-padded to a block. -/
theorem fromReader_of_le {inputSize blockSize : Nat} (algorithm : Algorithm)
    {input : List UInt8} (h : inputSize ≤ blockSize) (hlen : input.length ≤ blockSize)
    (hmax : blockSize ≤ isizeMax) :
    HashTree.fromReader inputSize [] blockSize algorithm input =
      .ok (.ok ⟨[], algorithm.digest (input.rightpad blockSize 0)⟩, []) := by
  have hread : (readToEnd : Stateful (List UInt8) IoError (List UInt8)) input =
      .ok (.ok input, []) := rfl
  rw [HashTree.fromReader, zeroPadSalt_nil, Stateful.lift_ok_bind,
    generateHashTree_of_le [] algorithm h, Stateful.pure_bind]
  simp only [List.isEmpty_nil, ↓reduceIte]
  rw [Stateful.bind_of_ok hread, hashOneBlock_of_le algorithm hlen hmax, Stateful.lift_ok_bind,
    Stateful.pure_apply, List.nil_append]

/-! ## The empty input -/

/-- For the empty input `HashTree::from` gives the hash of a block of zeros as the root hash,
where fs-verity's root hash and authfs's `calculate_root_hash` are zeros; SHA-256 hashes that
block to `HASH_OF_4096_ZEROS`, which is not zero. -/
theorem fromReader_empty_rootHash (sha : List UInt8 → Sha256Hash) :
    HashTree.fromReader 0 [] 4096 (sha256 sha) [] =
        .ok (.ok ⟨[], (sha (List.replicate 4096 0)).toList⟩, []) ∧
      rootHash sha [] = Sha256Hash.zero ∧
      MerkleLeaves.calculateRootHash sha MerkleLeaves.new = ok Sha256Hash.zero ∧
      hashOf4096Zeros ≠ Sha256Hash.zero := by
  have hpad : ([] : List UInt8).rightpad 4096 0 = List.replicate 4096 0 := by
    rw [List.rightpad, List.length_nil, Nat.sub_zero, List.nil_append]
  have hmax : 4096 ≤ isizeMax := by
    rw [isizeMax]
    omega
  refine ⟨?_, rfl, rfl, by decide⟩
  rw [fromReader_of_le (sha256 sha) (Nat.zero_le _) (Nat.zero_le _) hmax, hpad]
  rfl

end Virtualization.Idsig
