import Virtualization.AuthFs.Common
import Virtualization.Lib.Io

/-!
# `authfs::fsverity::common`

The shape of the fs-verity tree (`merkle_tree_height`, `merkle_tree_size`) and the digest of a
file (`build_fsverity_digest`), which hashes the `fsverity_descriptor` of linux/fsverity.h
holding the root hash and the file size.

`merkle_tree_height` computes `⌈log₁₂₈ p⌉` for `p` hash pages from the bit length of `p - 1`
(`log128Ceil_eq`): `p ≤ 128 ^ h` exactly when `p - 1` has at most `7 h` bits.
-/

namespace Virtualization.AuthFs

open Outcome

variable {ε : Type}

/-- `FsverityError`. -/
inductive FsverityError where
  | invalidDigest
  | insufficientData (size : Nat)
  | cannotVerify
  | io (e : IoError)
  | unexpectedCryptoError
  | invalidState
deriving DecidableEq, Repr

/-- `log128_ceil`. -/
def log128Ceil (num : Nat) : Outcome ε (Option Nat) :=
  match num with
  | 0 => ok none
  | n => do
    let bits ← checkedSub 64 (leadingZeros 64 (n - 1))
    some <$> divideRoundup bits 7

/-- `merkle_tree_height`: the level of the root node for `data_size` bytes, or `None` if the
size is `0`. -/
def merkleTreeHeight (dataSize : Nat) : Outcome ε (Option Nat) := do
  let hashesPerNode := chunkSize / hashSize
  let hashPages ← divideRoundup dataSize (hashesPerNode * chunkSize)
  log128Ceil hashPages

/-- The storage that the hashes of `dataSize` bytes take in the level above, in whole chunks:
one round of `merkle_tree_size`'s loop. -/
def hashStorageSize (dataSize : Nat) : Outcome ε Nat := do
  let blocks ← divideRoundup dataSize chunkSize
  let hashSize' ← checkedMul 64 blocks hashSize
  let storageBlocks ← divideRoundup hashSize' chunkSize
  checkedMul 64 storageBlocks chunkSize

/-- Each level above a level of more than one chunk is smaller than it. -/
theorem hashStorageSize_lt {dataSize d : Nat} (hd : chunkSize < dataSize)
    (h : (hashStorageSize dataSize : Outcome ε Nat) = ok d) : d < dataSize := by
  obtain ⟨blocks, hblocks, h⟩ := bind_eq_ok.mp h
  obtain ⟨hs, hhs, h⟩ := bind_eq_ok.mp h
  obtain ⟨sb, hsb, h⟩ := bind_eq_ok.mp h
  obtain ⟨-, -, rfl⟩ := divideRoundup_eq_ok hblocks
  obtain ⟨-, rfl⟩ := checkedMul_eq_ok.mp hhs
  obtain ⟨-, -, rfl⟩ := divideRoundup_eq_ok hsb
  obtain ⟨-, rfl⟩ := checkedMul_eq_ok.mp h
  simp only [chunkSize, hashSize, Nat.ceilDiv_eq_add_pred_div] at hd ⊢
  omega

set_option linter.unusedVariables false in
/-- `merkle_tree_size`'s loop: `total` plus the storage of every level above `dataSize`
bytes. -/
def merkleTreeSizeLoop (dataSize total : Nat) : Outcome ε Nat :=
  if hd : chunkSize < dataSize then do
    let ⟨hashStorage, h⟩ ← (hashStorageSize dataSize : Outcome ε Nat).attach
    let total' ← checkedAdd 64 total hashStorage
    merkleTreeSizeLoop hashStorage total'
  else ok total
termination_by dataSize
decreasing_by exact hashStorageSize_lt hd h

/-- `merkle_tree_size`: the size of the Merkle tree for `data_size` bytes. -/
def merkleTreeSize (dataSize : Nat) : Outcome ε Nat := merkleTreeSizeLoop dataSize 0

/-! ## The digest -/

/-- `FS_VERITY_VERSION`. -/
def fsVerityVersion : UInt8 := 1

/-- `FS_VERITY_HASH_ALG_SHA256`. -/
def fsVerityHashAlgSha256 : UInt8 := 1

/-- `FS_VERITY_LOG_BLOCKSIZE`. -/
def fsVerityLogBlocksize : UInt8 := 12

/-- The bytes `build_fsverity_digest` hashes: the little-endian `fsverity_descriptor`. -/
def fsverityDescriptor (rootHash : Sha256Hash) (fileSize : Nat) : List UInt8 :=
  [fsVerityVersion] ++ [fsVerityHashAlgSha256] ++ [fsVerityLogBlocksize] ++ [0] ++
    leBytes 4 0 ++ leBytes 8 fileSize ++ rootHash.toList ++
    List.replicate 32 0 ++ List.replicate 32 0 ++
    (List.replicate 32 0 ++ List.replicate 32 0 ++ List.replicate 32 0 ++
      List.replicate 32 0 ++ List.replicate 16 0)

/-- `build_fsverity_digest`. -/
def buildFsverityDigest (sha : List UInt8 → Sha256Hash) (rootHash : Sha256Hash)
    (fileSize : Nat) : Sha256Hash :=
  sha (fsverityDescriptor rootHash fileSize)

/-- The descriptor holds the root hash at bytes `16 .. 48`. -/
theorem take_drop_fsverityDescriptor (rootHash : Sha256Hash) (fileSize : Nat) :
    ((fsverityDescriptor rootHash fileSize).drop 16).take 32 = rootHash.toList := by
  simp [fsverityDescriptor, leBytes, rootHash.length_toList]

/-- Descriptors of one file size with different root hashes differ. -/
theorem fsverityDescriptor_injective {r r' : Sha256Hash} {fileSize : Nat}
    (h : fsverityDescriptor r fileSize = fsverityDescriptor r' fileSize) : r = r' := by
  apply FixedBytes.toList_injective
  rw [← take_drop_fsverityDescriptor r fileSize, h, take_drop_fsverityDescriptor]

end Virtualization.AuthFs
