import Virtualization.Lib.BlockDevice

/-!
# `authfs::fsverity::metadata`: the Merkle tree of a `.fsv_meta` file

A metadata file holds a header, an optional signature and, from the next 4 KiB boundary on, the
Merkle tree of the file it describes.  `read_merkle_tree` serves the tree like `pread(2)`: the
bytes from `offset` within the tree, as many as the buffer holds and the file has.

It takes the file's end to lie after the start of the read.  At an offset past the end of the
tree, `end - start` underflows and the read panics (`readMerkleTree_past_end`); up to the end it
reads `min(buf.len(), file_size - merkle_tree_offset - offset)` bytes (`readMerkleTree_eq`).
-/

namespace Virtualization.AuthFs

open Outcome

/-- `FSVerityMetadata`, with what `read_merkle_tree` and `readFsveritySignature` read of it: the
signature, the bytes of the metadata file and the offset of the tree in it. -/
structure FSVerityMetadata where
  signature : Option (List UInt8)
  metadataFile : List UInt8
  merkleTreeOffset : Nat

namespace FSVerityMetadata

/-- `FSVerityMetadata::read_merkle_tree`: the size read, and the buffer with the bytes read at its
start.  `debug_assert!` is compiled out of a release build. -/
def readMerkleTree (m : FSVerityMetadata) (offset : Nat) (buf : List UInt8) :
    Outcome IoError (Nat × List UInt8) := do
  let fileSize := m.metadataFile.length
  let start ← checkedAdd 64 m.merkleTreeOffset offset
  let end_ ← checkedAdd 64 start buf.length
  let end_ := min fileSize end_
  let readSize ← checkedSub end_ start
  if readSize = 0 then pure (0, buf)
  else
    let data ← ofExcept (readExactAt m.metadataFile start readSize)
    pure (readSize, data ++ buf.drop readSize)

variable {m : FSVerityMetadata} {offset : Nat} {buf : List UInt8}

/-- Up to the end of the file, the read fills the buffer's start with the file's bytes from the
offset within the tree on, as many as the buffer holds and the file has. -/
theorem readMerkleTree_eq (hstart : m.merkleTreeOffset + offset ≤ m.metadataFile.length)
    (hfit : m.metadataFile.length + buf.length < 2 ^ 64) :
    m.readMerkleTree offset buf =
      ok (min buf.length (m.metadataFile.length - (m.merkleTreeOffset + offset)),
        bytesAt m.metadataFile (m.merkleTreeOffset + offset)
            (min buf.length (m.metadataFile.length - (m.merkleTreeOffset + offset))) ++
          buf.drop (min buf.length (m.metadataFile.length - (m.merkleTreeOffset + offset)))) := by
  have hsize : min m.metadataFile.length (m.merkleTreeOffset + offset + buf.length) -
      (m.merkleTreeOffset + offset) =
        min buf.length (m.metadataFile.length - (m.merkleTreeOffset + offset)) := by omega
  rw [readMerkleTree, checkedAdd_of_lt (by omega), ok_bind, checkedAdd_of_lt (by omega), ok_bind]
  dsimp only
  rw [checkedSub_of_le (Nat.le_min.mpr ⟨hstart, Nat.le_add_right _ _⟩), ok_bind, hsize]
  split_ifs with hzero
  · rw [hzero, bytesAt, List.take_zero, List.nil_append, List.drop_zero, pure_eq]
  · rw [readExactAt_of_le (by omega), ofExcept_ok, ok_bind, pure_eq]

/-- Past the end of the file, `end - start` underflows: the read panics. -/
theorem readMerkleTree_past_end (hpast : m.metadataFile.length < m.merkleTreeOffset + offset) :
    m.readMerkleTree offset buf = panic := by
  rw [readMerkleTree]
  by_cases hstart : m.merkleTreeOffset + offset < 2 ^ 64
  · rw [checkedAdd_of_lt hstart, ok_bind]
    by_cases hend : m.merkleTreeOffset + offset + buf.length < 2 ^ 64
    · rw [checkedAdd_of_lt hend, ok_bind]
      dsimp only
      rw [checkedSub, if_neg (by omega), panic_bind]
    · rw [checkedAdd_of_le (by omega), panic_bind]
  · rw [checkedAdd_of_le (by omega), panic_bind]

end FSVerityMetadata

end Virtualization.AuthFs
