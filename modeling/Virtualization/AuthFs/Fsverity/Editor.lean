import Virtualization.AuthFs.Fsverity.Builder
import Virtualization.AuthFs.File

/-!
# `authfs::fsverity::editor`: `VerifiedFileEditor`

A `VerifiedFileEditor` writes a new file to untrusted storage and keeps in trusted memory the
`MerkleLeaves` of what it wrote.  Every call returns its `io::Result` together with the editor
after it, since a call that fails may still have changed the storage and the leaves.

A write is cut into pieces inside one chunk each.  The hash of a whole chunk is the hash of the
piece.  The hash of part of a chunk is computed from the chunk as it was, read back from the
storage and checked against its leaf (`new_hash_for_incomplete_write`).  A `resize` that shrinks
the file into the middle of a chunk rehashes that chunk the same way before the storage is resized.

What the editor acknowledges is the content `writeContent` and `resizeContent` build from the
calls that returned `Ok`.  The leaves do not always describe it:
* a write that stops early at a failed read-back has already raised the size to the end of the
  whole buffer (`writeAt_readError_size`);
* a `resize` whose storage resize fails has already rehashed the last chunk
  (`resize_error_leaves`).
-/

namespace Virtualization.AuthFs

open Outcome

/-- The storage under an editor, `F: ReadByChunk + RandomWrite`, with state `S`.  Reads leave the
state as it is; `write_all_at` and `resize` return the state after them and leave it as it was when
they fail. -/
structure BackingFile (S : Type) where
  readChunk : S → Nat → ChunkBuffer → Outcome IoError (ChunkBuffer × Nat)
  writeAllAt : S → List UInt8 → Nat → Except IoError S
  resize : S → Nat → Except IoError S

/-- `VerifiedFileEditor`: the storage and the leaves of what was written to it. -/
structure VerifiedFileEditor (S : Type) where
  file : S
  merkleTree : MerkleLeaves

namespace VerifiedFileEditor

variable {S : Type} (sha : List UInt8 → Sha256Hash) (F : BackingFile S)

/-- `VerifiedFileEditor::new`: a new, empty file. -/
def new (file : S) : VerifiedFileEditor S := ⟨file, MerkleLeaves.new⟩

/-- `VerifiedFileEditor::size`. -/
def size (e : VerifiedFileEditor S) : Nat := e.merkleTree.fileSize

/-- `VerifiedFileEditor::calculate_fsverity_digest`. -/
def calculateFsverityDigest (e : VerifiedFileEditor S) : Outcome IoError Sha256Hash :=
  (e.merkleTree.calculateFsverityDigest sha).mapErr fun _ ↦ .other "Other"

/-- `read_backing_chunk_unverified`. -/
def readBackingChunkUnverified (file : S) (chunkIndex : Nat) (buf : ChunkBuffer) :
    Outcome IoError (ChunkBuffer × Nat) :=
  F.readChunk file chunkIndex buf

/-- `read_backing_chunk_verified`: a chunk the leaves cover, checked against its leaf, and
nothing past them. -/
def readBackingChunkVerified (file : S) (chunkIndex : Nat) (buf : ChunkBuffer) (t : MerkleLeaves) :
    Outcome IoError (ChunkBuffer × Nat) :=
  if t.isIndexValid chunkIndex then do
    let (buf, size) ← readBackingChunkUnverified F file chunkIndex buf
    if !t.isConsistent chunkIndex (sha buf.toList) then err (.other "InvalidData")
    else ok (buf, size)
  else ok (buf, 0)

/-- `new_hash_for_incomplete_write`: the hash of the chunk with `source` written at
`offset_from_alignment`, from the chunk as it was (checked against its leaf) or from zeros. -/
def newHashForIncompleteWrite (file : S) (source : List UInt8)
    (offsetFromAlignment outputChunkIndex : Nat) (t : MerkleLeaves) : Outcome IoError Sha256Hash := do
  let origData ← if t.isIndexValid outputChunkIndex then do
      let (origData, _) ← readBackingChunkUnverified F file outputChunkIndex (FixedBytes.zero _)
      if !t.isConsistent outputChunkIndex (sha origData.toList) then err (.other "InvalidData")
      else pure origData
    else pure (FixedBytes.zero _)
  let head ← slice origData.toList 0 offsetFromAlignment
  let tailStart ← checkedAdd 64 offsetFromAlignment source.length
  let tail ← slice origData.toList tailStart chunkSize
  pure (sha (head ++ source ++ tail))

/-- `new_chunk_hash`: the hash of a whole chunk written, or of a chunk written in part. -/
def newChunkHash (file : S) (source : List UInt8)
    (offsetFromAlignment currentSize outputChunkIndex : Nat) (t : MerkleLeaves) :
    Outcome IoError Sha256Hash :=
  if currentSize = chunkSize then ok (sha source)
  else newHashForIncompleteWrite sha F file source offsetFromAlignment outputChunkIndex t

/-- The body of `write_at`'s loop on the piece at `outputOffset`.  The loop carries the editor, and
the `io::Result` once the function returns early. -/
def writePiece (buf : List UInt8) (offset : Nat) :
    Nat × Nat → VerifiedFileEditor S × Option (Except IoError Nat) →
      Outcome Empty (ForInStep (VerifiedFileEditor S × Option (Except IoError Nat)))
  | (outputOffset, currentSize), (e, _) => do
    let offsetInBuf ← checkedSub outputOffset offset
    let sourceEnd ← checkedAdd 64 offsetInBuf currentSize
    let source ← slice buf offsetInBuf sourceEnd
    let outputChunkIndex := outputOffset / chunkSize
    let offsetFromAlignment := outputOffset % chunkSize
    match ← (newChunkHash sha F e.file source offsetFromAlignment currentSize outputChunkIndex
        e.merkleTree).result with
    | .error ex =>
      -- the pieces before this one were written: report them, or the error if there were none
      let written ← checkedSub outputOffset offset
      pure (.done (e, some (if written > 0 then .ok written else .error ex)))
    | .ok newHash =>
      match F.writeAllAt e.file source outputOffset with
      | .error ex => pure (.done (e, some (.error ex)))
      | .ok file => do
        let sizeAtLeast := min (offset + buf.length) (2 ^ 64 - 1)
        let merkleTree ← e.merkleTree.updateHash outputChunkIndex newHash sizeAtLeast
        pure (.yield (⟨file, merkleTree⟩, none))

/-- `RandomWrite::write_at` of the editor: the bytes written, with the editor after the call. -/
def writeAt (e : VerifiedFileEditor S) (buf : List UInt8) (offset : Nat) :
    Outcome Empty (Except IoError Nat × VerifiedFileEditor S) := do
  let (e, r) ← ChunkedSizeIter.forIn ⟨buf.length, offset, chunkSize⟩ (e, none)
    (writePiece sha F buf offset)
  pure (r.getD (.ok buf.length), e)

/-- The first part of `resize`: when the file shrinks into the middle of a chunk, the leaf of that
chunk is rehashed from the chunk read back, checked, and cut to the new size. -/
def rehashTail (e : VerifiedFileEditor S) (size : Nat) : Outcome IoError MerkleLeaves :=
  if size < e.merkleTree.fileSize ∧ size % chunkSize > 0 then
    let newTailSize := size % chunkSize
    let chunkIndex := size / chunkSize
    if newTailSize > 0 then do
      let (buf, _) ← readBackingChunkVerified sha F e.file chunkIndex (FixedBytes.zero _)
        e.merkleTree
      let tail ← slice buf.toList 0 newTailSize
      let zeros := List.replicate (chunkSize - newTailSize) 0
      e.merkleTree.updateHash chunkIndex (sha (tail ++ zeros)) size
    else ok e.merkleTree
  else ok e.merkleTree

/-- `RandomWrite::resize` of the editor, with the editor after the call. -/
def resize (e : VerifiedFileEditor S) (size : Nat) :
    Outcome Empty (Except IoError Unit × VerifiedFileEditor S) := do
  match ← (rehashTail sha F e size).result with
  | .error ex => pure (.error ex, e)
  | .ok merkleTree =>
    match F.resize e.file size with
    | .error ex => pure (.error ex, { e with merkleTree := merkleTree })
    | .ok file => do
      let merkleTree ← merkleTree.resize size
      pure (.ok (), ⟨file, merkleTree⟩)

/-- `ReadByChunk::read_chunk` of the editor. -/
def readChunk (e : VerifiedFileEditor S) (chunkIndex : Nat) (buf : ChunkBuffer) :
    Outcome IoError (ChunkBuffer × Nat) :=
  readBackingChunkVerified sha F e.file chunkIndex buf e.merkleTree

/-! ### Spec lemmas -/

variable {sha F}

/-- The hash of a whole chunk is the hash of what is written. -/
theorem newChunkHash_of_eq (file : S) (source : List UInt8) (off index : Nat) (t : MerkleLeaves) :
    newChunkHash sha F file source off chunkSize index t = ok (sha source) :=
  if_pos rfl

/-- Part of a chunk past the leaves is written over zeros. -/
theorem newHashForIncompleteWrite_of_le {file : S} {source : List UInt8} {off index : Nat}
    {t : MerkleLeaves} (hle : t.leaves.length ≤ index) (hfit : off + source.length ≤ chunkSize) :
    newHashForIncompleteWrite sha F file source off index t =
      ok (sha (List.replicate off 0 ++ source ++
        List.replicate (chunkSize - (off + source.length)) 0)) := by
  have hv : t.isIndexValid index = false := by
    rw [MerkleLeaves.isIndexValid, decide_eq_false_iff_not]
    omega
  have hov : off + source.length < 2 ^ 64 := by
    simp only [chunkSize] at hfit
    omega
  have hfit' : off + source.length ≤ 4096 := hfit
  have hhead : off ≤ (List.replicate 4096 (0 : UInt8)).length := by
    rw [List.length_replicate]
    omega
  have htail : chunkSize ≤ (List.replicate 4096 (0 : UInt8)).length :=
    (List.length_replicate).ge
  simp only [newHashForIncompleteWrite, hv, Bool.false_eq_true, if_false, pure_eq, ok_bind,
    FixedBytes.toList_zero, slice_of_le (Nat.zero_le off) hhead, checkedAdd_of_lt hov,
    slice_of_le hfit htail, List.drop_replicate, List.take_replicate, Nat.sub_zero]
  rw [min_eq_left (show off ≤ 4096 by omega),
    min_eq_left (show chunkSize - (off + source.length) ≤ 4096 - (off + source.length) from le_rfl)]

/-- Part of a chunk the leaves cover is not written when the chunk cannot be read back. -/
theorem newHashForIncompleteWrite_of_readChunk_err {file : S} {source : List UInt8}
    {off index : Nat} {t : MerkleLeaves} (hlt : index < t.leaves.length) {ex : IoError}
    (hread : F.readChunk file index (FixedBytes.zero _) = err ex) :
    newHashForIncompleteWrite sha F file source off index t = err ex := by
  have hv : t.isIndexValid index = true := decide_eq_true hlt
  simp only [newHashForIncompleteWrite, hv, if_true, readBackingChunkUnverified, hread, err_bind]

section Piece

variable {buf : List UInt8} {offset outputOffset currentSize : Nat}
  (hoff : offset ≤ outputOffset) (hend : outputOffset - offset + currentSize ≤ buf.length)
  (hov : outputOffset - offset + currentSize < 2 ^ 64)
include hoff hend hov

/-- A piece whose hash cannot be computed ends the write: it reports the bytes before it, or
the error when there are none. -/
theorem writePiece_of_err {file : S} {t : MerkleLeaves} {r : Option (Except IoError Nat)}
    {ex : IoError}
    (hhash : newChunkHash sha F file ((buf.drop (outputOffset - offset)).take currentSize)
      (outputOffset % chunkSize) currentSize (outputOffset / chunkSize) t = err ex) :
    writePiece sha F buf offset (outputOffset, currentSize) (⟨file, t⟩, r) =
      ok (.done (⟨file, t⟩, some (if outputOffset - offset > 0 then .ok (outputOffset - offset)
        else .error ex))) := by
  simp only [writePiece, checkedSub_of_le hoff, ok_bind, checkedAdd_of_lt hov,
    slice_of_le (Nat.le_add_right _ _) hend, Nat.add_sub_cancel_left, hhash, result_err, pure_eq]

/-- A piece that is hashed and written updates its leaf and raises the size to the end of the
whole buffer. -/
theorem writePiece_of_ok {file : S} {t : MerkleLeaves} {r : Option (Except IoError Nat)}
    {newHash : Sha256Hash}
    (hhash : newChunkHash sha F file ((buf.drop (outputOffset - offset)).take currentSize)
      (outputOffset % chunkSize) currentSize (outputOffset / chunkSize) t = ok newHash)
    {file' : S} (hwrite : F.writeAllAt file ((buf.drop (outputOffset - offset)).take currentSize)
      outputOffset = .ok file')
    {t' : MerkleLeaves} (hup : (t.updateHash (outputOffset / chunkSize) newHash
      (min (offset + buf.length) (2 ^ 64 - 1)) : Outcome Empty MerkleLeaves) = ok t') :
    writePiece sha F buf offset (outputOffset, currentSize) (⟨file, t⟩, r) =
      ok (.yield (⟨file', t'⟩, none)) := by
  simp only [writePiece, checkedSub_of_le hoff, ok_bind, checkedAdd_of_lt hov,
    slice_of_le (Nat.le_add_right _ _) hend, Nat.add_sub_cancel_left, hhash, result_ok, hwrite, hup,
    pure_eq]

end Piece

/-- A write of more than one chunk and less than two at offset 0, over at least two leaves, whose
second piece cannot be read back: the first chunk is written and reported, yet the size has been
raised to the end of the whole buffer. -/
theorem writeAt_of_readChunk_err {e : VerifiedFileEditor S} {buf : List UInt8}
    (hlen : chunkSize < buf.length) (hlen' : buf.length < 2 * chunkSize)
    (hleaves : 1 < e.merkleTree.leaves.length) {file : S}
    (hwrite : F.writeAllAt e.file (buf.take chunkSize) 0 = .ok file) {ex : IoError}
    (hread : F.readChunk file 1 (FixedBytes.zero _) = err ex) :
    writeAt sha F e buf 0 = ok (.ok chunkSize,
      ⟨file, ⟨e.merkleTree.leaves.set 0 (sha (buf.take chunkSize)),
        max buf.length e.merkleTree.fileSize⟩⟩) := by
  have hbuf : buf.length < 2 ^ 64 := by
    simp only [chunkSize] at hlen'
    omega
  have hr₀ : ChunkedSizeIter.remaining ⟨buf.length, 0, chunkSize⟩ ≠ 0 := by
    dsimp only
    omega
  have hcds₀ : ChunkedSizeIter.chunkDataSize ⟨buf.length, 0, chunkSize⟩ = chunkSize := by
    simp only [ChunkedSizeIter.chunkDataSize, Nat.zero_mod, Nat.sub_zero]
    omega
  have hov₀ : ChunkedSizeIter.offset ⟨buf.length, 0, chunkSize⟩ +
      ChunkedSizeIter.chunkDataSize ⟨buf.length, 0, chunkSize⟩ < 2 ^ 64 := by
    rw [hcds₀]
    dsimp only
    omega
  unfold writeAt
  rw [ChunkedSizeIter.forIn_of_ne_zero hr₀ (show chunkSize ≠ 0 by decide) hov₀, hcds₀]
  have hw₀ : F.writeAllAt e.file ((buf.drop (0 - 0)).take chunkSize) 0 = .ok file := by
    rwa [Nat.sub_self, List.drop_zero]
  have hup₀ : (e.merkleTree.updateHash (0 / chunkSize) (sha ((buf.drop (0 - 0)).take chunkSize))
      (min (0 + buf.length) (2 ^ 64 - 1)) : Outcome Empty MerkleLeaves) =
      ok ⟨e.merkleTree.leaves.set 0 (sha (buf.take chunkSize)),
        max buf.length e.merkleTree.fileSize⟩ := by
    rw [Nat.zero_div, MerkleLeaves.updateHash_of_lt (show 0 < e.merkleTree.leaves.length by omega) (by decide),
      Nat.sub_self, List.drop_zero, Nat.zero_add, min_eq_left (by omega)]
  rw [writePiece_of_ok (Nat.le_refl 0) (by omega) (by omega) (newChunkHash_of_eq _ _ _ _ _) hw₀
    hup₀, ok_bind]
  dsimp only
  have hr₁ : (ChunkedSizeIter.advance ⟨buf.length, 0, chunkSize⟩).remaining ≠ 0 := by
    rw [ChunkedSizeIter.advance_remaining, hcds₀]
    dsimp only
    omega
  have hcds₁ : (ChunkedSizeIter.advance ⟨buf.length, 0, chunkSize⟩).chunkDataSize =
      buf.length - chunkSize := by
    rw [ChunkedSizeIter.chunkDataSize, ChunkedSizeIter.advance_remaining,
      ChunkedSizeIter.advance_offset, ChunkedSizeIter.advance_alignment, hcds₀]
    dsimp only
    rw [Nat.zero_add, Nat.mod_self, Nat.sub_zero]
    omega
  have hov₁ : (ChunkedSizeIter.advance ⟨buf.length, 0, chunkSize⟩).offset +
      (ChunkedSizeIter.advance ⟨buf.length, 0, chunkSize⟩).chunkDataSize < 2 ^ 64 := by
    rw [ChunkedSizeIter.advance_offset, hcds₀, hcds₁]
    dsimp only
    omega
  rw [ChunkedSizeIter.forIn_of_ne_zero hr₁ (show chunkSize ≠ 0 by decide) hov₁, hcds₁,
    ChunkedSizeIter.advance_offset, hcds₀]
  dsimp only
  rw [Nat.zero_add]
  have hhash₁ : newChunkHash sha F file ((buf.drop (chunkSize - 0)).take (buf.length - chunkSize))
      (chunkSize % chunkSize) (buf.length - chunkSize) (chunkSize / chunkSize)
      ⟨e.merkleTree.leaves.set 0 (sha (buf.take chunkSize)), max buf.length e.merkleTree.fileSize⟩ =
      err ex := by
    rw [newChunkHash, if_neg (by omega), Nat.div_self (by decide)]
    exact newHashForIncompleteWrite_of_readChunk_err (by simpa using hleaves) hread
  rw [writePiece_of_err (by omega) (by omega) (by omega) hhash₁, ok_bind]
  dsimp only
  rw [if_pos (by decide), Nat.sub_zero]
  rfl

/-- A write into one chunk past the leaves, that does not fill it, hashes the chunk over zeros,
fills the gap with hashes of zero chunks, and raises the size to its end. -/
theorem writeAt_of_le {e : VerifiedFileEditor S} {buf : List UInt8} {offset : Nat}
    (hne : buf ≠ []) (hfit : offset % chunkSize + buf.length < chunkSize)
    (hle : e.merkleTree.leaves.length ≤ offset / chunkSize) (hov : offset + buf.length < 2 ^ 64)
    {file : S} (hwrite : F.writeAllAt e.file buf offset = .ok file) :
    writeAt sha F e buf offset = ok (.ok buf.length, ⟨file,
      ⟨(Virtualization.resize e.merkleTree.leaves (offset / chunkSize + 1) hashOf4096Zeros).set
        (offset / chunkSize) (sha (List.replicate (offset % chunkSize) 0 ++ buf ++
          List.replicate (chunkSize - (offset % chunkSize + buf.length)) 0)),
        max (offset + buf.length) e.merkleTree.fileSize⟩⟩) := by
  have hlen : buf.length ≠ 0 := fun h ↦ hne (List.eq_nil_of_length_eq_zero h)
  have hdiv : offset / chunkSize < 2 ^ 64 - 1 :=
    lt_of_le_of_lt (Nat.div_le_self _ _) (by omega)
  have hr₀ : ChunkedSizeIter.remaining ⟨buf.length, offset, chunkSize⟩ ≠ 0 := hlen
  have hcds₀ : ChunkedSizeIter.chunkDataSize ⟨buf.length, offset, chunkSize⟩ = buf.length := by
    simp only [ChunkedSizeIter.chunkDataSize]
    omega
  have hov₀ : ChunkedSizeIter.offset ⟨buf.length, offset, chunkSize⟩ +
      ChunkedSizeIter.chunkDataSize ⟨buf.length, offset, chunkSize⟩ < 2 ^ 64 := by
    rw [hcds₀]
    exact hov
  have hr₁ : (ChunkedSizeIter.advance ⟨buf.length, offset, chunkSize⟩).remaining = 0 := by
    rw [ChunkedSizeIter.advance_remaining, hcds₀, Nat.sub_self]
  have hw : F.writeAllAt e.file ((buf.drop (offset - offset)).take buf.length) offset = .ok file := by
    rwa [Nat.sub_self, List.drop_zero, List.take_length]
  have hhash : newChunkHash sha F e.file ((buf.drop (offset - offset)).take buf.length)
      (offset % chunkSize) buf.length (offset / chunkSize) e.merkleTree =
      ok (sha (List.replicate (offset % chunkSize) 0 ++ buf ++
        List.replicate (chunkSize - (offset % chunkSize + buf.length)) 0)) := by
    rw [newChunkHash, if_neg (by omega), Nat.sub_self, List.drop_zero, List.take_length]
    exact newHashForIncompleteWrite_of_le hle hfit.le
  have hup : (e.merkleTree.updateHash (offset / chunkSize)
      (sha (List.replicate (offset % chunkSize) 0 ++ buf ++
        List.replicate (chunkSize - (offset % chunkSize + buf.length)) 0))
      (min (offset + buf.length) (2 ^ 64 - 1)) : Outcome Empty MerkleLeaves) =
      ok ⟨(Virtualization.resize e.merkleTree.leaves (offset / chunkSize + 1) hashOf4096Zeros).set
        (offset / chunkSize) (sha (List.replicate (offset % chunkSize) 0 ++ buf ++
          List.replicate (chunkSize - (offset % chunkSize + buf.length)) 0)),
        max (offset + buf.length) e.merkleTree.fileSize⟩ := by
    rw [MerkleLeaves.updateHash_of_le hle (by omega), min_eq_left (by omega)]
  unfold writeAt
  rw [ChunkedSizeIter.forIn_of_ne_zero hr₀ (show chunkSize ≠ 0 by decide) hov₀, hcds₀]
  rw [writePiece_of_ok (Nat.le_refl offset) (by omega) (by omega) hhash hw hup, ok_bind]
  dsimp only
  rw [ChunkedSizeIter.forIn_of_zero hr₁, ok_bind]
  rfl

/-- A `resize` that does not cut a chunk keeps the leaves for `MerkleLeaves::resize`. -/
theorem rehashTail_of_le {e : VerifiedFileEditor S} {size : Nat}
    (hle : e.merkleTree.fileSize ≤ size) : rehashTail sha F e size = ok e.merkleTree :=
  if_neg fun h ↦ absurd h.1 (Nat.not_lt.mpr hle)

/-- A `resize` into the middle of a chunk the leaves cover rehashes that chunk, read back and
checked, from its bytes before the new end. -/
theorem rehashTail_of_consistent {e : VerifiedFileEditor S} {size : Nat}
    (hlt : size < e.merkleTree.fileSize) (htail : size % chunkSize ≠ 0) (hsize : size < 2 ^ 64)
    (hvalid : size / chunkSize < e.merkleTree.leaves.length) {buf : ChunkBuffer} {n : Nat}
    (hread : F.readChunk e.file (size / chunkSize) (FixedBytes.zero _) = ok (buf, n))
    (hcons : e.merkleTree.leaves[size / chunkSize]? = some (sha buf.toList)) :
    rehashTail sha F e size = ok ⟨e.merkleTree.leaves.set (size / chunkSize)
      (sha (buf.toList.take (size % chunkSize) ++ List.replicate (chunkSize - size % chunkSize) 0)),
      e.merkleTree.fileSize⟩ := by
  have hv : e.merkleTree.isIndexValid (size / chunkSize) = true := decide_eq_true hvalid
  have hc : e.merkleTree.isConsistent (size / chunkSize) (sha buf.toList) = true := by
    rw [MerkleLeaves.isConsistent, hcons, decide_eq_true_eq]
  have htail' : size % chunkSize ≤ buf.toList.length := by
    rw [buf.length_toList]
    exact (Nat.mod_lt _ (by decide)).le
  have hindex : size / chunkSize + 1 < 2 ^ 64 := by
    have hpos : 0 < size := Nat.pos_of_ne_zero (by rintro rfl; exact htail (Nat.zero_mod _))
    have := Nat.div_lt_self hpos (show 1 < chunkSize by decide)
    omega
  simp only [rehashTail, hlt, Nat.pos_of_ne_zero htail, and_self, if_true, readBackingChunkVerified, hv, readBackingChunkUnverified,
    hread, hc, Bool.not_true, Bool.false_eq_true, if_false, ok_bind,
    slice_of_le (Nat.zero_le _) htail', List.drop_zero, Nat.sub_zero,
    MerkleLeaves.updateHash_of_lt hvalid hindex, max_eq_right hlt.le]

/-- A `resize` that does not shrink into the middle of a chunk sets the leaves to those of the new
size when the storage is resized. -/
theorem resize_of_le {e : VerifiedFileEditor S} {size : Nat} (hle : e.merkleTree.fileSize ≤ size)
    (hsize : size + chunkSize < 2 ^ 64) {file : S} (hresize : F.resize e.file size = .ok file) :
    resize sha F e size = ok (.ok (), ⟨file,
      ⟨Virtualization.resize e.merkleTree.leaves (size ⌈/⌉ chunkSize) hashOf4096Zeros, size⟩⟩) := by
  simp only [resize, rehashTail_of_le hle, result_ok, ok_bind, hresize,
    MerkleLeaves.resize_eq _ hsize, pure_eq]

/-- A `resize` whose storage resize fails returns the error with the leaves already rehashed. -/
theorem resize_of_resize_err {e : VerifiedFileEditor S} {size : Nat} {t : MerkleLeaves}
    (htail : rehashTail sha F e size = ok t) {ex : IoError}
    (hresize : F.resize e.file size = .error ex) :
    resize sha F e size = ok (.error ex, ⟨e.file, t⟩) := by
  simp only [resize, htail, result_ok, ok_bind, hresize, pure_eq]

end VerifiedFileEditor

/-! ## The acknowledged content -/

/-- The content after writing `data` at `offset`; a hole before `offset` reads as zeros. -/
def writeContent (c data : List UInt8) (offset : Nat) : List UInt8 :=
  let c := resize c (max c.length offset) 0
  c.take offset ++ data ++ c.drop (offset + data.length)

/-- The content after resizing to `size`: cut, or extended with zeros. -/
def resizeContent (c : List UInt8) (size : Nat) : List UInt8 := resize c size 0

/-- Writing grows the content to the end of what is written. -/
theorem length_writeContent (c data : List UInt8) (offset : Nat) :
    (writeContent c data offset).length = max c.length (offset + data.length) := by
  simp only [writeContent, List.length_append, List.length_take, List.length_drop, length_resize]
  omega

theorem writeContent_nil (data : List UInt8) : writeContent [] data 0 = data := by
  simp [writeContent, resize]

@[simp] theorem length_resizeContent (c : List UInt8) (size : Nat) :
    (resizeContent c size).length = size :=
  length_resize c size 0

/-- The content after a write reads as the data over the bytes written, and as before
elsewhere. -/
theorem getD_writeContent (c d : List UInt8) (p q : Nat) :
    (writeContent c d p).getD q 0 =
      if p ≤ q ∧ q < p + d.length then d.getD (q - p) 0 else c.getD q 0 := by
  have hext : ∀ q, (resize c (max c.length p) 0).getD q 0 = c.getD q 0 := by
    intro q
    rw [getD_resize]
    split_ifs with hq
    · rfl
    · exact (List.getD_eq_default _ _ (by omega)).symm
  have htake : ((resize c (max c.length p) 0).take p).length = p := by
    rw [List.length_take, length_resize]
    omega
  unfold writeContent
  dsimp only
  split_ifs with hq
  · rw [List.getD_append _ _ _ _ (by rw [List.length_append, htake]; omega),
      List.getD_append_right _ _ _ _ (by omega), htake]
  · by_cases hlt : q < p
    · rw [List.getD_append _ _ _ _ (by rw [List.length_append, htake]; omega),
        List.getD_append _ _ _ _ (by omega), getD_take _ _ hlt, hext]
    · rw [List.getD_append_right _ _ _ _ (by rw [List.length_append, htake]; omega), getD_drop,
        List.length_append, htake, hext]
      congr 1
      omega

theorem getD_resizeContent (c : List UInt8) (size q : Nat) :
    (resizeContent c size).getD q 0 = if q < size then c.getD q 0 else 0 :=
  getD_resize c size q 0

/-! ## Calls that fail after changing the leaves -/

/-- Storage that stores what it is given, and cannot be read. -/
def unreadableFile : BackingFile (List UInt8) where
  readChunk _ _ _ := err (.os EIO)
  writeAllAt c data offset := .ok (writeContent c data offset)
  resize c size := .ok (resizeContent c size)

/-- Storage that stores what it is given and reads it back, and cannot be resized. -/
def unresizableFile : BackingFile (List UInt8) where
  readChunk c i buf := EagerChunkReader.readChunk ⟨c⟩ i buf
  writeAllAt c data offset := .ok (writeContent c data offset)
  resize _ _ := .error (.os EIO)

variable (sha : List UInt8 → Sha256Hash)

/-- Over storage that cannot be read, a file grown to 4097 bytes and then written 4098 bytes at
offset 0 acknowledges 4096 of them: the content has 4097 bytes, the leaves' size 4098. -/
theorem writeAt_readError_size :
    ∃ e₁ e₂, VerifiedFileEditor.resize sha unreadableFile (VerifiedFileEditor.new []) 4097 =
        ok (.ok (), e₁) ∧
      VerifiedFileEditor.writeAt sha unreadableFile e₁ (List.replicate 4098 1) 0 =
        ok (.ok 4096, e₂) ∧
      e₂.file = writeContent (resizeContent [] 4097) (List.replicate 4096 1) 0 ∧
      e₂.file.length = 4097 ∧ e₂.size = 4098 := by
  have hleaves : 1 < (resize ([] : List Sha256Hash) (4097 ⌈/⌉ chunkSize) hashOf4096Zeros).length := by
    rw [length_resize]
    decide
  have hlen : chunkSize < (List.replicate 4098 (1 : UInt8)).length := by
    rw [List.length_replicate]
    decide
  have hlen' : (List.replicate 4098 (1 : UInt8)).length < 2 * chunkSize := by
    rw [List.length_replicate]
    decide
  refine ⟨_, _, VerifiedFileEditor.resize_of_le (Nat.zero_le _) (by decide) rfl,
    VerifiedFileEditor.writeAt_of_readChunk_err hlen hlen' hleaves rfl rfl, ?_, ?_, ?_⟩
  · simp only [List.take_replicate]
    rfl
  · dsimp only [VerifiedFileEditor.new]
    rw [length_writeContent, length_resizeContent, List.length_take, List.length_replicate]
    decide
  · dsimp only [VerifiedFileEditor.size]
    rw [List.length_replicate]
    decide


/-- Over storage that cannot be resized, ten bytes written and then a resize to five: the resize
fails and the content is still the ten bytes, but the leaf is the hash of the first five. -/
theorem resize_error_leaves :
    ∃ e₁ e₂, VerifiedFileEditor.writeAt sha unresizableFile (VerifiedFileEditor.new [])
        (List.replicate 10 1) 0 = ok (.ok 10, e₁) ∧
      VerifiedFileEditor.resize sha unresizableFile e₁ 5 = ok (.error (.os EIO), e₂) ∧
      e₁.merkleTree.leaves = [sha (List.replicate 10 1 ++ List.replicate 4086 0)] ∧
      e₂.file = List.replicate 10 1 ∧
      e₂.merkleTree.leaves = [sha (List.replicate 5 1 ++ List.replicate 4091 0)] := by
  obtain ⟨e₁, hw, hfile₁, htree₁⟩ : ∃ e₁, VerifiedFileEditor.writeAt sha unresizableFile
      (VerifiedFileEditor.new []) (List.replicate 10 1) 0 = ok (.ok 10, e₁) ∧
      e₁.file = List.replicate 10 1 ∧
      e₁.merkleTree = ⟨[sha (List.replicate 10 1 ++ List.replicate 4086 0)], 10⟩ := by
    have hfit : 0 % chunkSize + (List.replicate 10 (1 : UInt8)).length < chunkSize := by
      rw [List.length_replicate]
      decide
    refine ⟨_, VerifiedFileEditor.writeAt_of_le (by simp) hfit (Nat.zero_le _) (by decide) rfl,
      writeContent_nil _, ?_⟩
    dsimp only [VerifiedFileEditor.new, MerkleLeaves.new]
    rw [Nat.zero_div, Nat.zero_mod, List.replicate_zero, List.nil_append, List.length_replicate]
    rfl
  have hread : unresizableFile.readChunk e₁.file (5 / chunkSize) (FixedBytes.zero _) =
      ok ((FixedBytes.zero _).setPrefix (List.replicate 10 1), 10) := by
    have hchunk : chunk chunkSize (List.replicate 10 (1 : UInt8)) (5 / chunkSize) =
        List.replicate 10 1 := by
      rw [chunk, show 5 / chunkSize = 0 by decide, Nat.mul_zero, List.drop_zero,
        List.take_of_length_le (by simp [chunkSize])]
    rw [hfile₁]
    exact (EagerChunkReader.readChunk_eq _ _ _).trans (by rw [hchunk, List.length_replicate])
  have hbuf : ((FixedBytes.zero 4096).setPrefix (List.replicate 10 (1 : UInt8))).toList =
      List.replicate 10 1 ++ List.replicate 4086 0 := by
    rw [FixedBytes.toList_zero_setPrefix (by simp)]
    rfl
  have hcons : e₁.merkleTree.leaves[5 / chunkSize]? =
      some (sha ((FixedBytes.zero 4096).setPrefix (List.replicate 10 1)).toList) := by
    rw [htree₁, hbuf]
    rfl
  have hlt : 5 < e₁.merkleTree.fileSize := by
    rw [htree₁]
    show 5 < 10
    decide
  have hvalid : 5 / chunkSize < e₁.merkleTree.leaves.length := by
    rw [htree₁]
    show 5 / chunkSize < 1
    decide
  have htail := VerifiedFileEditor.rehashTail_of_consistent hlt (by decide) (by decide) hvalid
    hread hcons
  have htake : (List.replicate 10 (1 : UInt8) ++ List.replicate 4086 0).take (5 % chunkSize) =
      List.replicate 5 1 := by
    rw [show 5 % chunkSize = 5 by decide, List.take_append_of_le_length (by simp),
      List.take_replicate]
    rfl
  refine ⟨e₁, _, hw, VerifiedFileEditor.resize_of_resize_err htail rfl, by rw [htree₁], hfile₁, ?_⟩
  dsimp only
  rw [hbuf, htake, htree₁]
  rfl

/-- Over a hash that keeps the first 32 bytes of what it hashes, the failed resize has changed the
leaf while the content is still the ten bytes. -/
theorem resize_error_leaves_prefixHash :
    let prefixHash : List UInt8 → Sha256Hash := fun m ↦ (FixedBytes.zero 32).setPrefix m
    ∃ e₁ e₂, VerifiedFileEditor.writeAt prefixHash unresizableFile (VerifiedFileEditor.new [])
        (List.replicate 10 1) 0 = ok (.ok 10, e₁) ∧
      VerifiedFileEditor.resize prefixHash unresizableFile e₁ 5 = ok (.error (.os EIO), e₂) ∧
      e₂.file = List.replicate 10 1 ∧ e₂.merkleTree.leaves ≠ e₁.merkleTree.leaves := by
  intro prefixHash
  obtain ⟨e₁, e₂, hw, hr, hleaves₁, hfile, hleaves₂⟩ := resize_error_leaves prefixHash
  refine ⟨e₁, e₂, hw, hr, hfile, ?_⟩
  rw [hleaves₁, hleaves₂]
  decide

end Virtualization.AuthFs
