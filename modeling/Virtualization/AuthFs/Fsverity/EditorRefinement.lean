import Virtualization.AuthFs.Fsverity.Editor
import Virtualization.Lib.Transition
import Virtualization.AuthFs.FuseFs.Read

/-!
# The editor refines a file of bytes

Over storage that keeps what it is given and reads it back (`storedFile`: the file of an honest
`fd_server`), `VerifiedFileEditor` behaves as the file of bytes its calls describe.  `Holds`
states it: the storage holds the content, and the leaves are the content's fs-verity leaves
with its size.  Every `write_at` writes its whole buffer and every `resize` succeeds, each keeping
`Holds` for the content after it (`writeAt_stored`, `resize_stored`), when SHA-256 maps the zero
block to `HASH_OF_4096_ZEROS`.  A new file written by any run of calls then has the fs-verity
digest of its content (`run_new_calculateFsverityDigest`), and reads back, through `read_chunks`,
the bytes written (`run_new_readChunks`).

The proofs read a content through `List.getD` with zeros past its end: a block of the leaves is
a zero-padded block of the content, and a write or a resize changes the blocks it covers only
(`rightpad_chunk_writeContent`, `rightpad_chunk_resizeContent_tail`).  A write is a loop over
pieces inside one chunk each; its invariant `WriteInvariant` holds the content with the bytes so
far written, while the size is raised to the end of the whole buffer by the first piece.
-/

namespace Virtualization.AuthFs

open Outcome Fsverity

/-- Writing `d₁ ++ d₂` is writing `d₁`, then `d₂` right after it. -/
theorem writeContent_append (c d₁ d₂ : List UInt8) (p : Nat) :
    writeContent (writeContent c d₁ p) d₂ (p + d₁.length) = writeContent c (d₁ ++ d₂) p := by
  refine ext_getD 0 ?_ fun q ↦ ?_
  · simp only [length_writeContent, List.length_append]
    omega
  simp only [getD_writeContent, List.length_append]
  rcases Nat.lt_or_ge q (p + d₁.length) with hlt | hge
  · rw [if_neg (by omega)]
    by_cases h₁ : p ≤ q
    · rw [if_pos ⟨h₁, hlt⟩, if_pos ⟨h₁, by omega⟩, List.getD_append _ _ _ _ (by omega)]
    · rw [if_neg (by omega), if_neg (by omega)]
  · by_cases h₂ : q < p + d₁.length + d₂.length
    · rw [if_pos ⟨hge, h₂⟩, if_pos ⟨by omega, by omega⟩, List.getD_append_right _ _ _ _ (by omega),
        Nat.sub_sub]
    · rw [if_neg fun h ↦ h₂ h.2, if_neg (by omega), if_neg (by omega)]

/-- Storage that keeps what it is given and reads it back. -/
def storedFile : BackingFile (List UInt8) where
  readChunk c i buf := EagerChunkReader.readChunk ⟨c⟩ i buf
  writeAllAt c data offset := .ok (writeContent c data offset)
  resize c size := .ok (resizeContent c size)

/-! ## Blocks of a written content -/

section Blocks

variable {c d : List UInt8} {pos : Nat}

/-- The block a write lies in reads as the data over the bytes written, and as before around
them. -/
theorem rightpad_chunk_writeContent (hfit : pos % chunkSize + d.length ≤ chunkSize) :
    (chunk chunkSize (writeContent c d pos) (pos / chunkSize)).rightpad chunkSize 0 =
      ((chunk chunkSize c (pos / chunkSize)).rightpad chunkSize 0).take (pos % chunkSize) ++ d ++
        ((chunk chunkSize c (pos / chunkSize)).rightpad chunkSize 0).drop
          (pos % chunkSize + d.length) := by
  have hpos : chunkSize * (pos / chunkSize) + pos % chunkSize = pos := Nat.div_add_mod pos chunkSize
  refine rightpad_chunk_eq (by simp; omega) fun t ht ↦ ?_
  rw [getD_writeContent]
  rcases Nat.lt_or_ge t (pos % chunkSize) with hlt | hge
  · rw [List.getElem_append_left (by simp; omega), List.getElem_append_left (by simp; omega),
      List.getElem_take, getElem_rightpad_chunk, if_neg (by omega)]
  rcases Nat.lt_or_ge t (pos % chunkSize + d.length) with hlt' | hge'
  · rw [List.getElem_append_left (by simp; omega), List.getElem_append_right (by simp; omega),
      if_pos (by omega), List.getD_eq_getElem _ _ (by omega)]
    simp only [List.length_take, length_rightpad_chunk]
    congr 1
    omega
  · rw [List.getElem_append_right (by simp; omega), List.getElem_drop, getElem_rightpad_chunk,
      if_neg (by omega)]
    simp only [List.length_append, List.length_take, length_rightpad_chunk]
    congr 1
    omega

/-- The blocks around the one a write lies in are as before. -/
theorem rightpad_chunk_writeContent_of_ne (hfit : pos % chunkSize + d.length ≤ chunkSize) {j : Nat}
    (hj : j ≠ pos / chunkSize) :
    (chunk chunkSize (writeContent c d pos) j).rightpad chunkSize 0 =
      (chunk chunkSize c j).rightpad chunkSize 0 := by
  refine rightpad_chunk_congr fun t ht ↦ ?_
  rw [getD_writeContent, if_neg]
  simp only [chunkSize] at hfit ht hj ⊢
  omega

/-- A resize keeps the blocks that lie below the new size, or that it only extends. -/
theorem rightpad_chunk_resizeContent_of_le {size j : Nat}
    (h : c.length ≤ size ∨ chunkSize * j + chunkSize ≤ size) :
    (chunk chunkSize (resizeContent c size) j).rightpad chunkSize 0 =
      (chunk chunkSize c j).rightpad chunkSize 0 := by
  refine rightpad_chunk_congr fun t ht ↦ ?_
  rw [getD_resizeContent]
  split_ifs with hlt
  · rfl
  · exact (List.getD_eq_default _ _ (by omega)).symm

/-- A resize into the middle of a block cuts it to the new size, padded with zeros. -/
theorem rightpad_chunk_resizeContent_tail (size : Nat) :
    (chunk chunkSize (resizeContent c size) (size / chunkSize)).rightpad chunkSize 0 =
      ((chunk chunkSize c (size / chunkSize)).rightpad chunkSize 0).take (size % chunkSize) ++
        List.replicate (chunkSize - size % chunkSize) 0 := by
  have hsize : chunkSize * (size / chunkSize) + size % chunkSize = size :=
    Nat.div_add_mod size chunkSize
  have hmod : size % chunkSize < chunkSize := Nat.mod_lt _ (by decide)
  refine rightpad_chunk_eq (by simp; omega) fun t ht ↦ ?_
  rw [getD_resizeContent]
  rcases Nat.lt_or_ge t (size % chunkSize) with hlt | hge
  · rw [List.getElem_append_left (by simp; omega), List.getElem_take, getElem_rightpad_chunk,
      if_pos (by omega)]
  · rw [List.getElem_append_right (by simp; omega), List.getElem_replicate, if_neg (by omega)]

end Blocks

/-! ## The editor over storage that keeps what it is given -/

variable (sha : List UInt8 → Sha256Hash)

/-- The editor holds the content `c`: the storage holds it and the leaves are its fs-verity
leaves; `size` is the size they record. -/
structure Holds (e : VerifiedFileEditor (List UInt8)) (c : List UInt8) (size : Nat) : Prop where
  file : e.file = c
  leaves : e.merkleTree.leaves = Fsverity.leaves sha c
  fileSize : e.merkleTree.fileSize = size

variable {sha}

namespace VerifiedFileEditor

theorem storedFile_readChunk (c : List UInt8) (i : Nat) (buf : ChunkBuffer) :
    storedFile.readChunk c i buf =
      ok (buf.setPrefix (chunk chunkSize c i), (chunk chunkSize c i).length) :=
  EagerChunkReader.readChunk_eq ⟨c⟩ i buf

/-- The chunk read back into a zero buffer is the block, zero-padded. -/
theorem toList_setPrefix_chunk (c : List UInt8) (i : Nat) :
    ((FixedBytes.zero 4096).setPrefix (chunk chunkSize c i)).toList =
      (chunk chunkSize c i).rightpad chunkSize 0 :=
  FixedBytes.toList_zero_setPrefix ((length_chunk _ _ _).trans_le (Nat.min_le_left _ _))

/-- Part of a chunk is written over the block as the storage holds it, zero-padded: read back
and checked where the leaves cover it, zeros past them. -/
theorem newHashForIncompleteWrite_stored {c source : List UInt8} {off i : Nat} {t : MerkleLeaves}
    (ht : t.leaves = Fsverity.leaves sha c) (hfit : off + source.length ≤ chunkSize) :
    newHashForIncompleteWrite sha storedFile c source off i t =
      ok (sha (((chunk chunkSize c i).rightpad chunkSize 0).take off ++ source ++
        ((chunk chunkSize c i).rightpad chunkSize 0).drop (off + source.length))) := by
  have hov : off + source.length < 2 ^ 64 := by
    simp only [chunkSize] at hfit
    omega
  have hblock := length_rightpad_chunk chunkSize c i (0 : UInt8)
  have htail : ((((chunk chunkSize c i).rightpad chunkSize 0).drop (off + source.length)).take
      (chunkSize - (off + source.length))) =
      ((chunk chunkSize c i).rightpad chunkSize 0).drop (off + source.length) :=
    List.take_of_length_le (by rw [List.length_drop, hblock])
  by_cases hi : i < t.leaves.length
  · have hv : t.isIndexValid i = true := decide_eq_true hi
    have hc : t.isConsistent i (sha ((chunk chunkSize c i).rightpad chunkSize 0)) = true := by
      have hleaf : t.leaves[i]? = some (hashBlock sha (chunk chunkSize c i)) := by
        rw [List.getElem?_eq_getElem hi]
        simp only [ht, getElem_leaves]
      rw [MerkleLeaves.isConsistent, hleaf, hashBlock, decide_eq_true_eq]
    simp only [newHashForIncompleteWrite, hv, if_true, readBackingChunkUnverified,
      storedFile_readChunk, ok_bind, hc, Bool.not_true, Bool.false_eq_true, if_false, pure_eq,
      toList_setPrefix_chunk, slice_of_le (Nat.zero_le off) (by rw [hblock]; omega),
      checkedAdd_of_lt hov, slice_of_le (by omega) (le_of_eq hblock.symm), List.drop_zero,
      Nat.sub_zero, htail]
  · have hv : t.isIndexValid i = false := by
      rw [MerkleLeaves.isIndexValid, decide_eq_false_iff_not]
      exact hi
    have hzero : (FixedBytes.zero 4096).toList = (chunk chunkSize c i).rightpad chunkSize 0 := by
      rw [FixedBytes.toList_zero, rightpad_chunk_of_le]
      · rfl
      · rw [ht, length_leaves, lt_ceilDiv_iff (by decide), not_lt] at hi
        exact hi
    simp only [newHashForIncompleteWrite, hv, Bool.false_eq_true, if_false, pure_eq, ok_bind,
      hzero, slice_of_le (Nat.zero_le off) (by rw [hblock]; omega), checkedAdd_of_lt hov,
      slice_of_le (by omega) (le_of_eq hblock.symm), List.drop_zero, Nat.sub_zero, htail]

/-- A list of hashes with the length of the leaves of `D` and the hash of each block of `D` at its
place is the leaves of `D`. -/
theorem leaves_eq_of_getElem {L : List Sha256Hash} {D : List UInt8}
    (hlen : L.length = D.length ⌈/⌉ chunkSize)
    (h : ∀ j (hj : j < L.length), L[j] = hashBlock sha (chunk chunkSize D j)) :
    Fsverity.leaves sha D = L :=
  List.ext_getElem (by rw [length_leaves, hlen]) fun j _ hj ↦ by rw [getElem_leaves, h j hj]

/-- A whole chunk is hashed as written; part of one over the block the storage holds. -/
theorem newChunkHash_stored {c source : List UInt8} {pos : Nat} {t : MerkleLeaves}
    (ht : t.leaves = Fsverity.leaves sha c) (hfit : pos % chunkSize + source.length ≤ chunkSize) :
    newChunkHash sha storedFile c source (pos % chunkSize) source.length (pos / chunkSize) t =
      ok (hashBlock sha (chunk chunkSize (writeContent c source pos) (pos / chunkSize))) := by
  rw [hashBlock, rightpad_chunk_writeContent hfit]
  by_cases hfull : source.length = chunkSize
  · have hoff : pos % chunkSize = 0 := by omega
    rw [newChunkHash, if_pos hfull, hoff, List.take_zero, List.nil_append, hfull, Nat.zero_add,
      List.drop_of_length_le (length_rightpad_chunk _ _ _ _).le, List.append_nil]
  · rw [newChunkHash, if_neg hfull, newHashForIncompleteWrite_stored ht hfit]

/-- The hash of a block written into its leaf gives the leaves of the content written, with the
gap before it filled with hashes of zero blocks. -/
theorem updateHash_stored (hz : sha (List.replicate chunkSize 0) = hashOf4096Zeros)
    {c source : List UInt8} {pos : Nat} {t : MerkleLeaves} (ht : t.leaves = Fsverity.leaves sha c)
    (hfit : pos % chunkSize + source.length ≤ chunkSize) (hne : 0 < source.length)
    (hov : pos + source.length < 2 ^ 64) (sizeAtLeast : Nat) :
    (t.updateHash (pos / chunkSize)
        (hashBlock sha (chunk chunkSize (writeContent c source pos) (pos / chunkSize)))
        sizeAtLeast : Outcome Empty MerkleLeaves) =
      ok ⟨Fsverity.leaves sha (writeContent c source pos), max sizeAtLeast t.fileSize⟩ := by
  have hpos := Nat.div_add_mod pos chunkSize
  have hindex : pos / chunkSize + 1 < 2 ^ 64 := by
    have := Nat.div_le_self pos chunkSize
    omega
  have hleaves : t.leaves.length = c.length ⌈/⌉ chunkSize := by rw [ht, length_leaves]
  have hlen : (writeContent c source pos).length ⌈/⌉ chunkSize =
      max (c.length ⌈/⌉ chunkSize) (pos / chunkSize + 1) := by
    rw [length_writeContent, Nat.ceilDiv_eq_add_pred_div, Nat.ceilDiv_eq_add_pred_div]
    simp only [chunkSize] at hpos hfit ⊢
    omega
  have hother : ∀ j, j ≠ pos / chunkSize →
      hashBlock sha (chunk chunkSize (writeContent c source pos) j) =
        if h : j < t.leaves.length then t.leaves[j] else hashOf4096Zeros := by
    intro j hj
    rw [hashBlock, rightpad_chunk_writeContent_of_ne hfit hj]
    split_ifs with hlt
    · simp only [ht, getElem_leaves, hashBlock]
    · rw [rightpad_chunk_of_le, hz]
      rw [hleaves, lt_ceilDiv_iff (by decide), not_lt] at hlt
      exact hlt
  rcases Nat.lt_or_ge (pos / chunkSize) t.leaves.length with hlt | hle
  · rw [MerkleLeaves.updateHash_of_lt hlt hindex]
    congr 2
    refine (leaves_eq_of_getElem ?_ fun j hj ↦ ?_).symm
    · rw [List.length_set, hlen, ← hleaves]
      omega
    · rw [List.getElem_set]
      split_ifs with hij
      · rw [hij]
      · rw [hother j (Ne.symm hij), dif_pos (by simpa using hj)]
  · rw [MerkleLeaves.updateHash_of_le hle hindex]
    congr 2
    refine (leaves_eq_of_getElem ?_ fun j hj ↦ ?_).symm
    · rw [List.length_set, length_resize, hlen, ← hleaves]
      omega
    · rw [List.getElem_set]
      split_ifs with hij
      · rw [hij]
      · rw [hother j (Ne.symm hij), getElem_resize]

/-- One piece of a write over storage that keeps what it is given: it is stored and hashed into
its leaf, and the size is raised to the end of the whole buffer. -/
theorem writePiece_stored (hz : sha (List.replicate chunkSize 0) = hashOf4096Zeros)
    {e : VerifiedFileEditor (List UInt8)} {c : List UInt8} {size : Nat} (h : Holds sha e c size)
    {buf : List UInt8} {offset pos n : Nat} (hoff : offset ≤ pos)
    (hend : pos - offset + n ≤ buf.length) (hn : 0 < n) (hfit : pos % chunkSize + n ≤ chunkSize)
    (hov : offset + buf.length < 2 ^ 64) (r : Option (Except IoError Nat)) :
    ∃ e', writePiece sha storedFile buf offset (pos, n) (e, r) = ok (.yield (e', none)) ∧
      Holds sha e' (writeContent c ((buf.drop (pos - offset)).take n) pos)
        (max (offset + buf.length) size) := by
  obtain ⟨file, t⟩ := e
  obtain ⟨rfl, ht, rfl⟩ := h
  have hsrc : ((buf.drop (pos - offset)).take n).length = n := by
    rw [List.length_take, List.length_drop]
    omega
  have hfit' : pos % chunkSize + ((buf.drop (pos - offset)).take n).length ≤ chunkSize := by
    rw [hsrc]
    exact hfit
  have hhash := newChunkHash_stored ht hfit'
  rw [hsrc] at hhash
  have hup := updateHash_stored hz ht hfit' (by rw [hsrc]; exact hn) (by rw [hsrc]; omega)
    (min (offset + buf.length) (2 ^ 64 - 1))
  rw [min_eq_left (by omega)] at hup
  exact ⟨_, writePiece_of_ok hoff hend (by omega) hhash rfl
    (by rw [min_eq_left (by omega)]; exact hup), ⟨rfl, rfl, rfl⟩⟩

/-- A write of nothing runs no piece and changes nothing. -/
theorem writeAt_nil {S : Type} (F : BackingFile S) (e : VerifiedFileEditor S) (offset : Nat) :
    writeAt sha F e [] offset = ok (.ok 0, e) := by
  rw [writeAt, ChunkedSizeIter.forIn_of_zero rfl, ok_bind]
  rfl

variable (sha) in
/-- The loop of `write_at` over storage that keeps what it is given, before the piece at
`it.offset`: nothing is returned yet, the pieces cover the rest of the buffer, and the editor holds
the content with the bytes before `it.offset` written; once a piece is written, the size is the
end of the whole buffer. -/
def WriteInvariant (c buf : List UInt8) (offset : Nat) (it : ChunkedSizeIter)
    (acc : VerifiedFileEditor (List UInt8) × Option (Except IoError Nat)) : Prop :=
  acc.2 = none ∧ it.alignment = chunkSize ∧ offset ≤ it.offset ∧
    it.offset - offset + it.remaining = buf.length ∧
    (it.offset = offset ∧ Holds sha acc.1 c c.length ∨
      offset < it.offset ∧ Holds sha acc.1 (writeContent c (buf.take (it.offset - offset)) offset)
        (max (offset + buf.length) c.length))

/-- Every piece of the loop keeps its invariant. -/
theorem WriteInvariant.piece (hz : sha (List.replicate chunkSize 0) = hashOf4096Zeros)
    {c buf : List UInt8} {offset : Nat} (hov : offset + buf.length < 2 ^ 64) {it : ChunkedSizeIter}
    {acc : VerifiedFileEditor (List UInt8) × Option (Except IoError Nat)}
    (hinv : WriteInvariant sha c buf offset it acc) (hr : it.remaining ≠ 0) :
    ∃ b, writePiece sha storedFile buf offset (it.offset, it.chunkDataSize) acc = ok (.yield b) ∧
      WriteInvariant sha c buf offset it.advance b := by
  obtain ⟨e, r⟩ := acc
  obtain ⟨-, ha, hoff, hlen, hheld⟩ := hinv
  have ha' : it.alignment ≠ 0 := by rw [ha]; decide
  have hn := ChunkedSizeIter.chunkDataSize_pos hr ha'
  have hfit : it.offset % chunkSize + it.chunkDataSize ≤ chunkSize :=
    ha ▸ ChunkedSizeIter.mod_add_chunkDataSize_le ha'
  have hle : it.chunkDataSize ≤ it.remaining := Nat.min_le_left _ _
  have hprefix : buf.take (it.offset - offset + it.chunkDataSize) =
      buf.take (it.offset - offset) ++ (buf.drop (it.offset - offset)).take it.chunkDataSize :=
    List.take_add
  have hkeep : ∀ {c' : List UInt8} {size : Nat}, Holds sha e c' size → ∃ b,
      writePiece sha storedFile buf offset (it.offset, it.chunkDataSize) (e, r) = ok (.yield b) ∧
      b.2 = none ∧ Holds sha b.1 (writeContent c' ((buf.drop (it.offset - offset)).take
        it.chunkDataSize) it.offset) (max (offset + buf.length) size) := by
    intro c' size h
    obtain ⟨e', he', h'⟩ := writePiece_stored hz h hoff (by omega) hn hfit hov r
    exact ⟨(e', none), he', rfl, h'⟩
  have hnext : offset ≤ it.advance.offset ∧
      it.advance.offset - offset + it.advance.remaining = buf.length ∧ offset < it.advance.offset := by
    simp only [ChunkedSizeIter.advance_offset, ChunkedSizeIter.advance_remaining]
    omega
  rcases hheld with ⟨hfirst, h⟩ | ⟨hlater, h⟩ <;> obtain ⟨b, hb, hb₂, h'⟩ := hkeep h <;>
    refine ⟨b, hb, hb₂, ha, hnext.1, hnext.2.1, .inr ⟨hnext.2.2, ?_⟩⟩
  · have hk : it.advance.offset - offset = it.chunkDataSize := by
      simp only [ChunkedSizeIter.advance_offset]
      omega
    rw [hk]
    rwa [hfirst, Nat.sub_self, List.drop_zero] at h'
  · have hk : it.advance.offset - offset = it.offset - offset + it.chunkDataSize := by
      simp only [ChunkedSizeIter.advance_offset]
      omega
    have hat : offset + (buf.take (it.offset - offset)).length = it.offset := by
      rw [List.length_take]
      omega
    rw [hk, List.take_add, ← writeContent_append, hat]
    rwa [max_eq_right (le_max_left _ _)] at h'

/-- `write_at` over storage that keeps what it is given writes the whole buffer: it returns the
buffer's length, and the editor holds the content with the buffer written, with its leaves and
its size. -/
theorem writeAt_stored (hz : sha (List.replicate chunkSize 0) = hashOf4096Zeros)
    {e : VerifiedFileEditor (List UInt8)} {c : List UInt8} (h : Holds sha e c c.length)
    {buf : List UInt8} (hne : buf ≠ []) {offset : Nat} (hov : offset + buf.length < 2 ^ 64) :
    ∃ e', writeAt sha storedFile e buf offset = ok (.ok buf.length, e') ∧
      Holds sha e' (writeContent c buf offset) (writeContent c buf offset).length := by
  have hlen : buf.length ≠ 0 := fun h ↦ hne (List.eq_nil_of_length_eq_zero h)
  have hinit : WriteInvariant sha c buf offset ⟨buf.length, offset, chunkSize⟩ (e, none) :=
    ⟨rfl, rfl, le_rfl, by simp, .inl ⟨rfl, h⟩⟩
  obtain ⟨⟨e', r⟩, hloop, hr, h'⟩ := ChunkedSizeIter.forIn_eq_ok (WriteInvariant sha c buf offset)
    (fun acc ↦ acc.2 = none ∧ Holds sha acc.1 (writeContent c buf offset)
      (writeContent c buf offset).length)
    (fun it acc hinv hr ↦ by
      obtain ⟨hnone, -, hoff, hcover, hheld⟩ := hinv
      rcases hheld with ⟨hfirst, -⟩ | ⟨-, hheld⟩
      · omega
      · rw [hr, Nat.add_zero] at hcover
        rw [hcover, List.take_length, max_comm, ← length_writeContent] at hheld
        exact ⟨hnone, hheld⟩)
    (fun it acc hinv hr ↦ by
      obtain ⟨-, ha, hoff, hcover, -⟩ := hinv
      have : it.chunkDataSize ≤ it.remaining := Nat.min_le_left _ _
      exact ⟨by rw [ha]; decide, by omega⟩)
    (fun it acc hinv hr ↦ WriteInvariant.piece hz hov hinv hr) hinit
  dsimp only at hr h'
  refine ⟨e', ?_, h'⟩
  rw [writeAt, hloop, ok_bind, hr]
  rfl

/-- A `resize` that does not shrink into the middle of a chunk leaves the leaves as they are. -/
theorem rehashTail_of_not {S : Type} {F : BackingFile S} {e : VerifiedFileEditor S} {size : Nat}
    (h : ¬ (size < e.merkleTree.fileSize ∧ size % chunkSize > 0)) :
    rehashTail sha F e size = ok e.merkleTree :=
  if_neg h

/-- Over storage that keeps what it is given, the leaves after the first part of `resize` are,
below the new size, the leaves of the content resized. -/
theorem rehashTail_stored {e : VerifiedFileEditor (List UInt8)} {c : List UInt8}
    (h : Holds sha e c c.length) {size : Nat} (hsize : size < 2 ^ 64) :
    ∃ t, rehashTail sha storedFile e size = ok t ∧ t.leaves.length = c.length ⌈/⌉ chunkSize ∧
      ∀ j (hj : j < t.leaves.length), j < size ⌈/⌉ chunkSize →
        t.leaves[j] = hashBlock sha (chunk chunkSize (resizeContent c size) j) := by
  obtain ⟨file, t⟩ := e
  obtain ⟨rfl, ht, hfs⟩ := h
  dsimp only at ht hfs
  have hleaves : t.leaves.length = file.length ⌈/⌉ chunkSize := by rw [ht, length_leaves]
  have hsplit := Nat.div_add_mod size chunkSize
  by_cases hcut : size < file.length ∧ size % chunkSize ≠ 0
  · obtain ⟨hlt, hmod⟩ := hcut
    have hvalid : size / chunkSize < t.leaves.length := by
      rw [hleaves, lt_ceilDiv_iff (by decide)]
      omega
    have hcons : t.leaves[size / chunkSize]? = some (sha ((FixedBytes.zero 4096).setPrefix
        (chunk chunkSize file (size / chunkSize))).toList) := by
      rw [List.getElem?_eq_getElem hvalid, toList_setPrefix_chunk]
      simp only [ht, getElem_leaves, hashBlock]
    have htail := rehashTail_of_consistent (e := ⟨file, t⟩) (by rw [hfs]; exact hlt) hmod hsize hvalid
      (storedFile_readChunk _ _ _) hcons
    refine ⟨_, htail, by rw [List.length_set, hleaves], fun j hj hjs ↦ ?_⟩
    rw [List.getElem_set]
    split_ifs with hij
    · rw [← hij, hashBlock, rightpad_chunk_resizeContent_tail, toList_setPrefix_chunk]
    · have hjs' : chunkSize * j + chunkSize ≤ size := by
        rw [Nat.ceilDiv_eq_add_pred_div] at hjs
        simp only [chunkSize] at hjs hsplit hmod hij ⊢
        omega
      simp only [ht, getElem_leaves, hashBlock, rightpad_chunk_resizeContent_of_le (.inr hjs')]
  · rw [not_and_or, not_lt, not_not] at hcut
    refine ⟨t, rehashTail_of_not (by rw [hfs]; omega), hleaves, fun j hj hjs ↦ ?_⟩
    have hkeep : file.length ≤ size ∨ chunkSize * j + chunkSize ≤ size := by
      rcases hcut with hle | hmod
      · exact .inl hle
      · right
        rw [Nat.ceilDiv_eq_add_pred_div] at hjs
        simp only [chunkSize] at hjs hsplit hmod ⊢
        omega
    simp only [ht, getElem_leaves, hashBlock, rightpad_chunk_resizeContent_of_le hkeep]

/-- `resize` over storage that keeps what it is given succeeds, and the editor holds the content
resized, with its leaves and the new size. -/
theorem resize_stored (hz : sha (List.replicate chunkSize 0) = hashOf4096Zeros)
    {e : VerifiedFileEditor (List UInt8)} {c : List UInt8} (h : Holds sha e c c.length) {size : Nat}
    (hsize : size + chunkSize < 2 ^ 64) :
    ∃ e', resize sha storedFile e size = ok (.ok (), e') ∧ Holds sha e' (resizeContent c size) size := by
  have hsize' : size < 2 ^ 64 := by omega
  obtain ⟨t, htail, hlen, hagree⟩ := rehashTail_stored h hsize'
  refine ⟨⟨resizeContent c size, ⟨Virtualization.resize t.leaves (size ⌈/⌉ chunkSize) hashOf4096Zeros,
    size⟩⟩, ?_, rfl, ?_, rfl⟩
  · have hfile : storedFile.resize e.file size = .ok (resizeContent c size) := by rw [h.file]; rfl
    simp only [resize, htail, result_ok, ok_bind, hfile, MerkleLeaves.resize_eq _ hsize, pure_eq]
  · refine (leaves_eq_of_getElem (by rw [length_resize, length_resizeContent]) fun j hj ↦ ?_).symm
    rw [getElem_resize]
    have hjs : j < size ⌈/⌉ chunkSize := by rwa [length_resize] at hj
    split_ifs with hjt
    · exact hagree j hjt hjs
    · rw [hlen, lt_ceilDiv_iff (by decide), not_lt] at hjt
      have hgrow : c.length ≤ size := by
        rw [lt_ceilDiv_iff (by decide)] at hjs
        omega
      rw [hashBlock, rightpad_chunk_resizeContent_of_le (.inl hgrow), rightpad_chunk_of_le hjt, hz]

/-- Reading a chunk into a zero buffer, as `read_chunks` does, reads the content: the chunk at
the front of the buffer and its length, checked against its leaf, and nothing past the end. -/
theorem readChunk_stored {e : VerifiedFileEditor (List UInt8)} {c : List UInt8} {size : Nat}
    (h : Holds sha e c size) (i : Nat) :
    readChunk sha storedFile e i (FixedBytes.zero _) = EagerChunkReader.readChunk ⟨c⟩ i (FixedBytes.zero _) := by
  obtain ⟨file, t⟩ := e
  obtain ⟨rfl, ht, -⟩ := h
  dsimp only at ht
  rw [EagerChunkReader.readChunk_eq]
  by_cases hi : i < t.leaves.length
  · have hv : t.isIndexValid i = true := decide_eq_true hi
    have hc : t.isConsistent i (sha ((chunk chunkSize file i).rightpad chunkSize 0)) = true := by
      have hleaf : t.leaves[i]? = some (hashBlock sha (chunk chunkSize file i)) := by
        rw [List.getElem?_eq_getElem hi]
        simp only [ht, getElem_leaves]
      rw [MerkleLeaves.isConsistent, hleaf, hashBlock, decide_eq_true_eq]
    simp only [readChunk, readBackingChunkVerified, hv, if_true, readBackingChunkUnverified,
      storedFile_readChunk, ok_bind, toList_setPrefix_chunk, hc, Bool.not_true, Bool.false_eq_true,
      if_false]
  · have hv : t.isIndexValid i = false := by
      rw [MerkleLeaves.isIndexValid, decide_eq_false_iff_not]
      exact hi
    have hnil : chunk chunkSize file i = [] := by
      rw [ht, length_leaves, lt_ceilDiv_iff (by decide), not_lt] at hi
      rw [chunk, List.drop_of_length_le hi, List.take_nil]
    have hzero : (FixedBytes.zero 4096).setPrefix ([] : List UInt8) = FixedBytes.zero 4096 :=
      FixedBytes.ext (by rw [FixedBytes.toList_setPrefix]; rfl)
    simp only [readChunk, readBackingChunkVerified, hv, Bool.false_eq_true, if_false, hnil, hzero,
      List.length_nil]

end VerifiedFileEditor

/-! ## Runs of calls -/

/-- A call that a writer of a new file makes on its editor. -/
inductive FileOp where
  | writeAt (buf : List UInt8) (offset : Nat)
  | resize (size : Nat)

namespace FileOp

/-- The content after the call: the buffer written (nothing for an empty one), or the content
cut or extended with zeros. -/
def apply (c : List UInt8) : FileOp → List UInt8
  | writeAt buf offset => if buf = [] then c else writeContent c buf offset
  | resize size => resizeContent c size

/-- Where the call ends: the end of the buffer written, or the new size. -/
def endOffset : FileOp → Nat
  | writeAt buf offset => offset + buf.length
  | resize size => size

/-- A call never leaves the content longer than it was or than where it ends. -/
theorem length_apply_le (c : List UInt8) (op : FileOp) :
    (op.apply c).length ≤ max c.length op.endOffset := by
  cases op with
  | writeAt buf offset =>
    dsimp only [apply, endOffset]
    split_ifs
    · exact le_max_left _ _
    · rw [length_writeContent]
  | resize size => rw [apply, length_resizeContent, endOffset]; exact le_max_right _ _

end FileOp

namespace VerifiedFileEditor

variable {S : Type} (sha) (F : BackingFile S)

/-- The editor after a call that returns `Ok`, and for a write, with the whole buffer written;
`none` when the call fails or writes less. -/
def call (e : VerifiedFileEditor S) : FileOp → Option (VerifiedFileEditor S)
  | .writeAt buf offset =>
    match writeAt sha F e buf offset with
    | ok (.ok n, e') => if n = buf.length then some e' else none
    | _ => none
  | .resize size =>
    match resize sha F e size with
    | ok (.ok (), e') => some e'
    | _ => none

variable {sha F}

/-- Over storage that keeps what it is given, every call that ends below `2^64 - 4096` succeeds,
and the editor holds the content after it. -/
theorem call_stored (hz : sha (List.replicate chunkSize 0) = hashOf4096Zeros)
    {e : VerifiedFileEditor (List UInt8)} {c : List UInt8} (h : Holds sha e c c.length) {op : FileOp}
    (hop : op.endOffset + chunkSize < 2 ^ 64) :
    ∃ e', call sha storedFile e op = some e' ∧ Holds sha e' (op.apply c) (op.apply c).length := by
  cases op with
  | writeAt buf offset =>
    by_cases hne : buf = []
    · subst hne
      refine ⟨e, ?_, ?_⟩
      · rw [call, writeAt_nil]
        rfl
      · rw [FileOp.apply, if_pos rfl]
        exact h
    · have hov : offset + buf.length < 2 ^ 64 := by
        simp only [FileOp.endOffset, chunkSize] at hop
        omega
      obtain ⟨e', hw, h'⟩ := writeAt_stored hz h hne hov
      refine ⟨e', ?_, ?_⟩
      · rw [call, hw]
        exact if_pos rfl
      · rw [FileOp.apply, if_neg hne]
        exact h'
  | resize size =>
    have hsize : size + chunkSize < 2 ^ 64 := hop
    obtain ⟨e', hr, h'⟩ := resize_stored hz h hsize
    exact ⟨e', by rw [call, hr], by rw [FileOp.apply, length_resizeContent]; exact h'⟩

/-- Over storage that keeps what it is given, every run of calls that end below `2^64 - 4096`
succeeds call by call, and the editor holds the content the calls describe. -/
theorem run_call_stored (hz : sha (List.replicate chunkSize 0) = hashOf4096Zeros)
    {ops : List FileOp} (hops : ∀ op ∈ ops, op.endOffset + chunkSize < 2 ^ 64)
    {e : VerifiedFileEditor (List UInt8)} {c : List UInt8} (h : Holds sha e c c.length) :
    ∃ e', Transition.run (call sha storedFile) e ops = some e' ∧
      Holds sha e' (ops.foldl FileOp.apply c) (ops.foldl FileOp.apply c).length := by
  induction ops generalizing e c with
  | nil => exact ⟨e, rfl, h⟩
  | cons op ops ih =>
    obtain ⟨e₁, hcall, h₁⟩ := call_stored hz h (hops op (List.mem_cons_self ..))
    obtain ⟨e', hrun, h'⟩ := ih (fun op hop ↦ hops op (List.mem_cons_of_mem _ hop)) h₁
    exact ⟨e', (Transition.run_cons_of_step hcall ops).trans hrun, h'⟩

/-- A new editor holds the empty content. -/
theorem holds_new : Holds sha (new ([] : List UInt8)) [] 0 := ⟨rfl, rfl, rfl⟩

/-- The content stays below a bound that every call ends below. -/
theorem length_foldl_apply_lt {B : Nat} {ops : List FileOp} (hops : ∀ op ∈ ops, op.endOffset < B)
    {c : List UInt8} (hc : c.length < B) : (ops.foldl FileOp.apply c).length < B := by
  induction ops generalizing c with
  | nil => exact hc
  | cons op ops ih =>
    have hop := hops op (List.mem_cons_self ..)
    exact ih (fun op' h' ↦ hops op' (List.mem_cons_of_mem _ h'))
      ((FileOp.length_apply_le c op).trans_lt (max_lt hc hop))

/-- The editor of a new file after a run of calls that end below `2^63`: every call succeeds and
the editor holds the content the calls describe. -/
theorem run_new_holds (hz : sha (List.replicate chunkSize 0) = hashOf4096Zeros)
    {ops : List FileOp} (hops : ∀ op ∈ ops, op.endOffset < 2 ^ 63) :
    ∃ e', Transition.run (call sha storedFile) (new []) ops = some e' ∧
      Holds sha e' (ops.foldl FileOp.apply []) (ops.foldl FileOp.apply []).length ∧
      (ops.foldl FileOp.apply []).length < 2 ^ 63 :=
  have hops' : ∀ op ∈ ops, op.endOffset + chunkSize < 2 ^ 64 := fun op hop ↦ by
    have := hops op hop
    simp only [chunkSize]
    omega
  have ⟨e', hrun, h'⟩ := run_call_stored hz hops' holds_new
  ⟨e', hrun, h', length_foldl_apply_lt hops (by decide)⟩

/-- A new file written over storage that keeps what it is given: every run of `write_at` and
`resize` calls that end below `2^63` succeeds call by call; the storage then holds the content
the calls describe, the leaves are its fs-verity leaves with its size, and
`calculate_fsverity_digest` returns its fs-verity digest. -/
theorem run_new_calculateFsverityDigest (hz : sha (List.replicate chunkSize 0) = hashOf4096Zeros)
    (ops : List FileOp) (hops : ∀ op ∈ ops, op.endOffset < 2 ^ 63) :
    ∃ e', Transition.run (call sha storedFile) (new []) ops = some e' ∧
      e'.file = ops.foldl FileOp.apply [] ∧
      e'.merkleTree = ⟨Fsverity.leaves sha (ops.foldl FileOp.apply []),
        (ops.foldl FileOp.apply []).length⟩ ∧
      calculateFsverityDigest sha e' = ok (digest sha (ops.foldl FileOp.apply [])) := by
  obtain ⟨⟨file, t⟩, hrun, ⟨hfile, hleaves, hsize⟩, hlen⟩ := run_new_holds hz hops
  dsimp only at hfile hleaves hsize
  have ht : t = ⟨Fsverity.leaves sha (ops.foldl FileOp.apply []),
      (ops.foldl FileOp.apply []).length⟩ := by
    rw [← hleaves, ← hsize]
  subst ht
  refine ⟨_, hrun, hfile, rfl, ?_⟩
  rw [calculateFsverityDigest, MerkleLeaves.calculateFsverityDigest,
    MerkleLeaves.calculateRootHash_leaves sha hlen, ok_bind]
  rfl

/-- A write past the end, a resize that cuts into it and a write across the first chunk boundary,
under a hash that keeps the first 32 bytes of a string and maps the zero block to
`hashOf4096Zeros`. -/
theorem run_new_calculateFsverityDigest_gap :
    let sha : List UInt8 → Sha256Hash := fun m ↦
      if m = List.replicate chunkSize 0 then hashOf4096Zeros else (FixedBytes.zero 32).setPrefix m
    let ops := [FileOp.writeAt [1, 2, 3] 5000, FileOp.resize 4097,
      FileOp.writeAt (List.replicate 10 7) 4090]
    sha (List.replicate chunkSize 0) = hashOf4096Zeros ∧ (∀ op ∈ ops, op.endOffset < 2 ^ 63) ∧
      ∃ e', Transition.run (call sha storedFile) (new []) ops = some e' ∧
        e'.file = ops.foldl FileOp.apply [] ∧
        e'.merkleTree = ⟨Fsverity.leaves sha (ops.foldl FileOp.apply []),
          (ops.foldl FileOp.apply []).length⟩ ∧
        calculateFsverityDigest sha e' = ok (digest sha (ops.foldl FileOp.apply [])) := by
  intro sha ops
  have hz : sha (List.replicate chunkSize 0) = hashOf4096Zeros := if_pos rfl
  have hops : ∀ op ∈ ops, op.endOffset < 2 ^ 63 := by decide
  exact ⟨hz, hops, run_new_calculateFsverityDigest hz ops hops⟩

variable (sha) in
/-- `impl ReadByChunk for VerifiedFileEditor<F>` over storage that keeps what it is given. -/
def toReadByChunk (e : VerifiedFileEditor (List UInt8)) :
    ReadByChunk where
  readChunk := readChunk sha storedFile e
  size_le i buf buf' n h := by
    simp only [readChunk, readBackingChunkVerified, readBackingChunkUnverified,
      storedFile_readChunk, ok_bind] at h
    -- a chunk read and checked, or nothing past the leaves
    split_ifs at h with hv hc
    · cases h
      exact (length_chunk _ _ _).trans_le (Nat.min_le_left _ _)
    · cases h
      exact Nat.zero_le _

/-- Reading a new file back: after every run of calls that end below `2^63` over storage that
keeps what it is given, `read_chunks` of the editor, up to the size it records, copies exactly the
bytes of the content from `offset` on, and returns how many. -/
theorem run_new_readChunks {W : Type} (hz : sha (List.replicate chunkSize 0) = hashOf4096Zeros)
    (ops : List FileOp) (hops : ∀ op ∈ ops, op.endOffset < 2 ^ 63) (out : Write W)
    (hout : out.Accepts) (w : W) (offset size : Nat) :
    ∃ e', Transition.run (call sha storedFile) (new []) ops = some e' ∧ ∃ w',
      readChunks out w (toReadByChunk sha e') e'.size offset size =
        ok (min size ((ops.foldl FileOp.apply []).length - offset), w') ∧
      out.written w' = out.written w ++ ((ops.foldl FileOp.apply []).drop offset).take
        (min size ((ops.foldl FileOp.apply []).length - offset)) := by
  obtain ⟨e', hrun, h', hlen⟩ := run_new_holds hz hops
  have hchunks : (toReadByChunk sha e').ReturnsChunks (ops.foldl FileOp.apply []) := by
    intro i _
    refine ⟨_, (readChunk_stored h' i).trans (EagerChunkReader.readChunk_eq _ _ _),
      toList_setPrefix_chunk _ _⟩
  have hsize : e'.size = (ops.foldl FileOp.apply []).length := h'.fileSize
  refine ⟨e', hrun, ?_⟩
  rw [hsize]
  exact readChunks_copies out w hchunks hout (by omega) offset size

/-- The same run read back into a `Vec<u8>` from offset 100, across the chunk boundary. -/
theorem run_new_readChunks_gap :
    let sha : List UInt8 → Sha256Hash := fun m ↦
      if m = List.replicate chunkSize 0 then hashOf4096Zeros else (FixedBytes.zero 32).setPrefix m
    let ops := [FileOp.writeAt [1, 2, 3] 5000, FileOp.resize 4097,
      FileOp.writeAt (List.replicate 10 7) 4090]
    sha (List.replicate chunkSize 0) = hashOf4096Zeros ∧ (∀ op ∈ ops, op.endOffset < 2 ^ 63) ∧
      Write.vec.Accepts ∧
      ∃ e', Transition.run (call sha storedFile) (new []) ops = some e' ∧ ∃ w',
        readChunks Write.vec [] (toReadByChunk sha e') e'.size 100 8192 =
          ok (min 8192 ((ops.foldl FileOp.apply []).length - 100), w') ∧
        Write.vec.written w' = Write.vec.written [] ++
          ((ops.foldl FileOp.apply []).drop 100).take
            (min 8192 ((ops.foldl FileOp.apply []).length - 100)) := by
  intro sha ops
  have hz : sha (List.replicate chunkSize 0) = hashOf4096Zeros := if_pos rfl
  have hops : ∀ op ∈ ops, op.endOffset < 2 ^ 63 := by decide
  exact ⟨hz, hops, Write.accepts_vec,
    run_new_readChunks hz ops hops Write.vec Write.accepts_vec [] 100 8192⟩

end VerifiedFileEditor

end Virtualization.AuthFs
