import Virtualization.AuthFs.File
import Virtualization.Lib.Io

/-!
# `authfs::fusefs`: `read_chunks`

A FUSE read of `size` bytes at `offset` is served chunk by chunk: `ChunkedSizeIter` cuts the
range into pieces inside one chunk each, and every piece is read from its chunk and written
out.  A short chunk is refused with `ENODATA`, since a truncated chunk would hash like a
zero-padded one.

`readChunks_ensures` is the contract: from a source that serves the chunks of a content `D`
up to zero padding (`ReadByChunk.Serves`), a read returns an error or writes exactly
`D[offset .. offset + min(size, |D| - offset)]`, and never panics.  From a source that returns
the chunks of `D` and to a writer that takes every buffer whole, it returns, with that copy and
its length (`readChunks_copies`).
-/

namespace Virtualization.AuthFs

open Outcome

variable {W : Type}

/-- `offset_to_chunk_index`. -/
def offsetToChunkIndex (offset : Nat) : Nat := offset / chunkSize

/-- The body of `read_chunks`'s loop: read the chunk holding the piece at `currentOffset`,
refuse it if it is shorter than the piece, and write the piece out. -/
def copyPiece (out : Write W) (file : ReadByChunk) :
    Nat × Nat → Nat × W → Outcome IoError (ForInStep (Nat × W))
  | (currentOffset, plannedDataSize), (total, w) => do
    let (buf, readSize) ← file.readChunk (offsetToChunkIndex currentOffset) (FixedBytes.zero _)
    if readSize < plannedDataSize then err (.os ENODATA)
    else do
      let begin := currentOffset % chunkSize
      let end_ ← checkedAdd 64 begin plannedDataSize
      let data ← slice buf.toList begin end_
      let (s, w) ← ofExcept (out.write w data)
      if s ≠ plannedDataSize then err (.os EIO)
      else do
        let total ← checkedAdd 64 total s
        pure (.yield (total, w))

/-- `read_chunks`: copy `min(size, file_size - offset)` bytes from `offset` to `w`, returning
how many were copied, with the writer after the copy. -/
def readChunks (out : Write W) (w : W) (file : ReadByChunk) (fileSize offset size : Nat) :
    Outcome IoError (Nat × W) :=
  let remaining := fileSize - offset
  let sizeToRead := min size remaining
  ChunkedSizeIter.forIn ⟨sizeToRead, offset, chunkSize⟩ (0, w) (copyPiece out file)

/-- A source serves `D` when every request for one of its chunks, into a zero buffer, returns,
and the buffer it returns is the block of `D` zero-padded. -/
def ReadByChunk.Serves (file : ReadByChunk) (D : List UInt8) : Prop :=
  ∀ i < D.length ⌈/⌉ chunkSize, (file.readChunk i (FixedBytes.zero _)).Ensures fun res ↦
    res.1.toList = (chunk chunkSize D i).rightpad chunkSize 0

/-- A source returns the chunks of `D` when every request for one of them, into a zero buffer,
returns the chunk at the front of the buffer and its length, as `EagerChunkReader` over `D`
does. -/
def ReadByChunk.ReturnsChunks (file : ReadByChunk) (D : List UInt8) : Prop :=
  ∀ i < D.length ⌈/⌉ chunkSize, ∃ buf, file.readChunk i (FixedBytes.zero _) =
    ok (buf, (chunk chunkSize D i).length) ∧ buf.toList = (chunk chunkSize D i).rightpad chunkSize 0

/-- `EagerChunkReader` over `D` returns the chunks of `D`. -/
theorem EagerChunkReader.returnsChunks (D : List UInt8) :
    (EagerChunkReader.toReadByChunk ⟨D⟩).ReturnsChunks D := by
  intro i _
  refine ⟨_, EagerChunkReader.readChunk_eq ⟨D⟩ i _, FixedBytes.toList_zero_setPrefix ?_⟩
  rw [length_chunk]
  exact Nat.min_le_left _ _

/-- A source that returns the chunks of `D` serves `D`. -/
theorem ReadByChunk.ReturnsChunks.serves {file : ReadByChunk} {D : List UInt8}
    (h : file.ReturnsChunks D) : file.Serves D := by
  intro i hi
  obtain ⟨buf, hread, hbuf⟩ := h i hi
  rw [hread, ensures_ok]
  exact hbuf

section Contract

variable (out : Write W) (w₀ : W) (D : List UInt8) (offset sizeToRead : Nat)

/-- The invariant of the copy loop: the bytes from `offset` up to the iterator's offset have
been written, and counted. -/
def CopyInvariant (it : ChunkedSizeIter) (acc : Nat × W) : Prop :=
  it.alignment = chunkSize ∧ offset ≤ it.offset ∧ it.offset + it.remaining = offset + sizeToRead ∧
    acc.1 = it.offset - offset ∧
    out.written acc.2 = out.written w₀ ++ (D.drop offset).take (it.offset - offset)

/-- A piece of a served chunk is the piece of `D` at the same offset. -/
theorem take_drop_served {buf : ChunkBuffer} {cur planned : Nat}
    (hbuf : buf.toList = (chunk chunkSize D (cur / chunkSize)).rightpad chunkSize 0)
    (hpiece : cur % chunkSize + planned ≤ chunkSize) (hlen : cur + planned ≤ D.length) :
    (buf.toList.drop (cur % chunkSize)).take planned = (D.drop cur).take planned := by
  have hcur : chunkSize * (cur / chunkSize) + cur % chunkSize = cur := Nat.div_add_mod cur chunkSize
  rw [hbuf, take_drop_rightpad_chunk hpiece (by omega), hcur]

/-- Writing the next piece extends what was written by it. -/
theorem take_append_take_drop {cur planned : Nat} (hcur : offset ≤ cur) :
    (D.drop offset).take (cur - offset) ++ (D.drop cur).take planned =
      (D.drop offset).take (cur + planned - offset) := by
  rw [show cur + planned - offset = (cur - offset) + planned by omega, List.take_add,
    List.drop_drop, Nat.add_sub_cancel' hcur]

variable {D offset sizeToRead}

/-- While something is left, the next piece lies inside one chunk of `D`. -/
theorem CopyInvariant.piece (hsize : offset + sizeToRead ≤ D.length) {it : ChunkedSizeIter}
    {acc : Nat × W} (hinv : CopyInvariant out w₀ D offset sizeToRead it acc)
    (hr : it.remaining ≠ 0) :
    it.offset % chunkSize + it.chunkDataSize ≤ chunkSize ∧
      it.offset + it.chunkDataSize ≤ D.length ∧
      offsetToChunkIndex it.offset < D.length ⌈/⌉ chunkSize := by
  obtain ⟨halign, hoff, hend, -, -⟩ := hinv
  have ha : it.alignment ≠ 0 := by rw [halign]; decide
  have hpiece : it.offset % chunkSize + it.chunkDataSize ≤ chunkSize :=
    halign ▸ ChunkedSizeIter.mod_add_chunkDataSize_le ha
  have hcds : it.chunkDataSize ≤ it.remaining := Nat.min_le_left _ _
  refine ⟨hpiece, by omega, ?_⟩
  rw [offsetToChunkIndex, lt_ceilDiv_iff (by decide)]
  have := Nat.mul_div_le it.offset chunkSize
  have := ChunkedSizeIter.chunkDataSize_pos hr ha
  omega

/-- One piece of the copy keeps the invariant, or fails with an error; it never leaves the
loop early. -/
theorem copyPiece_ensures {file : ReadByChunk} (hserves : file.Serves D) (hD : D.length < 2 ^ 64)
    (hsize : offset + sizeToRead ≤ D.length) {it : ChunkedSizeIter} {acc : Nat × W}
    (hinv : CopyInvariant out w₀ D offset sizeToRead it acc) (hr : it.remaining ≠ 0) :
    (copyPiece out file (it.offset, it.chunkDataSize) acc).Ensures fun
      | .yield b => CopyInvariant out w₀ D offset sizeToRead it.advance b
      | .done _ => False := by
  obtain ⟨total, w⟩ := acc
  obtain ⟨hpiece, hlen, hidx⟩ := CopyInvariant.piece out w₀ hsize hinv hr
  obtain ⟨halign, hoff, hend, htotal, hwritten⟩ := hinv
  unfold copyPiece
  refine (hserves _ hidx).bind ?_
  rintro ⟨buf, readSize⟩ hbuf
  simp only []
  split_ifs with hshort
  · trivial
  have hbegin : it.offset % chunkSize + it.chunkDataSize < 2 ^ 64 := by
    simp only [chunkSize] at hpiece ⊢
    omega
  have hslice : it.offset % chunkSize + it.chunkDataSize ≤ buf.toList.length := by
    rw [buf.length_toList]
    exact hpiece
  simp only [checkedAdd_of_lt hbegin, ok_bind, slice_of_le (Nat.le_add_right _ _) hslice,
    Nat.add_sub_cancel_left, take_drop_served D hbuf hpiece hlen]
  cases hwrite : out.write w ((D.drop it.offset).take it.chunkDataSize) with
  | error e => trivial
  | ok res =>
    obtain ⟨s, w'⟩ := res
    obtain ⟨-, hw⟩ := out.write_spec _ _ _ _ hwrite
    simp only [ofExcept_ok, ok_bind]
    split_ifs with hs
    · trivial
    obtain rfl : s = it.chunkDataSize := not_not.mp hs
    have htotal' : total + it.chunkDataSize < 2 ^ 64 := by omega
    simp only [checkedAdd_of_lt htotal', ok_bind, pure_eq, ensures_ok]
    have hcds := it.chunkDataSize_le
    refine ⟨halign, ?_, ?_, ?_, ?_⟩
    · simp only [ChunkedSizeIter.advance_offset]
      omega
    · simp only [ChunkedSizeIter.advance_offset, ChunkedSizeIter.advance_remaining]
      omega
    · simp only [ChunkedSizeIter.advance_offset]
      omega
    · rw [hw, hwritten, List.take_take, Nat.min_self, ChunkedSizeIter.advance_offset,
        List.append_assoc, take_append_take_drop D offset hoff]

/-- From a source that returns the chunks of `D`, to a writer that takes every buffer whole, a
piece of the copy is read, written and counted, and the loop goes on. -/
theorem copyPiece_eq_yield {file : ReadByChunk} (hfile : file.ReturnsChunks D) (hout : out.Accepts)
    (hD : D.length < 2 ^ 64) (hsize : offset + sizeToRead ≤ D.length) {it : ChunkedSizeIter}
    {acc : Nat × W} (hinv : CopyInvariant out w₀ D offset sizeToRead it acc)
    (hr : it.remaining ≠ 0) :
    ∃ b, copyPiece out file (it.offset, it.chunkDataSize) acc = ok (.yield b) ∧
      CopyInvariant out w₀ D offset sizeToRead it.advance b := by
  obtain ⟨hpiece, hlen, hidx⟩ := CopyInvariant.piece out w₀ hsize hinv hr
  obtain ⟨buf, hread, hbuf⟩ := hfile _ hidx
  obtain ⟨w', hwrite⟩ := hout acc.2 ((D.drop it.offset).take it.chunkDataSize)
  have hshort : ¬(chunk chunkSize D (offsetToChunkIndex it.offset)).length < it.chunkDataSize := by
    have := Nat.div_add_mod it.offset chunkSize
    rw [length_chunk, offsetToChunkIndex]
    simp only [chunkSize] at hpiece this ⊢
    omega
  have hbegin : it.offset % chunkSize + it.chunkDataSize < 2 ^ 64 := by
    simp only [chunkSize] at hpiece ⊢
    omega
  have hslice : it.offset % chunkSize + it.chunkDataSize ≤ buf.toList.length := by
    rw [buf.length_toList]
    exact hpiece
  have hdata : (D.drop it.offset).take it.chunkDataSize = (buf.toList.drop (it.offset % chunkSize)).take
      (it.offset % chunkSize + it.chunkDataSize - it.offset % chunkSize) := by
    rw [Nat.add_sub_cancel_left, take_drop_served D hbuf hpiece hlen]
  have hcount : (List.take it.chunkDataSize (List.drop it.offset D)).length = it.chunkDataSize := by
    rw [List.length_take, List.length_drop]
    omega
  have hrun : copyPiece out file (it.offset, it.chunkDataSize) acc =
      ok (.yield (acc.1 + it.chunkDataSize, w')) := by
    obtain ⟨total, w⟩ := acc
    have htotal : total + it.chunkDataSize < 2 ^ 64 := by
      have := hinv.2.2.2.1
      dsimp only at this
      omega
    rw [copyPiece, hread, ok_bind]
    dsimp only
    rw [if_neg hshort, checkedAdd_of_lt hbegin, ok_bind, slice_of_le (Nat.le_add_right _ _) hslice,
      ok_bind, ← hdata, hwrite, ofExcept_ok, ok_bind]
    dsimp only
    rw [hcount, if_neg (not_not.mpr rfl), checkedAdd_of_lt htotal, ok_bind, pure_eq]
  exact ⟨_, hrun, (copyPiece_ensures out w₀ hfile.serves hD hsize hinv hr).of_eq_ok hrun⟩

end Contract

/-- `read_chunks` from a source that serves `D` returns an error or copies exactly
`D[offset .. offset + min(size, |D| - offset)]`, and never panics. -/
theorem readChunks_ensures (out : Write W) (w : W) {file : ReadByChunk} {D : List UInt8}
    (hserves : file.Serves D) (hD : D.length < 2 ^ 64) (offset size : Nat) :
    (readChunks out w file D.length offset size).Ensures fun res ↦
      res.1 = min size (D.length - offset) ∧
        out.written res.2 = out.written w ++ (D.drop offset).take (min size (D.length - offset)) := by
  have hfit : ∀ it acc, CopyInvariant out w D offset (min size (D.length - offset)) it acc →
      it.remaining ≠ 0 → offset + min size (D.length - offset) ≤ D.length := by
    rintro it acc ⟨-, hoff, hend, -⟩ hr
    omega
  refine ChunkedSizeIter.forIn_ensures
    (CopyInvariant out w D offset (min size (D.length - offset)))
    (fun res ↦ res.1 = min size (D.length - offset) ∧
      out.written res.2 = out.written w ++ (D.drop offset).take (min size (D.length - offset)))
    ?_ ?_ ?_ ⟨rfl, le_rfl, rfl, by simp, by simp⟩
  · rintro it ⟨total, w'⟩ ⟨-, hoff, hend, htotal, hwritten⟩ hr
    have hcopied : it.offset - offset = min size (D.length - offset) := by omega
    exact ⟨htotal.trans hcopied, hcopied ▸ hwritten⟩
  · intro it acc hinv hr
    have hend := hinv.2.2.1
    have hcds : it.chunkDataSize ≤ it.remaining := Nat.min_le_left _ _
    have := hfit it acc hinv hr
    refine ⟨by rw [hinv.1]; decide, by omega⟩
  · intro it acc hinv hr
    refine (copyPiece_ensures out w hserves hD (hfit it acc hinv hr) hinv hr).mono ?_
    rintro (b | b) h
    · exact h.elim
    · exact h

/-- `read_chunks` from a source that returns the chunks of `D`, to a writer that takes every
buffer whole, copies exactly `D[offset .. offset + min(size, |D| - offset)]`, nothing when the
offset is past the end, and returns that length. -/
theorem readChunks_copies (out : Write W) (w : W) {file : ReadByChunk} {D : List UInt8}
    (hfile : file.ReturnsChunks D) (hout : out.Accepts) (hD : D.length < 2 ^ 64)
    (offset size : Nat) :
    ∃ w', readChunks out w file D.length offset size = ok (min size (D.length - offset), w') ∧
      out.written w' = out.written w ++ (D.drop offset).take (min size (D.length - offset)) := by
  have hfit : ∀ it acc, CopyInvariant out w D offset (min size (D.length - offset)) it acc →
      it.remaining ≠ 0 → offset + min size (D.length - offset) ≤ D.length := by
    rintro it acc ⟨-, hoff, hend, -⟩ hr
    omega
  have hend : ∀ it acc, CopyInvariant out w D offset (min size (D.length - offset)) it acc →
      it.remaining = 0 → acc.1 = min size (D.length - offset) ∧
        out.written acc.2 = out.written w ++ (D.drop offset).take (min size (D.length - offset)) := by
    rintro it ⟨total, w'⟩ ⟨-, hoff, hend, htotal, hwritten⟩ hr
    have hcopied : it.offset - offset = min size (D.length - offset) := by omega
    exact ⟨htotal.trans hcopied, hcopied ▸ hwritten⟩
  have hnext : ∀ it acc, CopyInvariant out w D offset (min size (D.length - offset)) it acc →
      it.remaining ≠ 0 → it.alignment ≠ 0 ∧ it.offset + it.chunkDataSize < 2 ^ 64 := by
    intro it acc hinv hr
    have hend := hinv.2.2.1
    have hcds := it.chunkDataSize_le
    have := hfit it acc hinv hr
    exact ⟨by rw [hinv.1]; decide, by omega⟩
  obtain ⟨⟨total, w'⟩, hrun, htotal, hw⟩ := ChunkedSizeIter.forIn_eq_ok _ _ hend hnext
    (fun it acc hinv hr ↦ copyPiece_eq_yield out w hfile hout hD (hfit it acc hinv hr) hinv hr)
    (show CopyInvariant out w D offset _ ⟨min size (D.length - offset), offset, chunkSize⟩ (0, w)
      from ⟨rfl, le_rfl, rfl, by simp, by simp⟩)
  dsimp only at htotal hw
  refine ⟨w', ?_, hw⟩
  rw [readChunks, hrun, htotal]

/-- A file of 5000 bytes in memory, read across its chunk boundary into a `Vec<u8>`. -/
theorem readChunks_copies_across :
    let D : List UInt8 := (List.range 5000).map UInt8.ofNat
    (EagerChunkReader.toReadByChunk ⟨D⟩).ReturnsChunks D ∧ Write.vec.Accepts ∧ D.length < 2 ^ 64 ∧
      ∃ w', readChunks Write.vec [] (EagerChunkReader.toReadByChunk ⟨D⟩) D.length 4000 1000 =
          ok (min 1000 (D.length - 4000), w') ∧
        Write.vec.written w' = Write.vec.written [] ++ (D.drop 4000).take (min 1000 (D.length - 4000)) := by
  intro D
  have hlen : D.length < 2 ^ 64 := by simp [D]
  exact ⟨EagerChunkReader.returnsChunks _, Write.accepts_vec, hlen,
    readChunks_copies Write.vec [] (EagerChunkReader.returnsChunks _) Write.accepts_vec hlen 4000 1000⟩

/-- A read of something whose first chunk panics panics. -/
theorem readChunks_of_panic (out : Write W) (w : W) {file : ReadByChunk}
    {fileSize offset size : Nat} (hsize : min size (fileSize - offset) ≠ 0)
    (hfile : fileSize < 2 ^ 64)
    (hpanic : file.readChunk (offset / chunkSize) (FixedBytes.zero _) = panic) :
    readChunks out w file fileSize offset size = panic := by
  have hcds : ChunkedSizeIter.chunkDataSize ⟨min size (fileSize - offset), offset, chunkSize⟩ ≤
      min size (fileSize - offset) := Nat.min_le_left _ _
  rw [readChunks, ChunkedSizeIter.forIn_of_ne_zero hsize (show chunkSize ≠ 0 by decide)
    (by dsimp only at hcds ⊢; omega)]
  simp only [copyPiece, offsetToChunkIndex, hpanic, panic_bind]

end Virtualization.AuthFs
