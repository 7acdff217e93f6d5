import Virtualization.AuthFs.Common
import Virtualization.Lib.BlockDevice

/-!
# `authfs::file`: chunked readers

A `ReadByChunk` source fills a chunk buffer and reports how many bytes it read.  The trait
promises at most `CHUNK_SIZE`; the structure carries that bound, and nothing else: a source
may return any bytes, any error, and leave anything in the buffer past what it reports.

The readers of this crate copy the chunk into the front of the buffer and leave the rest of it
alone (`ReadByChunk.WritesPrefix`): `RemoteFileReader` copies what the file server returned,
`EagerChunkReader` the block of a byte string held in memory, so that it is the honest source
of a file's content (`EagerChunkReader.readChunk_eq`).

`EagerChunkReader::new` loads that string from a source, reading each chunk through one chunk
buffer and appending what the source reports, and checks only the total length.  A source whose
first chunk is short and whose last chunk is full passes the check when the file does not end on
a block boundary, and the chunks served afterwards are shifted (`EagerChunkReader.new_shortFirst`).
-/

namespace Virtualization.AuthFs

open Outcome

/-- A `ReadByChunk` implementation: `read_chunk(chunk_index, buf)`. -/
structure ReadByChunk where
  readChunk : Nat → ChunkBuffer → Outcome IoError (ChunkBuffer × Nat)
  size_le : ∀ i buf buf' n, readChunk i buf = .ok (buf', n) → n ≤ chunkSize

/-- A source that returns to every request, with data or an error. -/
def ReadByChunk.Returns (r : ReadByChunk) : Prop :=
  ∀ i buf, (r.readChunk i buf).Returns

/-- A source that returns, with data or an error, to every request for a chunk below `n`. -/
def ReadByChunk.ReturnsBelow (r : ReadByChunk) (n : Nat) : Prop :=
  ∀ i < n, ∀ buf, (r.readChunk i buf).Returns

theorem ReadByChunk.Returns.returnsBelow {r : ReadByChunk} (h : r.Returns) (n : Nat) :
    r.ReturnsBelow n :=
  fun i _ buf ↦ h i buf

/-- A source that writes only the bytes it reports and leaves the rest of the buffer as it was. -/
def ReadByChunk.WritesPrefix (r : ReadByChunk) : Prop :=
  ∀ i buf buf' n, r.readChunk i buf = .ok (buf', n) → buf'.toList.drop n = buf.toList.drop n

/-- Copying a prefix of at most a chunk leaves the rest of the buffer alone. -/
theorem drop_setPrefix (buf : ChunkBuffer) {l : List UInt8} (hl : l.length ≤ chunkSize) :
    (buf.setPrefix l).toList.drop l.length = buf.toList.drop l.length := by
  rw [FixedBytes.toList_setPrefix, List.take_of_length_le (show l.length ≤ 4096 from hl),
    List.drop_left]

/-! ## `RemoteFileReader` -/

/-- `remote_read_chunk`: ask the server for the chunk at `chunk_index * CHUNK_SIZE` and copy
what it returns, cut to the buffer, to the front of the buffer.  `readFile offset size` is the
server's answer. -/
def remoteReadChunk (readFile : Nat → Nat → Except IoError (List UInt8)) (chunkIndex : Nat)
    (buf : ChunkBuffer) : Outcome IoError (ChunkBuffer × Nat) := do
  let offset ← checkedMul 64 chunkIndex chunkSize
  if 2 ^ 63 ≤ offset then err (.os EOVERFLOW)
  else do
    let chunk ← ofExcept (readFile offset chunkSize)
    let size := min chunkSize chunk.length
    pure (buf.setPrefix (chunk.take size), size)

/-- `RemoteFileReader`, with the file server's `readFile` on its remote fd. -/
structure RemoteFileReader where
  readFile : Nat → Nat → Except IoError (List UInt8)

namespace RemoteFileReader

theorem readChunk_spec (r : RemoteFileReader) {i : Nat} {buf buf' : ChunkBuffer} {n : Nat}
    (h : remoteReadChunk r.readFile i buf = .ok (buf', n)) :
    n ≤ chunkSize ∧ buf'.toList.drop n = buf.toList.drop n := by
  obtain ⟨offset, -, h⟩ := bind_eq_ok.mp h
  split_ifs at h
  obtain ⟨chunk, -, h⟩ := bind_eq_ok.mp h
  simp only [pure_eq, ok.injEq, Prod.mk.injEq] at h
  obtain ⟨rfl, rfl⟩ := h
  have hlen : (chunk.take (min chunkSize chunk.length)).length = min chunkSize chunk.length := by
    rw [List.length_take]
    omega
  have hdrop := drop_setPrefix buf (hlen ▸ Nat.min_le_left chunkSize chunk.length)
  rw [hlen] at hdrop
  exact ⟨Nat.min_le_left _ _, hdrop⟩

def toReadByChunk (r : RemoteFileReader) : ReadByChunk :=
  ⟨remoteReadChunk r.readFile, fun _ _ _ _ h ↦ (readChunk_spec r h).1⟩

theorem writesPrefix (r : RemoteFileReader) : r.toReadByChunk.WritesPrefix :=
  fun _ _ _ _ h ↦ (readChunk_spec r h).2

/-- Below chunk `2 ^ 52` the offset fits `u64`, and the reader returns the server's answer or an
error; at `2 ^ 52` the multiplication overflows and panics. -/
theorem returnsBelow (r : RemoteFileReader) : r.toReadByChunk.ReturnsBelow (2 ^ 52) := by
  intro i hi buf
  have hoffset : i * chunkSize < 2 ^ 64 := by
    simp only [chunkSize]
    omega
  show (remoteReadChunk r.readFile i buf).Returns
  rw [remoteReadChunk, checkedMul_of_lt hoffset, ok_bind]
  split_ifs
  · trivial
  · exact returns_bind (returns_ofExcept _) fun _ _ ↦ trivial

end RemoteFileReader

/-! ## `EagerChunkReader` -/

/-- `EagerChunkReader`: the whole content, read ahead. -/
structure EagerChunkReader where
  buffer : List UInt8

namespace EagerChunkReader

/-- `EagerChunkReader::read_chunk`: the `chunk_index`-th block of the buffer, copied to the
front of `buf`, or nothing past the end. -/
def readChunk (r : EagerChunkReader) (chunkIndex : Nat) (buf : ChunkBuffer) :
    Outcome IoError (ChunkBuffer × Nat) :=
  match (chunks chunkSize r.buffer)[chunkIndex]? with
  | some c => ok (buf.setPrefix c, c.length)
  | none => ok (buf, 0)

/-- Every request is answered with the block, cut short or empty at the end. -/
theorem readChunk_eq (r : EagerChunkReader) (chunkIndex : Nat) (buf : ChunkBuffer) :
    r.readChunk chunkIndex buf =
      ok (buf.setPrefix (chunk chunkSize r.buffer chunkIndex),
        (chunk chunkSize r.buffer chunkIndex).length) := by
  unfold readChunk
  by_cases hi : chunkIndex < (chunks chunkSize r.buffer).length
  · rw [List.getElem?_eq_getElem hi, getElem_chunks]
  · have hlen : r.buffer.length ≤ chunkSize * chunkIndex := by
      rw [length_chunks, lt_ceilDiv_iff (by decide)] at hi
      omega
    have hnil : chunk chunkSize r.buffer chunkIndex = [] := by
      rw [chunk, List.drop_of_length_le hlen, List.take_nil]
    rw [List.getElem?_eq_none (Nat.le_of_not_lt hi), hnil]
    rfl

theorem size_le (r : EagerChunkReader) (i : Nat) (buf buf' : ChunkBuffer) (n : Nat)
    (h : r.readChunk i buf = ok (buf', n)) : n ≤ chunkSize := by
  rw [readChunk_eq, ok.injEq, Prod.mk.injEq] at h
  rw [← h.2, length_chunk]
  exact Nat.min_le_left _ _

def toReadByChunk (r : EagerChunkReader) : ReadByChunk := ⟨r.readChunk, r.size_le⟩

@[simp] theorem readChunk_toReadByChunk (r : EagerChunkReader) (i : Nat) (buf : ChunkBuffer) :
    r.toReadByChunk.readChunk i buf = r.readChunk i buf := rfl

theorem returns (r : EagerChunkReader) : r.toReadByChunk.Returns := by
  intro i buf
  show (r.readChunk i buf).Returns
  rw [readChunk_eq]
  trivial

theorem writesPrefix (r : EagerChunkReader) : r.toReadByChunk.WritesPrefix := by
  intro i buf buf' n h
  change r.readChunk i buf = ok (buf', n) at h
  rw [readChunk_eq, ok.injEq, Prod.mk.injEq] at h
  obtain ⟨rfl, rfl⟩ := h
  exact drop_setPrefix buf (by rw [length_chunk]; exact Nat.min_le_left _ _)

/-- One turn of the loop of `EagerChunkReader::new`: the chunk read into the chunk buffer, and the
bytes the source reports appended to the buffer. -/
def appendChunk (chunkedFile : ReadByChunk) :
    List UInt8 × ChunkBuffer → Nat → Outcome IoError (List UInt8 × ChunkBuffer)
  | (buffer, chunkBuffer), index => do
    let (chunkBuffer, size) ← chunkedFile.readChunk index chunkBuffer
    pure (buffer ++ chunkBuffer.toList.take size, chunkBuffer)

/-- `EagerChunkReader::new`: the chunks `0 .. ⌈file_size / CHUNK_SIZE⌉` of the source appended,
and the total checked against the file's size. -/
def new (chunkedFile : ReadByChunk) (fileSize : Nat) : Outcome IoError EagerChunkReader := do
  let lastIndex ← divideRoundup fileSize chunkSize
  -- `Vec::with_capacity(file_size)` panics past `isize::MAX` bytes
  if isizeMax < fileSize then panic
  let (buffer, _) ← (List.range lastIndex).foldlM (appendChunk chunkedFile)
    ([], FixedBytes.zero 4096)
  -- "Insufficient data size"
  if buffer.length < fileSize then err (.other "InvalidData")
  else pure ⟨buffer⟩

/-- A source of zeros whose first chunk is a byte short and whose other chunks are full. -/
def shortFirst : ReadByChunk where
  readChunk i buf :=
    ok (buf.setPrefix (List.replicate (if i = 0 then 4095 else 4096) 0), if i = 0 then 4095 else 4096)
  size_le i buf buf' n h := by
    cases h
    split_ifs <;> decide

theorem readChunk_shortFirst (i : Nat) (buf : ChunkBuffer) :
    shortFirst.readChunk i buf =
      ok (buf.setPrefix (List.replicate (if i = 0 then 4095 else 4096) 0),
        if i = 0 then 4095 else 4096) := rfl

/-- Zeros copied into the zero buffer leave it as it is. -/
theorem zero_setPrefix_replicate {s : Nat} (hs : s ≤ 4096) :
    (FixedBytes.zero 4096).setPrefix (List.replicate s 0) = FixedBytes.zero 4096 := by
  apply FixedBytes.toList_injective
  rw [FixedBytes.toList_zero_setPrefix (by rw [List.length_replicate]; exact hs),
    FixedBytes.toList_zero, List.rightpad, List.length_replicate, List.replicate_append_replicate,
    Nat.add_sub_cancel' hs]

/-- A turn of the loop over `shortFirst` appends the zeros of the chunk and leaves the chunk
buffer zero. -/
theorem appendChunk_shortFirst (buffer : List UInt8) (i : Nat) :
    appendChunk shortFirst (buffer, FixedBytes.zero 4096) i =
      ok (buffer ++ List.replicate (if i = 0 then 4095 else 4096) 0, FixedBytes.zero 4096) := by
  have hs : (if i = 0 then 4095 else 4096) ≤ 4096 := by split_ifs <;> decide
  simp only [appendChunk, readChunk_shortFirst, ok_bind, pure_eq, zero_setPrefix_replicate hs,
    FixedBytes.toList_zero, List.take_replicate, Nat.min_eq_left hs]

/-- Loading `k + 1` chunks of `shortFirst` gives `4096 * (k + 1) - 1` zeros. -/
theorem foldlM_appendChunk_shortFirst (k : Nat) :
    (List.range (k + 1)).foldlM (appendChunk shortFirst) ([], FixedBytes.zero 4096) =
      ok (List.replicate (4096 * (k + 1) - 1) 0, FixedBytes.zero 4096) := by
  induction k with
  | zero =>
    rw [List.range_one, List.foldlM_cons, appendChunk_shortFirst, if_pos rfl, ok_bind,
      List.foldlM_nil, pure_eq, List.nil_append]
  | succ k ih =>
    have hlen : 4096 * (k + 1) - 1 + 4096 = 4096 * (k + 1 + 1) - 1 := by omega
    rw [List.range_succ, List.foldlM_append, ih, ok_bind, List.foldlM_cons, appendChunk_shortFirst,
      if_neg (Nat.succ_ne_zero k), ok_bind, List.foldlM_nil, pure_eq,
      List.replicate_append_replicate, hlen]

/-- For every file size past a block that does not end on a block boundary, the source whose
first chunk is short passes the check of `new`, and the reader it gives serves a first chunk of
4096 bytes where the source returned 4095: every chunk after it is shifted by a byte. -/
theorem new_shortFirst (n : Nat) (hbig : 4096 < n) (hpart : n % 4096 ≠ 0) (hmax : n ≤ isizeMax) :
    (∀ buf, Prod.snd <$> shortFirst.readChunk 0 buf = ok 4095) ∧
      ∃ e, new shortFirst n = ok e ∧ ∀ buf, Prod.snd <$> e.readChunk 0 buf = ok 4096 := by
  refine ⟨fun buf ↦ by rw [readChunk_shortFirst, map_eq, ok_bind, if_pos rfl], ?_⟩
  have hlast : n ⌈/⌉ chunkSize = (n + 4095) / 4096 - 1 + 1 := by
    rw [Nat.ceilDiv_eq_add_pred_div]
    show (n + 4095) / 4096 = _
    omega
  have henough : ¬(List.replicate (4096 * ((n + 4095) / 4096 - 1 + 1) - 1) (0 : UInt8)).length < n := by
    rw [List.length_replicate]
    omega
  have hfit : n + chunkSize < 2 ^ 64 := by
    rw [isizeMax] at hmax
    show n + 4096 < 2 ^ 64
    omega
  rw [new, divideRoundup_eq (by decide) hfit, ok_bind, if_neg (Nat.not_lt.mpr hmax), hlast,
    foldlM_appendChunk_shortFirst, ok_bind]
  dsimp only
  rw [if_neg henough, pure_eq]
  refine ⟨_, rfl, fun buf ↦ ?_⟩
  have hfull : chunkSize ≤ 4096 * ((n + 4095) / 4096 - 1 + 1) - 1 - chunkSize * 0 := by
    show 4096 ≤ _
    omega
  rw [readChunk_eq, map_eq, ok_bind, length_chunk, List.length_replicate, Nat.min_eq_left hfull]
  rfl

/-- A file of 5000 bytes, whose Merkle tree would fill a chunk and a part. -/
theorem new_shortFirst_5000 :
    4096 < 5000 ∧ 5000 % 4096 ≠ 0 ∧ 5000 ≤ isizeMax ∧
      (∀ buf, Prod.snd <$> shortFirst.readChunk 0 buf = ok 4095) ∧
      ∃ e, new shortFirst 5000 = ok e ∧ ∀ buf, Prod.snd <$> e.readChunk 0 buf = ok 4096 := by
  have hmax : 5000 ≤ isizeMax := by
    rw [isizeMax]
    omega
  exact ⟨by decide, by decide, hmax, new_shortFirst 5000 (by decide) (by decide) hmax⟩

end EagerChunkReader

/-! ## `RandomWrite::write_all_at` -/

/-- A `RandomWrite` implementation with state `S`: `write_at(buf, offset)` reports a size, which
nothing checks against the buffer, or fails. -/
structure RandomWrite (S : Type) where
  writeAt : S → List UInt8 → Nat → Except IoError (Nat × S)

namespace RandomWrite

variable {S : Type} (w : RandomWrite S) (buf : List UInt8)

/-- One turn of the `while` loop of `write_all_at`: what is left of the buffer written, and both
offsets moved by the size reported, with `+=` on `usize` and `u64`. -/
def writeAllAtStep : S × Nat × Nat → Outcome IoError (S × Nat × Nat)
  | (s, inputOffset, outputOffset) => do
    let (size, s) ← ofExcept (w.writeAt s (buf.drop inputOffset) outputOffset)
    let inputOffset ← checkedAdd 64 inputOffset size
    let outputOffset ← checkedAdd 64 outputOffset size
    pure (s, inputOffset, outputOffset)

/-- The `while` loop of `write_all_at` for at most `fuel` turns: the state and the offsets it
leaves the loop with, or `none` while it is still in the loop. -/
def writeAllAtLoop : Nat → S × Nat × Nat → Option (Outcome IoError (S × Nat × Nat))
  | 0, _ => none
  | fuel + 1, st =>
    if st.2.1 < buf.length then
      match w.writeAllAtStep buf st with
      | .ok st => writeAllAtLoop fuel st
      | .err e => some (err e)
      | .panic => some panic
    else some (ok st)

/-- `RandomWrite::write_all_at`, run for at most `fuel` turns of its loop. -/
def writeAllAt (offset fuel : Nat) (s : S) : Option (Outcome IoError S) :=
  (w.writeAllAtLoop buf fuel (s, 0, offset)).map fun r ↦ Prod.fst <$> r

/-- A turn after a report of `size` bytes. -/
theorem writeAllAtStep_of_writeAt {s s' : S} {inputOffset outputOffset size : Nat}
    (hwrite : w.writeAt s (buf.drop inputOffset) outputOffset = .ok (size, s'))
    (hin : inputOffset + size < 2 ^ 64) (hout : outputOffset + size < 2 ^ 64) :
    w.writeAllAtStep buf (s, inputOffset, outputOffset) =
      ok (s', inputOffset + size, outputOffset + size) := by
  rw [writeAllAtStep, hwrite, ofExcept_ok, ok_bind]
  dsimp only
  rw [checkedAdd_of_lt hin, ok_bind, checkedAdd_of_lt hout, ok_bind, pure_eq]

/-- A report of `0` bytes from a state it leaves as it was is a turn that changes nothing, and the
loop never leaves it. -/
theorem writeAllAtLoop_of_zero {s : S} {inputOffset outputOffset : Nat}
    (hlt : inputOffset < buf.length) (hbuf : buf.length < 2 ^ 64) (hout : outputOffset < 2 ^ 64)
    (hzero : w.writeAt s (buf.drop inputOffset) outputOffset = .ok (0, s)) :
    ∀ fuel, w.writeAllAtLoop buf fuel (s, inputOffset, outputOffset) = none := by
  have hstep : w.writeAllAtStep buf (s, inputOffset, outputOffset) = ok (s, inputOffset, outputOffset) :=
    w.writeAllAtStep_of_writeAt buf hzero (by omega) (by omega)
  intro fuel
  induction fuel with
  | zero => rfl
  | succ fuel ih =>
    rw [writeAllAtLoop, if_pos hlt, hstep]
    exact ih

/-- When `write_at` reports writing nothing and leaves its state as it was, `write_all_at` never
returns, however many turns it is given. -/
theorem writeAllAt_of_zero {s : S} {offset : Nat} (hne : buf ≠ []) (hbuf : buf.length < 2 ^ 64)
    (hoff : offset < 2 ^ 64) (hzero : w.writeAt s buf offset = .ok (0, s)) :
    ∀ fuel, w.writeAllAt buf offset fuel s = none := by
  intro fuel
  have hlt : 0 < buf.length := List.length_pos_of_ne_nil hne
  rw [writeAllAt, w.writeAllAtLoop_of_zero buf hlt hbuf hoff (by rw [List.drop_zero]; exact hzero)]
  rfl

/-- A first report of more than a buffer that is not empty leaves the loop at once, with an input
offset past the end of the buffer: the sizes reported do not add up to its length. -/
theorem writeAllAtLoop_of_over {s s' : S} {offset size : Nat} (hne : buf ≠ [])
    (hover : buf.length < size) (hfit : offset + size < 2 ^ 64)
    (hwrite : w.writeAt s buf offset = .ok (size, s')) (fuel : Nat) :
    w.writeAllAtLoop buf (fuel + 2) (s, 0, offset) = some (ok (s', size, offset + size)) := by
  have hlt : (s, 0, offset).2.1 < buf.length := List.length_pos_of_ne_nil hne
  have hpast : ¬(s', size, offset + size).2.1 < buf.length := Nat.not_lt.mpr (Nat.le_of_lt hover)
  have hstep : w.writeAllAtStep buf (s, 0, offset) = ok (s', 0 + size, offset + size) :=
    w.writeAllAtStep_of_writeAt buf (by rw [List.drop_zero]; exact hwrite) (by omega) hfit
  rw [writeAllAtLoop, if_pos hlt, hstep, Nat.zero_add]
  dsimp only
  rw [writeAllAtLoop, if_neg hpast]

/-- Under the contract of `write_at`, where every report on a buffer that is not empty is at least
a byte and at most the buffer, each turn lowers what is left, so the loop returns within one turn
more than is left, without a panic, and only once the sizes reported add up to the buffer. -/
theorem writeAllAtLoop_of_progress
    (hprog : ∀ s data off size s', data ≠ [] → w.writeAt s data off = .ok (size, s') →
      0 < size ∧ size ≤ data.length)
    (hbuf : buf.length < 2 ^ 64) (fuel : Nat) :
    ∀ (s : S) (inputOffset outputOffset : Nat), inputOffset ≤ buf.length →
      outputOffset + (buf.length - inputOffset) < 2 ^ 64 → buf.length - inputOffset < fuel →
      ∃ r, w.writeAllAtLoop buf fuel (s, inputOffset, outputOffset) = some r ∧
        r.Ensures fun st ↦ st.2.1 = buf.length := by
  induction fuel with
  | zero =>
    intro s inputOffset outputOffset _ _ hfuel
    exact absurd hfuel (Nat.not_lt_zero _)
  | succ fuel ih =>
    intro s inputOffset outputOffset hle hfit hfuel
    rw [writeAllAtLoop]
    by_cases hlt : inputOffset < buf.length
    · rw [if_pos hlt]
      cases hwrite : w.writeAt s (buf.drop inputOffset) outputOffset with
      | error e =>
        refine ⟨err e, ?_, trivial⟩
        rw [writeAllAtStep, hwrite, ofExcept_error, err_bind]
      | ok res =>
        obtain ⟨size, s'⟩ := res
        have hne : buf.drop inputOffset ≠ [] := by
          rw [← List.length_pos_iff_ne_nil, List.length_drop]
          omega
        obtain ⟨hpos, hsize⟩ := hprog _ _ _ _ _ hne hwrite
        rw [List.length_drop] at hsize
        rw [w.writeAllAtStep_of_writeAt buf hwrite (by omega) (by omega)]
        exact ih s' (inputOffset + size) (outputOffset + size) (by omega) (by omega) (by omega)
    · rw [if_neg hlt]
      exact ⟨_, rfl, by dsimp only [Outcome.Ensures]; omega⟩

/-- `write_all_at` against what `write_at` reports: a report of nothing from a state it leaves as
it was keeps it in the loop for ever; a first report of more than the buffer leaves the loop at
once with offsets past the buffer; and under the contract of `write_at` it returns within one turn
more than the buffer's length, only once the reports add up to it. -/
theorem writeAllAt_of_reports (hbuf : buf.length < 2 ^ 64) :
    (∀ s offset, buf ≠ [] → offset < 2 ^ 64 → w.writeAt s buf offset = .ok (0, s) →
      ∀ fuel, w.writeAllAt buf offset fuel s = none) ∧
    (∀ s s' offset size, buf ≠ [] → buf.length < size → offset + size < 2 ^ 64 →
      w.writeAt s buf offset = .ok (size, s') →
      ∀ fuel, w.writeAllAtLoop buf (fuel + 2) (s, 0, offset) = some (ok (s', size, offset + size))) ∧
    ((∀ s data off size s', data ≠ [] → w.writeAt s data off = .ok (size, s') →
        0 < size ∧ size ≤ data.length) →
      ∀ s offset fuel, offset + buf.length < 2 ^ 64 → buf.length < fuel →
        ∃ r, w.writeAllAtLoop buf fuel (s, 0, offset) = some r ∧
          r.Ensures fun st ↦ st.2.1 = buf.length) := by
  refine ⟨fun s offset hne hoff hzero ↦ w.writeAllAt_of_zero buf hne hbuf hoff hzero,
    fun s s' offset size hne hover hfit hwrite ↦ w.writeAllAtLoop_of_over buf hne hover hfit hwrite,
    fun hprog s offset fuel hfit hfuel ↦ ?_⟩
  exact w.writeAllAtLoop_of_progress buf hprog hbuf fuel s 0 offset (Nat.zero_le _)
    (by rw [Nat.sub_zero]; exact hfit) (by rw [Nat.sub_zero]; exact hfuel)

/-- A writer that reports writing nothing, on a buffer of one byte. -/
theorem writeAllAt_of_zero_one :
    ([0] : List UInt8) ≠ [] ∧ ([0] : List UInt8).length < 2 ^ 64 ∧ 0 < 2 ^ 64 ∧
      (⟨fun s _ _ ↦ .ok (0, s)⟩ : RandomWrite Unit).writeAt () [0] 0 = .ok (0, ()) ∧
      ∀ fuel, (⟨fun s _ _ ↦ .ok (0, s)⟩ : RandomWrite Unit).writeAllAt [0] 0 fuel () = none :=
  ⟨List.cons_ne_nil _ _, by decide, by decide, rfl,
    (writeAllAt_of_reports _ [0] (by decide)).1 () 0 (List.cons_ne_nil _ _) (by decide) rfl⟩

end RandomWrite

end Virtualization.AuthFs
