import Virtualization.ZipFuse.Inode
import Virtualization.Lib.BlockDevice

/-!
# `zipfuse`: the FUSE filesystem over a zip archive

`ZipFuse` serves the inode table of `zipfuse::inode` over FUSE.  `open` keeps what `read` needs
of a file: a compressed entry is decompressed into a buffer once, and a stored entry is read from
the archive itself, at the entry's data offset.  `opendir` takes a snapshot of a directory's
entries, and `readdir` hands the kernel the snapshot's entries from its offset on, as many as its
estimate says fit the kernel's buffer; the `offset` of each entry is the index the next call
resumes from.

Both storage paths of `read` serve the entry's bytes from the offset on (`read_eq_bytesAt`),
and paging through a snapshot lists it once, in order (`listing_eq`), whenever each reply holds
at least one of the entries `readdir` returned and each call starts at the offset of the last
entry of the reply before; the FUSE server stops filling a reply at the first entry that does not
fit, so the estimate may take more entries than the reply holds.  Neither checks the
offset the kernel gives against the entry or the snapshot.  Past the end of a compressed entry
`buf[start..end]` has `start > end`, past the end of a stored one `size() - offset` underflows,
and past the end of a snapshot `buf[start..end]` starts beyond it: all three panic
(`read_past_end_panics`, `readdir_past_end_panics`).

A write to the kernel's buffer is modelled by the bytes `read` offers it: `w.write(slice)` the
slice, and `w.write_from(raw_file, size, start)` the bytes of the archive from `start`, `size` of
them or fewer at its end.  A name has no NUL byte (`zipfuse::inode`), so `CString::new` does not
fail.
-/

set_option linter.dupNamespace false

namespace Virtualization.ZipFuse

open Outcome

/-! ## The archive and the filesystem's state -/

/-- What `open` and `read` take of a `ZipFile` of the archive. -/
structure ZipFileData where
  /-- `compression() == CompressionMethod::Stored`. -/
  stored : Bool
  /-- `data_start()`: the offset of the entry's data in the archive. -/
  dataStart : Nat
  /-- `size()`: the entry's uncompressed size. -/
  size : Nat
  /-- `read_to_end`: the entry's content, decompressed, or the error reading it fails with. -/
  readToEnd : Except IoError (List UInt8)

/-- `ZipArchive::by_index`: an index past the last entry is `ZipError::FileNotFound`, which `?`
turns into an `io::Error` of kind `Other`. -/
def byIndex (archive : List ZipFileData) (index : Nat) : Outcome IoError ZipFileData :=
  okOr archive[index]? (.other "Other")

/-- `Handle`. -/
abbrev Handle := Nat

/-- `OpenFileContent`: the whole content of a compressed entry, or the index of a stored one. -/
inductive OpenFileContent where
  | compressed (buf : List UInt8)
  | uncompressed (zipIndex : Nat)

/-- `OpenFile`. -/
structure OpenFile where
  openCount : Nat
  content : OpenFileContent

/-- `OpenDirBuf`: the snapshot of a directory's entries `opendir` took. -/
structure OpenDirBuf where
  openCount : Nat
  buf : List (String × DirectoryEntry)

/-- `ZipFuse`: the archive's entries, the bytes of the archive as `raw_file` reads them, the
inode table, and the open files and directories by handle. -/
structure ZipFuse where
  zipArchive : List ZipFileData
  rawFile : List UInt8
  inodeTable : InodeTable
  openFiles : AList fun _ : Handle ↦ OpenFile
  openDirs : AList fun _ : Handle ↦ OpenDirBuf

/-- `ebadf()`. -/
def ebadf : IoError := .os EBADF

/-- `libc::DT_DIR`. -/
def DT_DIR : Nat := 4

/-- `libc::DT_REG`. -/
def DT_REG : Nat := 8

/-- `fuse::filesystem::DirEntry`. -/
structure DirEntry where
  ino : Nat
  offset : Nat
  type_ : Nat
  name : String
deriving DecidableEq, Repr

/-- The `type_` of a `DirEntry` of the given kind. -/
def direntType : InodeKind → Nat
  | .directory => DT_DIR
  | .file => DT_REG

/-- `DirIter`: the entries `readdir` copied, the offset it began at and the index of the next
entry. -/
structure DirIter where
  inner : List (String × DirectoryEntry)
  offset : Nat
  cur : Nat

/-- `size_of::<fuse::sys::Dirent>()`: `ino: u64, off: u64, namelen: u32, type_: u32`. -/
def direntSize : Nat := 24

namespace ZipFuse

/-- `ZipFuse::find_inode`. -/
def findInode (z : ZipFuse) (inode : Inode) : Outcome IoError InodeData :=
  okOr (z.inodeTable.get inode) ebadf

/-! ## Files -/

/-- `ZipFuse::open`: a file already open is counted once more; otherwise a stored entry is kept
by its index, and a compressed one is decompressed into a buffer of the inode's size. -/
def «open» (z : ZipFuse) (inode : Inode) : Outcome IoError (Handle × ZipFuse) := do
  let handle : Handle := inode
  match z.openFiles.lookup handle with
  | some file =>
    if file.openCount = 0 then err ebadf
    else
      let openCount ← checkedAdd 32 file.openCount 1
      pure (handle, { z with openFiles := z.openFiles.insert handle { file with openCount } })
  | none =>
    let inodeData ← z.findInode inode
    let zipIndex ← okOr inodeData.getZipIndex ebadf
    let zipFile ← byIndex z.zipArchive zipIndex
    let content ←
      if zipFile.stored then pure (OpenFileContent.uncompressed zipIndex)
      -- `Vec::with_capacity(inode_data.size as usize)` panics past `isize::MAX`
      else if isizeMax < inodeData.size then panic
      else do
        let buf ← ofExcept zipFile.readToEnd
        pure (OpenFileContent.compressed buf)
    pure (handle, { z with openFiles := z.openFiles.insert handle ⟨1, content⟩ })

/-- `ZipFuse::release`: the file is forgotten when its count less one is zero.  The count less one
is only compared, never stored. -/
def release (z : ZipFuse) (inode : Inode) : Outcome IoError ZipFuse :=
  let handle : Handle := inode
  match z.openFiles.lookup handle with
  | some file =>
    if file.openCount = 0 then err ebadf
    else if file.openCount - 1 = 0 then ok { z with openFiles := z.openFiles.erase handle }
    else ok z
  | none => err ebadf

/-- `ZipFuse::read`: `size` bytes from `offset`, from the archive for a stored entry and from the
buffer for a compressed one. -/
def read (z : ZipFuse) (handle : Handle) (size offset : Nat) : Outcome IoError (List UInt8) := do
  let file ← okOr (z.openFiles.lookup handle) ebadf
  if file.openCount = 0 then err ebadf
  else
    match file.content with
    | .uncompressed zipIndex => do
      let zipFile ← byIndex z.zipArchive zipIndex
      let start ← checkedAdd 64 zipFile.dataStart offset
      let remainingSize ← checkedSub zipFile.size offset
      let size := min remainingSize size
      pure (bytesAt z.rawFile start size)
    | .compressed buf => do
      let start := offset
      let end_ ← checkedAdd 64 start size
      let end_ := min end_ buf.length
      slice buf start end_

/-! ## Directories -/

/-- `ZipFuse::opendir`: a directory already open is counted once more; otherwise its entries are
copied, in the directory's order, into the snapshot. -/
def opendir (z : ZipFuse) (inode : Inode) : Outcome IoError (Handle × ZipFuse) := do
  let handle : Handle := inode
  match z.openDirs.lookup handle with
  | some odb =>
    if odb.openCount = 0 then err ebadf
    else
      let openCount ← checkedAdd 32 odb.openCount 1
      pure (handle, { z with openDirs := z.openDirs.insert handle { odb with openCount } })
  | none =>
    let inodeData ← z.findInode inode
    let directory ← okOr inodeData.getDirectory ebadf
    let buf := directory.entries.map fun entry ↦ (entry.1, entry.2)
    pure (handle, { z with openDirs := z.openDirs.insert handle ⟨1, buf⟩ })

/-- `ZipFuse::releasedir`, as `release`. -/
def releasedir (z : ZipFuse) (inode : Inode) : Outcome IoError ZipFuse :=
  let handle : Handle := inode
  match z.openDirs.lookup handle with
  | some odb =>
    if odb.openCount = 0 then err ebadf
    else if odb.openCount - 1 = 0 then ok { z with openDirs := z.openDirs.erase handle }
    else ok z
  | none => err ebadf

end ZipFuse

/-- The `while` loop of `readdir`: from `end_` on, entries are taken while the estimate of the
bytes taken stays below `size`, each counted as a `Dirent` and its name, rounded up to 8 bytes
by `& !7`. -/
def estimateEnd (buf : List (String × DirectoryEntry)) (size estimate end_ : Nat) : Nat :=
  if h : estimate < size ∧ end_ < buf.length then
    let nameSize := (buf.get ⟨end_, h.2⟩).1.utf8ByteSize
    estimateEnd buf size (estimate + (direntSize + nameSize + 7) / 8 * 8) (end_ + 1)
  else end_
termination_by buf.length - end_

/-- `ZipFuse::readdir`: a copy of the snapshot's entries from `offset` to where the estimate
ends. -/
def ZipFuse.readdir (z : ZipFuse) (inode : Inode) (size offset : Nat) :
    Outcome IoError DirIter := do
  let handle : Handle := inode
  let odb ← okOr (z.openDirs.lookup handle) ebadf
  if odb.openCount = 0 then err ebadf
  else
    let buf := odb.buf
    let start := offset
    let end_ := estimateEnd buf size 0 start
    let newBuf ← slice buf start end_
    pure ⟨newBuf, offset, 0⟩

/-- `DirIter::next`: the entry at `cur`, numbered one past its index from the iterator's
`offset`. -/
def DirIter.next (it : DirIter) : Option (DirEntry × DirIter) :=
  if h : it.cur < it.inner.length then
    let entry := it.inner.get ⟨it.cur, h⟩
    let cur := it.cur + 1
    some (⟨entry.2.inode, it.offset + cur, direntType entry.2.kind, entry.1⟩, { it with cur })
  else none

theorem DirIter.next_eq_some {it it' : DirIter} {e : DirEntry} (h : it.next = some (e, it')) :
    it.cur < it.inner.length ∧ it'.inner = it.inner ∧ it'.cur = it.cur + 1 := by
  unfold DirIter.next at h
  split_ifs at h with hcur
  cases h
  exact ⟨hcur, rfl, rfl⟩

/-- The entries a `DirIter` yields, `next` called until it returns `None`. -/
def DirIter.entries (it : DirIter) : List DirEntry :=
  match _hnext : it.next with
  | none => []
  | some (e, it') => e :: it'.entries
termination_by it.inner.length - it.cur
decreasing_by
  obtain ⟨hcur, hinner, hcur'⟩ := DirIter.next_eq_some ‹_›
  rw [hinner, hcur']
  omega

/-- A `readdir` session as the kernel and the FUSE server run one, which is no part of
`zipfuse`.  Each of the `calls` is a buffer size and the number of entries the reply has room for:
the server copies entries from the `DirIter` into the reply until one does not fit, so the reply
is that many of the entries `readdir` returned, or all of them, and the estimate may have taken
more.  The first call is at `offset`, each later one at the `offset` of the last entry of the
reply before, until a reply is empty. -/
def ZipFuse.listing (z : ZipFuse) (inode : Inode) :
    List (Nat × Nat) → Nat → Outcome IoError (List DirEntry)
  | [], _ => ok []
  | (size, room) :: calls, offset => do
    let it ← z.readdir inode size offset
    let reply := it.entries.take room
    match reply.getLast? with
    | none => ok []
    | some last => do
      let rest ← z.listing inode calls last.offset
      pure (reply ++ rest)

/-- The entries of a snapshot as `readdir` numbers them: the `i`-th one has offset `i + 1`. -/
def snapshotEntries (buf : List (String × DirectoryEntry)) : List DirEntry :=
  buf.mapIdx fun i entry ↦ ⟨entry.2.inode, i + 1, direntType entry.2.kind, entry.1⟩

/-! ## `read` serves the entry's content, and panics past its end -/

/-- The open file `file` holds the content `C`: a compressed entry's buffer is `C`, and a stored
entry's data lies in the archive and is `C`. -/
def OpenFile.Holds (z : ZipFuse) (file : OpenFile) (C : List UInt8) : Prop :=
  match file.content with
  | .compressed buf => buf = C
  | .uncompressed zipIndex => ∃ zipFile, z.zipArchive[zipIndex]? = some zipFile ∧
      zipFile.dataStart + zipFile.size ≤ z.rawFile.length ∧
      bytesAt z.rawFile zipFile.dataStart zipFile.size = C

/-- The slice `buf[start..min(start + size, len)]` is the read of `size` bytes at `start`. -/
theorem take_min_length_sub {α : Type} (l : List α) (b n : Nat) :
    (l.drop b).take (min (b + n) l.length - b) = bytesAt l b n := by
  rw [bytesAt, List.take_eq_take_iff, List.length_drop]
  omega

/-- Reading a stored entry's data from its offset on reads its content from that offset on. -/
theorem bytesAt_stored {raw C : List UInt8} {dataStart offset size : Nat}
    (hC : bytesAt raw dataStart C.length = C) :
    bytesAt raw (dataStart + offset) (min (C.length - offset) size) = bytesAt C offset size := by
  calc bytesAt raw (dataStart + offset) (min (C.length - offset) size)
      = ((bytesAt raw dataStart C.length).drop offset).take size := by
        rw [drop_bytesAt, take_bytesAt, Nat.min_comm]
    _ = bytesAt C offset size := by rw [hC, bytesAt]

namespace ZipFuse

/-! ## What `open` and `opendir` leave -/

section Opened

variable {z z' : ZipFuse} {inode handle : Inode}

end Opened

section Read

variable {z : ZipFuse} {handle : Handle} {file : OpenFile} {size offset : Nat}

/-- `read` of an open compressed file slices its buffer. -/
theorem read_compressed (hfile : z.openFiles.lookup handle = some file)
    (hopen : file.openCount ≠ 0) {buf : List UInt8} (hbuf : file.content = .compressed buf) :
    z.read handle size offset =
      checkedAdd 64 offset size >>= fun end_ ↦ slice buf offset (min end_ buf.length) := by
  rw [read, hfile, okOr_some, ok_bind, if_neg hopen, hbuf]

/-- `read` of an open stored file reads the archive from the entry's data offset. -/
theorem read_stored (hfile : z.openFiles.lookup handle = some file)
    (hopen : file.openCount ≠ 0) {zipIndex : Nat} (hindex : file.content = .uncompressed zipIndex)
    {zipFile : ZipFileData} (hzip : z.zipArchive[zipIndex]? = some zipFile) :
    z.read handle size offset =
      checkedAdd 64 zipFile.dataStart offset >>= fun start ↦
        checkedSub zipFile.size offset >>= fun remainingSize ↦
          pure (bytesAt z.rawFile start (min remainingSize size)) := by
  rw [read, hfile, okOr_some, ok_bind, if_neg hopen, hindex]
  dsimp only
  rw [byIndex, hzip, okOr_some, ok_bind]

/-- Up to the end of the content, both storage paths serve the bytes of the content from the
offset on, as many as asked for and as the content has. -/
theorem read_eq_bytesAt (hfile : z.openFiles.lookup handle = some file)
    (hopen : file.openCount ≠ 0) {C : List UInt8} (hholds : file.Holds z C)
    (hoffset : offset ≤ C.length) (hC : C.length + size < 2 ^ 64)
    (hraw : z.rawFile.length < 2 ^ 64) :
    z.read handle size offset = ok (bytesAt C offset size) := by
  unfold OpenFile.Holds at hholds
  split at hholds
  case h_1 buf hbuf =>
    subst hholds
    rw [read_compressed hfile hopen hbuf, checkedAdd_of_lt (by omega), ok_bind,
      slice_of_le (by omega) (Nat.min_le_right _ _), take_min_length_sub]
  case h_2 zipIndex hindex =>
    obtain ⟨zipFile, hzip, hinside, hdata⟩ := hholds
    have hlen : C.length = zipFile.size := by rw [← hdata, length_bytesAt_of_le hinside]
    rw [read_stored hfile hopen hindex hzip, checkedAdd_of_lt (by omega), ok_bind,
      checkedSub_of_le (by omega), ok_bind, pure_eq, ← hlen,
      bytesAt_stored (by rw [hlen]; exact hdata)]

/-- Past the end of the content, both storage paths panic: a compressed file's slice starts past
where it ends, and a stored file's remaining size underflows. -/
theorem read_past_end_panics (hfile : z.openFiles.lookup handle = some file)
    (hopen : file.openCount ≠ 0) {C : List UInt8} (hholds : file.Holds z C)
    (hpast : C.length < offset) : z.read handle size offset = panic := by
  unfold OpenFile.Holds at hholds
  split at hholds
  case h_1 buf hbuf =>
    subst hholds
    rw [read_compressed hfile hopen hbuf]
    by_cases hend : offset + size < 2 ^ 64
    · rw [checkedAdd_of_lt hend, ok_bind, slice_of_lt (by omega)]
    · rw [checkedAdd_of_le (by omega), panic_bind]
  case h_2 zipIndex hindex =>
    obtain ⟨zipFile, hzip, hinside, hdata⟩ := hholds
    have hlen : C.length = zipFile.size := by rw [← hdata, length_bytesAt_of_le hinside]
    rw [read_stored hfile hopen hindex hzip]
    by_cases hstart : zipFile.dataStart + offset < 2 ^ 64
    · rw [checkedAdd_of_lt hstart, ok_bind, checkedSub, if_neg (by omega), panic_bind]
    · rw [checkedAdd_of_le (by omega), panic_bind]

/-- A compressed file of one byte, open as handle 2: a read at offset 2 panics. -/
theorem read_past_end_compressed :
    let file : OpenFile := ⟨1, .compressed [0x61]⟩
    let z : ZipFuse :=
      ⟨[⟨false, 0, 1, .ok [0x61]⟩], [], ⟨[]⟩, (∅ : AList fun _ : Handle ↦ OpenFile).insert 2 file, ∅⟩
    z.openFiles.lookup 2 = some file ∧ file.openCount ≠ 0 ∧ file.Holds z [0x61] ∧
      ([0x61] : List UInt8).length < 2 ∧ z.read 2 4096 2 = panic := by
  intro file z
  have hfile : z.openFiles.lookup 2 = some file := rfl
  have hopen : file.openCount ≠ 0 := by decide
  have hholds : file.Holds z [0x61] := rfl
  have hpast : ([0x61] : List UInt8).length < 2 := by decide
  exact ⟨hfile, hopen, hholds, hpast, read_past_end_panics hfile hopen hholds hpast⟩

end Read

end ZipFuse

/-! ## `readdir` pages through the snapshot, and panics past its end -/

section Estimate

variable {buf : List (String × DirectoryEntry)} {size : Nat}

/-- The estimate never ends before it starts. -/
theorem le_estimateEnd (estimate end_ : Nat) : end_ ≤ estimateEnd buf size estimate end_ := by
  induction estimate, end_ using estimateEnd.induct buf size with
  | case1 estimate end_ h _ ih =>
    rw [estimateEnd, dif_pos h]
    exact Nat.le_of_succ_le ih
  | case2 estimate end_ h => rw [estimateEnd, dif_neg h]

/-- The estimate ends inside the snapshot. -/
theorem estimateEnd_le (estimate end_ : Nat) (hend : end_ ≤ buf.length) :
    estimateEnd buf size estimate end_ ≤ buf.length := by
  induction estimate, end_ using estimateEnd.induct buf size with
  | case1 estimate end_ h _ ih =>
    rw [estimateEnd, dif_pos h]
    exact ih h.2
  | case2 estimate end_ h => rw [estimateEnd, dif_neg h]; exact hend

/-- With room in the buffer and an entry left, the estimate takes at least that entry. -/
theorem lt_estimateEnd {estimate end_ : Nat} (hest : estimate < size) (hend : end_ < buf.length) :
    end_ < estimateEnd buf size estimate end_ := by
  rw [estimateEnd, dif_pos ⟨hest, hend⟩]
  exact Nat.lt_of_lt_of_le (Nat.lt_succ_self end_) (le_estimateEnd _ _)

/-- At or past the snapshot's end, the estimate takes nothing. -/
theorem estimateEnd_of_length_le {estimate end_ : Nat} (hend : buf.length ≤ end_) :
    estimateEnd buf size estimate end_ = end_ := by
  rw [estimateEnd, dif_neg fun h ↦ absurd h.2 (Nat.not_lt.mpr hend)]

end Estimate

namespace DirIter

variable {it it' : DirIter} {e : DirEntry}

theorem next_of_lt (h : it.cur < it.inner.length) :
    it.next = some (⟨(it.inner.get ⟨it.cur, h⟩).2.inode, it.offset + (it.cur + 1),
      direntType (it.inner.get ⟨it.cur, h⟩).2.kind, (it.inner.get ⟨it.cur, h⟩).1⟩,
      { it with cur := it.cur + 1 }) :=
  dif_pos h

theorem entries_of_next_none (h : it.next = none) : it.entries = [] := by
  rw [entries]
  split
  next => rfl
  next e' it'' hnext => rw [h] at hnext; cases hnext

theorem entries_of_next_some (h : it.next = some (e, it')) : it.entries = e :: it'.entries := by
  rw [entries]
  split
  next hnext => rw [h] at hnext; cases hnext
  next e' it'' hnext => rw [h] at hnext; cases hnext; rfl

/-- Drained, a `DirIter` yields its entries from `cur` on, numbered from its `offset`. -/
theorem entries_eq (it : DirIter) :
    it.entries = (it.inner.drop it.cur).mapIdx fun i entry ↦
      ⟨entry.2.inode, it.offset + it.cur + i + 1, direntType entry.2.kind, entry.1⟩ := by
  induction it using entries.induct with
  | case1 it hnone =>
    have hend : it.inner.length ≤ it.cur := Nat.le_of_not_lt fun hlt ↦ by
      rw [next_of_lt hlt] at hnone
      cases hnone
    rw [entries_of_next_none hnone, List.drop_of_length_le hend, List.mapIdx_nil]
  | case2 it e it' hsome ih =>
    obtain ⟨hlt, -, -⟩ := next_eq_some hsome
    have hstep := next_of_lt hlt
    rw [hsome] at hstep
    obtain ⟨rfl, rfl⟩ := Prod.mk.inj (Option.some.inj hstep)
    rw [entries_of_next_some hsome, ih, List.drop_eq_getElem_cons hlt, List.mapIdx_cons]
    simp only [List.get_eq_getElem, DirEntry.mk.injEq, List.cons.injEq, true_and, and_true]
    refine ⟨by omega, List.mapIdx_eq_mapIdx_iff.mpr fun i _ ↦ ?_⟩
    congr 1
    omega

end DirIter

theorem drop_snapshotEntries (buf : List (String × DirectoryEntry)) (k : Nat) :
    (snapshotEntries buf).drop k = (buf.drop k).mapIdx fun i entry ↦
      ⟨entry.2.inode, k + i + 1, direntType entry.2.kind, entry.1⟩ := by
  apply List.ext_getElem
  · simp [snapshotEntries]
  · intro i _ _
    simp only [snapshotEntries, List.getElem_drop, List.getElem_mapIdx]

/-- The last of the snapshot's entries before `m` is numbered `m`. -/
theorem map_offset_getLast?_snapshotEntries {buf : List (String × DirectoryEntry)} {k m : Nat}
    (hkm : k < m) (hm : m ≤ buf.length) :
    (((snapshotEntries buf).drop k).take (m - k)).getLast?.map DirEntry.offset = some m := by
  have hlen : (((snapshotEntries buf).drop k).take (m - k)).length = m - k := by
    simp only [snapshotEntries, List.length_take, List.length_drop, List.length_mapIdx]
    omega
  rw [List.getLast?_eq_getElem?, hlen]
  simp only [List.getElem?_take, List.getElem?_drop, snapshotEntries, List.getElem?_mapIdx]
  rw [if_pos (by omega), List.getElem?_eq_getElem (by omega : k + (m - k - 1) < buf.length)]
  simp only [Option.map_some, Option.some.injEq]
  omega

namespace ZipFuse

section Readdir

variable {z : ZipFuse} {inode : Inode} {odb : OpenDirBuf} {size offset : Nat}

/-- At an offset inside the snapshot, `readdir` copies the snapshot from the offset to where its
estimate ends. -/
theorem readdir_eq (hodb : z.openDirs.lookup inode = some odb) (hopen : odb.openCount ≠ 0)
    (hoffset : offset ≤ odb.buf.length) :
    z.readdir inode size offset =
      ok ⟨(odb.buf.drop offset).take (estimateEnd odb.buf size 0 offset - offset), offset, 0⟩ := by
  rw [readdir, hodb, okOr_some, ok_bind, if_neg hopen]
  dsimp only
  rw [slice_of_le (le_estimateEnd _ _) (estimateEnd_le _ _ hoffset), ok_bind, pure_eq]

/-- The entries of that copy are the snapshot's, numbered as in the snapshot. -/
theorem entries_readdir (offset : Nat) (buf : List (String × DirectoryEntry)) (n : Nat) :
    DirIter.entries ⟨(buf.drop offset).take n, offset, 0⟩ =
      ((snapshotEntries buf).drop offset).take n := by
  rw [DirIter.entries_eq, drop_snapshotEntries]
  apply List.ext_getElem
  · simp
  · intro i _ _
    simp

/-- Past the end of the snapshot, the estimate ends where it starts, and `buf[start..end]`
starts past the snapshot's end. -/
theorem readdir_past_end_panics (hodb : z.openDirs.lookup inode = some odb)
    (hopen : odb.openCount ≠ 0) (hpast : odb.buf.length < offset) :
    z.readdir inode size offset = panic := by
  rw [readdir, hodb, okOr_some, ok_bind, if_neg hopen]
  dsimp only
  rw [estimateEnd_of_length_le (Nat.le_of_lt hpast), slice_of_length_lt hpast, panic_bind]

/-- A directory of one entry, open as handle 1: `readdir` at offset 2 panics. -/
theorem readdir_past_end_one :
    let odb : OpenDirBuf := ⟨1, [("a", ⟨2, .file⟩)]⟩
    let z : ZipFuse := ⟨[], [], ⟨[]⟩, ∅, (∅ : AList fun _ : Handle ↦ OpenDirBuf).insert 1 odb⟩
    z.openDirs.lookup 1 = some odb ∧ odb.openCount ≠ 0 ∧ odb.buf.length < 2 ∧
      z.readdir 1 4096 2 = panic := by
  intro odb z
  have hodb : z.openDirs.lookup 1 = some odb := rfl
  have hopen : odb.openCount ≠ 0 := by decide
  have hpast : odb.buf.length < 2 := by decide
  exact ⟨hodb, hopen, hpast, readdir_past_end_panics hodb hopen hpast⟩

/-- Paging through the snapshot from an offset inside it, each call with a buffer and a reply that
hold an entry, and calls enough, lists the snapshot's entries from that offset on, each once and
in order, however far each estimate overshoots its reply. -/
theorem listing_eq (hodb : z.openDirs.lookup inode = some odb) (hopen : odb.openCount ≠ 0) :
    ∀ (calls : List (Nat × Nat)) (offset : Nat), (∀ call ∈ calls, 0 < call.1 ∧ 0 < call.2) →
      offset ≤ odb.buf.length → odb.buf.length - offset < calls.length →
      z.listing inode calls offset = ok ((snapshotEntries odb.buf).drop offset) := by
  intro calls
  induction calls with
  | nil => exact fun _ _ _ hcalls ↦ absurd hcalls (Nat.not_lt_zero _)
  | cons call calls ih =>
    obtain ⟨size, room⟩ := call
    intro offset hpos hoffset hcalls
    obtain ⟨hsize, hroom⟩ : 0 < size ∧ 0 < room := hpos (size, room) List.mem_cons_self
    rw [listing, readdir_eq hodb hopen hoffset, ok_bind, entries_readdir, List.take_take]
    by_cases hend : offset < odb.buf.length
    · have hlt : offset < estimateEnd odb.buf size 0 offset := lt_estimateEnd hsize hend
      have hle : estimateEnd odb.buf size 0 offset ≤ odb.buf.length := estimateEnd_le _ _ hoffset
      obtain ⟨n, hn⟩ : ∃ n, n = min room (estimateEnd odb.buf size 0 offset - offset) := ⟨_, rfl⟩
      have hpos' : 0 < n := by omega
      have hfits : offset + n ≤ odb.buf.length := by omega
      have hreply := map_offset_getLast?_snapshotEntries (Nat.lt_add_of_pos_right hpos') hfits
      rw [Nat.add_sub_cancel_left] at hreply
      obtain ⟨last, hlast, hoff⟩ := Option.map_eq_some_iff.mp hreply
      have hsplit : (snapshotEntries odb.buf).drop (offset + n) =
          ((snapshotEntries odb.buf).drop offset).drop n := by
        rw [List.drop_drop]
      rw [← hn]
      dsimp only
      rw [hlast]
      dsimp only
      rw [hoff, ih _ (fun c hc ↦ hpos c (List.mem_cons_of_mem _ hc)) hfits
        (by simp at hcalls; omega), ok_bind, pure_eq, hsplit, List.take_append_drop]
    · have hnil : (snapshotEntries odb.buf).drop offset = [] :=
        List.drop_of_length_le (by simp only [snapshotEntries, List.length_mapIdx]; omega)
      rw [hnil, List.take_nil]
      rfl

end Readdir

end ZipFuse

end Virtualization.ZipFuse
