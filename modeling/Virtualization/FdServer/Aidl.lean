import Virtualization.AuthFs.Fsverity.Metadata
import Mathlib.Data.List.AList

/-!
# `fd_server::aidl`: the host's file service

`FdService` serves the files and directories of its FD pool to authfs in the VM over binder.
Each request names an FD; `handle_fd` looks its `FdConfig` up and runs the request's branch for
it.  The client is untrusted: a size above `MAX_REQUESTING_DATA`, and a negative size or offset,
are refused, and any other offset is served.

The two reads differ at the end of a file.  `readFile` stops there with a saturating subtraction
and returns less, at every offset (`readFile_eq`).  `readFsverityMerkleTree`
on a file with alternative metadata serves the tree through `read_merkle_tree`, which subtracts
without saturating: up to the end of the tree it returns what is there, and an offset past the
end makes it panic (`readFsverityMerkleTree_eq_or_panic`).

Of the requests, the reads are modelled, and the writes and resizes of a `ReadWrite` file, over
what the kernel does to the file (`FileWrites`); those that create and delete entries act on the
host's file system and are left out.
-/

namespace Virtualization.FdServer

open Outcome AuthFs

/-- `binder::ExceptionCode`, of those fd_server raises. -/
inductive ExceptionCode where
  | serviceSpecific
  | illegalState
deriving DecidableEq, Repr

/-- `binder::Status` as fd_server builds it. -/
inductive Status where
  /-- `new_binder_service_specific_error(errno, ..)`. -/
  | serviceSpecific (errno : Nat)
  /-- `StatusCode::INVALID_OPERATION.into()`. -/
  | invalidOperation
  /-- `new_binder_exception(code, message)`. -/
  | exception (code : ExceptionCode) (message : String)
deriving DecidableEq, Repr

/-- `new_errno_error`. -/
def newErrnoError (errno : Nat) : Status := .serviceSpecific errno

/-- `MAX_REQUESTING_DATA` of `IVirtFdService.aidl`. -/
def MAX_REQUESTING_DATA : Int := 16384

/-- `FdConfig`, with the bytes of the files it serves. -/
inductive FdConfig where
  | readonly (file : List UInt8) (altMetadata : Option FSVerityMetadata)
  | readWrite (file : List UInt8)
  | inputDir
  | outputDir

/-- The kernel's fs-verity ioctls on a file, as `fsverity::read_merkle_tree` and
`fsverity::read_signature` make them: the size read into the buffer, and the buffer. -/
structure FsverityIoctls where
  readMerkleTree : List UInt8 → Nat → List UInt8 → Except IoError (Nat × List UInt8)
  readSignature : List UInt8 → List UInt8 → Except IoError (Nat × List UInt8)

/-- `FdService`: the FD pool, and the kernel's ioctls. -/
structure FdService where
  fdPool : AList fun _ : Int ↦ FdConfig
  fsverity : FsverityIoctls

/-- What the kernel does to the regular file behind a `ReadWrite` FD: `FileExt::write_at`, which
reports how much of the buffer it wrote, and `File::set_len`. -/
structure FileWrites where
  writeAt : List UInt8 → List UInt8 → Nat → Except IoError (Nat × List UInt8)
  setLen : List UInt8 → Nat → Except IoError (List UInt8)

/-- `validate_and_cast_offset`: `i64::try_into::<u64>`. -/
def validateAndCastOffset (offset : Int) : Outcome Status Nat :=
  if 0 ≤ offset then ok offset.toNat else err (newErrnoError EINVAL)

/-- `validate_and_cast_size`: at most `MAX_REQUESTING_DATA`, then `i32::try_into::<usize>`. -/
def validateAndCastSize (size : Int) : Outcome Status Nat :=
  if size > MAX_REQUESTING_DATA then err (newErrnoError EFBIG)
  else if 0 ≤ size then ok size.toNat else err (newErrnoError EINVAL)

/-- `read_into_buf`: the bytes from `offset`, at most `max_size` of them, and none past the end;
the size left is a saturating subtraction, and the file's `metadata()` does not fail. -/
def readIntoBuf (file : List UInt8) (maxSize offset : Nat) : Outcome IoError (List UInt8) := do
  let remaining := file.length - offset
  let bufSize := min remaining maxSize
  let buf ← vecZeroed bufSize
  ofExcept (readExactAt file offset buf.length)

namespace FdService

variable {α : Type}

/-- `FdService::handle_fd`. -/
def handleFd (s : FdService) (id : Int) (handleFn : FdConfig → Outcome Status α) :
    Outcome Status α := do
  let fdConfig ← okOr (s.fdPool.lookup id) (newErrnoError EBADF)
  handleFn fdConfig

/-- `readFile`. -/
def readFile (s : FdService) (id : Int) (offset size : Int) : Outcome Status (List UInt8) := do
  let size ← validateAndCastSize size
  let offset ← validateAndCastOffset offset
  s.handleFd id fun
    | .readonly file _ | .readWrite file =>
      mapErr (fun _ ↦ newErrnoError EIO) (readIntoBuf file size offset)
    | .inputDir | .outputDir => err (newErrnoError EISDIR)

/-- `readFsverityMerkleTree`: from the alternative metadata if the file has it, and from the
kernel otherwise; the buffer is truncated to the size read. -/
def readFsverityMerkleTree (s : FdService) (id : Int) (offset size : Int) :
    Outcome Status (List UInt8) := do
  let size ← validateAndCastSize size
  let offset ← validateAndCastOffset offset
  s.handleFd id fun
    | .readonly file altMetadata => do
      let buf ← vecZeroed size
      let (read, buf) ← match altMetadata with
        | some metadata => mapErr (fun _ ↦ newErrnoError EIO) (metadata.readMerkleTree offset buf)
        | none =>
          mapErr (fun _ ↦ newErrnoError EIO) (ofExcept (s.fsverity.readMerkleTree file offset buf))
      pure (buf.take read)
    | .readWrite _ => err (newErrnoError ENOSYS)
    | .inputDir | .outputDir => err (newErrnoError EISDIR)

/-- `readFsveritySignature`. -/
def readFsveritySignature (s : FdService) (id : Int) : Outcome Status (List UInt8) :=
  s.handleFd id fun
    | .readonly file altMetadata =>
      match altMetadata with
      | some metadata =>
        match metadata.signature with
        | some signature => ok signature
        | none => err (.exception .serviceSpecific "metadata doesn't contain a signature")
      | none => do
        let buf ← vecZeroed MAX_REQUESTING_DATA.toNat
        let (read, buf) ←
          mapErr (fun _ ↦ newErrnoError EIO) (ofExcept (s.fsverity.readSignature file buf))
        pure (buf.take read)
    | .readWrite _ => err (newErrnoError ENOSYS)
    | .inputDir | .outputDir => err (newErrnoError EISDIR)

/-- `getFileSize`: the length of a read-only file, which must fit an `i64`. -/
def getFileSize (s : FdService) (id : Int) : Outcome Status Int :=
  s.handleFd id fun
    | .readonly file _ =>
      if file.length < 2 ^ 63 then ok file.length else err (newErrnoError EFBIG)
    | .readWrite _ => err (newErrnoError ENOSYS)
    | .inputDir | .outputDir => err (newErrnoError EISDIR)

/-- The service with the file of the `ReadWrite` FD `id` replaced. -/
def setFile (s : FdService) (id : Int) (file : List UInt8) : FdService :=
  { s with fdPool := s.fdPool.insert id (.readWrite file) }

/-- `writeFile`: the size the kernel reports, cast to an `i32`, with the service after the write.
The buffer's length must fit an `i32`. -/
def writeFile (io : FileWrites) (s : FdService) (id : Int) (buf : List UInt8) (offset : Int) :
    Outcome Status (Int × FdService) :=
  s.handleFd id fun
    | .readonly _ _ => err .invalidOperation
    | .readWrite file =>
      if offset < 0 then err (newErrnoError EINVAL)
      else if buf.length > 2 ^ 31 - 1 then err (newErrnoError EOVERFLOW)
      else
        match io.writeAt file buf offset.toNat with
        | .error _ => err (newErrnoError EIO)
        | .ok (size, file) => ok (Int.bmod size (2 ^ 32), s.setFile id file)
    | .inputDir | .outputDir => err (newErrnoError EISDIR)

/-- `resize`: `set_len` of a `ReadWrite` file to a size that is not negative. -/
def resize (io : FileWrites) (s : FdService) (id : Int) (size : Int) : Outcome Status FdService :=
  s.handleFd id fun
    | .readonly _ _ => err .invalidOperation
    | .readWrite file =>
      if size < 0 then err (newErrnoError EINVAL)
      else
        match io.setLen file size.toNat with
        | .error _ => err (newErrnoError EIO)
        | .ok file => ok (s.setFile id file)
    | .inputDir | .outputDir => err (newErrnoError EISDIR)

/-! ## The writes -/

section Writes

variable {io : FileWrites} {s : FdService} {id : Int} {file : List UInt8}

@[simp] theorem lookup_setFile (s : FdService) (id : Int) (file : List UInt8) :
    (s.setFile id file).fdPool.lookup id = some (.readWrite file) :=
  AList.lookup_insert _

/-- A write to a `ReadWrite` file at an offset that is not negative, of a buffer whose length fits
an `i32`, that the kernel carries out, reports the kernel's size and replaces the file. -/
theorem writeFile_of_readWrite (hfile : s.fdPool.lookup id = some (.readWrite file))
    {buf : List UInt8} {offset : Int} (hoffset : 0 ≤ offset) (hlen : buf.length ≤ 2 ^ 31 - 1)
    {size : Nat} {file' : List UInt8} (hwrite : io.writeAt file buf offset.toNat = .ok (size, file')) :
    s.writeFile io id buf offset = ok (Int.bmod size (2 ^ 32), s.setFile id file') := by
  rw [writeFile, handleFd, hfile, okOr_some, ok_bind]
  dsimp only
  rw [if_neg (Int.not_lt.mpr hoffset), if_neg (Nat.not_lt.mpr hlen), hwrite]

/-- A resize of a `ReadWrite` file to a size that is not negative, that the kernel carries out,
replaces the file. -/
theorem resize_of_readWrite (hfile : s.fdPool.lookup id = some (.readWrite file)) {size : Int}
    (hsize : 0 ≤ size) {file' : List UInt8} (hset : io.setLen file size.toNat = .ok file') :
    s.resize io id size = ok (s.setFile id file') := by
  rw [resize, handleFd, hfile, okOr_some, ok_bind]
  dsimp only
  rw [if_neg (Int.not_lt.mpr hsize), hset]

end Writes

/-! ## The reads, at every offset -/

section Reads

variable {s : FdService} {id offset size : Int}

theorem validateAndCastSize_of_le (hsize : 0 ≤ size) (hmax : size ≤ MAX_REQUESTING_DATA) :
    validateAndCastSize size = ok size.toNat := by
  rw [validateAndCastSize, if_neg (Int.not_lt.mpr hmax), if_pos hsize]

theorem validateAndCastOffset_of_le (hoffset : 0 ≤ offset) :
    validateAndCastOffset offset = ok offset.toNat :=
  if_pos hoffset

/-- A size that passes the check fits a buffer. -/
theorem toNat_le_isizeMax (hmax : size ≤ MAX_REQUESTING_DATA) : size.toNat ≤ isizeMax := by
  have hbound : MAX_REQUESTING_DATA.toNat ≤ isizeMax := by decide
  exact Nat.le_trans (Int.toNat_le_toNat hmax) hbound

/-- A read of `n` bytes at `offset` cut short at the end of the file reads what a read of `n`
bytes there sees. -/
theorem bytesAt_min_sub (file : List UInt8) (offset n : Nat) :
    bytesAt file offset (min (file.length - offset) n) = bytesAt file offset n := by
  rw [bytesAt, bytesAt, List.take_eq_take_iff, List.length_drop]
  omega

/-- `read_into_buf` reads the bytes from the offset on, as many as asked for and as the file has,
at every offset. -/
theorem readIntoBuf_eq (file : List UInt8) (offset : Nat) {maxSize : Nat}
    (hmax : maxSize ≤ isizeMax) : readIntoBuf file maxSize offset = ok (bytesAt file offset maxSize) := by
  rw [readIntoBuf, vecZeroed_of_le (Nat.le_trans (Nat.min_le_right _ _) hmax), ok_bind,
    List.length_replicate]
  have hread : readExactAt file offset (min (file.length - offset) maxSize) =
      .ok (bytesAt file offset (min (file.length - offset) maxSize)) := by
    rw [readExactAt, if_pos (by omega)]
  rw [hread, ofExcept_ok, bytesAt_min_sub]

/-- `readFile` of a file serves the bytes from the offset on, as many as asked for and as the file
has, at every offset. -/
theorem readFile_eq {file : List UInt8}
    (hfile : (∃ m, s.fdPool.lookup id = some (.readonly file m)) ∨
      s.fdPool.lookup id = some (.readWrite file))
    (hoffset : 0 ≤ offset) (hsize : 0 ≤ size) (hmax : size ≤ MAX_REQUESTING_DATA) :
    s.readFile id offset size = ok (bytesAt file offset.toNat size.toNat) := by
  rw [readFile, validateAndCastSize_of_le hsize hmax, ok_bind, validateAndCastOffset_of_le hoffset,
    ok_bind, handleFd]
  rcases hfile with ⟨m, hfile⟩ | hfile
  all_goals
    rw [hfile, okOr_some, ok_bind]
    dsimp only
    rw [readIntoBuf_eq _ _ (toNat_le_isizeMax hmax), mapErr_ok]

/-- `readFsverityMerkleTree` from a file's alternative metadata, at an offset inside the tree,
serves the tree's bytes from the offset on, as many as asked for and as the file has. -/
theorem readFsverityMerkleTree_eq {file : List UInt8} {m : FSVerityMetadata}
    (hfile : s.fdPool.lookup id = some (.readonly file (some m))) (hoffset : 0 ≤ offset)
    (hsize : 0 ≤ size) (hmax : size ≤ MAX_REQUESTING_DATA)
    (hstart : m.merkleTreeOffset + offset.toNat ≤ m.metadataFile.length)
    (hlen : m.metadataFile.length < 2 ^ 63) :
    s.readFsverityMerkleTree id offset size =
      ok (bytesAt m.metadataFile (m.merkleTreeOffset + offset.toNat) size.toNat) := by
  have hsmall : size.toNat ≤ 16384 := Int.toNat_le_toNat hmax
  rw [readFsverityMerkleTree, validateAndCastSize_of_le hsize hmax, ok_bind,
    validateAndCastOffset_of_le hoffset, ok_bind, handleFd, hfile, okOr_some, ok_bind]
  dsimp only
  rw [vecZeroed_of_le (toNat_le_isizeMax hmax), ok_bind,
    FSVerityMetadata.readMerkleTree_eq hstart (by rw [List.length_replicate]; omega), mapErr_ok,
    ok_bind, List.length_replicate]
  dsimp only
  have hread : (bytesAt m.metadataFile (m.merkleTreeOffset + offset.toNat)
      (min size.toNat (m.metadataFile.length - (m.merkleTreeOffset + offset.toNat)))).length =
        min size.toNat (m.metadataFile.length - (m.merkleTreeOffset + offset.toNat)) :=
    length_bytesAt_of_le (by omega)
  rw [List.take_left' hread, Nat.min_comm, bytesAt_min_sub, pure_eq]

/-- Past the end of the metadata file, `readFsverityMerkleTree` from the alternative metadata
panics, whatever the size asked for. -/
theorem readFsverityMerkleTree_past_end {file : List UInt8} {m : FSVerityMetadata}
    (hfile : s.fdPool.lookup id = some (.readonly file (some m))) (hoffset : 0 ≤ offset)
    (hsize : 0 ≤ size) (hmax : size ≤ MAX_REQUESTING_DATA)
    (hpast : m.metadataFile.length < m.merkleTreeOffset + offset.toNat) :
    s.readFsverityMerkleTree id offset size = panic := by
  rw [readFsverityMerkleTree, validateAndCastSize_of_le hsize hmax, ok_bind,
    validateAndCastOffset_of_le hoffset, ok_bind, handleFd, hfile, okOr_some, ok_bind]
  dsimp only
  rw [vecZeroed_of_le (toNat_le_isizeMax hmax), ok_bind,
    FSVerityMetadata.readMerkleTree_past_end hpast, mapErr_panic, panic_bind]

/-- `readFsverityMerkleTree` from a file's alternative metadata, for every offset and size the
validation passes: up to the end of the metadata file it serves the tree's bytes from the offset
on, as many as asked for and as the file has, and past that end it panics. -/
theorem readFsverityMerkleTree_eq_or_panic {file : List UInt8} {m : FSVerityMetadata}
    (hfile : s.fdPool.lookup id = some (.readonly file (some m))) (hoffset : 0 ≤ offset)
    (hsize : 0 ≤ size) (hmax : size ≤ MAX_REQUESTING_DATA) (hlen : m.metadataFile.length < 2 ^ 63) :
    (m.merkleTreeOffset + offset.toNat ≤ m.metadataFile.length →
      s.readFsverityMerkleTree id offset size =
        ok (bytesAt m.metadataFile (m.merkleTreeOffset + offset.toNat) size.toNat)) ∧
    (m.metadataFile.length < m.merkleTreeOffset + offset.toNat →
      s.readFsverityMerkleTree id offset size = panic) :=
  ⟨fun hstart ↦ readFsverityMerkleTree_eq hfile hoffset hsize hmax hstart hlen,
    readFsverityMerkleTree_past_end hfile hoffset hsize hmax⟩

/-- A metadata file of four bytes whose tree would start at its end: a request one byte into the
tree panics. -/
theorem readFsverityMerkleTree_one_past_end :
    let m : FSVerityMetadata := ⟨none, [0, 0, 0, 0], 4⟩
    let s : FdService :=
      ⟨(∅ : AList fun _ : Int ↦ FdConfig).insert 3 (.readonly [] (some m)),
        ⟨fun _ _ buf ↦ .ok (0, buf), fun _ buf ↦ .ok (0, buf)⟩⟩
    s.fdPool.lookup 3 = some (.readonly [] (some m)) ∧ (0 : Int) ≤ 1 ∧ (0 : Int) ≤ 16 ∧
      (16 : Int) ≤ MAX_REQUESTING_DATA ∧
      m.metadataFile.length < m.merkleTreeOffset + (1 : Int).toNat ∧
      s.readFsverityMerkleTree 3 1 16 = panic := by
  intro m s
  have hfile : s.fdPool.lookup 3 = some (.readonly [] (some m)) := rfl
  have hoffset : (0 : Int) ≤ 1 := by decide
  have hsize : (0 : Int) ≤ 16 := by decide
  have hmax : (16 : Int) ≤ MAX_REQUESTING_DATA := by decide
  have hpast : m.metadataFile.length < m.merkleTreeOffset + (1 : Int).toNat := by decide
  exact ⟨hfile, hoffset, hsize, hmax, hpast,
    (readFsverityMerkleTree_eq_or_panic hfile hoffset hsize hmax (by decide)).2 hpast⟩

end Reads

end FdService

end Virtualization.FdServer
