import Virtualization.AuthFs.Fsverity.Editor
import Mathlib.Data.List.AList

/-!
# `authfs::file::dir` and `authfs::file::attr`: directories and attributes

A directory of AuthFS maps names to `InodeInfo`s: the inode of the entry, kept in the global
inode table of `AuthFs`, and whether it is a directory.  A read-only directory
(`InMemoryDir`) is filled once, before serving; a writable one (`RemoteDirEditor`) creates files
and directories on the `fd_server` and records them, so that the VM keeps the truth about what the
directory holds.  The maps are `AList`s: a `HashMap` holds each name once, as an `AList` does by
construction.

The `fd_server` is not trusted.  Its replies are a `VirtFdService`, any functions at all, with
the `io::Error` they are turned into already applied; a file the editor writes is a
`RemoteFileEditor`, the storage of a `VerifiedFileEditor`.  A name is a `String`: the kernel gives
basenames, and `to_str` of a `String` always succeeds.
-/

namespace Virtualization.AuthFs

open Outcome

/-- `Inode`. -/
abbrev Inode := Nat

/-- `MAX_ENTRIES`: the most entries a directory takes. -/
def maxEntries : Nat := 100

/-- `validate_basename`: a name without `/`. -/
def validateBasename (path : String) : Except IoError Unit :=
  if '/' ∈ path.toList then .error (.os EINVAL) else .ok ()

/-- `path_to_cstring`: `CString::new` refuses a name with a NUL byte. -/
def pathToCstring (path : String) : Except IoError String :=
  if Char.ofNat 0 ∈ path.toList then .error (.os EILSEQ) else .ok path

/-- `Mode::from_bits_truncate`: the permission bits. -/
def modeFromBitsTruncate (mode : Nat) : Nat := mode &&& 0o7777

/-- `SFlag::from_bits_truncate`: the file type bits. -/
def sflagFromBitsTruncate (mode : Nat) : Nat := mode &&& 0o170000

/-- `S_IFDIR`. -/
def S_IFDIR : Nat := 0o040000
/-- `S_IFREG`. -/
def S_IFREG : Nat := 0o100000

/-- `InodeInfo`. -/
structure InodeInfo where
  inode : Inode
  isDir : Bool
deriving DecidableEq, Repr

/-- `AuthFsDirEntry`: an entry of a directory snapshot. -/
structure AuthFsDirEntry where
  inode : Inode
  name : String
  isDir : Bool
deriving DecidableEq, Repr

/-- The entries of a directory by name, its `HashMap<PathBuf, InodeInfo>`. -/
abbrev DirEntries := AList fun _ : String ↦ InodeInfo

namespace DirEntries

/-- `retrieve_entries` of both kinds of directory, in the map's order. -/
def retrieveEntries (entries : DirEntries) : Except IoError (List AuthFsDirEntry) :=
  entries.entries.mapM fun e ↦ do
    let name ← pathToCstring e.1
    pure ⟨e.2.inode, name, e.2.isDir⟩

/-- `number_of_entries` of both kinds of directory: the count as a `u16`. -/
def numberOfEntries (entries : DirEntries) : Nat := entries.entries.length % 2 ^ 16

/-- The inodes the entries name. -/
def inodes (entries : DirEntries) : List Inode := entries.entries.map fun e ↦ e.2.inode

end DirEntries

/-! ## `InMemoryDir` -/

/-- `InMemoryDir`: a read-only directory, filled before serving. -/
structure InMemoryDir where
  entries : DirEntries

namespace InMemoryDir

/-- `InMemoryDir::new`. -/
def new : InMemoryDir := ⟨∅⟩

/-- `InMemoryDir::number_of_entries`. -/
def numberOfEntries (d : InMemoryDir) : Nat := d.entries.numberOfEntries

/-- `add_entry`: a valid name, not yet there, into a directory that is not full. -/
def addEntry (d : InMemoryDir) (basename : String) (dirEntry : InodeInfo) :
    Except IoError InMemoryDir := do
  validateBasename basename
  if maxEntries ≤ d.entries.entries.length then throw (.os EMLINK)
  if basename ∈ d.entries then throw (.os EEXIST)
  pure ⟨d.entries.insert basename dirEntry⟩

/-- `InMemoryDir::add_dir`. -/
def addDir (d : InMemoryDir) (basename : String) (inode : Inode) : Except IoError InMemoryDir :=
  d.addEntry basename ⟨inode, true⟩

/-- `InMemoryDir::add_file`. -/
def addFile (d : InMemoryDir) (basename : String) (inode : Inode) : Except IoError InMemoryDir :=
  d.addEntry basename ⟨inode, false⟩

/-- `InMemoryDir::lookup_inode`. -/
def lookupInode (d : InMemoryDir) (basename : String) : Option Inode :=
  (d.entries.lookup basename).map (·.inode)

/-- `InMemoryDir::retrieve_entries`. -/
def retrieveEntries (d : InMemoryDir) : Except IoError (List AuthFsDirEntry) :=
  d.entries.retrieveEntries

end InMemoryDir

/-! ## The `fd_server`, files and attributes -/

/-- The replies of the `fd_server` to the calls that create and change entries. -/
structure VirtFdService where
  createFileInDirectory : Nat → String → Nat → Except IoError Nat
  createDirectoryInDirectory : Nat → String → Nat → Except IoError Nat
  chmod : Nat → Nat → Except IoError Unit

/-- `RemoteFileEditor`: a file on the `fd_server`, by its descriptor. -/
structure RemoteFileEditor where
  remoteFd : Nat

/-- `Attr`: the mode the VM keeps for a file or directory it created. -/
structure Attr where
  mode : Nat
  remoteFd : Nat
  isDir : Bool

namespace Attr

/-- `Attr::new_file_with_mode`. -/
def newFileWithMode (remoteFd mode : Nat) : Attr := ⟨modeFromBitsTruncate mode, remoteFd, false⟩

/-- `Attr::new_dir_with_mode`. -/
def newDirWithMode (remoteFd mode : Nat) : Attr := ⟨modeFromBitsTruncate mode, remoteFd, true⟩

/-- `Attr::set_mode`: the type bits must be those of the entry; a new mode is set on the
`fd_server` first. -/
def setMode (svc : VirtFdService) (a : Attr) (encodedMode : Nat) : Except IoError Attr :=
  let newSflag := sflagFromBitsTruncate encodedMode
  let newMode := modeFromBitsTruncate encodedMode
  let typeFlag := if a.isDir then S_IFDIR else S_IFREG
  if typeFlag &&& newSflag ≠ newSflag then .error (.os EINVAL)
  else if newMode ≠ a.mode then
    match svc.chmod a.remoteFd newMode with
    | .error _ => .error (.os EIO)
    | .ok () => .ok { a with mode := newMode }
  else .ok a

end Attr

/-! ## `RemoteDirEditor` -/

/-- `RemoteDirEditor`: a directory created by the VM on the `fd_server`, with the entries the VM
created in it. -/
structure RemoteDirEditor where
  remoteDirFd : Nat
  entries : DirEntries

namespace RemoteDirEditor

/-- `RemoteDirEditor::new`: a directory is taken to be empty. -/
def new (remoteDirFd : Nat) : RemoteDirEditor := ⟨remoteDirFd, ∅⟩

/-- `RemoteDirEditor::number_of_entries`. -/
def numberOfEntries (d : RemoteDirEditor) : Nat := d.entries.numberOfEntries

/-- `validate_arguments`: a name not yet there, in a directory that is not full. -/
def validateArguments (d : RemoteDirEditor) (basename : String) (mode : Nat) :
    Except IoError Nat := do
  if basename ∈ d.entries then throw (.os EEXIST)
  if maxEntries ≤ d.entries.entries.length then throw (.os EMLINK)
  pure (modeFromBitsTruncate mode)

/-- `RemoteDirEditor::create_file`: the file is created on the `fd_server`, then recorded. -/
def createFile (svc : VirtFdService) (d : RemoteDirEditor) (basename : String) (inode : Inode)
    (mode : Nat) : Except IoError (RemoteDirEditor × VerifiedFileEditor RemoteFileEditor × Attr) := do
  let mode ← d.validateArguments basename mode
  let newFd ← svc.createFileInDirectory d.remoteDirFd basename mode
  pure (⟨d.remoteDirFd, d.entries.insert basename ⟨inode, false⟩⟩,
    VerifiedFileEditor.new ⟨newFd⟩, Attr.newFileWithMode newFd mode)

/-- `RemoteDirEditor::mkdir`: the directory is created on the `fd_server`, then recorded. -/
def mkdir (svc : VirtFdService) (d : RemoteDirEditor) (basename : String) (inode : Inode)
    (mode : Nat) : Except IoError (RemoteDirEditor × RemoteDirEditor × Attr) := do
  let mode ← d.validateArguments basename mode
  let newFd ← svc.createDirectoryInDirectory d.remoteDirFd basename mode
  pure (⟨d.remoteDirFd, d.entries.insert basename ⟨inode, true⟩⟩, RemoteDirEditor.new newFd,
    Attr.newDirWithMode newFd mode)

/-- `force_delete_entry`: remove an entry of the expected kind, returning its inode. -/
def forceDeleteEntry (d : RemoteDirEditor) (basename : String) (expectDir : Bool) :
    Except IoError (RemoteDirEditor × Inode) :=
  match d.entries.lookup basename with
  | some entry =>
    match expectDir, entry.isDir with
    | true, false => .error (.os ENOTDIR)
    | false, true => .error (.os EISDIR)
    | _, _ => .ok (⟨d.remoteDirFd, d.entries.erase basename⟩, entry.inode)
  | none => .error (.os ENOENT)

/-- `RemoteDirEditor::delete_file`; the `fd_server`'s failure to delete is ignored. -/
def deleteFile (d : RemoteDirEditor) (basename : String) : Except IoError (RemoteDirEditor × Inode) :=
  d.forceDeleteEntry basename false

/-- `RemoteDirEditor::force_delete_directory`; the `fd_server`'s failure is ignored. -/
def forceDeleteDirectory (d : RemoteDirEditor) (basename : String) :
    Except IoError (RemoteDirEditor × Inode) :=
  d.forceDeleteEntry basename true

/-- `RemoteDirEditor::find_inode`. -/
def findInode (d : RemoteDirEditor) (name : String) : Except IoError Inode :=
  match d.entries.lookup name with
  | some entry => .ok entry.inode
  | none => .error (.os ENOENT)

/-- `RemoteDirEditor::has_entry`. -/
def hasEntry (d : RemoteDirEditor) (name : String) : Bool := decide (name ∈ d.entries)

/-- `RemoteDirEditor::retrieve_entries`. -/
def retrieveEntries (d : RemoteDirEditor) : Except IoError (List AuthFsDirEntry) :=
  d.entries.retrieveEntries

end RemoteDirEditor

end Virtualization.AuthFs
