import Virtualization.AuthFs.File.Dir

/-!
# `authfs::fusefs`: the inode table and the requests that change it

`AuthFs` keeps every file and directory in one table from inode numbers to `InodeState`s: the
entry, the number of references the kernel holds (`handle_ref_count`, raised by `lookup` and
lowered by `forget`), and whether it is `unlinked`, to be removed once the kernel forgets it.  A
directory names its entries by inode number, so a name and the table must be kept in step.

Before serving, the tree is built with `add_entry_at_root_dir` and `add_entry_at_ro_dir_by_path`,
which create the missing read-only directories on the way.  Then the kernel's requests are served;
the ones modelled here are those that read or change the table: `lookup`, `forget`, `create`,
`mkdir`, `unlink`, `rmdir`, `opendir`, `releasedir` and `setattr`.  Each returns its reply with
the state after it, since a request that fails may still have taken an inode number, and a
`setattr` that fails may have changed the file's editor.  A `panic!`, `expect` or `unreachable!`
is `panic`.

Counters are `u64`s bumped by `fetch_add(1)`, which wraps (`fetchAddOne`).  A path is given by
its components, as `Path::components` yields them; the lock and the reader of the remote file
system's statistics, which only `statfs` uses, are left out.
-/

set_option linter.dupNamespace false

namespace Virtualization.AuthFs

open Outcome

/-- `ROOT_INODE`. -/
def rootInode : Inode := 1

/-- `fetch_add(1)` on a `u64` counter: the counter after it. -/
def fetchAddOne (n : Nat) : Nat := (n + 1) % 2 ^ 64

/-- `LazyVerifiedReadonlyFile`, by what its `file_size` returns: the size of the verified file,
or the error of loading it. -/
structure LazyVerifiedReadonlyFile where
  fileSize : Except IoError Nat

/-- `AuthFsEntry`. -/
inductive AuthFsEntry where
  | readonlyDirectory (dir : InMemoryDir)
  | verifiedReadonly (reader : LazyVerifiedReadonlyFile)
  | unverifiedReadonly (fileSize : Nat)
  | verifiedNew (editor : VerifiedFileEditor RemoteFileEditor) (attr : Attr)
  | verifiedNewDirectory (dir : RemoteDirEditor) (attr : Attr)

namespace AuthFsEntry

/-- `expect_empty_deletable_directory`. -/
def expectEmptyDeletableDirectory : AuthFsEntry → Except IoError Unit
  | verifiedNewDirectory dir _ =>
    if dir.numberOfEntries = 0 then .ok () else .error (.os ENOTEMPTY)
  | readonlyDirectory _ => .error (.os EACCES)
  | _ => .error (.os ENOTDIR)

/-- The inodes the entry's directory names; a file names none. -/
def dirInodes : AuthFsEntry → List Inode
  | readonlyDirectory dir => dir.entries.inodes
  | verifiedNewDirectory dir _ => dir.entries.inodes
  | _ => []

end AuthFsEntry

/-- `InodeState`. -/
structure InodeState where
  entry : AuthFsEntry
  handleRefCount : Nat
  unlinked : Bool

/-- `InodeState::new`. -/
def InodeState.new (entry : AuthFsEntry) : InodeState := ⟨entry, 0, false⟩

/-- `InodeState::new_with_ref_count`. -/
def InodeState.newWithRefCount (entry : AuthFsEntry) (handleRefCount : Nat) : InodeState :=
  ⟨entry, handleRefCount, false⟩

/-- The inode table, `BTreeMap<Inode, InodeState>`. -/
abbrev InodeTable := AList fun _ : Inode ↦ InodeState

/-- `AuthFs`. -/
structure AuthFs where
  inodeTable : InodeTable
  nextInode : Nat
  dirHandleTable : AList fun _ : Nat ↦ List AuthFsDirEntry
  nextHandle : Nat

/-! ## Paths -/

/-- `std::path::Component`, without the prefixes of Windows paths. -/
inductive Component where
  | rootDir
  | curDir
  | parentDir
  | normal (name : String)
deriving DecidableEq, Repr

/-- `Path::parent`: the path without its last component, when that is a name, `.` or `..`. -/
def pathParent (path : List Component) : Option (List Component) :=
  match path.getLast? with
  | some (.normal _) | some .curDir | some .parentDir => some path.dropLast
  | _ => none

/-- `Path::file_name`. -/
def pathFileName (path : List Component) : Option String :=
  match path.getLast? with
  | some (.normal name) => some name
  | _ => none

/-- `Path::components` of a name without `/`. -/
def basenameComponents (basename : String) : List Component :=
  if basename = "" then []
  else if basename = "." then [.curDir]
  else if basename = ".." then [.parentDir]
  else [.normal basename]

/-- The `anyhow::Error`s of building the tree. -/
inductive AddEntryError where
  /-- "No parent directory: {path}" -/
  | noParentDirectory
  /-- "Absolute path is not supported" -/
  | absolutePath
  /-- "Unknown directory inode {inode}" -/
  | unknownDirectoryInode (inode : Inode)
  /-- "Unexpected to find a duplicated inode" -/
  | duplicatedInode
  /-- "Path is not canonical: {path}" -/
  | notCanonical
  /-- "Bad file name: {path}" -/
  | badFileName
  /-- An `io::Error` of a directory. -/
  | io (e : IoError)

namespace AuthFs

/-- `AuthFs::new`: the empty read-only root. -/
def new : AuthFs where
  inodeTable := (∅ : InodeTable).insert rootInode (InodeState.new (.readonlyDirectory InMemoryDir.new))
  nextInode := rootInode + 1
  dirHandleTable := ∅
  nextHandle := 1

/-! ## Building the tree -/

/-- Add `name` as a new entry with `newInode` to the read-only directory `dir` of the state `st`
at `dirInode`, and the new inode's state to the table; a `None` from the table's `insert` is the
only success. -/
def insertNewEntry (s : AuthFs) (dirInode : Inode) (st : InodeState) (dir : InMemoryDir)
    (newInode : Inode) (newState : InodeState) : Except AddEntryError Inode × AuthFs :=
  let table := s.inodeTable.insert dirInode { st with entry := .readonlyDirectory dir }
  let s := { s with inodeTable := table.insert newInode newState }
  if newInode ∈ table then (.error .duplicatedInode, s) else (.ok newInode, s)

/-- One step of the walk of `add_entry_at_ro_dir_by_path` down the parent path: the directory the
component names, created as a read-only directory when it does not exist. -/
def walkStep (s : AuthFs) (currentDirInode : Inode) :
    Component → Outcome Empty (Except AddEntryError Inode × AuthFs)
  | .rootDir => ok (.error .absolutePath, s)
  | .normal name =>
    match s.inodeTable.lookup currentDirInode with
    | none => ok (.error (.unknownDirectoryInode currentDirInode), s)
    | some st =>
      match st.entry with
      | .readonlyDirectory dir =>
        match dir.lookupInode name with
        | some existingInode => ok (.ok existingInode, s)
        | none =>
          let newInode := s.nextInode
          let s := { s with nextInode := fetchAddOne s.nextInode }
          match dir.addDir name newInode with
          | .error e => ok (.error (.io e), s)
          | .ok dir =>
            ok (insertNewEntry s currentDirInode st dir newInode
              (InodeState.new (.readonlyDirectory InMemoryDir.new)))
      -- `unreachable!("Not a ReadonlyDirectory")`
      | _ => panic
  | _ => ok (.error .notCanonical, s)

/-- The `try_fold` of the walk down the parent path. -/
def walkParent : List Component → AuthFs → Inode →
    Outcome Empty (Except AddEntryError Inode × AuthFs)
  | [], s, dirInode => ok (.ok dirInode, s)
  | c :: cs, s, dirInode => do
    let (r, s) ← walkStep s dirInode c
    match r with
    | .error e => pure (.error e, s)
    | .ok dirInode => walkParent cs s dirInode

/-- `add_entry_at_ro_dir_by_path`: the entry at `path` below the read-only directory `dirInode`,
with the directories on the way created. -/
def addEntryAtRoDirByPath (s : AuthFs) (dirInode : Inode) (path : List Component)
    (entry : AuthFsEntry) : Outcome Empty (Except AddEntryError Inode × AuthFs) :=
  match pathParent path with
  | none => ok (.error .noParentDirectory, s)
  | some parentPath => do
    let (r, s) ← walkParent parentPath s dirInode
    match r with
    | .error e => pure (.error e, s)
    | .ok parentInode =>
      match s.inodeTable.lookup parentInode with
      -- `expect("previously returned inode")`
      | none => panic
      | some st =>
        match st.entry with
        | .readonlyDirectory dir =>
          match pathFileName path with
          | none => pure (.error .badFileName, s)
          | some basename =>
            let newInode := s.nextInode
            let s := { s with nextInode := fetchAddOne s.nextInode }
            match dir.addFile basename newInode with
            | .error e => pure (.error (.io e), s)
            | .ok dir => pure (insertNewEntry s parentInode st dir newInode (InodeState.new entry))
        -- `unreachable!("Not a ReadonlyDirectory")`
        | _ => panic

/-- `add_entry_at_root_dir`. -/
def addEntryAtRootDir (s : AuthFs) (basename : String) (entry : AuthFsEntry) :
    Outcome Empty (Except AddEntryError Inode × AuthFs) :=
  match validateBasename basename with
  | .error e => ok (.error (.io e), s)
  | .ok () => addEntryAtRoDirByPath s rootInode (basenameComponents basename) entry

end AuthFs

/-! ## Attributes -/

/-- The fields of `stat64` that `create_stat` and `create_dir_stat` set to other than zero, but
for `st_blksize`, which is always the chunk size. -/
structure Stat where
  ino : Nat
  mode : Nat
  nlink : Nat
  size : Int
  blocks : Nat

/-- `AccessMode`. -/
inductive AccessMode where
  | readOnly
  | variable (mode : Nat)

/-- `S_IRUSR`. -/
def S_IRUSR : Nat := 0o400
/-- `S_IXUSR`. -/
def S_IXUSR : Nat := 0o100
/-- `S_IXGRP`. -/
def S_IXGRP : Nat := 0o10
/-- `S_IXOTH`. -/
def S_IXOTH : Nat := 0o1

/-- `create_stat`: the size and the number of 512-byte blocks must fit an `i64`. -/
def createStat (ino fileSize : Nat) (accessMode : AccessMode) : Except IoError Stat :=
  let mode := match accessMode with
    | .readOnly => S_IFREG ||| S_IRUSR
    | .variable mode => S_IFREG ||| mode
  if 2 ^ 63 ≤ fileSize then .error (.os EFBIG)
  else
    let blocks := (fileSize + 512 - 1) / 512
    if 2 ^ 63 ≤ blocks then .error (.os EFBIG)
    else .ok ⟨ino, mode, 1, fileSize, blocks⟩

/-- `create_dir_stat`: two links more than entries, for `.` and `..`, in a `u16`. -/
def createDirStat (ino fileNumber : Nat) (accessMode : AccessMode) : Except IoError Stat :=
  let mode := match accessMode with
    | .readOnly => S_IFDIR ||| S_IXUSR ||| S_IRUSR ||| S_IXGRP ||| S_IXOTH
    | .variable mode => S_IFDIR ||| mode
  if 2 ^ 16 ≤ fileNumber + 2 then .error (.os EOVERFLOW)
  else .ok ⟨ino, mode, fileNumber + 2, 0, 0⟩

/-- The attributes of an entry, as `lookup` and `getattr` compute them. -/
def entryStat (inode : Inode) : AuthFsEntry → Except IoError Stat
  | .readonlyDirectory dir => createDirStat inode dir.numberOfEntries .readOnly
  | .unverifiedReadonly fileSize => createStat inode fileSize .readOnly
  | .verifiedReadonly reader => reader.fileSize >>= fun size ↦ createStat inode size .readOnly
  | .verifiedNew editor attr => createStat inode editor.size (.variable attr.mode)
  | .verifiedNewDirectory dir attr =>
    createDirStat inode dir.numberOfEntries (.variable attr.mode)

/-- `SetattrValid`: the fields of the request that `setattr` reads. -/
structure SetattrValid where
  mode : Bool
  uid : Bool
  gid : Bool
  size : Bool

/-- The fields of `in_attr` that `setattr` reads. -/
structure InAttr where
  stSize : Int
  stMode : Nat

/-- `check_unsupported_setattr_request`. -/
def checkUnsupportedSetattrRequest (valid : SetattrValid) : Except IoError Unit :=
  if valid.uid then .error (.os ENOSYS)
  else if valid.gid then .error (.os ENOSYS)
  else .ok ()

/-- `mode & !umask` on `u32`s. -/
def maskMode (mode umask : Nat) : Nat := mode &&& (0xFFFFFFFF - umask)

namespace AuthFs

/-! ## Serving -/

/-- `handle_inode_locked`. -/
def handleInodeLocked {R : Type} (table : InodeTable) (inode : Inode)
    (handleFn : InodeState → Except IoError R) : Except IoError R :=
  match table.lookup inode with
  | some st => handleFn st
  | none => .error (.os ENOENT)

/-- `FileSystem::lookup`: the inode of `name` in `parent`, whose reference count goes up. -/
def lookup (s : AuthFs) (parent : Inode) (name : String) :
    Outcome Empty (Except IoError (Inode × Stat) × AuthFs) :=
  match handleInodeLocked s.inodeTable parent fun st ↦ match st.entry with
      | .readonlyDirectory dir =>
        match dir.lookupInode name with
        | some inode => .ok inode
        | none => .error (.os ENOENT)
      | .verifiedNewDirectory dir _ => dir.findInode name
      | _ => .error (.os ENOTDIR) with
  | .error e => ok (.error e, s)
  | .ok inode =>
    match s.inodeTable.lookup inode with
    | none => ok (.error (.os ENOENT), s)
    | some st =>
      match entryStat inode st.entry with
      | .error e => ok (.error e, s)
      | .ok stat =>
        -- `panic!("Handle reference count overflow")`
        if st.handleRefCount = 2 ^ 64 - 1 then panic
        else
          let st := { st with handleRefCount := st.handleRefCount + 1 }
          ok (.ok (inode, stat), { s with inodeTable := s.inodeTable.insert inode st })

/-- `FileSystem::getattr`. -/
def getattr (s : AuthFs) (inode : Inode) : Except IoError Stat :=
  handleInodeLocked s.inodeTable inode fun st ↦ entryStat inode st.entry

/-- `FileSystem::forget`: the count goes down, and an unlinked inode nobody refers to is removed.
Forgetting more than the count panics; an unknown inode is only logged. -/
def forget (s : AuthFs) (inode : Inode) (count : Nat) : Outcome Empty AuthFs :=
  match s.inodeTable.lookup inode with
  | none => ok s
  | some st =>
    if st.handleRefCount < count then panic
    else
      let current := st.handleRefCount - count
      if st.unlinked ∧ current = 0 then ok { s with inodeTable := s.inodeTable.erase inode }
      else ok { s with inodeTable := s.inodeTable.insert inode { st with handleRefCount := current } }

/-- `create_new_entry_with_ref_count`: `createFn` gets the parent's entry, the name and a new inode,
and returns the parent's entry after it and the new entry, which enters the table with one
reference.  The inode number is taken even when `createFn` fails. -/
def createNewEntryWithRefCount (s : AuthFs) (parentInode : Inode) (name : String)
    (createFn : AuthFsEntry → String → Inode → Except IoError (AuthFsEntry × AuthFsEntry)) :
    Outcome Empty (Except IoError Inode × AuthFs) :=
  match s.inodeTable.lookup parentInode with
  | none => ok (.error (.os ENOENT), s)
  | some st =>
    let newInode := s.nextInode
    let s := { s with nextInode := fetchAddOne s.nextInode }
    match createFn st.entry name newInode with
    | .error e => ok (.error e, s)
    | .ok (entry, newFileEntry) =>
      let table := s.inodeTable.insert parentInode { st with entry := entry }
      -- `unreachable!("Unexpected duplication of inode {}")`
      if newInode ∈ table then panic
      else
        let table := table.insert newInode (InodeState.newWithRefCount newFileEntry 1)
        ok (.ok newInode, { s with inodeTable := table })

/-- `FileSystem::create`: a new file in a writable directory. -/
def create (svc : VirtFdService) (s : AuthFs) (parent : Inode) (name : String) (mode umask : Nat) :
    Outcome Empty (Except IoError (Inode × Stat) × AuthFs) := do
  let (r, s) ← createNewEntryWithRefCount s parent name fun parentEntry basename newInode ↦
    match parentEntry with
    | .verifiedNewDirectory dir attr =>
      if dir.hasEntry basename then .error (.os EEXIST)
      else do
        let (dir, newFile, newAttr) ← dir.createFile svc basename newInode (maskMode mode umask)
        pure (.verifiedNewDirectory dir attr, .verifiedNew newFile newAttr)
    | _ => .error (.os EBADF)
  match r with
  | .error e => pure (.error e, s)
  | .ok newInode => pure ((createStat newInode 0 (.variable mode)).map ((newInode, ·)), s)

/-- `FileSystem::mkdir`: a new directory in a writable directory. -/
def mkdir (svc : VirtFdService) (s : AuthFs) (parent : Inode) (name : String) (mode umask : Nat) :
    Outcome Empty (Except IoError (Inode × Stat) × AuthFs) := do
  let (r, s) ← createNewEntryWithRefCount s parent name fun parentEntry basename newInode ↦
    match parentEntry with
    | .verifiedNewDirectory dir attr =>
      if dir.hasEntry basename then .error (.os EEXIST)
      else do
        let (dir, newDir, newAttr) ← dir.mkdir svc basename newInode (maskMode mode umask)
        pure (.verifiedNewDirectory dir attr, .verifiedNewDirectory newDir newAttr)
    | .readonlyDirectory _ => .error (.os EACCES)
    | _ => .error (.os EBADF)
  match r with
  | .error e => pure (.error e, s)
  | .ok newInode => pure ((createDirStat newInode 0 (.variable mode)).map ((newInode, ·)), s)

/-- `FileSystem::unlink`: the file's name is removed from the writable directory `parent`, and the
`unlinked` flag set, on the state the closure is given, which is `parent`'s. -/
def unlink (s : AuthFs) (parent : Inode) (name : String) :
    Outcome Empty (Except IoError Unit × AuthFs) :=
  match s.inodeTable.lookup parent with
  | none => ok (.error (.os ENOENT), s)
  | some st =>
    match st.entry with
    | .verifiedNewDirectory dir attr =>
      match dir.deleteFile name with
      | .error e => ok (.error e, s)
      | .ok (dir, _) =>
        let st := { st with entry := .verifiedNewDirectory dir attr, unlinked := true }
        ok (.ok (), { s with inodeTable := s.inodeTable.insert parent st })
    | .readonlyDirectory _ => ok (.error (.os EACCES), s)
    | .verifiedNew _ _ => ok (.error (.os ENOSYS), s)
    | .unverifiedReadonly _ | .verifiedReadonly _ => ok (.error (.os ENOTDIR), s)

/-- The check of `rmdir`: `name` in the writable directory `parent` is an empty writable
directory. -/
def rmdirCheck (s : AuthFs) (parent : Inode) (name : String) : Except IoError Unit :=
  handleInodeLocked s.inodeTable parent fun st ↦ match st.entry with
    | .verifiedNewDirectory dir _ => do
      let existingInode ← dir.findInode name
      handleInodeLocked s.inodeTable existingInode fun st ↦
        st.entry.expectEmptyDeletableDirectory
    | .readonlyDirectory _ => .error (.os EACCES)
    | _ => .error (.os ENOTDIR)

/-- `FileSystem::rmdir`: after the check, the name is removed and the `unlinked` flag set, on
`parent`'s state as in `unlink`. -/
def rmdir (s : AuthFs) (parent : Inode) (name : String) :
    Outcome Empty (Except IoError Unit × AuthFs) :=
  match rmdirCheck s parent name with
  | .error e => ok (.error e, s)
  | .ok () =>
    match s.inodeTable.lookup parent with
    | none => ok (.error (.os ENOENT), s)
    | some st =>
      match st.entry with
      | .verifiedNewDirectory dir attr =>
        match dir.forceDeleteDirectory name with
        | .error e => ok (.error e, s)
        | .ok (dir, _) =>
          let st := { st with entry := .verifiedNewDirectory dir attr, unlinked := true }
          ok (.ok (), { s with inodeTable := s.inodeTable.insert parent st })
      -- `unreachable!("Mismatched entry type that is just checked")`
      | _ => panic

/-- `open_dir_store_snapshot`: the snapshot under a new handle. -/
def openDirStoreSnapshot (s : AuthFs) (dirEntries : List AuthFsDirEntry) :
    Outcome Empty (Except IoError Nat × AuthFs) :=
  let handle := s.nextHandle
  let s := { s with nextHandle := fetchAddOne s.nextHandle }
  -- `unreachable!("Unexpected to see new handle {} to existing in the table")`
  if handle ∈ s.dirHandleTable then panic
  else ok (.ok handle, { s with dirHandleTable := s.dirHandleTable.insert handle dirEntries })

/-- `FileSystem::opendir`: a snapshot of the directory's entries. -/
def opendir (s : AuthFs) (inode : Inode) : Outcome Empty (Except IoError Nat × AuthFs) :=
  match handleInodeLocked s.inodeTable inode fun st ↦ match st.entry with
      | .verifiedNewDirectory dir _ => dir.retrieveEntries
      | .readonlyDirectory dir => dir.retrieveEntries
      | _ => .error (.os ENOTDIR) with
  | .error e => ok (.error e, s)
  | .ok entries => openDirStoreSnapshot s entries

/-- `FileSystem::releasedir`: an unknown handle is `unreachable!`. -/
def releasedir (s : AuthFs) (handle : Nat) : Outcome Empty (Except IoError Unit × AuthFs) :=
  if handle ∈ s.dirHandleTable then
    ok (.ok (), { s with dirHandleTable := s.dirHandleTable.erase handle })
  else panic

/-- `FileSystem::setattr` of a file the VM writes: the size through the editor's `resize`, which
changes the editor even when it fails, then the mode. -/
def setattrFile (sha : List UInt8 → Sha256Hash) (F : BackingFile RemoteFileEditor)
    (svc : VirtFdService) (inode : Inode) (editor : VerifiedFileEditor RemoteFileEditor) (attr : Attr)
    (inAttr : InAttr) (valid : SetattrValid) :
    Outcome Empty (Except IoError Stat × VerifiedFileEditor RemoteFileEditor × Attr) :=
  match checkUnsupportedSetattrRequest valid, createStat inode editor.size (.variable attr.mode) with
  | .error e, _ => ok (.error e, editor, attr)
  | .ok (), .error e => ok (.error e, editor, attr)
  | .ok (), .ok newAttr => do
    let (r, editor, newAttr) ← if valid.size then do
        let (r, editor) ← VerifiedFileEditor.resize sha F editor (inAttr.stSize % 2 ^ 64).toNat
        pure (r, editor, { newAttr with size := inAttr.stSize })
      else pure (.ok (), editor, newAttr)
    match r with
    | .error e => pure (.error e, editor, attr)
    | .ok () =>
      if valid.mode then
        match attr.setMode svc inAttr.stMode with
        | .error e => pure (.error e, editor, attr)
        | .ok attr => pure (.ok { newAttr with mode := inAttr.stMode }, editor, attr)
      else pure (.ok newAttr, editor, attr)

/-- `FileSystem::setattr` of a directory the VM writes: only the mode. -/
def setattrDir (svc : VirtFdService) (inode : Inode) (dir : RemoteDirEditor) (attr : Attr)
    (inAttr : InAttr) (valid : SetattrValid) : Except IoError Stat × Attr :=
  match checkUnsupportedSetattrRequest valid with
  | .error e => (.error e, attr)
  | .ok () =>
    if valid.size then (.error (.os EISDIR), attr)
    else
      match createDirStat inode dir.numberOfEntries (.variable attr.mode) with
      | .error e => (.error e, attr)
      | .ok newAttr =>
        if valid.mode then
          match attr.setMode svc inAttr.stMode with
          | .error e => (.error e, attr)
          | .ok attr => (.ok { newAttr with mode := inAttr.stMode }, attr)
        else (.ok newAttr, attr)

/-- `FileSystem::setattr`: only files and directories the VM writes take it. -/
def setattr (sha : List UInt8 → Sha256Hash) (F : BackingFile RemoteFileEditor)
    (svc : VirtFdService) (s : AuthFs) (inode : Inode) (inAttr : InAttr) (valid : SetattrValid) :
    Outcome Empty (Except IoError Stat × AuthFs) :=
  match s.inodeTable.lookup inode with
  | none => ok (.error (.os ENOENT), s)
  | some st =>
    match st.entry with
    | .verifiedNew editor attr => do
      let (r, editor, attr) ← setattrFile sha F svc inode editor attr inAttr valid
      let st := { st with entry := .verifiedNew editor attr }
      pure (r, { s with inodeTable := s.inodeTable.insert inode st })
    | .verifiedNewDirectory dir attr =>
      let (r, attr) := setattrDir svc inode dir attr inAttr valid
      let st := { st with entry := .verifiedNewDirectory dir attr }
      ok (r, { s with inodeTable := s.inodeTable.insert inode st })
    | _ => ok (.error (.os EPERM), s)

/-! ## Runs -/

/-- A request of the kernel that reads or changes the inode table. -/
inductive Request where
  | lookup (parent : Inode) (name : String)
  | forget (inode : Inode) (count : Nat)
  | create (parent : Inode) (name : String) (mode umask : Nat)
  | mkdir (parent : Inode) (name : String) (mode umask : Nat)
  | unlink (parent : Inode) (name : String)
  | rmdir (parent : Inode) (name : String)
  | opendir (inode : Inode)
  | releasedir (inode handle : Nat)
  | setattr (inode : Inode) (inAttr : InAttr) (valid : SetattrValid)

/-- The state after serving a request, whatever the reply. -/
def serve (sha : List UInt8 → Sha256Hash) (F : BackingFile RemoteFileEditor)
    (svc : VirtFdService) : Request → AuthFs → Outcome Empty AuthFs
  | .lookup parent name, s => Prod.snd <$> s.lookup parent name
  | .forget inode count, s => s.forget inode count
  | .create parent name mode umask, s => Prod.snd <$> create svc s parent name mode umask
  | .mkdir parent name mode umask, s => Prod.snd <$> mkdir svc s parent name mode umask
  | .unlink parent name, s => Prod.snd <$> s.unlink parent name
  | .rmdir parent name, s => Prod.snd <$> s.rmdir parent name
  | .opendir inode, s => Prod.snd <$> s.opendir inode
  | .releasedir _ handle, s => Prod.snd <$> s.releasedir handle
  | .setattr inode inAttr valid, s => Prod.snd <$> setattr sha F svc s inode inAttr valid

/-- The states AuthFS reaches from `AuthFs::new` by building the tree and serving requests, with
any replies of the `fd_server` and any behaviour of its files. -/
inductive Reachable (sha : List UInt8 → Sha256Hash) : AuthFs → Prop
  | new : Reachable sha AuthFs.new
  | addEntryAtRootDir {s s' : AuthFs} (basename : String) (entry : AuthFsEntry)
      (r : Except AddEntryError Inode) :
      Reachable sha s → addEntryAtRootDir s basename entry = ok (r, s') → Reachable sha s'
  | addEntryAtRoDirByPath {s s' : AuthFs} (dirInode : Inode) (path : List Component)
      (entry : AuthFsEntry) (r : Except AddEntryError Inode) :
      Reachable sha s → addEntryAtRoDirByPath s dirInode path entry = ok (r, s') → Reachable sha s'
  | serve {s s' : AuthFs} (F : BackingFile RemoteFileEditor) (svc : VirtFdService)
      (req : Request) : Reachable sha s → serve sha F svc req s = ok s' → Reachable sha s'

end AuthFs

end Virtualization.AuthFs
