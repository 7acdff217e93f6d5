import Virtualization.ZipFuse.Main
import Virtualization.Lib.Transition

/-!
# `zipfuse` serving the kernel, over every run

The FUSE loop calls `open`, `release`, `read`, `opendir`, `releasedir` and `readdir` in any order,
with any inode and handle.  `ZipFuse.serve` takes one such request: the tables become what the
handler leaves when it succeeds, stay as they were when it fails, and a panic ends the run.

From a server `ZipFuse::new` builds, every run keeps the archive and the inode table as built, and
keeps two facts about the tables (`Wf`): each entry is counted, and each holds what a fresh `open`
or `opendir` of its inode would keep.  So a `read` of any open file serves the file's bytes in the
archive, and paging through any open directory lists the directory's entries, however often the
file or directory was opened and released before.

`release` compares the count less one with zero and never stores it.  A file opened once and then
released is forgotten, and the tables are what they were before the `open`; a file opened twice
keeps a count of two or more whatever requests follow, so its buffer is never freed.  Directories
behave the same way under `opendir` and `releasedir`.
-/

set_option linter.dupNamespace false

namespace Virtualization.ZipFuse

open Outcome Transition

/-- A request of the kernel that reads or changes the tables of open files and directories. -/
inductive Request where
  | «open» (inode : Inode)
  | release (inode : Inode)
  | read (handle : Handle) (size offset : Nat)
  | opendir (inode : Inode)
  | releasedir (inode : Inode)
  | readdir (inode : Inode) (size offset : Nat)

/-- The bytes of an archive entry: a stored entry's data, where it lies inside the archive, and a
compressed entry's bytes read to the end. -/
def ZipFileData.bytes (rawFile : List UInt8) (zipFile : ZipFileData) : Option (List UInt8) :=
  if zipFile.stored then
    if zipFile.dataStart + zipFile.size ≤ rawFile.length then
      some (bytesAt rawFile zipFile.dataStart zipFile.size)
    else none
  else zipFile.readToEnd.toOption

/-- The snapshot `opendir` takes of a directory: its entries, in its order. -/
def snapshot (directory : AList fun _ : String ↦ DirectoryEntry) : List (String × DirectoryEntry) :=
  directory.entries.map fun entry ↦ (entry.1, entry.2)

namespace ZipFuse

/-- `ZipFuse::new`, once the archive is open: the inode table of its entries, and nothing open. -/
def new (entries : List ZipEntry) (zipArchive : List ZipFileData) (rawFile : List UInt8) :
    Outcome ZipError ZipFuse := do
  let inodeTable ← InodeTable.fromZip entries
  pure ⟨zipArchive, rawFile, inodeTable, ∅, ∅⟩

/-- The state a handler leaves: its own on success, the one before on an error, and none on a
panic. -/
def settle {α : Type} (z : ZipFuse) (after : α → ZipFuse) : Outcome IoError α → Option ZipFuse
  | .ok a => some (after a)
  | .err _ => some z
  | .panic => none

/-- Serving one request. -/
def serve (z : ZipFuse) : Request → Option ZipFuse
  | .open inode => settle z Prod.snd (z.open inode)
  | .release inode => settle z id (z.release inode)
  | .read handle size offset => settle z (fun _ ↦ z) (z.read handle size offset)
  | .opendir inode => settle z Prod.snd (z.opendir inode)
  | .releasedir inode => settle z id (z.releasedir inode)
  | .readdir inode size offset => settle z (fun _ ↦ z) (z.readdir inode size offset)

/-- The index and the entry of the archive that the file of inode `inode` is. -/
def fileEntry (z : ZipFuse) (inode : Inode) : Option (Nat × ZipFileData) := do
  let inodeData ← z.inodeTable.get inode
  let zipIndex ← inodeData.getZipIndex
  let zipFile ← z.zipArchive[zipIndex]?
  pure (zipIndex, zipFile)

/-- The directory of inode `inode`. -/
def dirOf (z : ZipFuse) (inode : Inode) : Option (AList fun _ : String ↦ DirectoryEntry) :=
  (z.inodeTable.get inode).bind InodeData.getDirectory

/-- `content` is what `open` keeps of the file of inode `inode` when it is not open: the index of a
stored entry, or the bytes of a compressed one, read to its end. -/
def OpensTo (z : ZipFuse) (inode : Inode) (content : OpenFileContent) : Prop :=
  ∃ zipIndex zipFile, z.fileEntry inode = some (zipIndex, zipFile) ∧
    if zipFile.stored then content = .uncompressed zipIndex
    else ∃ buf, zipFile.readToEnd = .ok buf ∧ content = .compressed buf

/-- `buf` is the snapshot `opendir` takes of the directory of inode `inode`. -/
def SnapshotOf (z : ZipFuse) (inode : Inode) (buf : List (String × DirectoryEntry)) : Prop :=
  ∃ directory, z.dirOf inode = some directory ∧ buf = snapshot directory

/-- What every run from a fresh server keeps: each entry of the tables is counted, and holds what a
fresh `open` or `opendir` of its inode keeps. -/
structure Wf (z : ZipFuse) : Prop where
  files : ∀ handle file, z.openFiles.lookup handle = some file →
    0 < file.openCount ∧ z.OpensTo handle file.content
  dirs : ∀ handle odb, z.openDirs.lookup handle = some odb →
    0 < odb.openCount ∧ z.SnapshotOf handle odb.buf

end ZipFuse

/-! ## The tables -/

section Tables

variable {α β : Type} [DecidableEq α] {s : AList fun _ : α ↦ β} {a b : α} {x y : β}

theorem lookup_insert_eq_some :
    (s.insert a x).lookup b = some y ↔ b = a ∧ x = y ∨ b ≠ a ∧ s.lookup b = some y := by
  by_cases h : b = a
  · subst h
    simp [AList.lookup_insert]
  · simp [AList.lookup_insert_ne h, h]

theorem lookup_of_lookup_erase (h : (s.erase a).lookup b = some y) :
    b ≠ a ∧ s.lookup b = some y := by
  by_cases hb : b = a
  · subst hb
    rw [AList.lookup_erase] at h
    cases h
  · exact ⟨hb, by rwa [AList.lookup_erase_ne hb] at h⟩

/-- Erasing a key just inserted into a table without it gives the table back. -/
theorem erase_insert_of_notMem (h : a ∉ s) : (s.insert a x).erase a = s :=
  AList.ext <| by
    show (s.insert a x).entries.kerase a = s.entries
    rw [AList.entries_insert_of_notMem h]
    exact List.kerase_cons_eq rfl

end Tables

namespace ZipFuse

/-! ## What each handler does to the tables -/

section Handlers

variable {z z' : ZipFuse} {inode handle : Inode}

theorem settle_eq_some {α : Type} {after : α → ZipFuse} {x : Outcome IoError α} :
    settle z after x = some z' ↔ (∃ a, x = ok a ∧ after a = z') ∨ (∃ e, x = err e) ∧ z' = z := by
  cases x <;> simp [settle, eq_comm]

theorem fileEntry_eq_some {zipIndex : Nat} {zipFile : ZipFileData} :
    z.fileEntry inode = some (zipIndex, zipFile) ↔ ∃ inodeData,
      z.inodeTable.get inode = some inodeData ∧ inodeData.getZipIndex = some zipIndex ∧
        z.zipArchive[zipIndex]? = some zipFile := by
  simp [fileEntry, Option.bind_eq_some_iff]

/-- `open` counts a file already open once more, below `u32::MAX`, and keeps a file not open with a
count of one and what a fresh `open` keeps. -/
theorem open_eq_ok (h : z.open inode = ok (handle, z')) :
    handle = inode ∧ ∃ file', z' = { z with openFiles := z.openFiles.insert inode file' } ∧
      ((∃ file, z.openFiles.lookup inode = some file ∧ 0 < file.openCount ∧
          file.openCount + 1 < 2 ^ 32 ∧ file' = { file with openCount := file.openCount + 1 }) ∨
        (z.openFiles.lookup inode = none ∧ file'.openCount = 1 ∧ z.OpensTo inode file'.content)) := by
  unfold ZipFuse.open at h
  dsimp only at h
  split at h
  next file hfile =>
    split_ifs at h with hzero
    obtain ⟨openCount, hcount, hret⟩ := bind_eq_ok.mp h
    obtain ⟨hlt, rfl⟩ := checkedAdd_eq_ok.mp hcount
    cases hret
    exact ⟨rfl, _, rfl, .inl ⟨file, hfile, Nat.pos_of_ne_zero hzero, hlt, rfl⟩⟩
  next hnone =>
    obtain ⟨inodeData, hdata, h₁⟩ := bind_eq_ok.mp h
    obtain ⟨zipIndex, hindex, h₂⟩ := bind_eq_ok.mp h₁
    obtain ⟨zipFile, hzip, h₃⟩ := bind_eq_ok.mp h₂
    have hentry : z.fileEntry inode = some (zipIndex, zipFile) :=
      fileEntry_eq_some.mpr ⟨inodeData, okOr_eq_ok.mp hdata, okOr_eq_ok.mp hindex,
        okOr_eq_ok.mp hzip⟩
    split_ifs at h₃ with hstored hsize
    · rw [pure_eq, ok_bind, pure_eq] at h₃
      cases h₃
      exact ⟨rfl, _, rfl, .inr ⟨hnone, rfl, zipIndex, zipFile, hentry, by simp [hstored]⟩⟩
    · rw [panic_bind] at h₃
      cases h₃
    · obtain ⟨buf, hbuf, h₄⟩ := bind_eq_ok.mp h₃
      rw [pure_eq, ok_bind, pure_eq] at h₄
      cases h₄
      exact ⟨rfl, _, rfl,
        .inr ⟨hnone, rfl, zipIndex, zipFile, hentry, by simp [hstored, ofExcept_eq_ok.mp hbuf]⟩⟩

/-- `release` of a counted file forgets it at a count of one and leaves the tables otherwise. -/
theorem release_eq_ok (h : z.release inode = ok z') :
    ∃ file, z.openFiles.lookup inode = some file ∧ 0 < file.openCount ∧
      (file.openCount = 1 ∧ z' = { z with openFiles := z.openFiles.erase inode } ∨
        1 < file.openCount ∧ z' = z) := by
  unfold release at h
  dsimp only at h
  split at h
  next file hfile =>
    split_ifs at h with hzero hone
    · cases h
      exact ⟨file, hfile, by omega, .inl ⟨by omega, rfl⟩⟩
    · cases h
      exact ⟨file, hfile, by omega, .inr ⟨by omega, rfl⟩⟩
  next => cases h

theorem release_of_lookup {file : OpenFile} (hfile : z.openFiles.lookup inode = some file) :
    z.release inode = if file.openCount = 0 then err ebadf
      else if file.openCount - 1 = 0 then ok { z with openFiles := z.openFiles.erase inode }
      else ok z := by
  rw [release, hfile]

/-- `opendir` counts a directory already open once more, below `u32::MAX`, and keeps a directory
not open with a count of one and its snapshot. -/
theorem opendir_eq_ok (h : z.opendir inode = ok (handle, z')) :
    handle = inode ∧ ∃ odb', z' = { z with openDirs := z.openDirs.insert inode odb' } ∧
      ((∃ odb, z.openDirs.lookup inode = some odb ∧ 0 < odb.openCount ∧
          odb.openCount + 1 < 2 ^ 32 ∧ odb' = { odb with openCount := odb.openCount + 1 }) ∨
        (z.openDirs.lookup inode = none ∧ odb'.openCount = 1 ∧ z.SnapshotOf inode odb'.buf)) := by
  unfold opendir at h
  dsimp only at h
  split at h
  next odb hodb =>
    split_ifs at h with hzero
    obtain ⟨openCount, hcount, hret⟩ := bind_eq_ok.mp h
    obtain ⟨hlt, rfl⟩ := checkedAdd_eq_ok.mp hcount
    cases hret
    exact ⟨rfl, _, rfl, .inl ⟨odb, hodb, Nat.pos_of_ne_zero hzero, hlt, rfl⟩⟩
  next hnone =>
    obtain ⟨inodeData, hdata, h₁⟩ := bind_eq_ok.mp h
    obtain ⟨directory, hdir, hret⟩ := bind_eq_ok.mp h₁
    cases hret
    have hdirOf : z.dirOf inode = some directory := by
      rw [dirOf, okOr_eq_ok.mp hdata, Option.bind_some, okOr_eq_ok.mp hdir]
    exact ⟨rfl, _, rfl, .inr ⟨hnone, rfl, directory, hdirOf, rfl⟩⟩

/-- `releasedir`, as `release`. -/
theorem releasedir_eq_ok (h : z.releasedir inode = ok z') :
    ∃ odb, z.openDirs.lookup inode = some odb ∧ 0 < odb.openCount ∧
      (odb.openCount = 1 ∧ z' = { z with openDirs := z.openDirs.erase inode } ∨
        1 < odb.openCount ∧ z' = z) := by
  unfold releasedir at h
  dsimp only at h
  split at h
  next odb hodb =>
    split_ifs at h with hzero hone
    · cases h
      exact ⟨odb, hodb, by omega, .inl ⟨by omega, rfl⟩⟩
    · cases h
      exact ⟨odb, hodb, by omega, .inr ⟨by omega, rfl⟩⟩
  next => cases h

theorem releasedir_of_lookup {odb : OpenDirBuf} (hodb : z.openDirs.lookup inode = some odb) :
    z.releasedir inode = if odb.openCount = 0 then err ebadf
      else if odb.openCount - 1 = 0 then ok { z with openDirs := z.openDirs.erase inode }
      else ok z := by
  rw [releasedir, hodb]

/-- Everything serving a request can do: leave the state, or leave what one of the four handlers
that change the tables leaves. -/
theorem serve_cases {req : Request} (h : z.serve req = some z') :
    z' = z ∨ (∃ inode handle, z.open inode = ok (handle, z')) ∨ (∃ inode, z.release inode = ok z') ∨
      (∃ inode handle, z.opendir inode = ok (handle, z')) ∨
        (∃ inode, z.releasedir inode = ok z') := by
  cases req with
  | «open» inode =>
    rcases settle_eq_some.mp h with ⟨⟨handle, z₁⟩, hopen, rfl⟩ | ⟨-, rfl⟩
    · exact .inr (.inl ⟨inode, handle, hopen⟩)
    · exact .inl rfl
  | release inode =>
    rcases settle_eq_some.mp h with ⟨z₁, hrel, rfl⟩ | ⟨-, rfl⟩
    · exact .inr (.inr (.inl ⟨inode, hrel⟩))
    · exact .inl rfl
  | read handle size offset =>
    rcases settle_eq_some.mp h with ⟨-, -, rfl⟩ | ⟨-, rfl⟩ <;> exact .inl rfl
  | opendir inode =>
    rcases settle_eq_some.mp h with ⟨⟨handle, z₁⟩, hopen, rfl⟩ | ⟨-, rfl⟩
    · exact .inr (.inr (.inr (.inl ⟨inode, handle, hopen⟩)))
    · exact .inl rfl
  | releasedir inode =>
    rcases settle_eq_some.mp h with ⟨z₁, hrel, rfl⟩ | ⟨-, rfl⟩
    · exact .inr (.inr (.inr (.inr ⟨inode, hrel⟩)))
    · exact .inl rfl
  | readdir inode size offset =>
    rcases settle_eq_some.mp h with ⟨-, -, rfl⟩ | ⟨-, rfl⟩ <;> exact .inl rfl

end Handlers

/-! ## The archive and the inode table never change -/

section Frame

variable {z z' : ZipFuse}

/-- Only the tables of open files and directories change. -/
structure SameArchive (z z' : ZipFuse) : Prop where
  zipArchive : z'.zipArchive = z.zipArchive
  rawFile : z'.rawFile = z.rawFile
  inodeTable : z'.inodeTable = z.inodeTable

theorem SameArchive.trans {z'' : ZipFuse} (h : SameArchive z z') (h' : SameArchive z' z'') :
    SameArchive z z'' :=
  ⟨h'.zipArchive.trans h.zipArchive, h'.rawFile.trans h.rawFile, h'.inodeTable.trans h.inodeTable⟩

theorem serve_sameArchive {req : Request} (h : z.serve req = some z') : SameArchive z z' := by
  rcases serve_cases h with rfl | ⟨inode, _, hopen⟩ | ⟨inode, hrel⟩ | ⟨inode, _, hopen⟩ |
      ⟨inode, hrel⟩
  · exact ⟨rfl, rfl, rfl⟩
  · obtain ⟨-, file', rfl, -⟩ := open_eq_ok hopen
    exact ⟨rfl, rfl, rfl⟩
  · obtain ⟨file, -, -, ⟨-, rfl⟩ | ⟨-, rfl⟩⟩ := release_eq_ok hrel <;> exact ⟨rfl, rfl, rfl⟩
  · obtain ⟨-, odb', rfl, -⟩ := opendir_eq_ok hopen
    exact ⟨rfl, rfl, rfl⟩
  · obtain ⟨odb, -, -, ⟨-, rfl⟩ | ⟨-, rfl⟩⟩ := releasedir_eq_ok hrel <;> exact ⟨rfl, rfl, rfl⟩

theorem sameArchive_of_run {reqs : List Request} (h : run serve z reqs = some z') :
    SameArchive z z' :=
  inv_of_run (I := SameArchive z) (fun _ _ _ hs hstep ↦ hs.trans (serve_sameArchive hstep)) h
    ⟨rfl, rfl, rfl⟩

theorem SameArchive.fileEntry (h : SameArchive z z') : z'.fileEntry = z.fileEntry := by
  funext inode
  rw [ZipFuse.fileEntry, ZipFuse.fileEntry, h.inodeTable, h.zipArchive]

theorem SameArchive.dirOf (h : SameArchive z z') : z'.dirOf = z.dirOf := by
  funext inode
  rw [ZipFuse.dirOf, ZipFuse.dirOf, h.inodeTable]

theorem SameArchive.opensTo (h : SameArchive z z') : z'.OpensTo = z.OpensTo := by
  funext inode content
  rw [OpensTo, OpensTo, h.fileEntry]

theorem SameArchive.snapshotOf (h : SameArchive z z') : z'.SnapshotOf = z.SnapshotOf := by
  funext inode buf
  rw [SnapshotOf, SnapshotOf, h.dirOf]

end Frame

/-! ## The tables stay counted and coherent with the archive -/

section Invariant

variable {z z' : ZipFuse} {inode handle : Inode}

theorem open_wf (hw : Wf z) (h : z.open inode = ok (handle, z')) : Wf z' := by
  obtain ⟨-, file', rfl, hfile'⟩ := open_eq_ok h
  have hnew : 0 < file'.openCount ∧ z.OpensTo inode file'.content := by
    rcases hfile' with ⟨file, hfile, -, -, rfl⟩ | ⟨-, hone, hopens⟩
    · exact ⟨Nat.succ_pos _, (hw.files _ _ hfile).2⟩
    · exact ⟨by omega, hopens⟩
  refine ⟨fun handle' file h' ↦ ?_, hw.dirs⟩
  rcases lookup_insert_eq_some.mp h' with ⟨rfl, rfl⟩ | ⟨-, h'⟩
  · exact hnew
  · exact hw.files _ _ h'

theorem release_wf (hw : Wf z) (h : z.release inode = ok z') : Wf z' := by
  obtain ⟨file, -, -, ⟨-, rfl⟩ | ⟨-, rfl⟩⟩ := release_eq_ok h
  · exact ⟨fun _ _ h' ↦ hw.files _ _ (lookup_of_lookup_erase h').2, hw.dirs⟩
  · exact hw

theorem opendir_wf (hw : Wf z) (h : z.opendir inode = ok (handle, z')) : Wf z' := by
  obtain ⟨-, odb', rfl, hodb'⟩ := opendir_eq_ok h
  have hnew : 0 < odb'.openCount ∧ z.SnapshotOf inode odb'.buf := by
    rcases hodb' with ⟨odb, hodb, -, -, rfl⟩ | ⟨-, hone, hsnap⟩
    · exact ⟨Nat.succ_pos _, (hw.dirs _ _ hodb).2⟩
    · exact ⟨by omega, hsnap⟩
  refine ⟨hw.files, fun handle' odb h' ↦ ?_⟩
  rcases lookup_insert_eq_some.mp h' with ⟨rfl, rfl⟩ | ⟨-, h'⟩
  · exact hnew
  · exact hw.dirs _ _ h'

theorem releasedir_wf (hw : Wf z) (h : z.releasedir inode = ok z') : Wf z' := by
  obtain ⟨odb, -, -, ⟨-, rfl⟩ | ⟨-, rfl⟩⟩ := releasedir_eq_ok h
  · exact ⟨hw.files, fun _ _ h' ↦ hw.dirs _ _ (lookup_of_lookup_erase h').2⟩
  · exact hw

theorem serve_wf {req : Request} (hw : Wf z) (h : z.serve req = some z') : Wf z' := by
  rcases serve_cases h with rfl | ⟨inode, _, hopen⟩ | ⟨inode, hrel⟩ | ⟨inode, _, hopen⟩ |
      ⟨inode, hrel⟩
  · exact hw
  · exact open_wf hw hopen
  · exact release_wf hw hrel
  · exact opendir_wf hw hopen
  · exact releasedir_wf hw hrel

variable {entries : List ZipEntry} {zipArchive : List ZipFileData} {rawFile : List UInt8}

theorem new_eq_ok (h : new entries zipArchive rawFile = ok z) :
    z.zipArchive = zipArchive ∧ z.rawFile = rawFile ∧ z.openFiles = ∅ ∧ z.openDirs = ∅ := by
  obtain ⟨inodeTable, -, hret⟩ := bind_eq_ok.mp h
  cases hret
  exact ⟨rfl, rfl, rfl, rfl⟩

theorem wf_new (h : new entries zipArchive rawFile = ok z) : Wf z := by
  obtain ⟨-, -, hfiles, hdirs⟩ := new_eq_ok h
  refine ⟨fun handle file hfile ↦ ?_, fun handle odb hodb ↦ ?_⟩
  · rw [hfiles, AList.lookup_empty] at hfile
    cases hfile
  · rw [hdirs, AList.lookup_empty] at hodb
    cases hodb

theorem wf_of_run {z₀ : ZipFuse} {reqs : List Request} (hnew : new entries zipArchive rawFile = ok z₀)
    (hrun : run serve z₀ reqs = some z) : Wf z :=
  inv_of_run (fun _ _ _ hw h ↦ serve_wf hw h) hrun (wf_new hnew)

end Invariant

/-! ## Serving from the tables agrees with the archive -/

section Serving

variable {entries : List ZipEntry} {zipArchive : List ZipFileData} {rawFile : List UInt8}
  {z₀ z : ZipFuse} {reqs : List Request}

/-- What `open` keeps of a file holds the file's bytes in the archive. -/
theorem holds_of_opensTo {inode : Inode} {file : OpenFile} (hopens : z.OpensTo inode file.content)
    {zipIndex : Nat} {zipFile : ZipFileData} (hentry : z.fileEntry inode = some (zipIndex, zipFile))
    {C : List UInt8} (hbytes : zipFile.bytes z.rawFile = some C) : file.Holds z C := by
  obtain ⟨zipIndex', zipFile', hentry', hcontent⟩ := hopens
  rw [hentry, Option.some.injEq, Prod.mk.injEq] at hentry'
  obtain ⟨rfl, rfl⟩ := hentry'
  obtain ⟨-, -, -, hzip⟩ := fileEntry_eq_some.mp hentry
  unfold OpenFile.Holds
  by_cases hstored : zipFile.stored
  · rw [if_pos hstored] at hcontent
    rw [ZipFileData.bytes, if_pos hstored] at hbytes
    split_ifs at hbytes with hinside
    rw [hcontent]
    exact ⟨zipFile, hzip, hinside, Option.some.inj hbytes⟩
  · rw [if_neg hstored] at hcontent
    obtain ⟨buf, hbuf, hc⟩ := hcontent
    rw [ZipFileData.bytes, if_neg hstored, hbuf] at hbytes
    rw [hc]
    exact Option.some.inj hbytes

/-- Every run from a fresh server leaves each open file counted and holding what a fresh `open` of
its inode keeps, and each open directory counted and holding its directory's snapshot, all as
the archive and the inode table were built. -/
theorem tables_of_run (hnew : new entries zipArchive rawFile = ok z₀)
    (hrun : run serve z₀ reqs = some z) :
    (∀ handle file, z.openFiles.lookup handle = some file →
      0 < file.openCount ∧ z₀.OpensTo handle file.content) ∧
    (∀ handle odb, z.openDirs.lookup handle = some odb →
      0 < odb.openCount ∧ ∃ directory, z₀.dirOf handle = some directory ∧
        odb.buf = snapshot directory) := by
  have hw := wf_of_run hnew hrun
  have hsame := sameArchive_of_run hrun
  refine ⟨fun handle file hfile ↦ ?_, fun handle odb hodb ↦ ?_⟩
  · obtain ⟨hpos, hopens⟩ := hw.files handle file hfile
    exact ⟨hpos, by rwa [hsame.opensTo] at hopens⟩
  · obtain ⟨hpos, hsnap⟩ := hw.dirs handle odb hodb
    rw [hsame.snapshotOf] at hsnap
    exact ⟨hpos, hsnap⟩

/-- An archive of one compressed file `a`: opened, released and opened again, the file is counted
once and kept as its bytes. -/
theorem tables_of_run_reopened :
    let root : InodeData := ⟨0, 0, .directory
      ((∅ : AList fun _ : String ↦ DirectoryEntry).insert "a" ⟨2, .file⟩)⟩
    let z₀ : ZipFuse :=
      ⟨[⟨false, 0, 1, .ok [0x61]⟩], [], ⟨[InodeData.newDir 0, root, ⟨1, 0, .file 0⟩]⟩, ∅, ∅⟩
    let z : ZipFuse := { z₀ with
      openFiles := (∅ : AList fun _ : Handle ↦ OpenFile).insert 2 ⟨1, .compressed [0x61]⟩ }
    new [⟨"a", some ["a"], true, none, 1⟩] [⟨false, 0, 1, .ok [0x61]⟩] [] = ok z₀ ∧
      run serve z₀ [.open 2, .release 2, .open 2] = some z ∧
      0 < 1 ∧ z₀.OpensTo 2 (.compressed [0x61]) := by
  intro root z₀ z
  have hnew : new [⟨"a", some ["a"], true, none, 1⟩] [⟨false, 0, 1, .ok [0x61]⟩] [] = ok z₀ := rfl
  have hrun : run serve z₀ [.open 2, .release 2, .open 2] = some z := rfl
  exact ⟨hnew, hrun, (tables_of_run hnew hrun).1 2 ⟨1, .compressed [0x61]⟩ rfl⟩

/-- In every state a run from a fresh server reaches, a `read` of any open file at an offset
inside it serves the file's bytes in the archive from that offset on. -/
theorem read_of_run (hnew : new entries zipArchive rawFile = ok z₀)
    (hrun : run serve z₀ reqs = some z) {handle : Handle} (hopen : handle ∈ z.openFiles)
    {zipIndex : Nat} {zipFile : ZipFileData} (hentry : z₀.fileEntry handle = some (zipIndex, zipFile))
    {C : List UInt8} (hbytes : zipFile.bytes rawFile = some C) {size offset : Nat}
    (hoffset : offset ≤ C.length) (hC : C.length + size < 2 ^ 64) (hraw : rawFile.length < 2 ^ 64) :
    z.read handle size offset = ok (bytesAt C offset size) := by
  obtain ⟨file, hfile⟩ := Option.isSome_iff_exists.mp (AList.lookup_isSome.mpr hopen)
  have hw := wf_of_run hnew hrun
  have hsame := sameArchive_of_run hrun
  have hrawFile : z.rawFile = rawFile := hsame.rawFile.trans (new_eq_ok hnew).2.1
  obtain ⟨hpos, hopens⟩ := hw.files handle file hfile
  have hentry' : z.fileEntry handle = some (zipIndex, zipFile) := by rw [hsame.fileEntry, hentry]
  have hholds : file.Holds z C := holds_of_opensTo hopens hentry' (by rw [hrawFile]; exact hbytes)
  exact read_eq_bytesAt hfile (Nat.pos_iff_ne_zero.mp hpos) hholds hoffset hC (hrawFile ▸ hraw)

/-- The same file, read after it was opened, released and opened again. -/
theorem read_of_run_reopened :
    let root : InodeData := ⟨0, 0, .directory
      ((∅ : AList fun _ : String ↦ DirectoryEntry).insert "a" ⟨2, .file⟩)⟩
    let z₀ : ZipFuse :=
      ⟨[⟨false, 0, 1, .ok [0x61]⟩], [], ⟨[InodeData.newDir 0, root, ⟨1, 0, .file 0⟩]⟩, ∅, ∅⟩
    let z : ZipFuse := { z₀ with
      openFiles := (∅ : AList fun _ : Handle ↦ OpenFile).insert 2 ⟨1, .compressed [0x61]⟩ }
    new [⟨"a", some ["a"], true, none, 1⟩] [⟨false, 0, 1, .ok [0x61]⟩] [] = ok z₀ ∧
      run serve z₀ [.open 2, .release 2, .open 2] = some z ∧
      z.read 2 4096 0 = ok (bytesAt [0x61] 0 4096) := by
  intro root z₀ z
  have hnew : new [⟨"a", some ["a"], true, none, 1⟩] [⟨false, 0, 1, .ok [0x61]⟩] [] = ok z₀ := rfl
  have hrun : run serve z₀ [.open 2, .release 2, .open 2] = some z := rfl
  exact ⟨hnew, hrun, read_of_run hnew hrun (AList.lookup_isSome.mp rfl) rfl rfl (by decide)
    (by decide) (by decide)⟩

/-- In every state a run from a fresh server reaches, paging through any open directory from
offset zero, each call with a buffer and a reply that hold an entry, and calls enough, lists the
directory's entries once each, in its order. -/
theorem listing_of_run (hnew : new entries zipArchive rawFile = ok z₀)
    (hrun : run serve z₀ reqs = some z) {inode : Inode} (hopen : inode ∈ z.openDirs)
    {directory : AList fun _ : String ↦ DirectoryEntry} (hdir : z₀.dirOf inode = some directory)
    (calls : List (Nat × Nat)) (hpos : ∀ call ∈ calls, 0 < call.1 ∧ 0 < call.2)
    (hcalls : directory.entries.length < calls.length) :
    z.listing inode calls 0 = ok (snapshotEntries (snapshot directory)) := by
  obtain ⟨odb, hodb⟩ := Option.isSome_iff_exists.mp (AList.lookup_isSome.mpr hopen)
  have hw := wf_of_run hnew hrun
  have hsame := sameArchive_of_run hrun
  obtain ⟨hcount, directory', hdir', hbuf⟩ := hw.dirs inode odb hodb
  rw [hsame.dirOf, hdir, Option.some.injEq] at hdir'
  subst hdir'
  have hlen : odb.buf.length - 0 < calls.length := by
    rw [hbuf, snapshot, List.length_map]
    exact hcalls
  rw [listing_eq hodb (Nat.pos_iff_ne_zero.mp hcount) calls 0 hpos (Nat.zero_le _) hlen,
    List.drop_zero, hbuf]

/-- An archive of two files, with its root opened: three calls whose replies hold one entry each
list the root's two entries. -/
theorem listing_of_run_root :
    let root : AList fun _ : String ↦ DirectoryEntry :=
      ((∅ : AList fun _ : String ↦ DirectoryEntry).insert "a" ⟨2, .file⟩).insert "b" ⟨3, .file⟩
    let z₀ : ZipFuse := ⟨[⟨false, 0, 1, .ok [0x61]⟩, ⟨false, 0, 1, .ok [0x62]⟩], [],
      ⟨[InodeData.newDir 0, ⟨0, 0, .directory root⟩, ⟨1, 0, .file 0⟩, ⟨1, 0, .file 1⟩]⟩, ∅, ∅⟩
    let z : ZipFuse := { z₀ with
      openDirs := (∅ : AList fun _ : Handle ↦ OpenDirBuf).insert 1 ⟨1, snapshot root⟩ }
    new [⟨"a", some ["a"], true, none, 1⟩, ⟨"b", some ["b"], true, none, 1⟩]
        [⟨false, 0, 1, .ok [0x61]⟩, ⟨false, 0, 1, .ok [0x62]⟩] [] = ok z₀ ∧
      run serve z₀ [.opendir 1] = some z ∧
      z.listing 1 [(4096, 1), (4096, 1), (4096, 1)] 0 = ok (snapshotEntries (snapshot root)) := by
  intro root z₀ z
  have hnew : new [⟨"a", some ["a"], true, none, 1⟩, ⟨"b", some ["b"], true, none, 1⟩]
      [⟨false, 0, 1, .ok [0x61]⟩, ⟨false, 0, 1, .ok [0x62]⟩] [] = ok z₀ := rfl
  have hrun : run serve z₀ [.opendir 1] = some z := rfl
  exact ⟨hnew, hrun, listing_of_run hnew hrun (AList.lookup_isSome.mp rfl) rfl
    [(4096, 1), (4096, 1), (4096, 1)] (by decide) (by decide)⟩

end Serving

/-! ## `release` never lowers a count -/

section Release

variable {z z' : ZipFuse} {handle : Handle}

/-- A file counted twice or more stays so over one request. -/
theorem serve_keeps_file {req : Request} (h : z.serve req = some z') {file : OpenFile}
    (hfile : z.openFiles.lookup handle = some file) (htwice : 2 ≤ file.openCount) :
    ∃ file', z'.openFiles.lookup handle = some file' ∧ 2 ≤ file'.openCount := by
  rcases serve_cases h with rfl | ⟨inode, _, hopen⟩ | ⟨inode, hrel⟩ | ⟨inode, _, hopen⟩ |
      ⟨inode, hrel⟩
  · exact ⟨file, hfile, htwice⟩
  · obtain ⟨-, file', rfl, hcases⟩ := open_eq_ok hopen
    by_cases heq : handle = inode
    · subst heq
      rcases hcases with ⟨file₀, hfile₀, -, -, rfl⟩ | ⟨hnone, -, -⟩
      · rw [hfile, Option.some.injEq] at hfile₀
        subst hfile₀
        exact ⟨_, AList.lookup_insert _, Nat.le_succ_of_le htwice⟩
      · rw [hfile] at hnone
        cases hnone
    · exact ⟨file, (AList.lookup_insert_ne heq).trans hfile, htwice⟩
  · obtain ⟨file₀, hfile₀, -, ⟨hone, rfl⟩ | ⟨-, rfl⟩⟩ := release_eq_ok hrel
    · have hne : handle ≠ inode := by
        rintro rfl
        rw [hfile, Option.some.injEq] at hfile₀
        subst hfile₀
        omega
      exact ⟨file, (AList.lookup_erase_ne hne).trans hfile, htwice⟩
    · exact ⟨file, hfile, htwice⟩
  · obtain ⟨-, odb', rfl, -⟩ := opendir_eq_ok hopen
    exact ⟨file, hfile, htwice⟩
  · obtain ⟨odb, -, -, ⟨-, rfl⟩ | ⟨-, rfl⟩⟩ := releasedir_eq_ok hrel <;> exact ⟨file, hfile, htwice⟩

/-- A directory counted twice or more stays so over one request. -/
theorem serve_keeps_dir {req : Request} (h : z.serve req = some z') {odb : OpenDirBuf}
    (hodb : z.openDirs.lookup handle = some odb) (htwice : 2 ≤ odb.openCount) :
    ∃ odb', z'.openDirs.lookup handle = some odb' ∧ 2 ≤ odb'.openCount := by
  rcases serve_cases h with rfl | ⟨inode, _, hopen⟩ | ⟨inode, hrel⟩ | ⟨inode, _, hopen⟩ |
      ⟨inode, hrel⟩
  · exact ⟨odb, hodb, htwice⟩
  · obtain ⟨-, file', rfl, -⟩ := open_eq_ok hopen
    exact ⟨odb, hodb, htwice⟩
  · obtain ⟨file, -, -, ⟨-, rfl⟩ | ⟨-, rfl⟩⟩ := release_eq_ok hrel <;> exact ⟨odb, hodb, htwice⟩
  · obtain ⟨-, odb', rfl, hcases⟩ := opendir_eq_ok hopen
    by_cases heq : handle = inode
    · subst heq
      rcases hcases with ⟨odb₀, hodb₀, -, -, rfl⟩ | ⟨hnone, -, -⟩
      · rw [hodb, Option.some.injEq] at hodb₀
        subst hodb₀
        exact ⟨_, AList.lookup_insert _, Nat.le_succ_of_le htwice⟩
      · rw [hodb] at hnone
        cases hnone
    · exact ⟨odb, (AList.lookup_insert_ne heq).trans hodb, htwice⟩
  · obtain ⟨odb₀, hodb₀, -, ⟨hone, rfl⟩ | ⟨-, rfl⟩⟩ := releasedir_eq_ok hrel
    · have hne : handle ≠ inode := by
        rintro rfl
        rw [hodb, Option.some.injEq] at hodb₀
        subst hodb₀
        omega
      exact ⟨odb, (AList.lookup_erase_ne hne).trans hodb, htwice⟩
    · exact ⟨odb, hodb, htwice⟩

/-- A file or directory opened twice is never forgotten: whatever requests follow, `release` and
`releasedir` leave it counted twice or more. -/
theorem open_twice_stays_open {reqs : List Request} (hrun : run serve z reqs = some z')
    (handle : Handle) :
    (∀ file, z.openFiles.lookup handle = some file → 2 ≤ file.openCount →
      ∃ file', z'.openFiles.lookup handle = some file' ∧ 2 ≤ file'.openCount) ∧
    (∀ odb, z.openDirs.lookup handle = some odb → 2 ≤ odb.openCount →
      ∃ odb', z'.openDirs.lookup handle = some odb' ∧ 2 ≤ odb'.openCount) := by
  refine ⟨fun file hfile htwice ↦ ?_, fun odb hodb htwice ↦ ?_⟩
  · refine inv_of_run (I := fun z ↦ ∃ file, z.openFiles.lookup handle = some file ∧
      2 ≤ file.openCount) ?_ hrun ⟨file, hfile, htwice⟩
    rintro s req s' ⟨file, hfile, htwice⟩ hstep
    exact serve_keeps_file hstep hfile htwice
  · refine inv_of_run (I := fun z ↦ ∃ odb, z.openDirs.lookup handle = some odb ∧
      2 ≤ odb.openCount) ?_ hrun ⟨odb, hodb, htwice⟩
    rintro s req s' ⟨odb, hodb, htwice⟩ hstep
    exact serve_keeps_dir hstep hodb htwice

/-- A file opened twice: three releases leave it open. -/
theorem open_twice_stays_open_three_releases :
    let z : ZipFuse :=
      ⟨[], [], ⟨[]⟩, (∅ : AList fun _ : Handle ↦ OpenFile).insert 2 ⟨2, .compressed []⟩, ∅⟩
    run serve z [.release 2, .release 2, .release 2] = some z ∧
      ∃ file', z.openFiles.lookup 2 = some file' ∧ 2 ≤ file'.openCount := by
  intro z
  have hrun : run serve z [.release 2, .release 2, .release 2] = some z := rfl
  exact ⟨hrun, (open_twice_stays_open hrun 2).1 ⟨2, .compressed []⟩ rfl (le_refl 2)⟩

/-- An `open` followed by its `release` gives back the tables exactly when the file was not open
before; a directory's `opendir` and `releasedir` the same. -/
theorem open_release_eq_iff (inode : Inode) :
    (∀ handle z₁, z.open inode = ok (handle, z₁) →
      (z₁.release inode = ok z ↔ z.openFiles.lookup inode = none)) ∧
    (∀ handle z₁, z.opendir inode = ok (handle, z₁) →
      (z₁.releasedir inode = ok z ↔ z.openDirs.lookup inode = none)) := by
  refine ⟨fun handle z₁ h ↦ ?_, fun handle z₁ h ↦ ?_⟩
  · obtain ⟨-, file', rfl, hcases⟩ := open_eq_ok h
    have hlookup : (z.openFiles.insert inode file').lookup inode = some file' :=
      AList.lookup_insert _
    rcases hcases with ⟨file, hfile, hpos, -, rfl⟩ | ⟨hnone, hone, -⟩
    · rw [release_of_lookup hlookup, if_neg (Nat.succ_ne_zero _), if_neg (by simp; omega), hfile]
      refine iff_of_false (fun heq ↦ ?_) (by simp)
      have hsame := congrArg (fun z : ZipFuse ↦ z.openFiles.lookup inode) (Outcome.ok.inj heq)
      simp only [hlookup, hfile, Option.some.injEq] at hsame
      have := congrArg OpenFile.openCount hsame
      simp at this
    · rw [release_of_lookup hlookup, if_neg (by omega), if_pos (by omega),
        erase_insert_of_notMem (AList.lookup_eq_none.mp hnone)]
      exact iff_of_true rfl hnone
  · obtain ⟨-, odb', rfl, hcases⟩ := opendir_eq_ok h
    have hlookup : (z.openDirs.insert inode odb').lookup inode = some odb' :=
      AList.lookup_insert _
    rcases hcases with ⟨odb, hodb, hpos, -, rfl⟩ | ⟨hnone, hone, -⟩
    · rw [releasedir_of_lookup hlookup, if_neg (Nat.succ_ne_zero _), if_neg (by simp; omega), hodb]
      refine iff_of_false (fun heq ↦ ?_) (by simp)
      have hsame := congrArg (fun z : ZipFuse ↦ z.openDirs.lookup inode) (Outcome.ok.inj heq)
      simp only [hlookup, hodb, Option.some.injEq] at hsame
      have := congrArg OpenDirBuf.openCount hsame
      simp at this
    · rw [releasedir_of_lookup hlookup, if_neg (by omega), if_pos (by omega),
        erase_insert_of_notMem (AList.lookup_eq_none.mp hnone)]
      exact iff_of_true rfl hnone

/-- The file of the archive above, opened from the fresh server and released, gives the server
back. -/
theorem open_release_eq_iff_fresh :
    let root : InodeData := ⟨0, 0, .directory
      ((∅ : AList fun _ : String ↦ DirectoryEntry).insert "a" ⟨2, .file⟩)⟩
    let z₀ : ZipFuse :=
      ⟨[⟨false, 0, 1, .ok [0x61]⟩], [], ⟨[InodeData.newDir 0, root, ⟨1, 0, .file 0⟩]⟩, ∅, ∅⟩
    let z₁ : ZipFuse := { z₀ with
      openFiles := (∅ : AList fun _ : Handle ↦ OpenFile).insert 2 ⟨1, .compressed [0x61]⟩ }
    z₀.open 2 = ok (2, z₁) ∧ z₁.release 2 = ok z₀ := by
  intro root z₀ z₁
  have hopen : z₀.open 2 = ok (2, z₁) := rfl
  exact ⟨hopen, ((open_release_eq_iff 2).1 2 z₁ hopen).mpr rfl⟩

end Release

end ZipFuse

end Virtualization.ZipFuse
